import Compostela.System.Exchange

/-!
# `Compostela.System.Following`: an invariant of a followed file, along a run of the main loop

What a run does to a followed file and its copy at the aggregator is a matter of a few events:
the file grows, a context registers, a line is handled, a frame is lost, the connection is
lost and opened again. `Tracks` lists what an invariant has to say to each of them. Its first
half, `Kept`, is about the aggregator and holds whatever becomes of the connection. The second
half, `Synced`, ties a context on a connection that works to what the aggregator has.

`Tracks.step` is the rule: such an invariant is kept by every event of a `Pipeline`, and so by
every run of the main loop. The rule has the passes in it, with the order of opening,
registering, reading and sending, so that an invariant need not speak of them.
-/

set_option autoImplicit false

namespace Compostela.System

open Compostela.Common
open Compostela.Memory
open Compostela.Runs
open Compostela.Aggregator
open Compostela.Follower
open Link

/-- A context between two runs. -/
structure Idle (name : Bytes) (cxt : ScFollowContext) : Prop where
  name_eq : cxt.displayName = name
  room : cxt.messageBuffer.content.size = BUFSIZE
  valid : cxt.buffer.Valid

/-- An idle context stays idle while it keeps its name and a valid buffer. -/
theorem Idle.continues {name : Bytes} {cxt cxt' : ScFollowContext} (h : Idle name cxt)
    (h' : Continues cxt cxt') : Idle name cxt' :=
  ⟨h'.displayName.trans h.name_eq, h'.room.trans h.room, h'.valid⟩

/-- A context that has not opened its file yet, on a new connection. -/
structure Fresh (cxt : ScFollowContext) (conn : ScAggregatorConnection Link) : Prop where
  up : Up conn
  channels : conn.net.conn.channelList = []
  fd : cxt.fd < 0
  empty : cxt.buffer.unread = []

/-- An invariant in two halves: what the aggregator keeps of the file, and what ties a context
to it, with the line that the context has in hand. -/
structure Tracks (cfg : Config) (addr : Option Bytes) (name : Bytes)
    (Kept : Bytes → Link → Prop) (Synced : Bytes → ScFollowContext → Link → Bytes → Prop) :
    Prop where
  isName : IsName name
  lost : ∀ {file : Bytes} {l l' : Link} {sender : Sender} {data : Bytes},
    Kept file l → Lost sender data l l' → Kept file l'
  grow : ∀ {file : Bytes} {l : Link} (more : Bytes), Kept file l → Kept (file ++ more) l
  reconnect : ∀ {file : Bytes} {l : Link}, Kept file l → Kept file (l.reconnect addr)
  registers : ∀ {file : Bytes} {sender : Sender} {cxt : ScFollowContext} {l l' : Link}
    {c : ScChannel} {answer : Frame}, Kept file l → file.length < 2 ^ 63 →
    cxt.displayName = name → l.conn.channelList = [] →
    Registers cfg sender cxt l l' c answer →
    Kept file l' ∧ (cxt.fd ≠ -1 → cxt.buffer.unread = [] →
      Synced file (resumed cxt c l.fs) l' [])
  handles : ∀ {file : Bytes} {sender : Sender} {inp : RunInput} {cxt : ScFollowContext}
    {l l' : Link} {complete : Bool} {line : Bytes} {msg : ScLogMessage} {r : Handled},
    Kept file l → file.length < 2 ^ 63 → Synced file cxt l line → msg.content.size = BUFSIZE →
    storeLine inp complete line msg = .ok cxt.messageBuffer →
    IsPiece complete line →
    Handles cfg sender (dataHeader line.length cxt).messageBuffer.frame l l' r →
    Kept file l' ∧ ∀ m, Synced file { cxt with messageBuffer := m } l' []
  attached : ∀ {file : Bytes} {cxt : ScFollowContext} {l : Link} {line : Bytes},
    Synced file cxt l line → cxt.channel = 1 ∧ cxt.fd ≠ -1
  unheard : ∀ {file : Bytes} {cxt : ScFollowContext} {l l' : Link} {line : Bytes},
    Synced file cxt l line → Unheard l l' → Synced file cxt l' line
  synced_grow : ∀ {file : Bytes} {cxt : ScFollowContext} {l : Link} {line : Bytes}
    (more : Bytes), Synced file cxt l line → Synced (file ++ more) cxt l line
  took : ∀ {inp : RunInput} {cxt cxt' : ScFollowContext} {l : Link} {got line : Bytes},
    Synced inp.file cxt l [] → Took inp cxt cxt' got line → Synced inp.file cxt' l line

namespace Tracks

/-- A context that has opened its file: the connection is down, or the context is in step
with the aggregator. -/
def Attached (Synced : Bytes → ScFollowContext → Link → Bytes → Prop) (file : Bytes)
    (cxt : ScFollowContext) (conn : ScAggregatorConnection Link) (line : Bytes) : Prop :=
  Down conn ∨ Up conn ∧ Synced file cxt conn.net line

/-- The state between two runs. -/
def Phase (Synced : Bytes → ScFollowContext → Link → Bytes → Prop) (file : Bytes)
    (cxt : ScFollowContext) (conn : ScAggregatorConnection Link) : Prop :=
  Fresh cxt conn ∨ Attached Synced file cxt conn []

/-- The invariant of the system. -/
structure Running (name : Bytes) (Kept : Bytes → Link → Prop)
    (Synced : Bytes → ScFollowContext → Link → Bytes → Prop) (s : Pipeline) : Prop where
  size : s.file.length < 2 ^ 63
  kept : Kept s.file s.conn.net
  idle : Idle name s.cxt
  nothing : s.cxt.messageBuffer.code = SCM_MSG_NONE
  phase : Phase Synced s.file s.cxt s.conn

section
variable {cfg : Config} {addr : Option Bytes} {name file : Bytes}
  {Kept : Bytes → Link → Prop} {Synced : Bytes → ScFollowContext → Link → Bytes → Prop}
  (htracks : Tracks cfg addr name Kept Synced)
include htracks

/-- What nobody hears changes nothing that the aggregator keeps. -/
theorem kept_unheard {l l' : Link} (h : Kept file l) (h' : Unheard l l') : Kept file l' :=
  htracks.lost h (⟨h'.fs, h'.conn, Or.inl h'.log⟩ : Lost ⟨0, none, []⟩ [] l l')

/-! ### A run -/

/-- A registration on a new connection: the context is in step with the aggregator, or the
connection is down. -/
theorem initFile {sender : Sender} {md5 : Md5} {inp : RunInput} {heap : Heap}
    {cxt cxt' : ScFollowContext} {conn conn' : ScAggregatorConnection Link} {ret : Int}
    (hkept : Kept file conn.net) (hsize : file.length < 2 ^ 63) (hup : Up conn)
    (hnone : conn.net.conn.channelList = []) (hname : cxt.displayName = name)
    (hfd : cxt.fd ≠ -1) (hempty : cxt.buffer.unread = []) (hmem : ∀ n, heap.malloc n = true)
    (h : initFile (Link.net cfg sender) md5 inp heap cxt conn = .ok (ret, cxt', conn')) :
    Kept file conn'.net ∧ Attached Synced file cxt' conn' [] := by
  rcases hup.initFile (by rw [hname]; exact htracks.isName) hmem h with
    ⟨hdown, -, hlost | ⟨c, answer, hreg⟩⟩ | ⟨hup', c, answer, hreg, hcxt⟩
  · exact ⟨htracks.lost hkept hlost, Or.inl hdown⟩
  · exact ⟨(htracks.registers hkept hsize hname hnone hreg).1, Or.inl hdown⟩
  · obtain ⟨hkept', hsync⟩ := htracks.registers hkept hsize hname hnone hreg
    rw [hcxt]
    exact ⟨hkept', Or.inr ⟨hup', hsync hfd hempty⟩⟩

/-- The exchange of the line in hand: the aggregator has the line and the context is in step
with it, or the connection is down and the main loop is told to reconnect. -/
theorem exchangeData {sender : Sender} {inp : RunInput} {cxt cxt' : ScFollowContext}
    {conn conn' : ScAggregatorConnection Link} {ret : Int} {complete : Bool} {line : Bytes}
    {msg : ScLogMessage} (hkept : Kept file conn.net) (hsize : file.length < 2 ^ 63)
    (hatt : Attached Synced file cxt conn line) (hroom : msg.content.size = BUFSIZE)
    (hstore : storeLine inp complete line msg = .ok cxt.messageBuffer)
    (hpiece : IsPiece complete line)
    (hmem : ∀ n, (inp.heap 2).malloc n = true)
    (h : exchangeData (Link.net cfg sender) inp (dataHeader line.length cxt) conn
      = .ok (ret, cxt', conn')) :
    Kept file conn'.net ∧
      (ret = ERR_MUST_RECONNECT ∧ Down conn' ∨
        ret ≠ ERR_MUST_RECONNECT ∧ cxt'.messageBuffer.code = SCM_MSG_NONE ∧
          Attached Synced file cxt' conn' []) := by
  rcases hatt with hdown | ⟨hup, hsync⟩
  · obtain ⟨hret, hdown', hsame⟩ := hdown.exchangeData h
    exact ⟨htracks.kept_unheard hkept hsame, Or.inl ⟨hret, hdown'⟩⟩
  · have hchannel : BitVec.ofInt 16 cxt.channel ≠ 0 := by
      rw [(htracks.attached hsync).1]
      decide
    obtain ⟨m, hcxt, -⟩ := exchangeData_cxt h
    -- The line is lost on the way, handled without an answer, or handled and answered.
    rcases hup.exchangeData hroom hstore hchannel hmem h with
      ⟨hret, hdown', hlost | ⟨r, hr⟩⟩ | ⟨hret, hup', hnothing, r, hr⟩
    · exact ⟨htracks.lost hkept hlost, Or.inl ⟨hret, hdown'⟩⟩
    · obtain ⟨hkept', -⟩ := htracks.handles hkept hsize hsync hroom hstore hpiece hr
      exact ⟨hkept', Or.inl ⟨hret, hdown'⟩⟩
    · obtain ⟨hkept', hsync'⟩ := htracks.handles hkept hsize hsync hroom hstore hpiece hr
      refine ⟨hkept', Or.inr ⟨?_, hnothing, Or.inr ⟨hup', ?_⟩⟩⟩
      · rw [hret]
        decide
      · rw [hcxt]
        exact hsync' m

/-- The first part of a run. When it does not end the run, the context is attached. -/
theorem ensureOpen {sender : Sender} {md5 : Md5} {inp : RunInput} {cxt cxt' : ScFollowContext}
    {conn conn' : ScAggregatorConnection Link} {ret : Option Int}
    (hsize : file.length < 2 ^ 63) (hkept : Kept file conn.net) (hidle : Idle name cxt)
    (hphase : Phase Synced file cxt conn) (hmem : ∀ n, (inp.heap 0).malloc n = true)
    (h : ensureOpen (Link.net cfg sender) md5 inp cxt conn = .ok (ret, cxt', conn')) :
    Kept file conn'.net ∧
      (ret = none ∧ Attached Synced file cxt' conn' [] ∨
        ret = some 1 ∧ Phase Synced file cxt' conn') := by
  -- A context that opens its file is fresh, or down: it is in step with nothing.
  have hnew : cxt.fd = -1 → Fresh cxt conn ∨ Down conn := by
    intro hclosed
    rcases hphase with hfresh | hdown | ⟨-, hsync⟩
    · exact Or.inl hfresh
    · exact Or.inr hdown
    · exact absurd hclosed (htracks.attached hsync).2
  rcases ensureOpen_cases h with ⟨hfd, rfl, rfl, rfl⟩ | ⟨-, -, rfl, rfl, rfl⟩ |
    ⟨hclosed, hfail, rfl, rfl, rfl⟩ | ⟨hclosed, hopen, rfl, ret1, hinit⟩
  · refine ⟨hkept, Or.inl ⟨rfl, ?_⟩⟩
    rcases hphase with hfresh | hatt
    · exact absurd (Int.le_of_lt hfresh.fd) (Int.not_le.mpr hfd)
    · exact hatt
  · -- A descriptor that is not -1 counts as open.
    exact ⟨hkept, Or.inr ⟨rfl, hphase⟩⟩
  · refine ⟨hkept, Or.inr ⟨rfl, ?_⟩⟩
    rcases hnew hclosed with hfresh | hdown
    · exact Or.inl ⟨hfresh.up, hfresh.channels, hfail, hfresh.empty⟩
    · exact Or.inr (Or.inl hdown)
  · rcases hnew hclosed with hfresh | hdown
    · have hidle1 : Idle name { cxt with
          fd := inp.opened.fd, mode := inp.opened.mode, offset := 0 } :=
        ⟨hidle.name_eq, hidle.room, hidle.valid⟩
      have hne : inp.opened.fd ≠ -1 := by omega
      obtain ⟨hkept1, hatt⟩ := htracks.initFile hkept hsize hfresh.up hfresh.channels
        hidle1.name_eq hne hfresh.empty hmem hinit
      exact ⟨hkept1, Or.inl ⟨rfl, hatt⟩⟩
    · obtain ⟨-, hdown1, hsame⟩ := hdown.initFile hinit
      exact ⟨htracks.kept_unheard hkept hsame, Or.inl ⟨rfl, Or.inl hdown1⟩⟩

/-- One run: the invariant holds after it, or the connection is down and the main loop is
told to reconnect. -/
theorem run {sender : Sender} {md5 : Md5} {inp : RunInput} {cxt cxt' : ScFollowContext}
    {conn conn' : ScAggregatorConnection Link} {ret : Int}
    (h : runFollowContext (Link.net cfg sender) md5 inp cxt conn = .ok (ret, cxt', conn'))
    (hsize : inp.file.length < 2 ^ 63) (hkept : Kept inp.file conn.net)
    (hidle : Idle name cxt) (hnothing : cxt.messageBuffer.code = SCM_MSG_NONE)
    (hphase : Phase Synced inp.file cxt conn) (hmem : ∀ k n, (inp.heap k).malloc n = true) :
    Kept inp.file conn'.net ∧
      (ret = ERR_MUST_RECONNECT ∧ Down conn' ∨
        ret ≠ ERR_MUST_RECONNECT ∧ cxt'.messageBuffer.code = SCM_MSG_NONE ∧
          Phase Synced inp.file cxt' conn') := by
  cases hopened : conn.opened with
  | false =>
    rcases runFollowContext_cases h with
      ⟨-, rfl, rfl, rfl⟩ | ⟨hopen, -⟩ | ⟨hopen, -⟩
    · exact ⟨hkept, Or.inl ⟨rfl, fun hopen => absurd hopen (by rw [hopened]; decide)⟩⟩
    · exact absurd hopen (by rw [hopened]; decide)
    · exact absurd hopen (by rw [hopened]; decide)
  | true =>
    obtain ⟨ret1, cxt1, conn1, hopen, hrest⟩ := runFollowContext_of_nothing hopened hnothing h
    obtain ⟨hkept1, hcase1⟩ := htracks.ensureOpen hsize hkept hidle hphase (hmem 0) hopen
    have hidle1 := hidle.continues (ensureOpen_continues hidle.valid hopen)
    have hmsg1 := ensureOpen_messageBuffer hopen
    rcases hcase1 with ⟨rfl, hatt1⟩ | ⟨rfl, hphase1⟩
    · rcases hrest with ⟨hsome, -⟩ | ⟨-, ret2, cb, cxt2, hfill, hrest⟩
      · cases hsome
      obtain ⟨got, line, complete, htook, hended, hline⟩ := fillMessage_took hidle1.valid hfill
      have hatt2 : Attached Synced inp.file cxt2 conn1 line := by
        rcases hatt1 with hdown | ⟨hup, hsync⟩
        · exact Or.inl hdown
        · exact Or.inr ⟨hup, htracks.took hsync htook⟩
      rcases hrest with ⟨rfl, rfl, rfl⟩ | ⟨rfl, cxt3, conn3, hchan, hex⟩
      · -- There is no line to send.
        obtain ⟨hnil, hmsg2, hne⟩ := hended nofun
        rw [hnil] at hatt2
        refine ⟨hkept1, Or.inr ⟨?_, ?_, Or.inr hatt2⟩⟩
        · exact fun heq => hne (by rw [heq])
        · rw [hmsg2, hmsg1]
          exact hnothing
      · obtain ⟨rfl, hstore, hpiece⟩ := hline rfl
        -- An attached context has its channel number, and needs no second registration.
        have hthird : cxt3 = cxt2 ∧ Kept inp.file conn3.net ∧
            Attached Synced inp.file cxt3 conn3 line := by
          rcases hatt2 with hdown | ⟨hup, hsync⟩
          · obtain ⟨hcxt, hdown3, hsame⟩ := hdown.ensureChannel hchan
            exact ⟨hcxt, htracks.kept_unheard hkept1 hsame, Or.inl hdown3⟩
          · obtain ⟨rfl, rfl⟩ := ensureChannel_of_ne
              (by rw [(htracks.attached hsync).1]; decide) hchan
            exact ⟨rfl, hkept1, Or.inr ⟨hup, hsync⟩⟩
        obtain ⟨rfl, hkept3, hatt3⟩ := hthird
        obtain ⟨hkept', hcase⟩ :=
          htracks.exchangeData hkept3 hsize hatt3 hidle1.room hstore hpiece (hmem 2) hex
        exact ⟨hkept', hcase.imp id fun hdone => ⟨hdone.1, hdone.2.1, Or.inr hdone.2.2⟩⟩
    · rcases hrest with ⟨hsome, rfl, rfl⟩ | ⟨hnone, -⟩
      · cases hsome
        refine ⟨hkept1, Or.inr ⟨by decide, ?_, hphase1⟩⟩
        rw [hmsg1]
        exact hnothing
      · cases hnone

/-! ### An event -/

/-- A connection that was lost keeps what the aggregator has. -/
theorem running_drop {s : Pipeline} (h : Running name Kept Synced s) (ending : Segments.Ending) :
    Running name Kept Synced { s with conn := { s.conn with net := s.conn.net.cut ending } } where
  size := h.size
  kept := htracks.kept_unheard h.kept ⟨rfl, rfl, rfl⟩
  idle := h.idle
  nothing := h.nothing
  phase := Or.inr (Or.inl fun _ => Link.dead_cut _ _)

/-- The invariant holds of a file that has grown. -/
theorem running_grow {s : Pipeline} (h : Running name Kept Synced s) {more : Bytes}
    (hsize : (s.file ++ more).length < 2 ^ 63) :
    Running name Kept Synced { s with file := s.file ++ more } where
  size := hsize
  kept := htracks.grow more h.kept
  idle := h.idle
  nothing := h.nothing
  phase := by
    rcases h.phase with hfresh | hdown | ⟨hup, hsync⟩
    · exact Or.inl hfresh
    · exact Or.inr (Or.inl hdown)
    · exact Or.inr (Or.inr ⟨hup, htracks.synced_grow more hsync⟩)

/-- The reset and the reconnection after a connection was lost. -/
theorem running_reconnect {cxt : ScFollowContext} {conn : ScAggregatorConnection Link}
    (hsize : file.length < 2 ^ 63) (hkept : Kept file conn.net) (hidle : Idle name cxt)
    (hdown : Down conn) (reconnected : Bool) :
    Running name Kept Synced
      ⟨file, scFollowContextReset cxt, (scAggregatorConnectionOpen
        (if reconnected then some (Link.reconnect addr) else none) conn).2⟩ := by
  have hreset : Idle name (scFollowContextReset cxt) :=
    ⟨hidle.name_eq, hidle.room, hidle.valid.reset⟩
  cases reconnected with
  | false => exact ⟨hsize, hkept, hreset, rfl, Or.inr (Or.inl hdown)⟩
  | true =>
    exact ⟨hsize, htracks.reconnect hkept, hreset, rfl,
      Or.inl ⟨⟨rfl, rfl, rfl⟩, rfl, Int.negSucc_lt_zero 0, rfl⟩⟩

/-- Every event keeps the invariant, while the follower gets the memory that it asks for. -/
theorem step {md5 : Md5} {s s' : Pipeline} {e : Pipeline.Event} (h : Running name Kept Synced s)
    (hmem : ∀ inp fates reconnected, e = .pass inp fates reconnected →
      ∀ k n, (inp.heap k).malloc n = true)
    (hstep : s.step cfg md5 addr e = .ok s') : Running name Kept Synced s' := by
  cases e with
  | grow more =>
    cases hstep
    split
    · rename_i hsize
      exact htracks.running_grow h hsize
    · exact h
  | drop ending =>
    cases hstep
    exact htracks.running_drop h ending
  | pass inp fates reconnected =>
    obtain ⟨⟨ret, cxt, conn⟩, hrun, hstep⟩ := bind_eq_ok.mp hstep
    -- The fates of the pass change nothing else.
    have hphase : Phase Synced s.file s.cxt
        { s.conn with net := { s.conn.net with fates := fates } } := by
      rcases h.phase with hfresh | hdown | ⟨hup, hsync⟩
      · exact Or.inl ⟨⟨hfresh.up.opened, hfresh.up.alive, hfresh.up.unread⟩, hfresh.channels,
          hfresh.fd, hfresh.empty⟩
      · exact Or.inr (Or.inl fun hopen => ⟨(hdown hopen).alive, (hdown hopen).unread⟩)
      · exact Or.inr (Or.inr ⟨⟨hup.opened, hup.alive, hup.unread⟩,
          htracks.unheard hsync ⟨rfl, rfl, rfl⟩⟩)
    have hkept0 : Kept s.file { s.conn.net with fates := fates } :=
      htracks.kept_unheard h.kept ⟨rfl, rfl, rfl⟩
    obtain ⟨hkept, hcase⟩ := htracks.run hrun h.size hkept0 h.idle h.nothing hphase
      (hmem inp fates reconnected rfl)
    have hidle : Idle name cxt :=
      h.idle.continues (runFollowContext_continues h.idle.valid hrun)
    simp only at hstep
    split at hstep
    · rename_i hret
      rcases hcase with ⟨-, hdown⟩ | ⟨hne, -⟩
      · cases hstep
        exact htracks.running_reconnect h.size hkept hidle hdown reconnected
      · exact absurd hret hne
    · rename_i hret
      rcases hcase with ⟨hmust, -⟩ | ⟨-, hnothing, hphase'⟩
      · exact absurd hmust hret
      · split at hstep
        · cases hstep
        · cases hstep
          exact ⟨h.size, hkept, hidle, hnothing, hphase'⟩

/-- Every run keeps the invariant. -/
theorem reached {md5 : Md5} {s s' : Pipeline} {es : List Pipeline.Event}
    (h : Running name Kept Synced s)
    (hmem : ∀ e ∈ es, ∀ inp fates reconnected, e = .pass inp fates reconnected →
      ∀ k n, (inp.heap k).malloc n = true)
    (hrun : es.foldlM (Pipeline.step cfg md5 addr) s = .ok s') :
    Running name Kept Synced s' :=
  run_invariant_of (fun _ _ _ h hmem hstep => htracks.step h hmem hstep) hmem h hrun

omit htracks in
/-- A new context, before its first run. The connection may be open or not. -/
theorem running_new {heap : Heap} {fname : Option Bytes} {ftimestamp opened : Bool} {fs : Fs}
    (hsize : file.length < 2 ^ 63)
    (hkept : Kept file ⟨fs, ⟨addr, []⟩, true, [], .eof, [], []⟩) :
    Running name Kept Synced
      ⟨file, scFollowContextNew heap fname name ftimestamp BUFSIZE,
        ⟨opened, ⟨fs, ⟨addr, []⟩, true, [], .eof, [], []⟩⟩⟩ := by
  refine ⟨hsize, hkept, ⟨rfl, rfl, AzBuffer.valid_azBufferNew heap (by decide)⟩, rfl, ?_⟩
  cases opened with
  | false => exact Or.inr (Or.inl nofun)
  | true => exact Or.inl ⟨⟨rfl, rfl, rfl⟩, rfl, Int.negSucc_lt_zero 0, rfl⟩

end

end Tracks

end Compostela.System
