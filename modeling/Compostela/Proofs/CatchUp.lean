import Compostela.Proofs.EveryFile
import Compostela.System.Answered

/-!
# `Compostela.Proofs.CatchUp`: a follower that is answered catches up

`EveryFile` says that no separate file has a wrong byte. Here it is shown that each gets every
line of its file: from every state that a run reaches, also one in which the connection is lost
and the follower has not noticed, enough passes in which frames are answered and files can be
opened and read bring every complete line of every followed file into its separate file.

`Tracked` is the invariant of `EveryFile` with what is known of the contexts while the
connection is down. `unsent` counts the bytes that a context has not sent. A pass over a
connection that works takes it down (`passLoop_closer`), and a pass over one that is down ends
with a reconnection or finds no line that is missing (`passLoop_found`). `Near` puts the phases
together, and `near_pass` is the step of the countdown.
-/

set_option autoImplicit false

namespace Compostela.Proofs.CatchUp

open Compostela.Common
open Compostela.Memory
open Compostela.Runs
open Compostela.Aggregator
open Compostela.Follower
open Compostela.System
open Compostela.Proofs.Resume (separate WholeLines)
open Compostela.Proofs.EveryFile
open Link

/-! ### Contexts while the connection is down -/

/-- A context that has sent nothing since its file was opened, and has nothing in its buffer. -/
structure Blank (cxt : ScFollowContext) : Prop where
  empty : cxt.buffer.unread = []
  place : cxt.fd = -1 ∨ cxt.offset = 0

/-- A context between two runs, on any connection: it is in step with the channel that the
aggregator had for it, or starts over. -/
def Stale (files : Bytes → Bytes) (o : Copy) (cxt : ScFollowContext) (l : Link) : Prop :=
  (∃ c, Synced o.path (files o.filename) cxt l c []) ∨ Blank cxt

/-- Every context of a list can be read, and is stale at most. -/
def AllStale (files : Bytes → Bytes) (copies : List Copy) (contexts : List Listed) (l : Link) :
    Prop :=
  ∀ c ∈ contexts, ∃ o ∈ copies, Follows o c.cxt ∧ Readable c.cxt ∧ Stale files o c.cxt l

/-- The inputs of an event open files with proper descriptors. -/
def Opening : Host.Event → Prop
  | .loop (.pass inputs _ _) => ∀ serial, IsDescriptor (inputs serial).opened.fd
  | _ => True

section
variable {cfg : Config} {addr : Option Bytes} {files : Bytes → Bytes} {copies : List Copy}
  {o : Copy} {inp : RunInput} {cxt cxt' : ScFollowContext} {l l' : Link}
  {contexts : List Listed}

/-- A context that is in step or has no channel yet is stale at most. -/
theorem Stale.of_steps (hcxt : Readable cxt) (h : Steps files o cxt l) : Stale files o cxt l := by
  rcases h with hloose | hsync
  · right
    refine ⟨hloose.empty, Or.inl ?_⟩
    rcases hcxt.fd with hminus | hpos
    · exact hminus
    · exact absurd hpos (Int.not_lt.mpr (Int.le_of_lt hloose.fd))
  · exact Or.inl hsync

/-- What spares the path of a copy leaves its context as stale as it was. -/
theorem Stale.spares (h : Stale files o cxt l) (hspares : Spares o.path l l') :
    Stale files o cxt l' := by
  rcases h with ⟨c, hsync⟩ | hblank
  · exact Or.inl ⟨c, hsync.spares hspares⟩
  · exact Or.inr hblank

/-- The contexts of a list stay stale at most when their paths are spared. -/
theorem AllStale.spares (h : AllStale files copies contexts l)
    (hspares : ∀ p, Touched copies contexts p → Spares p l l') :
    AllStale files copies contexts l' := by
  intro c hc
  obtain ⟨o, ho, hfollows, hcxt, hstale⟩ := h c hc
  have hpath : Spares o.path l l' := hspares o.path ⟨c, hc, o, ho, hfollows.filename, rfl⟩
  exact ⟨o, ho, hfollows, hcxt, hstale.spares hpath⟩

/-- The contexts of a list stay stale at most when files grow. -/
theorem AllStale.grow (h : AllStale files copies contexts l) {files' : Bytes → Bytes}
    (hgrow : ∀ name, files name <+: files' name) : AllStale files' copies contexts l := by
  intro c hc
  obtain ⟨o, ho, hfollows, hcxt, ⟨ch, hsync⟩ | hblank⟩ := h c hc
  · obtain ⟨more, hmore⟩ := hgrow o.filename
    refine ⟨o, ho, hfollows, hcxt, Or.inl ⟨ch, ?_⟩⟩
    rw [← hmore]
    exact hsync.grow more
  · exact ⟨o, ho, hfollows, hcxt, Or.inr hblank⟩

/-- A quiet run leaves a stale context stale. With an open file nothing happened to the link. -/
theorem Stale.quiet {ret : Int} (h : Stale files o cxt l) (hcxt : Readable cxt)
    (hv : cxt.buffer.Valid) (hfile : inp.file = files o.filename)
    (hquiet : Quiet inp cxt cxt' ret) (hsame : cxt.fd ≠ -1 → l' = l) :
    Stale files o cxt' l' := by
  -- A context in step has an open file.
  have hl' : Stale files o cxt l' := by
    rcases h with ⟨c, hsync⟩ | hblank
    · rw [hsame hsync.fd]
      exact Or.inl ⟨c, hsync⟩
    · exact Or.inr hblank
  rcases hquiet with ⟨rfl, -⟩ | ⟨cxt1, cb, hopens, hfill⟩
  · exact hl'
  · cases hopens with
    | already hfd =>
      obtain ⟨-, hempty, hoffset, -⟩ := fillMessage_ended hv hcxt.room hfill
      rcases hl' with ⟨c, hsync⟩ | hblank
      · obtain ⟨got, line, complete, htook, hnone, -⟩ := fillMessage_took hv hfill
        obtain ⟨rfl, -⟩ := hnone nofun
        rw [← hfile] at hsync
        have hsync' := hsync.took htook
        rw [hfile] at hsync'
        exact Or.inl ⟨c, hsync'⟩
      · have hzero : cxt.offset = 0 := hblank.place.resolve_left (by omega)
        exact Or.inr ⟨hempty, Or.inr (hoffset.trans hzero)⟩
    | now hclosed hopened =>
      obtain ⟨-, hempty, hoffset, -⟩ := fillMessage_ended (by exact hv) (by exact hcxt.room) hfill
      exact Or.inr ⟨hempty, Or.inr hoffset⟩

end

/-! ### The contexts of a pass, one after the other -/

/-- What a pass starts with, for the contexts that still have to run. -/
structure Turn (cfg : Config) (addr : Option Bytes) (files : Bytes → Bytes) (copies : List Copy)
    (inputs : Nat → RunInput) (contexts : List Listed) (conn : ScAggregatorConnection Link) :
    Prop where
  size : ∀ name, (files name).length < 2 ^ 63
  memory : ∀ serial k n, ((inputs serial).heap k).malloc n = true
  opened : ∀ serial, IsDescriptor (inputs serial).opened.fd
  found : ∀ c ∈ contexts, (inputs c.serial).file = files (c.cxt.filename.getD [])
  nothing : ∀ c ∈ contexts, c.cxt.messageBuffer.code = SCM_MSG_NONE
  distinct : (contexts.map fun c => c.cxt.filename).Nodup
  kept : Kept cfg addr files copies conn.net
  phase : Phase files copies contexts conn
  stale : AllStale files copies contexts conn.net

section
variable {cfg : Config} {addr : Option Bytes} {files : Bytes → Bytes} {copies : List Copy}
  {md5 : Md5} {inputs : Nat → RunInput} {conn conn1 conn' : ScAggregatorConnection Link}
  {c : Listed} {rest contexts contexts' : List Listed} {o : Copy} {ret : Int}
  {cxt : ScFollowContext} {rc : Bool}

/-- Every context that still has to run follows one of the copies. -/
theorem Turn.follows (h : Turn cfg addr files copies inputs contexts conn) :
    ∀ c ∈ contexts, ∃ o ∈ copies, Follows o c.cxt := by
  intro c hc
  obtain ⟨o, ho, hfollows, -⟩ := h.stale c hc
  exact ⟨o, ho, hfollows⟩

/-- The first context of a turn is the one of a copy, whose path the others have not. -/
theorem Turn.head (hcopies : CopiesFor cfg addr copies)
    (h : Turn cfg addr files copies inputs (c :: rest) conn) :
    ∃ o ∈ copies, Follows o c.cxt ∧ Readable c.cxt ∧ Stale files o c.cxt conn.net ∧
      (inputs c.serial).file = files o.filename ∧
      (Down conn ∨ Up conn ∧ Steps files o c.cxt conn.net) ∧
      ∀ p, Touched copies rest p → p ≠ o.path := by
  have hc := List.mem_cons_self (a := c) (l := rest)
  obtain ⟨o, ho, hfollows, hcxt, hstale⟩ := h.stale c hc
  refine ⟨o, ho, hfollows, hcxt, hstale, ?_, ?_, ?_⟩
  · rw [h.found c hc, hfollows.filename, Option.getD_some]
  · refine h.phase.imp id fun ⟨hup, hall⟩ => ⟨hup, ?_⟩
    obtain ⟨o', ho', hfollows', hsteps⟩ := hall c hc
    have hname := hfollows'.filename.symm.trans hfollows.filename
    rw [← hcopies.eq_of_filename ho' ho (Option.some.inj hname)]
    exact hsteps
  · rintro p ⟨d, hd, o', ho', hname, rfl⟩ heq
    apply (List.nodup_cons.mp h.distinct).1
    show c.cxt.filename ∈ _
    rw [hfollows.filename, ← hcopies.eq_of_path ho' ho heq, ← hname]
    exact List.mem_map_of_mem hd

/-- The contexts behind the first one have their turn when it has run. -/
theorem Turn.tail (h : Turn cfg addr files copies inputs (c :: rest) conn)
    (hkept : Kept cfg addr files copies conn1.net)
    (hphase : Down conn1 ∨ Up conn ∧ Up conn1)
    (hspares : ∀ p, Touched copies rest p → Spares p conn.net conn1.net) :
    Turn cfg addr files copies inputs rest conn1 where
  size := h.size
  memory := h.memory
  opened := h.opened
  found d hd := h.found d (List.mem_cons_of_mem c hd)
  nothing d hd := h.nothing d (List.mem_cons_of_mem c hd)
  distinct := (List.nodup_cons.mp h.distinct).2
  kept := hkept
  phase := by
    rcases hphase with hdown | ⟨hup, hup1⟩
    · exact Or.inl hdown
    -- A connection that is up now was up before, and the others have not been touched.
    · rcases h.phase with hdown | ⟨-, hall⟩
      · exact absurd hdown hup.not_down
      · have hrest : AllStep files copies rest conn.net :=
          fun d hd => hall d (List.mem_cons_of_mem c hd)
        exact Or.inr ⟨hup1, hrest.spares hspares⟩
  stale := by
    have hrest : AllStale files copies rest conn.net :=
      fun d hd => h.stale d (List.mem_cons_of_mem c hd)
    exact hrest.spares hspares

/-- What a pass over the contexts of a turn spares. -/
theorem Turn.loop (hcopies : CopiesFor cfg addr copies)
    (h : Turn cfg addr files copies inputs contexts conn)
    (hloop : passLoop (listedNet cfg) md5 inputs contexts conn = .ok (rc, contexts', conn')) :
    ∀ p, ¬ Touched copies contexts p → Spares p conn.net conn'.net :=
  (passLoop_kept hcopies h.size h.memory h.found h.follows h.nothing h.distinct h.kept h.phase
    hloop).2.1.1

/-- A pass that does not tell the main loop to reconnect leaves the contexts stale at most. -/
theorem passLoop_stale (hcopies : CopiesFor cfg addr copies)
    (h : Turn cfg addr files copies inputs contexts conn)
    (hloop : passLoop (listedNet cfg) md5 inputs contexts conn = .ok (rc, contexts', conn'))
    (hrc : rc = false) : AllStale files copies contexts' conn'.net := by
  induction contexts generalizing conn rc contexts' with
  | nil =>
    cases hloop
    exact h.stale
  | cons c rest ih =>
    obtain ⟨⟨ret, cxt, conn1⟩, hrun, hloop⟩ := bind_eq_ok.mp hloop
    simp only at hloop
    split at hloop
    · cases hloop
    obtain ⟨⟨rc1, rest', conn2⟩, hrest, hloop⟩ := bind_eq_ok.mp hloop
    cases hloop
    have hret : rc1 = false ∧ ret ≠ ERR_MUST_RECONNECT := by simpa using hrc
    obtain ⟨o, ho, hfollows, hcxt, hstale, hfile, hphase, hapart⟩ := h.head hcopies
    have hc := List.mem_cons_self (a := c) (l := rest)
    obtain ⟨hkept1, ⟨hspares1, -⟩, hfollows1, hphase1, -⟩ := run_kept hcopies h.size ho hfollows
      hfile (h.memory _) h.kept (h.nothing c hc) hphase hrun
    have hturn : Turn cfg addr files copies inputs rest conn1 :=
      h.tail hkept1 (hphase1.imp id fun hup => ⟨hup.1, hup.2.1⟩)
        fun p hp => hspares1 p (hapart p hp)
    have hcxt1 : Readable cxt := hcxt.run hfollows.idle.valid (h.opened _) hrun
    -- The context that has run.
    have hstale1 : Stale files o cxt conn1.net := by
      rcases hphase1 with hdown | ⟨-, -, hsteps⟩
      · have hphase0 : Up conn ∧ (Kept cfg addr files copies conn.net ∧
            (∀ p, p ≠ o.path → Spares p conn.net conn.net) ∧ Grows conn.net conn.net) ∧
            Steps files o c.cxt conn.net ∨ Down conn := by
          rcases hphase with hdown | ⟨hup, hsteps⟩
          · exact Or.inr hdown
          · exact Or.inl ⟨hup, ⟨h.kept, fun p _ => .refl p _, .of_same rfl⟩, hsteps⟩
        obtain ⟨hquiet, hsame⟩ := (hcopies.shares ho (h.size o.filename) conn.net).quiet hfile
          hphase0 hfollows.idle hcxt (h.opened _) (h.nothing c hc) (h.memory _) hrun hret.2 hdown
        exact hstale.quiet hcxt hfollows.idle.valid hfile hquiet fun hfd => by rw [hsame hfd]
      · exact .of_steps hcxt1 hsteps
    have hall := ih hturn hrest hret.1
    intro d hd
    rcases List.mem_cons.mp hd with rfl | hd
    · exact ⟨o, ho, hfollows1, hcxt1, hstale1.spares
        (hturn.loop hcopies hrest o.path fun htouched => hapart o.path htouched rfl)⟩
    · exact hall d hd

end

/-! ### Every run keeps track of the contexts -/

/-- The invariant of a machine, with the contexts on any connection. -/
structure Tracked (cfg : Config) (addr : Option Bytes) (copies : List Copy) (s : Host) :
    Prop where
  running : Running cfg addr copies s
  stale : AllStale s.files copies s.loop.contexts s.loop.conn.net

section
variable {cfg : Config} {addr : Option Bytes} {copies : List Copy} {md5 : Md5}
  {patterns : List ScConfigPatternEntry} {s s' : Host} {contexts contexts' : List Listed}
  {conn conn' : ScAggregatorConnection Link} {files : Bytes → Bytes} {l : Link}

/-- The start of a pass. -/
theorem Tracked.turn (h : Tracked cfg addr copies s) {found : Nat → RunInput}
    (hmem : ∀ serial k n, ((found serial).heap k).malloc n = true)
    (hopened : ∀ serial, IsDescriptor (found serial).opened.fd) (fates : List Fate) :
    Turn cfg addr s.files copies (s.inputs found) s.loop.contexts
      (withFates fates s.loop.conn) where
  size := h.running.size
  memory := hmem
  opened := hopened
  found _ hc := Host.fileOf_of_mem h.running.serials hc
  nothing := h.running.nothing
  distinct := h.running.distinct
  kept := h.running.kept.same rfl rfl
  phase := h.running.phase.withFates fates
  stale := h.stale.spares fun _ _ => .of_same rfl rfl

/-- The runs of a pass keep what a context needs to be read. -/
theorem passLoop_readable {inputs : Nat → RunInput} {rc : Bool}
    (hopened : ∀ serial, IsDescriptor (inputs serial).opened.fd)
    (hall : ∀ c ∈ contexts, (∃ o ∈ copies, Follows o c.cxt) ∧ Readable c.cxt)
    (hloop : passLoop (listedNet cfg) md5 inputs contexts conn = .ok (rc, contexts', conn')) :
    ∀ c ∈ contexts', (∃ o ∈ copies, Follows o c.cxt) ∧ Readable c.cxt := by
  induction contexts generalizing conn rc contexts' with
  | nil =>
    cases hloop
    exact hall
  | cons c rest ih =>
    obtain ⟨⟨ret, cxt, conn1⟩, hrun, hloop⟩ := bind_eq_ok.mp hloop
    simp only at hloop
    split at hloop
    · cases hloop
    obtain ⟨⟨rc1, rest', conn2⟩, hrest, hloop⟩ := bind_eq_ok.mp hloop
    cases hloop
    obtain ⟨⟨o, ho, hfollows⟩, hcxt⟩ := hall c (List.mem_cons_self ..)
    -- A run keeps the context with its file, whatever it returns.
    have hcontinues := runFollowContext_continues hfollows.idle.valid hrun
    intro d hd
    rcases List.mem_cons.mp hd with rfl | hd
    · exact ⟨⟨o, ho, hcontinues.filename.trans hfollows.filename,
        hfollows.idle.continues hcontinues⟩, hcxt.run hfollows.idle.valid (hopened _) hrun⟩
    · exact ih (fun d hd => hall d (List.mem_cons_of_mem c hd)) hrest d hd

/-- A pass of the main loop. -/
theorem stale_pass (hcopies : CopiesFor cfg addr copies) {inputs : Nat → RunInput}
    {reconnected : Bool} (h : Turn cfg addr files copies inputs contexts conn)
    (hpass : mainPass (listedNet cfg) md5 inputs
      (if reconnected then some (Link.reconnect addr) else none) contexts conn
        = .ok (contexts', conn')) :
    AllStale files copies contexts' conn'.net := by
  obtain ⟨⟨rc, contexts1, conn1⟩, hloop, hpass⟩ := bind_eq_ok.mp hpass
  cases rc with
  | false =>
    cases hpass
    exact passLoop_stale hcopies h hloop rfl
  | true =>
    cases hpass
    have hall := passLoop_readable h.opened (fun c hc => by
      obtain ⟨o, ho, hfollows, hcxt, -⟩ := h.stale c hc
      exact ⟨⟨o, ho, hfollows⟩, hcxt⟩) hloop
    intro c hc
    obtain ⟨d, hd, rfl⟩ := List.mem_map.mp hc
    obtain ⟨⟨o, ho, hfollows⟩, hcxt⟩ := hall d hd
    refine ⟨o, ho, ⟨hfollows.filename, ?_⟩, hcxt.reset, Or.inr ⟨rfl, Or.inl rfl⟩⟩
    exact ⟨hfollows.idle.name_eq, hfollows.idle.room, hfollows.idle.valid.reset⟩

/-- Every event keeps track of the contexts. -/
theorem tracked_step (hcopies : CopiesFor cfg addr copies) (h : Tracked cfg addr copies s)
    {e : Host.Event} (hserved : Served copies patterns e) (hopening : Opening e)
    (hstep : s.step cfg md5 addr patterns e = .ok s') : Tracked cfg addr copies s' := by
  refine ⟨(running_step hcopies h.running hserved hstep).1, ?_⟩
  cases e with
  | grow name bytes =>
    cases hstep
    split
    · refine h.stale.grow fun n => ?_
      show s.files n <+: if n = name then s.files n ++ bytes else s.files n
      split
      · exact List.prefix_append _ _
      · exact List.prefix_rfl
    · exact h.stale
  | loop e =>
    obtain ⟨loop', hloop, hstep⟩ := bind_eq_ok.mp hstep
    cases hstep
    cases e with
    | tick clock heap fates =>
      obtain ⟨⟨contexts1, conn1⟩, htick, hloop⟩ := bind_eq_ok.mp hloop
      cases hloop
      have h0 : Running cfg addr copies ⟨s.files, s.loop.contexts, withFates fates s.loop.conn⟩ :=
        h.running.withFates fates
      -- The contexts of before keep what they knew; the fates only say what the sends will do.
      have hold : AllStale s.files copies s.loop.contexts (withFates fates s.loop.conn).net :=
        h.stale.spares fun _ _ => .of_same rfl rfl
      obtain ⟨rfl, hnew, -⟩ := running_tick hcopies hserved h0 htick
      intro c hc
      rcases hnew c hc with hmem | ⟨o, ho, heap', ftimestamp, heq⟩
      · exact hold c hmem
      · -- A new context starts over.
        rw [heq]
        refine ⟨o, ho, ⟨rfl, rfl, rfl, ?_⟩, readable_new heap' _ _ _, Or.inr ⟨rfl, Or.inl rfl⟩⟩
        exact AzBuffer.valid_azBufferNew heap' (by decide)
    | pass found fates reconnected =>
      obtain ⟨⟨contexts1, conn1⟩, hpass, hloop⟩ := bind_eq_ok.mp hloop
      cases hloop
      exact stale_pass hcopies (h.turn hserved hopening fates) hpass
    | drop ending =>
      cases hloop
      exact h.stale.spares fun _ _ => .of_same rfl rfl

/-- The invariant holds after every run of events. -/
theorem tracked_run (hcopies : CopiesFor cfg addr copies) (h : Tracked cfg addr copies s)
    {es : List Host.Event} (hserved : ∀ e ∈ es, Served copies patterns e ∧ Opening e)
    (hrun : es.foldlM (Host.step cfg md5 addr patterns) s = .ok s') :
    Tracked cfg addr copies s' :=
  run_invariant_of (fun _ _ _ h hserved => tracked_step hcopies h hserved.1 hserved.2) hserved h
    hrun

end

/-! ### A pass over a connection that works -/

/-- The bytes of a file that a context has not sent yet. -/
def unsent (file : Bytes) (cxt : ScFollowContext) : Nat :=
  file.length - cxt.offset + cxt.buffer.unread.length

/-- A context that is in step needs at most `n` runs for what it has to send: one to open its
file, and one for each byte. -/
def Reaches (files : Bytes → Bytes) (n : Nat) (o : Copy) (cxt : ScFollowContext) (l : Link) :
    Prop :=
  Shares.Loose (Absent o.path) cxt l ∧ (files o.filename).length + 1 ≤ n ∨
    ∃ c, Synced o.path (files o.filename) cxt l c [] ∧ unsent (files o.filename) cxt ≤ n

section
variable {cfg : Config} {addr : Option Bytes} {files : Bytes → Bytes} {copies : List Copy}
  {o : Copy} {md5 : Md5} {inp : RunInput} {cxt cxt' : ScFollowContext} {l l' : Link}
  {c : ScChannel} {line : Bytes} {n k : Nat} {sender : Sender}
  {conn conn' : ScAggregatorConnection Link} {ret : Int}

/-- What a context reaches in some runs, it reaches when there are more of them. -/
theorem Reaches.mono (h : Reaches files n o cxt l) (hle : n ≤ k) : Reaches files k o cxt l := by
  rcases h with ⟨hloose, hn⟩ | ⟨c, hsync, hn⟩
  · exact Or.inl ⟨hloose, hn.trans hle⟩
  · exact Or.inr ⟨c, hsync, hn.trans hle⟩

/-- What spares the path of a copy leaves its context as near to the end of its file. -/
theorem Reaches.spares (h : Reaches files n o cxt l) (hspares : Spares o.path l l') :
    Reaches files n o cxt l' := by
  rcases h with ⟨hloose, hn⟩ | ⟨c, hsync, hn⟩
  · exact Or.inl ⟨⟨hloose.apart.spares hspares, hloose.fd, hloose.empty⟩, hn⟩
  · exact Or.inr ⟨c, hsync.spares hspares, hn⟩

/-- A context in step has at most the whole file to send. -/
theorem unsent_le {path file : Bytes} (h : Synced path file cxt l c line) :
    unsent file cxt ≤ file.length := by
  have hoffset := h.offset
  have hlen := congrArg List.length h.bytes
  simp only [List.length_take, List.length_append] at hlen
  unfold unsent
  omega

/-- Every context in step has a bound. -/
theorem reaches_of_steps (h : Steps files o cxt l) :
    Reaches files ((files o.filename).length + 1) o cxt l := by
  rcases h with hloose | ⟨c, hsync⟩
  · exact Or.inl ⟨hloose, Nat.le_refl _⟩
  · exact Or.inr ⟨c, hsync, (unsent_le hsync).trans (Nat.le_succ _)⟩

/-- A read takes nothing from what is not sent but the line in hand. -/
theorem unsent_took {got : Bytes} (hoffset : cxt.offset ≤ inp.file.length)
    (h : Took inp cxt cxt' got line) :
    unsent inp.file cxt' + line.length = unsent inp.file cxt := by
  have hfetched := h.fetched.length_le
  have hbytes := congrArg List.length h.bytes
  have hrest : cxt'.offset = cxt.offset + got.length := by rw [h.rest]
  simp only [List.length_append, List.length_drop] at hfetched hbytes
  unfold unsent
  omega

/-- The first part of a run of a context that is in step, when its frame is answered and its file
can be opened: the context has a channel, and at most `m` bytes to send. -/
theorem ensureOpen_closer (hcopies : CopiesFor cfg addr copies) (ho : o ∈ copies)
    (hsize : (files o.filename).length < 2 ^ 63) (hmem : ∀ k n, (inp.heap k).malloc n = true)
    (hopened : 0 < inp.opened.fd) (hup : Up conn) (hans : conn.net.Answering (k + 2))
    (hkept : Kept cfg addr files copies conn.net) (hidle : Idle o.displayName cxt)
    (hcxt : Readable cxt) (hreaches : Reaches files n o cxt conn.net) {ret1 : Option Int}
    (h : ensureOpen (Link.net cfg sender) md5 inp cxt conn = .ok (ret1, cxt', conn')) :
    ret1 = none ∧ Up conn' ∧ conn'.net.Answering (k + 1) ∧
      Kept cfg addr files copies conn'.net ∧
      ∃ m c, (m = n ∨ m ≤ n - 1) ∧ Synced o.path (files o.filename) cxt' conn'.net c [] ∧
        unsent (files o.filename) cxt' ≤ m := by
  -- A context has nothing on the channel, or goes on where it is.
  have hstep : Steps files o cxt conn.net := by
    rcases hreaches with ⟨hloose, -⟩ | ⟨c, hsync, -⟩
    · exact Or.inl hloose
    · exact Or.inr ⟨c, hsync⟩
  obtain ⟨⟨hkept', -⟩, hcase⟩ := (hcopies.shares ho hsize conn.net).ensureOpen
    ⟨hkept, fun p _ => .refl p _, .of_same rfl⟩ hup hidle hstep (hmem 0) h
  rcases ensureOpen_cases h with ⟨hfd, rfl, rfl, rfl⟩ | ⟨hle, hne, -⟩ | ⟨-, hfail, -⟩ |
    ⟨hclosed, -, rfl, ret2, hinit⟩
  · -- The file is open.
    rcases hreaches with ⟨hloose, -⟩ | ⟨c, hsync, hunsent⟩
    · exact absurd hfd (Int.not_lt.mpr (Int.le_of_lt hloose.fd))
    · exact ⟨rfl, hup, hans.mono (Nat.le_succ _), hkept, n, c, Or.inl rfl, hsync, hunsent⟩
  -- A descriptor is -1 or positive, so it is never given up on.
  · rcases hcxt.fd with hminus | hpos
    · exact absurd hminus hne
    · omega
  · omega
  · -- The file is opened, and the registration is answered.
    have hname : IsName cxt.displayName := by
      rw [hidle.name_eq]
      exact (hcopies.separate o ho).isName
    obtain ⟨hup', hans'⟩ := hup.initFile_answered hans (by exact hname) (hmem 0) hinit
    rcases hcase with ⟨-, hdown | ⟨-, c, hsync⟩⟩ | ⟨hsome, -⟩
    · exact absurd hdown hup'.not_down
    · rcases hreaches with ⟨-, hn⟩ | ⟨d, hsync0, -⟩
      · exact ⟨rfl, hup', hans', hkept', _, c, Or.inr (by omega), hsync, unsent_le hsync⟩
      · exact absurd hclosed hsync0.fd
    · cases hsome

/-- A run of a context that is in step, when its frames are answered and its file can be opened
and read: it is closer to the end of its file, or there already. -/
theorem run_closer (hcopies : CopiesFor cfg addr copies) (ho : o ∈ copies)
    (hsize : (files o.filename).length < 2 ^ 63) (hfile : inp.file = files o.filename)
    (hmem : ∀ k n, (inp.heap k).malloc n = true) (hopened : 0 < inp.opened.fd)
    (hread : ∃ k, inp.read = .chunk k) (hup : Up conn) (hans : conn.net.Answering (k + 2))
    (hkept : Kept cfg addr files copies conn.net) (hidle : Idle o.displayName cxt)
    (hcxt : Readable cxt) (hnothing : cxt.messageBuffer.code = SCM_MSG_NONE)
    (hreaches : Reaches files n o cxt conn.net)
    (h : runFollowContext (Link.net cfg sender) md5 inp cxt conn = .ok (ret, cxt', conn')) :
    Up conn' ∧ conn'.net.Answering k ∧ Reaches files (n - 1) o cxt' conn'.net ∧
      ret ≠ ERR_MUST_RECONNECT := by
  obtain ⟨ret1, cxt1, conn1, hensure, hrest⟩ := runFollowContext_of_nothing hup.opened hnothing h
  -- The file is open after the first step, so there is something to read from.
  obtain ⟨hnone, hup1, hans1, hkept1, m, c, hm, hsync, hunsent⟩ := ensureOpen_closer hcopies ho
    hsize hmem hopened hup hans hkept hidle hcxt hreaches hensure
  have hidle1 := hidle.continues (ensureOpen_continues hidle.valid hensure)
  have hcxt1 := hcxt.ensureOpen (Or.inr hopened) hensure
  rcases hrest with ⟨hend, -⟩ | ⟨-, ret2, cb, cxt2, hfill, hrest⟩
  · rw [hnone] at hend
    cases hend
  obtain ⟨got, line, complete, htook, hended, hline⟩ := fillMessage_took hidle1.valid hfill
  rw [← hfile] at hsync hunsent
  have hsync2 := hsync.took htook
  have hbytes := unsent_took hsync.offset htook
  rcases hrest with ⟨rfl, rfl, rfl⟩ | ⟨rfl, cxt3, conn3, hchan, hex⟩
  · -- There is no line left.
    obtain ⟨rfl, -, hne⟩ := hended nofun
    obtain ⟨-, hempty, hoffset, hfound⟩ := fillMessage_ended hidle1.valid hcxt1.room hfill
    obtain ⟨j, hj⟩ := hread
    -- The read found nothing at the end of the file, so nothing is unsent.
    have hlast := hfound j hj
    have hzero : unsent inp.file cxt' = 0 := by
      unfold unsent
      rw [hempty, hoffset, List.length_nil]
      omega
    rw [hfile] at hsync2 hzero
    refine ⟨hup1, hans1.mono (Nat.le_succ _), Or.inr ⟨c, hsync2, by omega⟩, ?_⟩
    exact fun heq => hne (by rw [heq])
  · -- A line is sent, and it is not empty.
    obtain ⟨rfl, hstore, hpiece⟩ := hline rfl
    -- Each line sent takes at least one byte off what is left.
    have hpos := fillMessage_pos hidle1.valid hfill
    rw [hfile] at hsync2
    have hchannel := number_ne_zero hsync2.pos hsync2.small
    rw [← hsync2.channel] at hchannel
    have hne : cxt2.channel ≠ 0 := by
      intro hzero
      rw [hzero] at hchannel
      exact hchannel rfl
    obtain ⟨rfl, rfl⟩ := ensureChannel_of_ne hne hchan
    obtain ⟨hup', hans'⟩ :=
      hup1.exchangeData_answered hans1 hidle1.room hstore hchannel (hmem 2) hex
    obtain ⟨-, hatt, hsettled, -⟩ := (hcopies.shares ho hsize conn3.net).exchangeData
      ⟨hkept1, fun p _ => .refl p _, .of_same rfl⟩ (Or.inr ⟨hup1, c, hsync2⟩) hidle1.room hstore
      hpiece (hmem 2) hex
    obtain ⟨msg, hsame, -⟩ := exchangeData_cxt hex
    have hleft : unsent (files o.filename) cxt' = unsent inp.file cxt3 := by
      rw [hsame, hfile]
      rfl
    rcases hatt with hdown | ⟨-, c', hsync'⟩
    · exact absurd hdown hup'.not_down
    · refine ⟨hup', hans', Or.inr ⟨c', hsync', by omega⟩, ?_⟩
      rcases hsettled with ⟨-, hdown⟩ | ⟨hret, -⟩
      · exact absurd hdown hup'.not_down
      · exact hret

end

/-- What a pass needs so that every context gets on: memory, files that can be opened, and reads
that do not fail. -/
structure Favours (inputs : Nat → RunInput) : Prop where
  memory : ∀ serial k n, ((inputs serial).heap k).malloc n = true
  opened : ∀ serial, 0 < (inputs serial).opened.fd
  read : ∀ serial, ∃ k, (inputs serial).read = .chunk k

/-- Every complete line of a file is in its separate file. -/
def CaughtUp (file separate : Bytes) : Prop := ∃ rest, file = separate ++ rest ∧ LF ∉ rest

section
variable {cfg : Config} {addr : Option Bytes} {files : Bytes → Bytes} {copies : List Copy}
  {o : Copy} {md5 : Md5} {inp : RunInput} {inputs : Nat → RunInput} {cxt cxt' : ScFollowContext}
  {contexts contexts' : List Listed} {n : Nat} {sender : Sender}
  {conn conn' : ScAggregatorConnection Link} {ret : Int} {rc : Bool}

/-- A pass over a connection that works, in which every frame is answered. -/
theorem passLoop_closer (hcopies : CopiesFor cfg addr copies)
    (h : Turn cfg addr files copies inputs contexts conn) (hfavours : Favours inputs)
    (hup : Up conn) (hans : conn.net.Answering (2 * contexts.length))
    (hall : ∀ c ∈ contexts, ∃ o ∈ copies, Follows o c.cxt ∧ Reaches files n o c.cxt conn.net)
    (hloop : passLoop (listedNet cfg) md5 inputs contexts conn = .ok (rc, contexts', conn')) :
    rc = false ∧ Up conn' ∧
      ∀ c ∈ contexts', ∃ o ∈ copies, Follows o c.cxt ∧
        Reaches files (n - 1) o c.cxt conn'.net := by
  induction contexts generalizing conn rc contexts' with
  | nil =>
    cases hloop
    exact ⟨rfl, hup, nofun⟩
  | cons c rest ih =>
    obtain ⟨⟨ret, cxt, conn1⟩, hrun, hloop⟩ := bind_eq_ok.mp hloop
    simp only at hloop
    split at hloop
    · cases hloop
    obtain ⟨⟨rc1, rest', conn2⟩, hrest, hloop⟩ := bind_eq_ok.mp hloop
    cases hloop
    have hc := List.mem_cons_self (a := c) (l := rest)
    obtain ⟨o, ho, hfollows, hcxt, -, hfile, hphase, hapart⟩ := h.head hcopies
    have hreaches : Reaches files n o c.cxt conn.net := by
      obtain ⟨o', ho', hfollows', hreaches⟩ := hall c hc
      have hname := hfollows'.filename.symm.trans hfollows.filename
      rw [← hcopies.eq_of_filename ho' ho (Option.some.inj hname)]
      exact hreaches
    -- The first context gets on, and the connection works for the others.
    have hans0 : conn.net.Answering (2 * rest.length + 2) := by
      simpa [Nat.mul_add] using hans
    obtain ⟨hup1, hans1, hreaches1, hret⟩ := run_closer hcopies ho (h.size o.filename) hfile
      (h.memory _) (hfavours.opened _) (hfavours.read _) hup hans0 h.kept hfollows.idle hcxt
      (h.nothing c hc) hreaches hrun
    obtain ⟨hkept1, ⟨hspares1, -⟩, hfollows1, -⟩ := run_kept hcopies h.size ho hfollows hfile
      (h.memory _) h.kept (h.nothing c hc) hphase hrun
    have hturn : Turn cfg addr files copies inputs rest conn1 :=
      h.tail hkept1 (Or.inr ⟨hup, hup1⟩) fun p hp => hspares1 p (hapart p hp)
    obtain ⟨rfl, hup2, hall2⟩ := ih hturn hup1 hans1 (fun d hd => by
      obtain ⟨o', ho', hfollows', hreaches'⟩ := hall d (List.mem_cons_of_mem c hd)
      refine ⟨o', ho', hfollows', hreaches'.spares (hspares1 o'.path (hapart o'.path ?_))⟩
      exact ⟨d, hd, o', ho', hfollows'.filename, rfl⟩) hrest
    refine ⟨by simpa using hret, hup2, fun d hd => ?_⟩
    rcases List.mem_cons.mp hd with rfl | hd
    · exact ⟨o, ho, hfollows1, hreaches1.spares
        (hturn.loop hcopies hrest o.path fun htouched => hapart o.path htouched rfl)⟩
    · exact hall2 d hd

/-- A run over a connection that is down, when the main loop is not told to reconnect: no line
of the file is missing. -/
theorem run_found (hcopies : CopiesFor cfg addr copies) (ho : o ∈ copies)
    (hsize : (files o.filename).length < 2 ^ 63) (hfile : inp.file = files o.filename)
    (hmem : ∀ k n, (inp.heap k).malloc n = true) (hopened : 0 < inp.opened.fd)
    (hread : ∃ k, inp.read = .chunk k) (hdown : Down conn)
    (hkept : Kept cfg addr files copies conn.net) (hidle : Idle o.displayName cxt)
    (hcxt : Readable cxt) (hnothing : cxt.messageBuffer.code = SCM_MSG_NONE)
    (hstale : Stale files o cxt conn.net)
    (h : runFollowContext (Link.net cfg sender) md5 inp cxt conn = .ok (ret, cxt', conn'))
    (hret : ret ≠ ERR_MUST_RECONNECT) :
    CaughtUp (files o.filename) (separate o.path conn.net.fs) := by
  obtain ⟨hquiet, -⟩ := (hcopies.shares ho hsize conn.net).quiet hfile (Or.inr hdown) hidle hcxt
    (Or.inr hopened) hnothing hmem h hret (hdown.run h).1
  -- A file without a byte is caught up with.
  have hnil : inp.file.length = 0 → CaughtUp (files o.filename) (separate o.path conn.net.fs) := by
    intro hzero
    have hsub := hkept.sub_file o ho
    rw [← hfile, List.eq_nil_of_length_eq_zero hzero, List.prefix_nil] at hsub
    refine ⟨[], ?_, List.not_mem_nil⟩
    rw [← hfile, hsub, List.eq_nil_of_length_eq_zero hzero]
    rfl
  obtain ⟨k, hk⟩ := hread
  rcases hquiet with ⟨-, hminus⟩ | ⟨cxt1, cb, hopens, hfill⟩
  · omega
  · cases hopens with
    | already hfd =>
      obtain ⟨hempty, -, -, hfound⟩ := fillMessage_ended hidle.valid hcxt.room hfill
      have hlast := hfound k hk
      rcases hstale with ⟨c, hsync⟩ | hblank
      · have hcopy := hkept.isCopy hcopies ho hsync.mem hsync.path_eq
        have hbytes := hsync.bytes
        rw [List.take_of_length_le (by rw [← hfile]; exact hlast), hempty, List.append_nil,
          List.append_nil] at hbytes
        exact ⟨c.buffer.unread, hbytes, hcopy.pending⟩
      · have hzero : cxt.offset = 0 := hblank.place.resolve_left (by omega)
        exact hnil (by omega)
    | now hclosed hpos =>
      obtain ⟨-, -, -, hfound⟩ :=
        fillMessage_ended (by exact hidle.valid) (by exact hcxt.room) hfill
      exact hnil (Nat.le_zero.mp (hfound k hk))

/-- A pass over a connection that is down, when the main loop is not told to reconnect. -/
theorem passLoop_found (hcopies : CopiesFor cfg addr copies)
    (h : Turn cfg addr files copies inputs contexts conn) (hfavours : Favours inputs)
    (hdown : Down conn)
    (hloop : passLoop (listedNet cfg) md5 inputs contexts conn = .ok (rc, contexts', conn'))
    (hrc : rc = false) :
    ∀ c ∈ contexts, ∃ o ∈ copies, c.cxt.filename = some o.filename ∧
      CaughtUp (files o.filename) (separate o.path conn.net.fs) := by
  induction contexts generalizing conn rc contexts' with
  | nil => exact nofun
  | cons c rest ih =>
    obtain ⟨⟨ret, cxt, conn1⟩, hrun, hloop⟩ := bind_eq_ok.mp hloop
    simp only at hloop
    split at hloop
    · cases hloop
    obtain ⟨⟨rc1, rest', conn2⟩, hrest, hloop⟩ := bind_eq_ok.mp hloop
    cases hloop
    have hret : rc1 = false ∧ ret ≠ ERR_MUST_RECONNECT := by simpa using hrc
    have hc := List.mem_cons_self (a := c) (l := rest)
    obtain ⟨o, ho, hfollows, hcxt, hstale, hfile, -, -⟩ := h.head hcopies
    -- The connection stays lost for the rest of the pass.
    obtain ⟨hdown1, hsame⟩ := hdown.run hrun
    have hturn : Turn cfg addr files copies inputs rest conn1 :=
      h.tail (h.kept.same hsame.fs hsame.conn) (Or.inl hdown1)
        fun p _ => .of_same hsame.fs hsame.conn
    have hall := ih hturn hdown1 hrest hret.1
    rw [hsame.fs] at hall
    intro d hd
    rcases List.mem_cons.mp hd with rfl | hd
    · exact ⟨o, ho, hfollows.filename, run_found hcopies ho (h.size o.filename) hfile (h.memory _)
        (hfavours.opened _) (hfavours.read _) hdown h.kept hfollows.idle hcxt (h.nothing d hc)
        hstale hrun hret.2⟩
    · exact hall d hd

end

/-! ### A run of passes -/

/-- A pass in which everything goes well. `width` bounds the number of contexts. -/
def Good (width : Nat) : Host.Event → Prop
  | .loop (.pass inputs fates reconnected) =>
      Favours inputs ∧ (∀ f ∈ fates, f.delivery = .answered) ∧ 2 * width ≤ fates.length ∧
        reconnected = true
  | _ => False

/-- A good pass gets the memory that it asks for. -/
theorem served_of_good {width : Nat} {copies : List Copy} {patterns : List ScConfigPatternEntry}
    {e : Host.Event} (h : Good width e) : Served copies patterns e := by
  match e, h with
  | .loop (.pass _ _ _), ⟨hfavours, _⟩ => exact hfavours.memory

/-- A good pass opens files with proper descriptors. -/
theorem opening_of_good {width : Nat} {e : Host.Event} (h : Good width e) : Opening e := by
  match e, h with
  | .loop (.pass _ _ _), ⟨hfavours, _⟩ => exact fun serial => Or.inr (hfavours.opened serial)

/-- At most `n` good passes are missing: every context on a connection that works needs at most
`n` runs, or every file is caught up with, or the connection is down and the contexts have to
start over. -/
def Near (copies : List Copy) (longest n : Nat) (s : Host) : Prop :=
  Up s.loop.conn ∧ (∀ c ∈ s.loop.contexts, ∃ o ∈ copies, Follows o c.cxt ∧
      Reaches s.files n o c.cxt s.loop.conn.net) ∨
    (∀ c ∈ s.loop.contexts, ∃ o ∈ copies, c.cxt.filename = some o.filename ∧
      CaughtUp (s.files o.filename) (separate o.path s.loop.conn.net.fs)) ∨
    Down s.loop.conn ∧ longest + 2 ≤ n

section
variable {cfg : Config} {addr : Option Bytes} {copies : List Copy} {md5 : Md5}
  {patterns : List ScConfigPatternEntry} {s s' : Host} {longest n : Nat}

/-- The contexts belong to different copies. -/
theorem length_contexts_le (h : Running cfg addr copies s) :
    s.loop.contexts.length ≤ copies.length := by
  have hsub : (s.loop.contexts.map fun c => c.cxt.filename) ⊆
      copies.map fun o => some o.filename := by
    intro name hname
    obtain ⟨c, hc, rfl⟩ := List.mem_map.mp hname
    obtain ⟨o, ho, hfollows⟩ := h.follows c hc
    rw [hfollows.filename]
    exact List.mem_map_of_mem ho
  simpa using (List.subperm_of_subset h.distinct hsub).length_le

/-- Behind the last complete line nothing can be added but another complete line. -/
theorem CaughtUp.stays {file separate separate' : Bytes} (h : CaughtUp file separate)
    (hgrows : separate <+: separate') (hsub : separate' <+: file)
    (hwhole : WholeLines separate') : CaughtUp file separate' := by
  obtain ⟨rest, hrest, hnone⟩ := h
  obtain ⟨more, rfl⟩ := hgrows
  -- What is new in the separate file is a piece of the rest, which has no newline.
  have hmore : more <+: rest := by
    rw [hrest] at hsub
    exact (List.prefix_append_right_inj separate).mp hsub
  have hnil : more = [] := by
    rcases List.eq_nil_or_concat more with hnil | ⟨init, last, hlast⟩
    · exact hnil
    · exfalso
      rw [List.concat_eq_append] at hlast
      rcases hwhole with hempty | ⟨lines, hlines⟩
      · simp [hlast] at hempty
      · -- The last byte is a newline of the rest.
        rw [hlast, ← List.append_assoc] at hlines
        have hlf : last = LF := by simpa using (List.append_inj' hlines rfl).2
        apply hnone
        apply hmore.subset
        simp [hlast, hlf]
  rw [hnil, List.append_nil]
  exact ⟨rest, hrest, hnone⟩

/-- When every file is caught up with, a pass does not change this. -/
theorem caughtUp_pass {contexts' : List Listed} {conn' : ScAggregatorConnection Link}
    (hall : ∀ c ∈ s.loop.contexts, ∃ o ∈ copies, c.cxt.filename = some o.filename ∧
      CaughtUp (s.files o.filename) (separate o.path s.loop.conn.net.fs))
    (hrunning : Running cfg addr copies ⟨s.files, contexts', conn'⟩)
    (hgrows : Grows s.loop.conn.net conn'.net)
    (hnames : contexts'.map (fun c => c.cxt.filename) =
      s.loop.contexts.map fun c => c.cxt.filename) :
    ∀ c ∈ contexts', ∃ o ∈ copies, c.cxt.filename = some o.filename ∧
      CaughtUp (s.files o.filename) (separate o.path conn'.net.fs) := by
  intro c hc
  have hmem := List.mem_map_of_mem (f := fun c : Listed => c.cxt.filename) hc
  rw [hnames] at hmem
  obtain ⟨d, hd, hname⟩ := List.mem_map.mp hmem
  obtain ⟨o, ho, hfilename, hcaught⟩ := hall d hd
  refine ⟨o, ho, hname.symm.trans hfilename, ?_⟩
  exact hcaught.stays (hgrows o.path) (hrunning.kept.sub_file o ho) (hrunning.kept.whole o ho)

/-- The state before the first good pass. -/
theorem near_start (h : Tracked cfg addr copies s)
    (hlongest : ∀ o ∈ copies, (s.files o.filename).length ≤ longest) :
    Near copies longest (longest + 2) s := by
  rcases h.running.phase with hdown | ⟨hup, hall⟩
  · exact Or.inr (Or.inr ⟨hdown, Nat.le_refl _⟩)
  · left
    refine ⟨hup, fun c hc => ?_⟩
    obtain ⟨o, ho, hfollows, hsteps⟩ := hall c hc
    have hle := hlongest o ho
    exact ⟨o, ho, hfollows, (reaches_of_steps hsteps).mono (by omega)⟩

/-- One good pass. -/
theorem near_pass (hcopies : CopiesFor cfg addr copies) (h : Tracked cfg addr copies s)
    (hlongest : ∀ o ∈ copies, (s.files o.filename).length ≤ longest)
    (hnear : Near copies longest n s) {e : Host.Event} (hgood : Good copies.length e)
    (hstep : s.step cfg md5 addr patterns e = .ok s') :
    s'.files = s.files ∧
      (s'.loop.contexts.map fun c => c.cxt.filename) =
        (s.loop.contexts.map fun c => c.cxt.filename) ∧
      Near copies longest (n - 1) s' := by
  match e, hgood with
  | .loop (.pass found fates reconnected), ⟨hfavours, hanswered, henough, hreconnected⟩ =>
  subst hreconnected
  obtain ⟨loop', hloop, hstep⟩ := bind_eq_ok.mp hstep
  cases hstep
  obtain ⟨⟨contexts', conn'⟩, hpass, hloop⟩ := bind_eq_ok.mp hloop
  cases hloop
  have hopened : ∀ serial, IsDescriptor (found serial).opened.fd :=
    fun serial => Or.inr (hfavours.opened serial)
  have hturn := h.turn hfavours.memory hopened fates
  have hfavours' : Favours (s.inputs found) :=
    ⟨hfavours.memory, hfavours.opened, hfavours.read⟩
  obtain ⟨hrunning, hwithin, hnames⟩ := running_pass hcopies h.running hfavours.memory hpass
  refine ⟨rfl, hnames, ?_⟩
  obtain ⟨⟨rc, contexts1, conn1⟩, hloop, hend⟩ := bind_eq_ok.mp hpass
  rcases hnear with ⟨hup, hall⟩ | hcaught | ⟨hdown, hn⟩
  · -- Every context gets on.
    have hans : (withFates fates s.loop.conn).net.Answering (2 * s.loop.contexts.length) := by
      have hle := length_contexts_le h.running
      exact ⟨hanswered, show 2 * s.loop.contexts.length ≤ fates.length by omega⟩
    have hall0 : ∀ c ∈ s.loop.contexts, ∃ o ∈ copies, Follows o c.cxt ∧
        Reaches s.files n o c.cxt (withFates fates s.loop.conn).net := by
      intro c hc
      obtain ⟨o, ho, hfollows, hreaches⟩ := hall c hc
      exact ⟨o, ho, hfollows, hreaches.spares (.of_same rfl rfl)⟩
    obtain ⟨rfl, hup1, hall1⟩ := passLoop_closer hcopies hturn hfavours' (withFates_up hup fates)
      hans hall0 hloop
    cases hend
    exact Or.inl ⟨hup1, hall1⟩
  · exact Or.inr (Or.inl (caughtUp_pass (s := s) hcaught hrunning hwithin.grows hnames))
  · cases rc with
    | false =>
      have hcaught := passLoop_found hcopies hturn hfavours' (hdown.withFates fates) hloop rfl
      exact Or.inr (Or.inl (caughtUp_pass (s := s) hcaught hrunning hwithin.grows hnames))
    | true =>
      -- The connection is opened again, and every context starts over.
      cases hend
      have hup : Up (scAggregatorConnectionOpen (some (Link.reconnect addr)) conn1).2 :=
        ⟨rfl, rfl, rfl⟩
      rcases hrunning.phase with hdown' | ⟨-, hsteps⟩
      · exact absurd hdown' hup.not_down
      · refine Or.inl ⟨hup, fun c hc => ?_⟩
        obtain ⟨o, ho, hfollows, hsteps⟩ := hsteps c hc
        have hle := hlongest o ho
        exact ⟨o, ho, hfollows, (reaches_of_steps hsteps).mono
          (show (s.files o.filename).length + 1 ≤ n - 1 by omega)⟩

/-- No pass is missing. -/
theorem caughtUp_of_near (hcopies : CopiesFor cfg addr copies) (h : Running cfg addr copies s)
    (hnear : Near copies longest 0 s) :
    ∀ c ∈ s.loop.contexts, ∃ o ∈ copies, c.cxt.filename = some o.filename ∧
      CaughtUp (s.files o.filename) (separate o.path s.loop.conn.net.fs) := by
  rcases hnear with ⟨-, hall⟩ | hcaught | ⟨-, hn⟩
  · intro c hc
    obtain ⟨o, ho, hfollows, ⟨-, hn⟩ | ⟨ch, hsync, hn⟩⟩ := hall c hc
    · omega
    · refine ⟨o, ho, hfollows.filename, ch.buffer.unread, ?_, ?_⟩
      · -- The context is at the end of its file, and has nothing in its buffer.
        unfold unsent at hn
        have hempty : c.cxt.buffer.unread = [] := List.eq_nil_of_length_eq_zero (by omega)
        have hbytes := hsync.bytes
        rw [List.take_of_length_le (by omega), hempty, List.append_nil, List.append_nil] at hbytes
        exact hbytes
      · exact (h.kept.isCopy hcopies ho hsync.mem hsync.path_eq).pending
  · exact hcaught
  · omega

end

/-! ### A small run -/

/-- Two files with lines, their contexts, and a connection that is lost before the first pass. -/
def smallLoss : List Host.Event :=
  [.grow [102] [97, LF, 98], .grow [103] [99, LF],
    .loop (.tick smallClock (fun _ => zeroHeap) []), .loop (.drop .eof)]

/-- As many good passes as the longest file has bytes, and two. -/
def smallPasses : List Host.Event := List.replicate 5 (smallPass (List.replicate 4 .answered))

/-- One event of the small machine. -/
def smallStep : Host → Host.Event → Except Trap Host :=
  Host.step copiesConfig zeroMd5 (some [97]) smallPatterns

end Compostela.Proofs.CatchUp
