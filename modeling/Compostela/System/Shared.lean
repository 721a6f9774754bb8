import Mathlib.Data.List.Nodup
import Compostela.System.Following
import Compostela.System.MainLoop

/-!
# `Compostela.System.Shared`: a context on a connection with other channels

All contexts of a follower use one connection, so a context registers beside the channels of
the others. `Shares` is what an invariant has to say to the exchanges of one context then.
`Apart` says that the aggregator has no channel of the context yet. `Shares.run` is the rule:
one run keeps such an invariant. `Tracks.shares` is the case of a context that is alone.

`Spares path` says that nothing of `path` changed at the aggregator: neither its file nor a
channel for it. What a context is in step with survives every run that spares its path, and
`Registers.spares` and `spares_update` say what the requests of the other contexts spare.
`branches_of_data_on` is a DATA request on one of several channels.
-/

set_option autoImplicit false

namespace Compostela.System

open Compostela.Common
open Compostela.Memory
open Compostela.Aggregator
open Compostela.Follower
open Link

/-- What an invariant of one context says to its exchanges, over one followed file: `Kept` is
what the aggregator keeps, `Apart` that it has no channel of the context, and `Synced` ties
the context to its channel, with the line that it has in hand. -/
structure Shares (cfg : Config) (name file : Bytes) (Kept Apart : Link → Prop)
    (Synced : ScFollowContext → Link → Bytes → Prop) : Prop where
  isName : IsName name
  lost : ∀ {l l' : Link} {sender : Sender} {data : Bytes},
    Kept l → Lost sender data l l' → Kept l'
  registers : ∀ {sender : Sender} {cxt : ScFollowContext} {l l' : Link} {c : ScChannel}
    {answer : Frame}, Kept l → cxt.displayName = name → Apart l →
    Registers cfg sender cxt l l' c answer →
    Kept l' ∧ (cxt.fd ≠ -1 → cxt.buffer.unread = [] → Synced (resumed cxt c l.fs) l' [])
  handles : ∀ {sender : Sender} {inp : RunInput} {cxt : ScFollowContext} {l l' : Link}
    {complete : Bool} {line : Bytes} {msg : ScLogMessage} {r : Handled},
    Kept l → Synced cxt l line → msg.content.size = BUFSIZE →
    storeLine inp complete line msg = .ok cxt.messageBuffer → IsPiece complete line →
    Handles cfg sender (dataHeader line.length cxt).messageBuffer.frame l l' r →
    Kept l' ∧ ∀ m, Synced { cxt with messageBuffer := m } l' []
  attached : ∀ {cxt : ScFollowContext} {l : Link} {line : Bytes},
    Synced cxt l line → BitVec.ofInt 16 cxt.channel ≠ 0 ∧ cxt.fd ≠ -1
  unheard : ∀ {cxt : ScFollowContext} {l l' : Link} {line : Bytes},
    Synced cxt l line → Unheard l l' → Synced cxt l' line
  took : ∀ {inp : RunInput} {cxt cxt' : ScFollowContext} {l : Link} {got line : Bytes},
    inp.file = file → Synced cxt l [] → Took inp cxt cxt' got line → Synced cxt' l line

/-- An invariant of a context that is alone on its connection. -/
theorem Tracks.shares {cfg : Config} {addr : Option Bytes} {name file : Bytes}
    {Kept : Bytes → Link → Prop} {Synced : Bytes → ScFollowContext → Link → Bytes → Prop}
    (h : Tracks cfg addr name Kept Synced) (hsize : file.length < 2 ^ 63) :
    Shares cfg name file (Kept file) (fun l => l.conn.channelList = []) (Synced file) where
  isName := h.isName
  lost := h.lost
  registers hkept hname hnone hreg := h.registers hkept hsize hname hnone hreg
  handles hkept hsync hroom hstore hpiece hr :=
    h.handles hkept hsize hsync hroom hstore hpiece hr
  attached hsync := by
    obtain ⟨hchannel, hfd⟩ := h.attached hsync
    rw [hchannel]
    exact ⟨by decide, hfd⟩
  unheard := h.unheard
  took hfile hsync htook := by
    subst hfile
    exact h.took hsync htook

namespace Shares

/-- A context that has not opened its file yet. -/
structure Loose (Apart : Link → Prop) (cxt : ScFollowContext) (l : Link) : Prop where
  apart : Apart l
  fd : cxt.fd < 0
  empty : cxt.buffer.unread = []

/-- A context between two runs, on a connection that works. -/
def InStep (Apart : Link → Prop) (Synced : ScFollowContext → Link → Bytes → Prop)
    (cxt : ScFollowContext) (l : Link) : Prop := Loose Apart cxt l ∨ Synced cxt l []

/-- The connection is down, or the context is in step with the aggregator. -/
def Attached (Synced : ScFollowContext → Link → Bytes → Prop) (cxt : ScFollowContext)
    (conn : ScAggregatorConnection Link) (line : Bytes) : Prop :=
  Down conn ∨ Up conn ∧ Synced cxt conn.net line

/-- How a run ends: the connection is down and the main loop is told to reconnect, or the
context has nothing pending. -/
def Settled (ret : Int) (cxt : ScFollowContext) (conn : ScAggregatorConnection Link) : Prop :=
  ret = ERR_MUST_RECONNECT ∧ Down conn ∨
    ret ≠ ERR_MUST_RECONNECT ∧ cxt.messageBuffer.code = SCM_MSG_NONE

section
variable {cfg : Config} {name file : Bytes} {Kept Apart : Link → Prop}
  {Synced : ScFollowContext → Link → Bytes → Prop}
  (hshares : Shares cfg name file Kept Apart Synced)
  {sender : Sender} {md5 : Md5} {inp : RunInput} {heap : Heap} {cxt cxt' : ScFollowContext}
  {conn conn' : ScAggregatorConnection Link}
include hshares

/-- What nobody hears changes nothing that the aggregator keeps. -/
theorem kept_unheard {l l' : Link} (h : Kept l) (h' : Unheard l l') : Kept l' :=
  hshares.lost h (⟨h'.fs, h'.conn, Or.inl h'.log⟩ : Lost ⟨0, none, []⟩ [] l l')

/-- The registration of a context that just opened its file. -/
theorem initFile {ret : Int} (hkept : Kept conn.net) (hup : Up conn) (hapart : Apart conn.net)
    (hname : cxt.displayName = name) (hfd : cxt.fd ≠ -1) (hempty : cxt.buffer.unread = [])
    (hmem : ∀ n, heap.malloc n = true)
    (h : initFile (Link.net cfg sender) md5 inp heap cxt conn = .ok (ret, cxt', conn')) :
    Kept conn'.net ∧ Attached Synced cxt' conn' [] := by
  rcases hup.initFile (by rw [hname]; exact hshares.isName) hmem h with
    ⟨hdown, -, hlost | ⟨c, answer, hreg⟩⟩ | ⟨hup', c, answer, hreg, rfl⟩
  · exact ⟨hshares.lost hkept hlost, Or.inl hdown⟩
  · exact ⟨(hshares.registers hkept hname hapart hreg).1, Or.inl hdown⟩
  · obtain ⟨hkept', hsync⟩ := hshares.registers hkept hname hapart hreg
    exact ⟨hkept', Or.inr ⟨hup', hsync hfd hempty⟩⟩

/-- The exchange of the line in hand. -/
theorem exchangeData {ret : Int} {complete : Bool} {line : Bytes} {msg : ScLogMessage}
    (hkept : Kept conn.net) (hatt : Attached Synced cxt conn line)
    (hroom : msg.content.size = BUFSIZE)
    (hstore : storeLine inp complete line msg = .ok cxt.messageBuffer)
    (hpiece : IsPiece complete line) (hmem : ∀ n, (inp.heap 2).malloc n = true)
    (h : exchangeData (Link.net cfg sender) inp (dataHeader line.length cxt) conn
      = .ok (ret, cxt', conn')) :
    Kept conn'.net ∧ Attached Synced cxt' conn' [] ∧ Settled ret cxt' conn' ∧
      (ret ≠ ERR_MUST_RECONNECT → Up conn') := by
  rcases hatt with hdown | ⟨hup, hsync⟩
  · obtain ⟨hret, hdown', hsame⟩ := hdown.exchangeData h
    exact ⟨hshares.kept_unheard hkept hsame, Or.inl hdown', Or.inl ⟨hret, hdown'⟩,
      absurd hret⟩
  · obtain ⟨m, hcxt, -⟩ := exchangeData_cxt h
    -- Whatever becomes of the response, the aggregator keeps the line that it handled.
    have hhandled : ∀ {r : Handled}, Handles cfg sender
        (dataHeader line.length cxt).messageBuffer.frame conn.net conn'.net r →
        Kept conn'.net ∧ ∀ m, Synced { cxt with messageBuffer := m } conn'.net [] :=
      fun hr => hshares.handles hkept hsync hroom hstore hpiece hr
    rcases hup.exchangeData hroom hstore (hshares.attached hsync).1 hmem h with
      ⟨hret, hdown', hlost | ⟨r, hr⟩⟩ | ⟨hret, hup', hnothing, r, hr⟩
    · exact ⟨hshares.lost hkept hlost, Or.inl hdown', Or.inl ⟨hret, hdown'⟩, absurd hret⟩
    · exact ⟨(hhandled hr).1, Or.inl hdown', Or.inl ⟨hret, hdown'⟩, absurd hret⟩
    · refine ⟨(hhandled hr).1, Or.inr ⟨hup', ?_⟩, Or.inr ⟨?_, hnothing⟩, fun _ => hup'⟩
      · rw [hcxt]
        exact (hhandled hr).2 m
      · rw [hret]
        decide

/-- The line in hand is sent. An attached context has its channel number, and needs no second
registration. -/
theorem sendLine {ret : Int} {complete : Bool} {line : Bytes} {msg : ScLogMessage}
    {cxt1 : ScFollowContext} {conn1 : ScAggregatorConnection Link}
    (hkept : Kept conn.net) (hatt : Attached Synced cxt conn line)
    (hroom : msg.content.size = BUFSIZE)
    (hstore : storeLine inp complete line msg = .ok cxt.messageBuffer)
    (hpiece : IsPiece complete line) (hmem : ∀ n, (inp.heap 2).malloc n = true)
    (hchan : Follower.ensureChannel (Link.net cfg sender) md5 inp cxt conn = .ok (cxt1, conn1))
    (h : Follower.exchangeData (Link.net cfg sender) inp (dataHeader line.length cxt1) conn1
      = .ok (ret, cxt', conn')) :
    Kept conn'.net ∧ Attached Synced cxt' conn' [] ∧ Settled ret cxt' conn' ∧
      (ret ≠ ERR_MUST_RECONNECT → Up conn') := by
  rcases hatt with hdown | ⟨hup, hsync⟩
  · obtain ⟨rfl, hdown1, hsame⟩ := hdown.ensureChannel hchan
    exact hshares.exchangeData (hshares.kept_unheard hkept hsame) (Or.inl hdown1) hroom hstore
      hpiece hmem h
  -- A context that is in step has its channel, so no second INIT is sent.
  · have hchannel : cxt.channel ≠ 0 := by
      intro hzero
      apply (hshares.attached hsync).1
      rw [hzero]
      rfl
    obtain ⟨rfl, rfl⟩ := ensureChannel_of_ne hchannel hchan
    exact hshares.exchangeData hkept (Or.inr ⟨hup, hsync⟩) hroom hstore hpiece hmem h

/-- The first part of a run on a connection that works. When it ends the run, the context
still has no channel. -/
theorem ensureOpen {ret : Option Int} (hkept : Kept conn.net) (hup : Up conn)
    (hidle : Idle name cxt) (hstep : InStep Apart Synced cxt conn.net)
    (hmem : ∀ n, (inp.heap 0).malloc n = true)
    (h : ensureOpen (Link.net cfg sender) md5 inp cxt conn = .ok (ret, cxt', conn')) :
    Kept conn'.net ∧
      (ret = none ∧ Attached Synced cxt' conn' [] ∨
        ret = some 1 ∧ conn' = conn ∧ InStep Apart Synced cxt' conn.net) := by
  rcases ensureOpen_cases h with ⟨hfd, rfl, rfl, rfl⟩ | ⟨-, -, rfl, rfl, rfl⟩ |
    ⟨hclosed, hfail, rfl, rfl, rfl⟩ | ⟨hclosed, hopen, rfl, ret1, hinit⟩
  · refine ⟨hkept, Or.inl ⟨rfl, Or.inr ⟨hup, ?_⟩⟩⟩
    rcases hstep with hloose | hsync
    · exact absurd (Int.le_of_lt hloose.fd) (Int.not_le.mpr hfd)
    · exact hsync
  · -- A descriptor that is not -1 counts as open.
    exact ⟨hkept, Or.inr ⟨rfl, rfl, hstep⟩⟩
  -- The file cannot be opened, and the context stays closed.
  · refine ⟨hkept, Or.inr ⟨rfl, rfl, ?_⟩⟩
    rcases hstep with hloose | hsync
    · exact Or.inl ⟨hloose.apart, hfail, hloose.empty⟩
    · exact absurd hclosed (hshares.attached hsync).2
  · rcases hstep with hloose | hsync
    · have hidle1 : Idle name { cxt with
          fd := inp.opened.fd, mode := inp.opened.mode, offset := 0 } :=
        ⟨hidle.name_eq, hidle.room, hidle.valid⟩
      have hne : inp.opened.fd ≠ -1 := by omega
      obtain ⟨hkept', hatt⟩ := hshares.initFile hkept hup hloose.apart hidle1.name_eq hne
        hloose.empty hmem hinit
      exact ⟨hkept', Or.inl ⟨rfl, hatt⟩⟩
    · exact absurd hclosed (hshares.attached hsync).2

/-- One run on a connection that works. The context is in step with the aggregator after it,
or the connection is down. -/
theorem run {ret : Int} (hfile : inp.file = file) (hup : Up conn) (hkept : Kept conn.net)
    (hidle : Idle name cxt) (hnothing : cxt.messageBuffer.code = SCM_MSG_NONE)
    (hstep : InStep Apart Synced cxt conn.net) (hmem : ∀ k n, (inp.heap k).malloc n = true)
    (h : runFollowContext (Link.net cfg sender) md5 inp cxt conn = .ok (ret, cxt', conn')) :
    Kept conn'.net ∧ (Down conn' ∨ Up conn' ∧ InStep Apart Synced cxt' conn'.net) ∧
      Settled ret cxt' conn' := by
  obtain ⟨ret1, cxt1, conn1, hopen, hrest⟩ := runFollowContext_of_nothing hup.opened hnothing h
  obtain ⟨hkept1, hcase1⟩ := hshares.ensureOpen hkept hup hidle hstep (hmem 0) hopen
  have hidle1 := hidle.continues (ensureOpen_continues hidle.valid hopen)
  have hmsg1 : cxt1.messageBuffer.code = SCM_MSG_NONE := by
    rw [ensureOpen_messageBuffer hopen]
    exact hnothing
  -- An attached context is in step with the aggregator when it has no line in hand.
  have hinStep : ∀ {cxt : ScFollowContext} {conn : ScAggregatorConnection Link},
      Attached Synced cxt conn [] → Down conn ∨ Up conn ∧ InStep Apart Synced cxt conn.net :=
    fun hatt => hatt.imp id fun hsync => ⟨hsync.1, Or.inr hsync.2⟩
  rcases hrest with ⟨hret, rfl, rfl⟩ | ⟨rfl, ret2, cb, cxt2, hfill, hrest⟩
  · rcases hcase1 with ⟨hnone, -⟩ | ⟨hone, rfl, hstep1⟩
    · rw [hnone] at hret
      cases hret
    · rw [hone] at hret
      cases hret
      exact ⟨hkept, Or.inr ⟨hup, hstep1⟩, Or.inr ⟨by decide, hmsg1⟩⟩
  rcases hcase1 with ⟨-, hatt1⟩ | ⟨hsome, -⟩
  swap
  · cases hsome
  obtain ⟨got, line, complete, htook, hended, hline⟩ := fillMessage_took hidle1.valid hfill
  have hatt2 : Attached Synced cxt2 conn1 line :=
    hatt1.imp id fun hsync => ⟨hsync.1, hshares.took hfile hsync.2 htook⟩
  rcases hrest with ⟨rfl, rfl, rfl⟩ | ⟨rfl, cxt3, conn3, hchan, hex⟩
  · -- There is no line to send.
    obtain ⟨rfl, hmsg2, hne⟩ := hended nofun
    refine ⟨hkept1, hinStep hatt2, Or.inr ⟨fun heq => hne (by rw [heq]), ?_⟩⟩
    rw [hmsg2]
    exact hmsg1
  · obtain ⟨rfl, hstore, hpiece⟩ := hline rfl
    obtain ⟨hkept', hatt, hdone, -⟩ :=
      hshares.sendLine hkept1 hatt2 hidle1.room hstore hpiece (hmem 2) hchan hex
    exact ⟨hkept', hinStep hatt, hdone⟩

end

end Shares

/-! ### What an exchange leaves alone -/

/-- Nothing of a path changed at the aggregator: its file and the channels for it are as they
were. -/
structure Spares (path : Bytes) (l l' : Link) : Prop where
  file : l'.fs.file path = l.fs.file path
  channels : ∀ c : ScChannel, c.filenameFullpath = path →
    (c ∈ l'.conn.channelList ↔ c ∈ l.conn.channelList)

/-- A step that does nothing spares every path. -/
theorem Spares.refl (path : Bytes) (l : Link) : Spares path l l := ⟨rfl, fun _ _ => Iff.rfl⟩

/-- Two steps that spare a path spare it together. -/
theorem Spares.trans {path : Bytes} {l l' l'' : Link} (h : Spares path l l')
    (h' : Spares path l' l'') : Spares path l l'' :=
  ⟨h'.file.trans h.file, fun c hc => (h'.channels c hc).trans (h.channels c hc)⟩

/-- A step that changes no file and no channel spares every path. -/
theorem Spares.of_same {path : Bytes} {l l' : Link} (hfs : l'.fs = l.fs)
    (hconn : l'.conn = l.conn) : Spares path l l' where
  file := by rw [hfs]
  channels _ _ := by rw [hconn]

/-- A registration spares every path but the one of the new channel. -/
theorem Registers.spares {cfg : Config} {sender : Sender} {cxt : ScFollowContext} {l l' : Link}
    {c : ScChannel} {answer : Frame} (h : Registers cfg sender cxt l l' c answer) {path : Bytes}
    (hpath : path ≠ c.filenameFullpath) : Spares path l l' where
  file := by rw [h.fs]
  channels d hd := by
    rw [h.conn, List.mem_cons]
    refine ⟨fun hmem => hmem.resolve_left ?_, Or.inr⟩
    rintro rfl
    exact hpath hd.symm

/-- The channels after a write to one of them. -/
theorem mem_update {conn : ScConnection} (hwf : conn.WellFormed) {c c' d : ScChannel}
    (hc : c ∈ conn.channelList) (hid : c'.id = c.id) :
    d ∈ (conn.update c').channelList ↔ d = c' ∨ d ∈ conn.channelList ∧ d ≠ c := by
  -- Distinct channels have distinct ids.
  have hsame : ∀ e ∈ conn.channelList, e.id = c'.id → e = c := fun e he heq =>
    List.inj_on_of_nodup_map hwf.nodup he hc (heq.trans hid)
  unfold ScConnection.update
  simp only [List.mem_map]
  constructor
  · rintro ⟨e, he, rfl⟩
    split
    · exact Or.inl rfl
    · rename_i hne
      exact Or.inr ⟨he, fun heq => hne (by rw [heq, hid])⟩
  · rintro (rfl | ⟨hd, hne⟩)
    · exact ⟨c, hc, by rw [if_pos hid.symm]⟩
    · exact ⟨d, hd, if_neg fun heq => hne (hsame d hd heq)⟩

/-- A request for one channel spares every path but the one of the channel. -/
theorem spares_update {l l' : Link} {c c' : ScChannel} (hwf : l.conn.WellFormed)
    (hc : c ∈ l.conn.channelList) (hid : c'.id = c.id)
    (hfull : c'.filenameFullpath = c.filenameFullpath) (hconn : l'.conn = l.conn.update c')
    (hfiles : ∀ p, p ≠ c.filenameFullpath → l'.fs.file p = l.fs.file p) {path : Bytes}
    (hpath : path ≠ c.filenameFullpath) : Spares path l l' where
  file := hfiles path hpath
  channels d hd := by
    rw [hconn, mem_update hwf hc hid]
    constructor
    · rintro (rfl | ⟨hmem, -⟩)
      · exact absurd (hd.symm.trans hfull) hpath
      · exact hmem
    · intro hmem
      refine Or.inr ⟨hmem, ?_⟩
      rintro rfl
      exact hpath hd.symm

/-! ### A line on one of several channels -/

/-- A DATA request on a channel of the connection: its text goes to the buffer of that channel,
or to the files with the buffered bytes. -/
theorem branches_of_data_on {cfg : Config} {complete : Bool} {time : BitVec 64} {text : Bytes}
    {c : ScChannel} {channel : BitVec 16} {call : Call} {msg : ScLogMessage} {conn : ScConnection}
    {fs : Fs} {r : Handled}
    (hframe : IsFrame msg.frame SCM_MSG_DATA channel (Req.data channel complete time text).content)
    (hsize : msg.content.size = BUFSIZE)
    (hfit : (Req.data channel complete time text).content.length ≤ BUFSIZE)
    (hchannel : channel ≠ 0) (hlookup : scConnectionChannel conn channel.toInt = some c)
    (h : handle cfg call.heap call.chunks msg conn fs = .ok r) :
    ∃ buffer', r.conn = conn.update { c with buffer := buffer' } ∧
      if complete then recordText cfg call.heap conn c time (.ok text) fs = .ok (buffer', r.fs)
      else r.fs = fs ∧ bufferText call.heap c.buffer text.length (.ok text) = .ok buffer' := by
  have hreads : Reads msg (.data channel complete time text) := reads_of_frame hframe nofun
  obtain ⟨hcode, hnumber, hattr, htime, htext⟩ := hreads
  have hwhole := wholeData_of_frame hframe hsize hfit
  unfold handle at h
  simp only [hcode, hnumber, handlerFor_data hchannel, hlookup] at h
  obtain ⟨buffer', hconn, -, hbranch⟩ := handlerData_eq_ok hwhole h
  rw [htime, htext] at hbranch
  refine ⟨buffer', hconn, ?_⟩
  -- The attribute decides between the record and the buffer.
  by_cases hcomplete : complete = true
  · rw [if_neg (hattr.mpr hcomplete)] at hbranch
    rw [if_pos hcomplete]
    exact hbranch
  · have hopen : attrOf msg &&& ATTR_TOP = 0 := by
      by_contra hne
      exact hcomplete (hattr.mp hne)
    rw [if_pos hopen] at hbranch
    rw [if_neg hcomplete]
    exact hbranch

end Compostela.System
