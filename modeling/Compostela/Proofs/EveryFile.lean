import Mathlib.Data.List.Perm.Subperm
import Compostela.Proofs.Resume
import Compostela.System.Host

/-!
# `Compostela.Proofs.EveryFile`: every byte of every followed file once

A follower with any number of contexts on one connection, in a mode with separate files only.
`Copy` is a followed file with its separate file. In every state that a run of the main loop
reaches, each separate file is a prefix of its own file that ends with a whole line: no line
of another file gets into it, whatever the order of the registrations, reads, losses and
reconnections. A file that is no separate file is never touched.

`Kept` is what the aggregator keeps for all copies, and `Synced` ties one context to its own
channel. A run of one context is the rule of `System/Shared`. `passLoop_kept` puts the runs of
a pass together, where each run spares the paths of the other contexts, and `Running` is the
invariant of the events.

The copies are the names of the configured patterns at every tick, and each has its own file
name and its own path. There are fewer than `2 ^ 15` of them, so that every channel number
fits the 16 bits of a header.
-/

set_option autoImplicit false

namespace Compostela.Proofs.EveryFile

open Compostela.Common
open Compostela.Memory
open Compostela.Runs
open Compostela.Aggregator
open Compostela.Follower
open Compostela.System
open Compostela.Proofs.Resume (separate WholeLines SeparateOnly components)
open Link

/-- A followed file, its display name and the path of its separate file. -/
structure Copy where
  filename : Bytes
  displayName : Bytes
  path : Bytes

/-- The copies of a follower: their separate files are told apart by the paths, and their
contexts by the file names. -/
structure CopiesFor (cfg : Config) (addr : Option Bytes) (copies : List Copy) : Prop where
  separate : ∀ o ∈ copies, SeparateOnly cfg addr o.displayName o.path
  filenames : (copies.map Copy.filename).Nodup
  paths : (copies.map Copy.path).Nodup
  few : copies.length < 2 ^ 15

/-- A copy is known by the name of its followed file. -/
theorem CopiesFor.eq_of_filename {cfg : Config} {addr : Option Bytes} {copies : List Copy}
    (h : CopiesFor cfg addr copies) {o o' : Copy} (ho : o ∈ copies) (ho' : o' ∈ copies)
    (heq : o.filename = o'.filename) : o = o' := List.inj_on_of_nodup_map h.filenames ho ho' heq

/-- A copy is known by the path of its separate file. -/
theorem CopiesFor.eq_of_path {cfg : Config} {addr : Option Bytes} {copies : List Copy}
    (h : CopiesFor cfg addr copies) {o o' : Copy} (ho : o ∈ copies) (ho' : o' ∈ copies)
    (heq : o.path = o'.path) : o = o' := List.inj_on_of_nodup_map h.paths ho ho' heq

/-! ### The invariant -/

/-- The channel of a copy. -/
structure IsCopy (cfg : Config) (files : Bytes → Bytes) (o : Copy) (fs : Fs) (c : ScChannel) :
    Prop where
  path_eq : c.filenameFullpath = o.path
  context_eq : c.aggregateContext = findAggregateContext cfg o.path
  sub_file : separate o.path fs ++ c.buffer.unread <+: files o.filename
  pending : LF ∉ c.buffer.unread

/-- What the aggregator keeps, whatever happens to the connection. No channel is released, so
the largest number counts the channels. -/
structure Kept (cfg : Config) (addr : Option Bytes) (files : Bytes → Bytes) (copies : List Copy)
    (l : Link) : Prop where
  results : l.fs.results = []
  addr_eq : l.conn.remoteAddr = addr
  wf : l.conn.WellFormed
  counted : maxId l.conn.channelList ≤ l.conn.channelList.length
  nodup : (l.conn.channelList.map ScChannel.filenameFullpath).Nodup
  whole : ∀ o ∈ copies, WholeLines (separate o.path l.fs)
  sub_file : ∀ o ∈ copies, separate o.path l.fs <+: files o.filename
  channels : ∀ c ∈ l.conn.channelList, ∃ o ∈ copies, IsCopy cfg files o l.fs c

/-- The aggregator has no channel for a path. -/
def Absent (path : Bytes) (l : Link) : Prop :=
  ∀ c ∈ l.conn.channelList, c.filenameFullpath ≠ path

/-- The context is registered, and the file up to its offset is at the aggregator or in
hand. -/
structure Synced (path file : Bytes) (cxt : ScFollowContext) (l : Link) (c : ScChannel)
    (line : Bytes) : Prop where
  mem : c ∈ l.conn.channelList
  path_eq : c.filenameFullpath = path
  channel : cxt.channel = c.id
  small : c.id < 2 ^ 15
  pos : 0 < c.id
  fd : cxt.fd ≠ -1
  offset : cxt.offset ≤ file.length
  bytes : file.take cxt.offset =
    separate path l.fs ++ c.buffer.unread ++ line ++ cxt.buffer.unread

/-- A context of a copy between two runs: it has no channel yet, or is in step with its
channel. -/
def Steps (files : Bytes → Bytes) (o : Copy) (cxt : ScFollowContext) (l : Link) : Prop :=
  Shares.InStep (Absent o.path)
    (fun cxt l line => ∃ c, Synced o.path (files o.filename) cxt l c line) cxt l

/-- No file at the aggregator loses what it has. -/
def Grows (l l' : Link) : Prop := ∀ p, separate p l.fs <+: separate p l'.fs

/-- Files that stay as they are lose nothing. -/
theorem Grows.of_same {l l' : Link} (h : l'.fs = l.fs) : Grows l l' :=
  fun p => ⟨[], by rw [List.append_nil, h]⟩

/-- What is there after both of two steps was there after the first. -/
theorem Grows.trans {l l' l'' : Link} (h : Grows l l') (h' : Grows l' l'') : Grows l l'' :=
  fun p => (h p).trans (h' p)

/-! ### Changes that keep it -/

section
variable {cfg : Config} {addr : Option Bytes} {files : Bytes → Bytes} {copies : List Copy}
  {path file line : Bytes} {cxt cxt' : ScFollowContext} {l l' : Link} {c : ScChannel}

/-- `Kept` speaks of the files and the channels of a link only. -/
theorem Kept.same (h : Kept cfg addr files copies l) (hfs : l'.fs = l.fs)
    (hconn : l'.conn = l.conn) : Kept cfg addr files copies l' := by
  obtain ⟨hresults, haddr, hwf, hcounted, hnodup, hwhole, hsub, hchannels⟩ := h
  rw [← hfs] at hresults hwhole hsub hchannels
  rw [← hconn] at haddr hwf hcounted hnodup hchannels
  exact ⟨hresults, haddr, hwf, hcounted, hnodup, hwhole, hsub, hchannels⟩

/-- Whether a path has a channel is seen in the channels alone. -/
theorem Absent.same (h : Absent path l) (hconn : l'.conn = l.conn) : Absent path l' := by
  unfold Absent
  rw [hconn]
  exact h

/-- What spares a path registers no channel for it. -/
theorem Absent.spares (h : Absent path l) (hspares : Spares path l l') : Absent path l' :=
  fun c hc heq => h c ((hspares.channels c heq).mp hc) heq

/-- What spares the path of a context leaves the context in step. -/
theorem Synced.spares (h : Synced path file cxt l c line) (hspares : Spares path l l') :
    Synced path file cxt l' c line where
  mem := (hspares.channels c h.path_eq).mpr h.mem
  path_eq := h.path_eq
  channel := h.channel
  small := h.small
  pos := h.pos
  fd := h.fd
  offset := h.offset
  bytes := by
    have hbytes := h.bytes
    unfold separate at hbytes ⊢
    rw [hspares.file]
    exact hbytes

/-- A context stays in step when its file grows. -/
theorem Synced.grow (h : Synced path file cxt l c line) (more : Bytes) :
    Synced path (file ++ more) cxt l c line where
  mem := h.mem
  path_eq := h.path_eq
  channel := h.channel
  small := h.small
  pos := h.pos
  fd := h.fd
  offset := by
    rw [List.length_append]
    exact Nat.le_add_right_of_le h.offset
  bytes := by
    rw [List.take_append_of_le_length h.offset]
    exact h.bytes

/-- A read moves a line from the file and the context's buffer into hand. -/
theorem Synced.took {inp : RunInput} {got : Bytes} (h : Synced path inp.file cxt l c [])
    (htook : Took inp cxt cxt' got line) : Synced path inp.file cxt' l c line := by
  obtain ⟨rest, hrest⟩ := htook.fetched
  have hoffset : cxt'.offset = cxt.offset + got.length := by rw [htook.rest]
  have hlen := congrArg List.length hrest
  rw [List.length_append, List.length_drop] at hlen
  have hle := h.offset
  refine ⟨h.mem, h.path_eq, ?_, h.small, h.pos, ?_, by omega, ?_⟩
  · rw [htook.rest]
    exact h.channel
  · rw [htook.rest]
    exact h.fd
  · have hgot : (inp.file.drop cxt.offset).take got.length = got := by
      rw [← hrest, List.take_left]
    calc inp.file.take cxt'.offset
        = inp.file.take cxt.offset ++ got := by rw [hoffset, List.take_add, hgot]
      _ = separate path l.fs ++ c.buffer.unread ++ (cxt.buffer.unread ++ got) := by
          rw [h.bytes, List.append_nil, List.append_assoc]
      _ = separate path l.fs ++ c.buffer.unread ++ line ++ cxt'.buffer.unread := by
          rw [htook.bytes, List.append_assoc _ line]

/-- What spares the path of a copy leaves its context as it is, registered or not. -/
theorem Steps.spares {o : Copy} (h : Steps files o cxt l) (hspares : Spares o.path l l') :
    Steps files o cxt l' := by
  rcases h with hloose | ⟨c, hsync⟩
  · exact Or.inl ⟨hloose.apart.spares hspares, hloose.fd, hloose.empty⟩
  · exact Or.inr ⟨c, hsync.spares hspares⟩

end

/-! ### The registration -/

/-- A small number survives the 16 bits of a header. -/
theorem toInt_number {id : Int} (hpos : 0 < id) (hsmall : id < 2 ^ 15) :
    (BitVec.ofInt 16 id).toInt = id := by
  rw [BitVec.toInt_ofInt]
  exact Int.bmod_eq_of_le (by omega) (by omega)

/-- A small positive channel number is not zero in the 16 bits of a header. -/
theorem number_ne_zero {id : Int} (hpos : 0 < id) (hsmall : id < 2 ^ 15) :
    BitVec.ofInt 16 id ≠ 0 := by
  intro hzero
  have hnumber := toInt_number hpos hsmall
  have hnil : (0 : BitVec 16).toInt = 0 := by decide
  rw [hzero, hnil] at hnumber
  omega

section
variable {cfg : Config} {addr : Option Bytes} {files : Bytes → Bytes} {copies : List Copy}
  {sender : Sender} {cxt : ScFollowContext} {l l' : Link} {c : ScChannel} {answer : Frame}

/-- The channels have the paths of different copies. -/
theorem Kept.length_le (h : Kept cfg addr files copies l) :
    l.conn.channelList.length ≤ copies.length := by
  have hsub : l.conn.channelList.map ScChannel.filenameFullpath ⊆ copies.map Copy.path := by
    intro p hp
    obtain ⟨c, hc, rfl⟩ := List.mem_map.mp hp
    obtain ⟨o, ho, hcopy⟩ := h.channels c hc
    rw [hcopy.path_eq]
    exact List.mem_map_of_mem ho
  have hle := (List.subperm_of_subset h.nodup hsub).length_le
  simpa using hle

/-- The channel that a registration makes is the one of the path that belongs to the display
name. -/
theorem registered_copy {name path : Bytes} (hmode : SeparateOnly cfg addr name path)
    (hname : cxt.displayName = name) (haddr : l.conn.remoteAddr = addr)
    (h : Registers cfg sender cxt l l' c answer) :
    c.filenameFullpath = path ∧ c.aggregateContext = findAggregateContext cfg path ∧
      c.buffer.unread = [] ∧ c.id = maxId l.conn.channelList + 1 := by
  obtain ⟨heap, channel, hnew, rfl⟩ := h.channel
  obtain ⟨-, -, hempty, hcontext⟩ := scChannelNew_eq_ok hnew
  have hfull : channel.filenameFullpath = path := by
    obtain ⟨heap', hpath'⟩ := hmode.path_eq
    obtain ⟨p, hp, hchan⟩ := bind_eq_ok.mp hnew
    cases hchan
    rw [haddr, hname] at hp
    exact pathcat_unique hp hpath'
  refine ⟨hfull, ?_, hempty, rfl⟩
  show channel.aggregateContext = _
  rw [hcontext, hfull]

/-- What the aggregator keeps after the registration of a copy that had no channel. -/
theorem Kept.registers (hcopies : CopiesFor cfg addr copies) {o : Copy} (ho : o ∈ copies)
    (hkept : Kept cfg addr files copies l) (hname : cxt.displayName = o.displayName)
    (habsent : Absent o.path l) (h : Registers cfg sender cxt l l' c answer) :
    Kept cfg addr files copies l' := by
  obtain ⟨hpath, hcontext, hempty, hid⟩ :=
    registered_copy (hcopies.separate o ho) hname hkept.addr_eq h
  have hle := hkept.length_le
  have hfew := hcopies.few
  have hcounted := hkept.counted
  -- An id is at most the number of channels, and there are no more channels than files.
  have hroom : maxId l.conn.channelList ≠ INT_MAX := by
    unfold INT_MAX
    omega
  refine ⟨?_, ?_, h.wellFormed hkept.wf hroom, ?_, ?_, ?_, ?_, ?_⟩
  · rw [h.fs]
    exact hkept.results
  · rw [h.conn]
    exact hkept.addr_eq
  · -- The new number is the largest.
    rw [h.conn]
    show maxId (c :: l.conn.channelList) ≤ (c :: l.conn.channelList).length
    rw [List.length_cons]
    rcases maxId_cases (c :: l.conn.channelList) with hzero | ⟨d, hd, hmax⟩
    · omega
    · rcases List.mem_cons.mp hd with rfl | hd
      · omega
      · have := le_maxId hd
        omega
  · rw [h.conn, List.map_cons, List.nodup_cons]
    -- The path had no channel before.
    refine ⟨?_, hkept.nodup⟩
    intro hmem
    obtain ⟨d, hd, heq⟩ := List.mem_map.mp hmem
    exact habsent d hd (heq.trans hpath)
  · rw [h.fs]
    exact hkept.whole
  · rw [h.fs]
    exact hkept.sub_file
  · rw [h.conn, h.fs]
    intro d hd
    rcases List.mem_cons.mp hd with rfl | hd
    · refine ⟨o, ho, hpath, hcontext, ?_, ?_⟩
      · rw [hempty, List.append_nil]
        exact hkept.sub_file o ho
      · rw [hempty]
        exact List.not_mem_nil
    · exact hkept.channels d hd

/-- A registration moves the context to the end of the separate file. -/
theorem synced_registered (hcopies : CopiesFor cfg addr copies) {o : Copy} (ho : o ∈ copies)
    (hsize : (files o.filename).length < 2 ^ 63) (hkept : Kept cfg addr files copies l)
    (hname : cxt.displayName = o.displayName) (habsent : Absent o.path l)
    (h : Registers cfg sender cxt l l' c answer) (hfd : cxt.fd ≠ -1)
    (hnil : cxt.buffer.unread = []) :
    Synced o.path (files o.filename) (resumed cxt c l.fs) l' c [] := by
  obtain ⟨hpath, -, hempty, hid⟩ :=
    registered_copy (hcopies.separate o ho) hname hkept.addr_eq h
  have hsub := hkept.sub_file o ho
  have hmem : c ∈ l'.conn.channelList := by
    rw [h.conn]
    exact List.mem_cons_self ..
  -- The number is at most the number of copies.
  have hkept' := hkept.registers hcopies ho hname habsent h
  have hle := hkept'.length_le
  have hfew := hcopies.few
  have hcounted := hkept'.counted
  have hmax := le_maxId hmem
  have hpos := hkept'.wf.pos c hmem
  have hsmall : c.id < 2 ^ 15 := by omega
  have hfsize : l.fs.size c.filenameFullpath = (separate o.path l.fs).length := by
    rw [hpath]
    rfl
  have hshort : l.fs.size c.filenameFullpath < 2 ^ 63 := by
    rw [hfsize]
    exact Nat.lt_of_le_of_lt hsub.length_le hsize
  rw [resumed_eq cxt hshort, toInt_number hpos hsmall, hfsize]
  refine ⟨hmem, hpath, rfl, hsmall, hpos, hfd, hsub.length_le, ?_⟩
  show (files o.filename).take (separate o.path l.fs).length
    = separate o.path l'.fs ++ c.buffer.unread ++ [] ++ cxt.buffer.unread
  rw [h.fs, hempty, hnil, List.append_nil, List.append_nil, List.append_nil]
  exact (List.prefix_iff_eq_take.mp hsub).symm

end

/-! ### The exchange of a line -/

/-- The aggregator took a line on the channel `c`, which is `c'` after it: a piece goes to the
channel's buffer, and a complete line behind the buffered bytes into the separate file. -/
structure TakesLine (path line : Bytes) (complete : Bool) (c c' : ScChannel) (l l' : Link) :
    Prop where
  conn : l'.conn = l.conn.update c'
  id_eq : c'.id = c.id
  path_eq : c'.filenameFullpath = c.filenameFullpath
  context_eq : c'.aggregateContext = c.aggregateContext
  results : l'.fs.results = []
  bytes : separate path l'.fs ++ c'.buffer.unread = separate path l.fs ++ c.buffer.unread ++ line
  branch : if complete then c'.buffer.unread = [] else l'.fs = l.fs
  others : ∀ p, p ≠ path → l'.fs.file p = l.fs.file p

section
variable {cfg : Config} {addr : Option Bytes} {files : Bytes → Bytes} {copies : List Copy}
  {o : Copy} {sender : Sender} {inp : RunInput} {cxt : ScFollowContext} {l l' : Link}
  {c c' : ScChannel} {complete : Bool} {line : Bytes} {msg : ScLogMessage} {r : Handled}

/-- The channel of a context that is in step is the one of its copy. -/
theorem Kept.isCopy (hcopies : CopiesFor cfg addr copies) (ho : o ∈ copies)
    (hkept : Kept cfg addr files copies l) (hc : c ∈ l.conn.channelList)
    (hpath : c.filenameFullpath = o.path) : IsCopy cfg files o l.fs c := by
  obtain ⟨o', ho', hcopy⟩ := hkept.channels c hc
  rw [hcopies.eq_of_path ho ho' (hpath.symm.trans hcopy.path_eq)]
  exact hcopy

/-- The DATA request of a context that is in step, when it is handled. -/
theorem takesLine (hcopies : CopiesFor cfg addr copies) (ho : o ∈ copies)
    (hkept : Kept cfg addr files copies l)
    (hsync : Synced o.path (files o.filename) cxt l c line)
    (hroom : msg.content.size = BUFSIZE)
    (hstore : storeLine inp complete line msg = .ok cxt.messageBuffer)
    (h : Handles cfg sender (dataHeader line.length cxt).messageBuffer.frame l l' r) :
    ∃ c', TakesLine o.path line complete c c' l l' := by
  have hsend : Sendable (dataHeader line.length cxt).messageBuffer SCM_MSG_DATA (.ofInt 16 c.id)
      (Req.data (.ofInt 16 c.id) complete inp.time line).content :=
    sendable_dataHeader hsync.channel hroom hstore
  have hchannel : BitVec.ofInt 16 c.id ≠ 0 := number_ne_zero hsync.pos hsync.small
  have hlookup : scConnectionChannel l.conn (BitVec.ofInt 16 c.id).toInt = some c := by
    rw [toInt_number hsync.pos hsync.small]
    exact scConnectionChannel_of_mem hkept.wf hsync.mem
  obtain ⟨call, m, hm, hmsize, hhandle⟩ := h.handled
  obtain ⟨buffer', hupdate, hbranch⟩ := branches_of_data_on (by rw [hm]; exact hsend.frame)
    hmsize hsend.fits hchannel hlookup hhandle
  have hvalid := hkept.wf.valid c hsync.mem
  refine ⟨{ c with buffer := buffer' }, ?_⟩
  by_cases hcomplete : complete = true
  · rw [if_pos hcomplete] at hbranch
    -- In separate-only mode no merged record resets the buffer before the line is appended.
    obtain ⟨ctx, hctx, hsep, hmerge⟩ := (hcopies.separate o ho).mode
    have hall : c.aggregateContext = some ctx := by
      rw [(hkept.isCopy hcopies ho hsync.mem hsync.path_eq).context_eq, hctx]
    obtain ⟨fs1, record, -, hresults, hmerged, happended, hempty⟩ :=
      recordText_eq_ok hvalid hkept.results hbranch
    simp only [hall, Option.all_some, hsep, hmerge, Bool.false_eq_true, if_false, if_true]
      at hmerged happended hempty
    subst hmerged
    have hnil := hempty (Or.inr trivial)
    rw [hsync.path_eq, ← h.fs] at happended
    rw [← h.fs] at hresults
    refine ⟨h.conn.trans hupdate, rfl, rfl, rfl, hresults, ?_, ?_, happended.file_other⟩
    · have hfile := happended.file_self
      simp only [separate, hfile, Option.getD_some, hnil, List.append_nil, List.append_assoc]
    · rw [if_pos hcomplete]
      exact hnil
  · rw [if_neg hcomplete] at hbranch
    obtain ⟨hsame, hbuffer⟩ := hbranch
    rw [← h.fs] at hsame
    obtain ⟨-, hunread⟩ := bufferText_eq_ok hvalid hbuffer
    refine ⟨h.conn.trans hupdate, rfl, rfl, rfl, ?_, ?_, ?_, ?_⟩
    · rw [hsame]
      exact hkept.results
    · rw [hsame]
      show separate o.path l.fs ++ buffer'.unread = _
      rw [hunread, List.append_assoc]
    · rw [if_neg hcomplete]
      exact hsame
    · intro p hp
      rw [hsame]

/-- The channels keep their paths. -/
theorem TakesLine.paths (hwf : l.conn.WellFormed) (hc : c ∈ l.conn.channelList)
    (h : TakesLine o.path line complete c c' l l') :
    l'.conn.channelList.map ScChannel.filenameFullpath =
      l.conn.channelList.map ScChannel.filenameFullpath := by
  rw [h.conn, ScConnection.update]
  simp only [List.map_map]
  apply List.map_congr_left
  intro d hd
  simp only [Function.comp]
  split
  · rename_i heq
    rw [h.path_eq, List.inj_on_of_nodup_map hwf.nodup hd hc (heq.trans h.id_eq)]
  · rfl

/-- The channel's buffer holds the beginning of a line, and no newline. -/
theorem TakesLine.pending (h : TakesLine o.path line complete c c' l l')
    (hpiece : IsPiece complete line) (hnone : LF ∉ c.buffer.unread) : LF ∉ c'.buffer.unread := by
  have hbranch := h.branch
  cases hcomplete : complete with
  | true =>
    rw [hcomplete, if_pos rfl] at hbranch
    simp [hbranch]
  | false =>
    rw [hcomplete, if_neg Bool.false_ne_true] at hbranch
    rw [hcomplete, IsPiece, if_neg Bool.false_ne_true] at hpiece
    -- The separate file is as it was, so the line is in the buffer.
    have hbytes := h.bytes
    rw [hbranch, List.append_assoc, List.append_cancel_left_eq] at hbytes
    simp [hbytes, hnone, hpiece]

/-- What the aggregator keeps after it took the line in hand. -/
theorem Kept.takesLine (hcopies : CopiesFor cfg addr copies) (ho : o ∈ copies)
    (hkept : Kept cfg addr files copies l)
    (hsync : Synced o.path (files o.filename) cxt l c line) (hpiece : IsPiece complete line)
    (hwf : l'.conn.WellFormed) (h : TakesLine o.path line complete c c' l l') :
    Kept cfg addr files copies l' := by
  have hother : ∀ o' ∈ copies, o' ≠ o → separate o'.path l'.fs = separate o'.path l.fs := by
    intro o' ho' hne
    unfold separate
    rw [h.others o'.path fun heq => hne (hcopies.eq_of_path ho' ho heq)]
  have hsub : separate o.path l'.fs ++ c'.buffer.unread <+: files o.filename := by
    refine List.IsPrefix.trans ⟨cxt.buffer.unread, ?_⟩ (List.take_prefix cxt.offset _)
    rw [h.bytes, hsync.bytes]
  have hids : l'.conn.channelList.map ScChannel.id = l.conn.channelList.map ScChannel.id := by
    rw [h.conn]
    exact ScConnection.map_id_update _ _
  refine ⟨h.results, ?_, hwf, ?_, ?_, ?_, ?_, ?_⟩
  · rw [h.conn]
    exact hkept.addr_eq
  · have hle : maxId l'.conn.channelList ≤ maxId l.conn.channelList :=
      maxId_le_of_ids fun id hid => hids ▸ hid
    have hlen : l'.conn.channelList.length = l.conn.channelList.length := by
      have := congrArg List.length hids
      simpa using this
    have := hkept.counted
    omega
  · rw [h.paths hkept.wf hsync.mem]
    exact hkept.nodup
  · intro o' ho'
    by_cases heq : o' = o
    · subst heq
      cases hcomplete : complete with
      | true =>
        -- The separate file ends with the line.
        obtain ⟨init, hinit⟩ := hpiece.ends hcomplete
        have hbranch := h.branch
        have hbytes := h.bytes
        rw [hcomplete, if_pos rfl] at hbranch
        rw [hbranch, List.append_nil, hinit] at hbytes
        exact Or.inr ⟨separate o'.path l.fs ++ c.buffer.unread ++ init, by
          rw [hbytes, List.append_assoc _ init]⟩
      | false =>
        have hbranch := h.branch
        rw [hcomplete, if_neg Bool.false_ne_true] at hbranch
        rw [hbranch]
        exact hkept.whole o' ho'
    · rw [hother o' ho' heq]
      exact hkept.whole o' ho'
  · intro o' ho'
    by_cases heq : o' = o
    · rw [heq]
      exact (List.prefix_append _ _).trans hsub
    · rw [hother o' ho' heq]
      exact hkept.sub_file o' ho'
  · intro d hd
    rw [h.conn, mem_update hkept.wf hsync.mem h.id_eq] at hd
    rcases hd with rfl | ⟨hd, hne⟩
    · have hcopy := hkept.isCopy hcopies ho hsync.mem hsync.path_eq
      refine ⟨o, ho, h.path_eq.trans hsync.path_eq, ?_, hsub, h.pending hpiece hcopy.pending⟩
      rw [h.context_eq]
      exact hcopy.context_eq
    · obtain ⟨o', ho', hcopy⟩ := hkept.channels d hd
      -- Another channel is the one of another copy.
      have hne' : o' ≠ o := by
        rintro rfl
        exact hne (List.inj_on_of_nodup_map hkept.nodup hd hsync.mem
          (hcopy.path_eq.trans hsync.path_eq.symm))
      refine ⟨o', ho', hcopy.path_eq, hcopy.context_eq, ?_, hcopy.pending⟩
      rw [hother o' ho' hne']
      exact hcopy.sub_file

/-- A line of one copy spares the files and channels of all others. -/
theorem TakesLine.spares (hwf : l.conn.WellFormed)
    (hsync : Synced o.path (files o.filename) cxt l c line)
    (h : TakesLine o.path line complete c c' l l') {p : Bytes} (hp : p ≠ o.path) :
    Spares p l l' := by
  have hpath := hsync.path_eq
  refine spares_update hwf hsync.mem h.id_eq h.path_eq h.conn ?_ ?_
  · rw [hpath]
    exact h.others
  · rw [hpath]
    exact hp

/-- No file loses anything when the aggregator takes a line. -/
theorem TakesLine.grows (h : TakesLine o.path line complete c c' l l') : Grows l l' := by
  intro p
  by_cases hp : p = o.path
  · subst hp
    have hbranch := h.branch
    split at hbranch
    · have hbytes := h.bytes
      rw [hbranch, List.append_nil, List.append_assoc] at hbytes
      rw [hbytes]
      exact List.prefix_append _ _
    · exact ⟨[], by rw [List.append_nil, hbranch]⟩
  · have hsame : separate p l'.fs = separate p l.fs := by
      unfold separate
      rw [h.others p hp]
    exact ⟨[], by rw [List.append_nil, hsame]⟩

/-- When the aggregator took the line, the context is in step again, with nothing in hand. -/
theorem TakesLine.synced (hwf : l.conn.WellFormed)
    (hsync : Synced o.path (files o.filename) cxt l c line)
    (h : TakesLine o.path line complete c c' l l') (m : ScLogMessage) :
    Synced o.path (files o.filename) { cxt with messageBuffer := m } l' c' [] where
  mem := by
    rw [h.conn, mem_update hwf hsync.mem h.id_eq]
    exact Or.inl rfl
  path_eq := h.path_eq.trans hsync.path_eq
  channel := hsync.channel.trans h.id_eq.symm
  small := h.id_eq ▸ hsync.small
  pos := h.id_eq ▸ hsync.pos
  fd := hsync.fd
  offset := hsync.offset
  bytes := by
    show (files o.filename).take cxt.offset
      = separate o.path l'.fs ++ c'.buffer.unread ++ [] ++ cxt.buffer.unread
    rw [h.bytes, List.append_nil]
    exact hsync.bytes

/-- What one run of the context of a copy does: the aggregator keeps what it has, every path
but the one of the copy is spared, and no file loses anything. -/
theorem CopiesFor.shares (hcopies : CopiesFor cfg addr copies) (ho : o ∈ copies)
    (hsize : (files o.filename).length < 2 ^ 63) (l0 : Link) :
    Shares cfg o.displayName (files o.filename)
      (fun l => Kept cfg addr files copies l ∧ (∀ p, p ≠ o.path → Spares p l0 l) ∧ Grows l0 l)
      (Absent o.path)
      (fun cxt l line => ∃ c, Synced o.path (files o.filename) cxt l c line) where
  isName := (hcopies.separate o ho).isName
  lost h hlost := ⟨h.1.same hlost.fs hlost.conn,
    fun p hp => (h.2.1 p hp).trans (.of_same hlost.fs hlost.conn),
    h.2.2.trans (.of_same hlost.fs)⟩
  registers := by
    -- The channel is new, and those of the other files are as they were.
    rintro sender cxt l l' c answer ⟨hkept, hspares, hgrows⟩ hname habsent hreg
    obtain ⟨hpath, -⟩ := registered_copy (hcopies.separate o ho) hname hkept.addr_eq hreg
    refine ⟨⟨hkept.registers hcopies ho hname habsent hreg, fun p hp => ?_,
      hgrows.trans (.of_same hreg.fs)⟩, fun hfd hnil => ?_⟩
    · exact (hspares p hp).trans (hreg.spares (by rw [hpath]; exact hp))
    · exact ⟨c, synced_registered hcopies ho hsize hkept hname habsent hreg hfd hnil⟩
  handles := by
    -- The line goes to the channel and the file of this copy alone.
    rintro sender inp cxt l l' complete line msg r ⟨hkept, hspares, hgrows⟩ ⟨c, hsync⟩ hroom
      hstore hpiece hr
    obtain ⟨c', htakes⟩ := EveryFile.takesLine hcopies ho hkept hsync hroom hstore hr
    have hkept' := hkept.takesLine hcopies ho hsync hpiece (hr.wellFormed hkept.wf) htakes
    refine ⟨⟨hkept', fun p hp => ?_, hgrows.trans htakes.grows⟩,
      fun m => ⟨c', htakes.synced hkept.wf hsync m⟩⟩
    exact (hspares p hp).trans (htakes.spares hkept.wf hsync hp)
  attached := by
    rintro cxt l line ⟨c, hsync⟩
    rw [hsync.channel]
    exact ⟨number_ne_zero hsync.pos hsync.small, hsync.fd⟩
  unheard := by
    rintro cxt l l' line ⟨c, hsync⟩ hsame
    exact ⟨c, hsync.spares (.of_same hsame.fs hsame.conn)⟩
  took := by
    rintro inp cxt cxt' l got line hfile ⟨c, hsync⟩ htook
    rw [← hfile] at hsync ⊢
    exact ⟨c, hsync.took htook⟩

end

/-! ### A pass -/

/-- The context of a copy. -/
structure Follows (o : Copy) (cxt : ScFollowContext) : Prop where
  filename : cxt.filename = some o.filename
  idle : Idle o.displayName cxt

/-- Every context of a list is in step with its own channel. -/
def AllStep (files : Bytes → Bytes) (copies : List Copy) (contexts : List Listed) (l : Link) :
    Prop := ∀ c ∈ contexts, ∃ o ∈ copies, Follows o c.cxt ∧ Steps files o c.cxt l

/-- The connection is down, or it works and every context is in step. -/
def Phase (files : Bytes → Bytes) (copies : List Copy) (contexts : List Listed)
    (conn : ScAggregatorConnection Link) : Prop :=
  Down conn ∨ Up conn ∧ AllStep files copies contexts conn.net

/-- The path belongs to the file of a context of the list. -/
def Touched (copies : List Copy) (contexts : List Listed) (p : Bytes) : Prop :=
  ∃ c ∈ contexts, ∃ o ∈ copies, c.cxt.filename = some o.filename ∧ o.path = p

section
variable {cfg : Config} {addr : Option Bytes} {files : Bytes → Bytes} {copies : List Copy}
  {md5 : Md5} {inputs : Nat → RunInput} {conn conn' : ScAggregatorConnection Link}
  {l l' : Link} {contexts : List Listed}

/-- The contexts of a list stay in step when their paths are spared. -/
theorem AllStep.spares (h : AllStep files copies contexts l)
    (hspares : ∀ p, Touched copies contexts p → Spares p l l') :
    AllStep files copies contexts l' := by
  intro c hc
  obtain ⟨o, ho, hfollows, hsteps⟩ := h c hc
  exact ⟨o, ho, hfollows, hsteps.spares (hspares o.path ⟨c, hc, o, ho, hfollows.filename, rfl⟩)⟩

/-- One run of a context of the list. -/
theorem run_kept (hcopies : CopiesFor cfg addr copies)
    (hsize : ∀ name, (files name).length < 2 ^ 63) {c : Listed} {o : Copy} (ho : o ∈ copies)
    (hfollows : Follows o c.cxt) (hfile : (inputs c.serial).file = files o.filename)
    (hmem : ∀ k n, ((inputs c.serial).heap k).malloc n = true)
    (hkept : Kept cfg addr files copies conn.net)
    (hnothing : c.cxt.messageBuffer.code = SCM_MSG_NONE)
    (hphase : Down conn ∨ Up conn ∧ Steps files o c.cxt conn.net) {ret : Int}
    {cxt' : ScFollowContext}
    (h : runFollowContext (listedNet cfg c) md5 (inputs c.serial) c.cxt conn
      = .ok (ret, cxt', conn')) :
    Kept cfg addr files copies conn'.net ∧
      ((∀ p, p ≠ o.path → Spares p conn.net conn'.net) ∧ Grows conn.net conn'.net) ∧
      Follows o cxt' ∧ (Down conn' ∨ Up conn ∧ Up conn' ∧ Steps files o cxt' conn'.net) ∧
      Shares.Settled ret cxt' conn' := by
  have hcontinues := runFollowContext_continues hfollows.idle.valid h
  have hfollows' : Follows o cxt' :=
    ⟨hcontinues.filename.trans hfollows.filename, hfollows.idle.continues hcontinues⟩
  -- On a connection that is lost nothing reaches the aggregator.
  rcases hphase with hdown | ⟨hup, hsteps⟩
  · obtain ⟨hdown', hsame⟩ := hdown.run h
    exact ⟨hkept.same hsame.fs hsame.conn,
      ⟨fun p _ => .of_same hsame.fs hsame.conn, .of_same hsame.fs⟩, hfollows', Or.inl hdown',
      hdown.run_settled hfollows.idle.valid hnothing h⟩
  · obtain ⟨⟨hkept', hspares⟩, hphase', hdone⟩ :=
      (hcopies.shares ho (hsize o.filename) conn.net).run hfile hup
        ⟨hkept, fun p _ => .refl p conn.net, .of_same rfl⟩ hfollows.idle hnothing hsteps hmem h
    exact ⟨hkept', hspares, hfollows', hphase'.imp id fun hup' => ⟨hup, hup'⟩, hdone⟩

/-- A connection that is down stays down for the rest of the pass. -/
theorem passLoop_down {rc : Bool} {contexts' : List Listed} (hdown : Down conn)
    (h : passLoop (listedNet cfg) md5 inputs contexts conn = .ok (rc, contexts', conn')) :
    Down conn' := by
  induction contexts generalizing conn rc contexts' with
  | nil =>
    cases h
    exact hdown
  | cons c rest ih =>
    obtain ⟨⟨ret, cxt, conn1⟩, hrun, h⟩ := bind_eq_ok.mp h
    simp only at h
    split at h
    · cases h
    obtain ⟨⟨rc1, rest', conn2⟩, hloop, h⟩ := bind_eq_ok.mp h
    cases h
    exact ih (hdown.run hrun).1 hloop

/-- The runs of a pass, one after the other. Every path that belongs to no context of the list
is spared. -/
theorem passLoop_kept (hcopies : CopiesFor cfg addr copies)
    (hsize : ∀ name, (files name).length < 2 ^ 63)
    (hmem : ∀ serial k n, ((inputs serial).heap k).malloc n = true)
    (hfiles : ∀ c ∈ contexts, (inputs c.serial).file = files (c.cxt.filename.getD []))
    (hfollows : ∀ c ∈ contexts, ∃ o ∈ copies, Follows o c.cxt)
    (hnothing : ∀ c ∈ contexts, c.cxt.messageBuffer.code = SCM_MSG_NONE)
    (hdistinct : (contexts.map fun c => c.cxt.filename).Nodup)
    (hkept : Kept cfg addr files copies conn.net) (hphase : Phase files copies contexts conn)
    {rc : Bool} {contexts' : List Listed}
    (h : passLoop (listedNet cfg) md5 inputs contexts conn = .ok (rc, contexts', conn')) :
    Kept cfg addr files copies conn'.net ∧
      ((∀ p, ¬ Touched copies contexts p → Spares p conn.net conn'.net) ∧
        Grows conn.net conn'.net) ∧
      contexts'.map Listed.serial = contexts.map Listed.serial ∧
      contexts'.map (fun c => c.cxt.filename) = contexts.map (fun c => c.cxt.filename) ∧
      (∀ c ∈ contexts', ∃ o ∈ copies, Follows o c.cxt) ∧ Phase files copies contexts' conn' ∧
      (if rc then Down conn' else ∀ c ∈ contexts', c.cxt.messageBuffer.code = SCM_MSG_NONE) := by
  induction contexts generalizing conn rc contexts' with
  | nil =>
    cases h
    exact ⟨hkept, ⟨fun p _ => .refl p _, .of_same rfl⟩, rfl, rfl, hfollows, hphase, hnothing⟩
  | cons c rest ih =>
    obtain ⟨⟨ret, cxt, conn1⟩, hrun, h⟩ := bind_eq_ok.mp h
    simp only at h
    split at h
    · cases h
    obtain ⟨⟨rc1, rest', conn2⟩, hloop, h⟩ := bind_eq_ok.mp h
    cases h
    have hc := List.mem_cons_self (a := c) (l := rest)
    obtain ⟨o, ho, hfollow⟩ := hfollows c hc
    obtain ⟨hother, hrestnodup⟩ := List.nodup_cons.mp hdistinct
    -- The other contexts of the list have other paths.
    have hapart : ∀ p, Touched copies rest p → p ≠ o.path := by
      rintro p ⟨d, hd, o', ho', hname, rfl⟩ heq
      apply hother
      show c.cxt.filename ∈ _
      rw [hfollow.filename, ← hcopies.eq_of_path ho' ho heq, ← hname]
      exact List.mem_map_of_mem hd
    have hstep1 : Down conn ∨ Up conn ∧ Steps files o c.cxt conn.net := by
      refine hphase.imp id fun ⟨hup, hsteps⟩ => ⟨hup, ?_⟩
      obtain ⟨o', ho', hfollow', hsteps'⟩ := hsteps c hc
      have hname := hfollow'.filename.symm.trans hfollow.filename
      rw [← hcopies.eq_of_filename ho' ho (Option.some.inj hname)]
      exact hsteps'
    have hfile : (inputs c.serial).file = files o.filename := by
      rw [hfiles c hc, hfollow.filename, Option.getD_some]
    obtain ⟨hkept1, ⟨hspares1, hgrows1⟩, hfollow1, hphase1, hdone1⟩ :=
      run_kept hcopies hsize ho hfollow
      hfile (hmem _) hkept (hnothing c hc) hstep1 hrun
    have hrest : Phase files copies rest conn1 := by
      rcases hphase1 with hdown | ⟨hup, hup1, -⟩
      · exact Or.inl hdown
      · refine hphase.elim (fun hdown => ?_) fun hall => Or.inr ⟨hup1, ?_⟩
        · have hdead := (hdown hup.opened).alive
          rw [hup.alive] at hdead
          cases hdead
        · have hrestStep : AllStep files copies rest conn.net :=
            fun d hd => hall.2 d (List.mem_cons_of_mem c hd)
          exact hrestStep.spares fun p hp => hspares1 p (hapart p hp)
    obtain ⟨hkept2, ⟨hspares2, hgrows2⟩, hserials, hnames, hfollows2, hphase2, hdone2⟩ :=
      ih (fun d hd => hfiles d (List.mem_cons_of_mem c hd))
        (fun d hd => hfollows d (List.mem_cons_of_mem c hd))
        (fun d hd => hnothing d (List.mem_cons_of_mem c hd)) hrestnodup hkept1 hrest hloop
    refine ⟨hkept2, ⟨?_, hgrows1.trans hgrows2⟩, ?_, ?_, ?_, ?_, ?_⟩
    · intro p hp
      have hne : p ≠ o.path := fun heq =>
        hp ⟨c, hc, o, ho, hfollow.filename, heq.symm⟩
      have hnot : ¬ Touched copies rest p := fun ⟨d, hd, hmore⟩ =>
        hp ⟨d, List.mem_cons_of_mem c hd, hmore⟩
      exact (hspares1 p hne).trans (hspares2 p hnot)
    · rw [List.map_cons, List.map_cons, hserials]
    · rw [List.map_cons, List.map_cons, hnames]
      show cxt.filename :: _ = _
      rw [hfollow1.filename, hfollow.filename]
    · intro d hd
      rcases List.mem_cons.mp hd with rfl | hd
      · exact ⟨o, ho, hfollow1⟩
      · exact hfollows2 d hd
    · -- The first context stays in step while the others run.
      rcases hphase2 with hdown | ⟨hup2, hall2⟩
      · exact Or.inl hdown
      · rcases hphase1 with hdown1 | ⟨-, -, hsteps1⟩
        · exact Or.inl (passLoop_down hdown1 hloop)
        · refine Or.inr ⟨hup2, fun d hd => ?_⟩
          rcases List.mem_cons.mp hd with rfl | hd
          · exact ⟨o, ho, hfollow1, hsteps1.spares
              (hspares2 o.path fun htouched => hapart o.path htouched rfl)⟩
          · exact hall2 d hd
    · rcases hdone1 with ⟨hret, hdown1⟩ | ⟨hret, hnothing1⟩
      · -- The connection is down for the rest of the pass.
        have hdown2 := passLoop_down hdown1 hloop
        simpa [hret] using hdown2
      · cases rc1 with
        | true => simpa using hdone2
        | false =>
          have hnone : ∀ d ∈ rest', d.cxt.messageBuffer.code = SCM_MSG_NONE := hdone2
          simpa [hret, hnothing1] using hnone

end

/-! ### An event -/

/-- The invariant of a machine. A copy whose context was not made yet has no channel. -/
structure Running (cfg : Config) (addr : Option Bytes) (copies : List Copy) (s : Host) :
    Prop where
  size : ∀ name, (s.files name).length < 2 ^ 63
  kept : Kept cfg addr s.files copies s.loop.conn.net
  follows : ∀ c ∈ s.loop.contexts, ∃ o ∈ copies, Follows o c.cxt
  nothing : ∀ c ∈ s.loop.contexts, c.cxt.messageBuffer.code = SCM_MSG_NONE
  distinct : (s.loop.contexts.map fun c => c.cxt.filename).Nodup
  serials : (s.loop.contexts.map Listed.serial).Nodup
  below : ∀ c ∈ s.loop.contexts, c.serial < s.loop.contexts.length
  phase : Phase s.files copies s.loop.contexts s.loop.conn
  unused : Down s.loop.conn ∨ ∀ o ∈ copies,
    (∀ c ∈ s.loop.contexts, c.cxt.filename ≠ some o.filename) → Absent o.path s.loop.conn.net

/-- What an event gets from its surroundings: memory, and names that are those of the
copies. -/
def Served (copies : List Copy) (patterns : List ScConfigPatternEntry) : Host.Event → Prop
  | .grow _ _ => True
  | .loop (.tick clock _ _) =>
      ∀ pe ∈ patterns, ∃ o ∈ copies, entryNames clock pe = .ok (o.filename, o.displayName)
  | .loop (.pass inputs _ _) => ∀ serial k n, ((inputs serial).heap k).malloc n = true
  | .loop (.drop _) => True

section
variable {cfg : Config} {addr : Option Bytes} {files : Bytes → Bytes} {copies : List Copy}
  {patterns : List ScConfigPatternEntry} {md5 : Md5} {s s' : Host}
  {conn conn' : ScAggregatorConnection Link} {contexts contexts' : List Listed}

/-- A file grows. -/
theorem Kept.grow {l : Link} (h : Kept cfg addr files copies l) {files' : Bytes → Bytes}
    (hgrow : ∀ name, files name <+: files' name) : Kept cfg addr files' copies l where
  results := h.results
  addr_eq := h.addr_eq
  wf := h.wf
  counted := h.counted
  nodup := h.nodup
  whole := h.whole
  sub_file o ho := (h.sub_file o ho).trans (hgrow o.filename)
  channels c hc := by
    obtain ⟨o, ho, hcopy⟩ := h.channels c hc
    exact ⟨o, ho, hcopy.path_eq, hcopy.context_eq, hcopy.sub_file.trans (hgrow o.filename),
      hcopy.pending⟩

/-- The contexts of a list stay in step when files grow. -/
theorem AllStep.grow {l : Link} (h : AllStep files copies contexts l) {files' : Bytes → Bytes}
    (hgrow : ∀ name, files name <+: files' name) : AllStep files' copies contexts l := by
  intro c hc
  obtain ⟨o, ho, hfollows, hloose | ⟨ch, hsync⟩⟩ := h c hc
  · exact ⟨o, ho, hfollows, Or.inl hloose⟩
  · obtain ⟨more, hmore⟩ := hgrow o.filename
    refine ⟨o, ho, hfollows, Or.inr ⟨ch, ?_⟩⟩
    rw [← hmore]
    exact hsync.grow more

/-- The invariant of the events holds of files that have grown. -/
theorem Running.grow (h : Running cfg addr copies s) {files' : Bytes → Bytes}
    (hgrow : ∀ name, s.files name <+: files' name) (hsize : ∀ name, (files' name).length < 2 ^ 63) :
    Running cfg addr copies { s with files := files' } where
  size := hsize
  kept := h.kept.grow hgrow
  follows := h.follows
  nothing := h.nothing
  distinct := h.distinct
  serials := h.serials
  below := h.below
  phase := h.phase.imp id fun hup => ⟨hup.1, hup.2.grow hgrow⟩
  unused := h.unused

/-- A connection on which only the fates of the frames to come change. -/
theorem withFates_up (h : Up conn) (fates : List Fate) : Up (withFates fates conn) :=
  ⟨h.opened, h.alive, h.unread⟩

/-- The fates of the frames to come have no part in the phase. -/
theorem Phase.withFates (h : Phase files copies contexts conn) (fates : List Fate) :
    Phase files copies contexts (withFates fates conn) := by
  rcases h with hdown | ⟨hup, hall⟩
  · exact Or.inl (hdown.withFates fates)
  · refine Or.inr ⟨withFates_up hup fates, hall.spares fun p _ => ?_⟩
    exact .of_same rfl rfl

/-- The fates of the frames to come have no part in the invariant of the events. -/
theorem Running.withFates (h : Running cfg addr copies s) (fates : List Fate) :
    Running cfg addr copies ⟨s.files, s.loop.contexts, withFates fates s.loop.conn⟩ where
  size := h.size
  kept := h.kept.same rfl rfl
  follows := h.follows
  nothing := h.nothing
  distinct := h.distinct
  serials := h.serials
  below := h.below
  phase := h.phase.withFates fates
  unused := h.unused.imp (fun hdown => hdown.withFates fates) fun hunused => hunused

/-- A new connection, after every context was reset. -/
theorem running_reset (hsize : ∀ name, (files name).length < 2 ^ 63)
    (hkept : Kept cfg addr files copies conn.net)
    (hfollows : ∀ c ∈ contexts, ∃ o ∈ copies, Follows o c.cxt)
    (hdistinct : (contexts.map fun c => c.cxt.filename).Nodup)
    (hserials : (contexts.map Listed.serial).Nodup)
    (hbelow : ∀ c ∈ contexts, c.serial < contexts.length) (hdown : Down conn)
    (reconnected : Bool) :
    Running cfg addr copies ⟨files, resetContexts contexts, (scAggregatorConnectionOpen
      (if reconnected then some (Link.reconnect addr) else none) conn).2⟩ := by
  -- A reset keeps the names, the serial and the display name of a context.
  have hmap : ∀ c ∈ resetContexts contexts, ∃ d ∈ contexts,
      c = { d with cxt := scFollowContextReset d.cxt } := by
    intro c hc
    obtain ⟨d, hd, rfl⟩ := List.mem_map.mp hc
    exact ⟨d, hd, rfl⟩
  have hfollows' : ∀ c ∈ resetContexts contexts, ∃ o ∈ copies, Follows o c.cxt := by
    intro c hc
    obtain ⟨d, hd, rfl⟩ := hmap c hc
    obtain ⟨o, ho, hfollow⟩ := hfollows d hd
    exact ⟨o, ho, hfollow.filename, hfollow.idle.name_eq, hfollow.idle.room,
      hfollow.idle.valid.reset⟩
  have hnames : (resetContexts contexts).map (fun c => c.cxt.filename) =
      contexts.map fun c => c.cxt.filename := by
    rw [resetContexts, List.map_map]
    rfl
  have hsame : (resetContexts contexts).map Listed.serial = contexts.map Listed.serial := by
    rw [resetContexts, List.map_map]
    rfl
  have hlength : (resetContexts contexts).length = contexts.length := List.length_map _
  refine ⟨hsize, ?_, hfollows', ?_, ?_, ?_, ?_, ?_, ?_⟩
  · cases reconnected with
    | false => exact hkept
    | true =>
      exact ⟨hkept.results, rfl, ScConnection.wellFormed_nil addr, Int.le_refl 0, List.nodup_nil,
        hkept.whole, hkept.sub_file, nofun⟩
  · intro c hc
    obtain ⟨d, -, rfl⟩ := hmap c hc
    rfl
  · rw [hnames]
    exact hdistinct
  · rw [hsame]
    exact hserials
  · intro c hc
    obtain ⟨d, hd, rfl⟩ := hmap c hc
    rw [hlength]
    exact hbelow d hd
  · cases reconnected with
    | false => exact Or.inl hdown
    | true =>
      -- The new connection has no channels, so every context starts over.
      refine Or.inr ⟨⟨rfl, rfl, rfl⟩, fun c hc => ?_⟩
      obtain ⟨o, ho, hfollow⟩ := hfollows' c hc
      obtain ⟨d, -, rfl⟩ := hmap c hc
      exact ⟨o, ho, hfollow, Or.inl ⟨nofun, Int.negSucc_lt_zero 0, rfl⟩⟩
  · cases reconnected with
    | false => exact Or.inl hdown
    | true => exact Or.inr fun o ho hnone => nofun

/-- What an event does to the files: those that are no separate files of the copies stay as
they are, and none loses what it has. -/
structure Within (copies : List Copy) (l l' : Link) : Prop where
  others : ∀ p, (∀ o ∈ copies, o.path ≠ p) → l'.fs.file p = l.fs.file p
  grows : Grows l l'

/-- An event that leaves the files as they are is within its bounds. -/
theorem Within.of_same {l l' : Link} (h : l'.fs = l.fs) : Within copies l l' where
  others p _ := by rw [h]
  grows := .of_same h

/-- Two events in a row are within the bounds of one. -/
theorem Within.trans {l l' l'' : Link} (h : Within copies l l') (h' : Within copies l' l'') :
    Within copies l l'' where
  others p hp := (h'.others p hp).trans (h.others p hp)
  grows := h.grows.trans h'.grows

/-- A pass of the main loop. -/
theorem running_pass (hcopies : CopiesFor cfg addr copies) (h : Running cfg addr copies s)
    {found : Nat → RunInput} (hmem : ∀ serial k n, ((found serial).heap k).malloc n = true)
    {fates : List Fate} {reconnected : Bool}
    (hpass : mainPass (listedNet cfg) md5 (s.inputs found)
      (if reconnected then some (Link.reconnect addr) else none) s.loop.contexts
      (withFates fates s.loop.conn) = .ok (contexts', conn')) :
    Running cfg addr copies ⟨s.files, contexts', conn'⟩ ∧
      Within copies s.loop.conn.net conn'.net ∧
      contexts'.map (fun c => c.cxt.filename) = s.loop.contexts.map fun c => c.cxt.filename := by
  obtain ⟨⟨rc, contexts1, conn1⟩, hloop, hpass⟩ := bind_eq_ok.mp hpass
  have hmem' : ∀ serial k n, ((s.inputs found serial).heap k).malloc n = true := hmem
  have hkept0 : Kept cfg addr s.files copies (withFates fates s.loop.conn).net :=
    h.kept.same rfl rfl
  obtain ⟨hkept, ⟨hspares, hgrows⟩, hserials, hnames, hfollows, hphase, hdone⟩ := passLoop_kept
    hcopies h.size hmem' (fun c hc => Host.fileOf_of_mem h.serials hc)
    h.follows h.nothing h.distinct hkept0 (h.phase.withFates fates) hloop
  have hlength : contexts1.length = s.loop.contexts.length := by
    have := congrArg List.length hserials
    simpa using this
  have hdistinct1 : (contexts1.map fun c => c.cxt.filename).Nodup := by
    rw [hnames]
    exact h.distinct
  have hserials1 : (contexts1.map Listed.serial).Nodup := by
    rw [hserials]
    exact h.serials
  have hbelow1 : ∀ c ∈ contexts1, c.serial < contexts1.length := by
    intro c hc
    have hmem := List.mem_map_of_mem (f := Listed.serial) hc
    rw [hserials] at hmem
    obtain ⟨d, hd, heq⟩ := List.mem_map.mp hmem
    rw [hlength, ← heq]
    exact h.below d hd
  -- A path that belongs to no copy is touched by no context.
  have hwithin : Within copies s.loop.conn.net conn1.net :=
    ⟨fun p hp => (hspares p fun ⟨_, _, o, ho, _, hpath⟩ => hp o ho hpath).file, hgrows⟩
  cases rc with
  | true =>
    cases hpass
    refine ⟨running_reset h.size hkept hfollows hdistinct1 hserials1 hbelow1 hdone reconnected,
      ?_, ?_⟩
    · cases reconnected with
      | false => exact hwithin
      | true => exact ⟨hwithin.others, hwithin.grows⟩
    · rw [resetContexts, List.map_map]
      exact hnames
  | false =>
    cases hpass
    refine ⟨⟨h.size, hkept, hfollows, hdone, hdistinct1, hserials1, hbelow1, hphase, ?_⟩,
      hwithin, hnames⟩
    rcases h.unused with hdown | hunused
    · exact Or.inl (passLoop_down (hdown.withFates fates) hloop)
    · refine Or.inr fun o ho hnone => ?_
      -- The names of the contexts are as before.
      have hnone0 : ∀ c ∈ s.loop.contexts, c.cxt.filename ≠ some o.filename := by
        intro c hc heq
        have hmem := List.mem_map_of_mem (f := fun c : Listed => c.cxt.filename) hc
        rw [← hnames] at hmem
        obtain ⟨d, hd, hname⟩ := List.mem_map.mp hmem
        exact hnone d hd (hname.trans heq)
      have habsent : Absent o.path (withFates fates s.loop.conn).net := hunused o ho hnone0
      refine habsent.spares (hspares o.path ?_)
      rintro ⟨c, hc, o', ho', hname, hpath⟩
      rw [hcopies.eq_of_path ho' ho hpath] at hname
      exact hnone0 c hc hname

/-- The context of a copy that `do_rotate` just made. -/
def Fresh (copies : List Copy) (cxt : ScFollowContext) : Prop :=
  ∃ o ∈ copies, ∃ heap ftimestamp,
    cxt = scFollowContextNew heap (some o.filename) o.displayName ftimestamp BUFSIZE

/-- A context that `do_rotate` has just made follows one of the copies. -/
theorem Fresh.follows {cxt : ScFollowContext} (h : Fresh copies cxt) :
    ∃ o ∈ copies, Follows o cxt := by
  obtain ⟨o, ho, heap, ftimestamp, rfl⟩ := h
  exact ⟨o, ho, rfl, rfl, rfl, AzBuffer.valid_azBufferNew heap (by decide)⟩

/-- An entry whose names are those of a copy makes the context of the copy, or finds it. -/
theorem running_entry (hcopies : CopiesFor cfg addr copies) (h : Running cfg addr copies s)
    {clock : Clock} {heap : Heap} {pe : ScConfigPatternEntry} {o : Copy} (ho : o ∈ copies)
    (hnames : entryNames clock pe = .ok (o.filename, o.displayName))
    (hentry : rotateEntry (listedNet cfg) clock heap pe s.loop.contexts s.loop.conn
      = .ok (contexts', conn')) :
    conn' = s.loop.conn ∧ (∀ c ∈ contexts', c ∈ s.loop.contexts ∨ Fresh copies c.cxt) ∧
      Running cfg addr copies ⟨s.files, contexts', conn'⟩ := by
  obtain ⟨fn, dn, hnames', hcase⟩ := rotateEntry_cases hentry
  rw [hnames] at hnames'
  cases hnames'
  rcases hcase with ⟨c, -, -, rfl, rfl⟩ | ⟨rfl, ⟨hnone, rfl⟩ | ⟨c, ret, hfind, hother, -⟩⟩
  · exact ⟨rfl, fun c hc => Or.inl hc, h⟩
  -- No context has the name of the file, so none of them shares a channel with the new one.
  · have habsent : ∀ c ∈ s.loop.contexts, c.cxt.filename ≠ some o.filename := by
      intro c hc heq
      have := List.find?_eq_none.mp hnone c hc
      simp [heq] at this
    have hfresh : Fresh copies (scFollowContextNew heap (some o.filename) o.displayName
        pe.appendTimestamp BUFSIZE) := ⟨o, ho, heap, pe.appendTimestamp, rfl⟩
    have hfollow : Follows o (scFollowContextNew heap (some o.filename) o.displayName
        pe.appendTimestamp BUFSIZE) :=
      ⟨rfl, rfl, rfl, AzBuffer.valid_azBufferNew heap (by decide)⟩
    refine ⟨rfl, fun c hc => ?_, h.size, h.kept, ?_, ?_, ?_, ?_, ?_, ?_, ?_⟩
    · rcases List.mem_cons.mp hc with rfl | hc
      · exact Or.inr hfresh
      · exact Or.inl hc
    · intro c hc
      rcases List.mem_cons.mp hc with rfl | hc
      · exact ⟨o, ho, hfollow⟩
      · exact h.follows c hc
    · intro c hc
      rcases List.mem_cons.mp hc with rfl | hc
      · rfl
      · exact h.nothing c hc
    · rw [List.map_cons, List.nodup_cons]
      refine ⟨fun hmem => ?_, h.distinct⟩
      obtain ⟨c, hc, heq⟩ := List.mem_map.mp hmem
      exact habsent c hc heq
    · rw [List.map_cons, List.nodup_cons]
      refine ⟨fun hmem => ?_, h.serials⟩
      obtain ⟨c, hc, heq⟩ := List.mem_map.mp hmem
      exact absurd heq (Nat.ne_of_lt (h.below c hc))
    · intro c hc
      rw [List.length_cons]
      rcases List.mem_cons.mp hc with rfl | hc
      · exact Nat.lt_succ_self _
      · exact Nat.lt_succ_of_lt (h.below c hc)
    · rcases h.phase with hdown | ⟨hup, hall⟩
      · exact Or.inl hdown
      · refine Or.inr ⟨hup, fun c hc => ?_⟩
        rcases List.mem_cons.mp hc with rfl | hc
        -- While the connection is up, a file without a context has no channel.
        · have hnew : Absent o.path s.loop.conn.net := by
            refine h.unused.elim (fun hdown => ?_) fun hunused => hunused o ho habsent
            have hdead := (hdown hup.opened).alive
            rw [hup.alive] at hdead
            cases hdead
          exact ⟨o, ho, hfollow, Or.inl ⟨hnew, Int.negSucc_lt_zero 0, rfl⟩⟩
        · exact hall c hc
    · exact h.unused.imp id fun hunused o' ho' hall =>
        hunused o' ho' fun c hc => hall c (List.mem_cons_of_mem _ hc)
  · -- The context of the file has the display name already.
    have hname : c.cxt.filename = some o.filename := by simpa using List.find?_some hfind
    obtain ⟨o', ho', hfollow⟩ := h.follows c (List.mem_of_find?_eq_some hfind)
    have hsame := Option.some.inj (hfollow.filename.symm.trans hname)
    rw [hcopies.eq_of_filename ho' ho hsame] at hfollow
    exact absurd hfollow.idle.name_eq hother

/-- A call of `do_rotate` that finds the names of the copies sends nothing. -/
theorem running_tick (hcopies : CopiesFor cfg addr copies) {clock : Clock} {heap : Nat → Heap}
    (hnames : ∀ pe ∈ patterns, ∃ o ∈ copies,
      entryNames clock pe = .ok (o.filename, o.displayName))
    (h : Running cfg addr copies ⟨files, contexts, conn⟩)
    (htick : doRotate (listedNet cfg) clock heap patterns contexts conn
      = .ok (contexts', conn')) :
    conn' = conn ∧ (∀ c ∈ contexts', c ∈ contexts ∨ Fresh copies c.cxt) ∧
      Running cfg addr copies ⟨files, contexts', conn'⟩ := by
  induction patterns generalizing contexts conn with
  | nil =>
    cases htick
    exact ⟨rfl, fun c hc => Or.inl hc, h⟩
  | cons pe rest ih =>
    obtain ⟨⟨contexts1, conn1⟩, hentry, hrest⟩ := bind_eq_ok.mp htick
    obtain ⟨o, ho, hname⟩ := hnames pe (List.mem_cons_self ..)
    obtain ⟨rfl, hnew1, h1⟩ := running_entry hcopies h ho hname hentry
    obtain ⟨hconn, hnew, h'⟩ :=
      ih (fun pe' hpe' => hnames pe' (List.mem_cons_of_mem pe hpe')) h1 hrest
    exact ⟨hconn, fun c hc => (hnew c hc).elim (hnew1 c) Or.inr, h'⟩

/-- Every event keeps the invariant, and stays within the separate files of the copies. -/
theorem running_step (hcopies : CopiesFor cfg addr copies) (h : Running cfg addr copies s)
    {e : Host.Event} (hserved : Served copies patterns e)
    (hstep : s.step cfg md5 addr patterns e = .ok s') :
    Running cfg addr copies s' ∧ Within copies s.loop.conn.net s'.loop.conn.net := by
  cases e with
  | grow name bytes =>
    cases hstep
    split
    · rename_i hsize
      refine ⟨h.grow (fun n => ?_) (fun n => ?_), .of_same rfl⟩
      · split
        · exact List.prefix_append _ _
        · exact List.prefix_rfl
      · split
        · rename_i hn
          rw [hn]
          exact hsize
        · exact h.size n
    · exact ⟨h, .of_same rfl⟩
  | loop e =>
    obtain ⟨loop', hloop, hstep⟩ := bind_eq_ok.mp hstep
    cases hstep
    cases e with
    | tick clock heap fates =>
      obtain ⟨⟨contexts1, conn1⟩, htick, hloop⟩ := bind_eq_ok.mp hloop
      cases hloop
      obtain ⟨rfl, -, h1⟩ := running_tick hcopies hserved (h.withFates fates) htick
      exact ⟨h1, .of_same rfl⟩
    | pass found fates reconnected =>
      obtain ⟨⟨contexts1, conn1⟩, hpass, hloop⟩ := bind_eq_ok.mp hloop
      cases hloop
      obtain ⟨hrunning, hwithin, -⟩ := running_pass hcopies h hserved hpass
      exact ⟨hrunning, hwithin⟩
    | drop ending =>
      cases hloop
      have hdown : Down { s.loop.conn with net := s.loop.conn.net.cut ending } :=
        fun _ => Link.dead_cut _ _
      exact ⟨⟨h.size, h.kept.same rfl rfl, h.follows, h.nothing, h.distinct, h.serials, h.below,
        Or.inl hdown, Or.inl hdown⟩, .of_same rfl⟩

/-- Every run keeps the invariant, and stays within the separate files of the copies. -/
theorem running_run (hcopies : CopiesFor cfg addr copies) (h : Running cfg addr copies s)
    {es : List Host.Event} (hserved : ∀ e ∈ es, Served copies patterns e)
    (hrun : es.foldlM (Host.step cfg md5 addr patterns) s = .ok s') :
    Running cfg addr copies s' ∧ Within copies s.loop.conn.net s'.loop.conn.net := by
  refine run_invariant_of (I := fun s' =>
    Running cfg addr copies s' ∧ Within copies s.loop.conn.net s'.loop.conn.net) ?_ hserved
    ⟨h, .of_same rfl⟩ hrun
  intro s1 e s2 hinv hserved hstep
  obtain ⟨hrunning, hwithin⟩ := running_step hcopies hinv.1 hserved hstep
  exact ⟨hrunning, hinv.2.trans hwithin⟩

/-- Before the first event. -/
theorem running_start {opened : Bool} {fs : Fs} (hsize : ∀ name, (files name).length < 2 ^ 63)
    (hresults : fs.results = [])
    (hfiles : ∀ o ∈ copies, WholeLines (separate o.path fs) ∧
      separate o.path fs <+: files o.filename) :
    Running cfg addr copies (Host.start files fs addr opened) where
  size := hsize
  kept := ⟨hresults, rfl, ScConnection.wellFormed_nil addr, Int.le_refl 0, List.nodup_nil,
    fun o ho => (hfiles o ho).1, fun o ho => (hfiles o ho).2, nofun⟩
  follows := nofun
  nothing := nofun
  distinct := List.nodup_nil
  serials := List.nodup_nil
  below := nofun
  phase := by
    cases opened with
    | false => exact Or.inl nofun
    | true => exact Or.inr ⟨⟨rfl, rfl, rfl⟩, nofun⟩
  unused := Or.inr fun o ho hnone => nofun

end

/-! ### A small run -/

/-- The file `f` with the separate file `/l/a/n`, and the file `g` with `/l/a/m`. -/
def smallCopies : List Copy :=
  [⟨[102], [110], [47, 108, 47, 97, 47, 110]⟩, ⟨[103], [109], [47, 108, 47, 97, 47, 109]⟩]

/-- Separate files only, for both paths. -/
def copiesConfig : Config :=
  smallConfig (smallCopies.map fun o => ⟨o.path, false, true, false⟩)

def smallPatterns : List ScConfigPatternEntry :=
  smallCopies.map fun o => ⟨o.filename, some o.displayName, false, false⟩

def smallClock : Clock where
  strftime := fun _ => some []
  strftime_fits := by
    intro fmt s h
    cases h
    exact ⟨List.not_mem_nil, by decide⟩

/-- The two small copies have a configuration for separate files. -/
theorem copiesFor_small : CopiesFor copiesConfig (some [97]) smallCopies where
  separate o ho := by
    rcases List.mem_pair.mp ho with rfl | rfl
    · exact ⟨⟨by decide, by decide⟩, ⟨zeroHeap, rfl⟩, ⟨_, rfl, rfl, rfl⟩⟩
    · exact ⟨⟨by decide, by decide⟩, ⟨zeroHeap, rfl⟩, ⟨_, rfl, rfl, rfl⟩⟩
  filenames := by decide
  paths := by decide
  few := by decide

/-- A pass in which every context finds its file and reads all of it at once. -/
def smallPass (deliveries : List Delivery) : Host.Event :=
  .loop (.pass (fun _ => ⟨⟨3, 0x8000⟩, .chunk 100, 0, [], none, [], fun _ => zeroHeap⟩)
    (deliveries.map fun d => ⟨d, ⟨zeroHeap, []⟩, .eof⟩) true)

/-- The first lines of both files arrive on one connection. The beginning of the second line
of `f` reaches the aggregator, but its response is lost, and after the reconnection the line
is sent as a whole. -/
def smallEvents : List Host.Event :=
  [.grow [102] [97, LF, 98], .grow [103] [99, LF],
    .loop (.tick smallClock (fun _ => zeroHeap) []),
    smallPass [.answered, .answered, .answered, .answered], smallPass [.unanswered],
    .grow [102] [LF], smallPass [.answered, .answered, .answered]]

/-- The separate files of the small copies. -/
def smallFiles (s : Host) : List Bytes :=
  smallCopies.map fun o => separate o.path s.loop.conn.net.fs

end Compostela.Proofs.EveryFile
