import Compostela.Lib.Ranges
import Compostela.Proofs.Resume
import Compostela.System.History
import Mathlib.Data.List.Forall2

/-!
# `Compostela.Proofs.MergedOnce`: every line in the merged file once

A mode that merges records each completed line in the merged file, but the position that
`handler_init` returns is the size of the separate file. The two agree only while the separate
file gets the lines whole. It does not get the beginning of a line that came in pieces, because
`_do_merge_file` has taken it out of the buffer, and in a mode without separate files it gets
nothing. The next registration then returns a position before the end of the last line that
was recorded, and what is behind this position is read, sent and recorded again.

`Progress` adds up the frames of a history: the position in the followed file that they reach,
how much of it is buffered, the ranges that were recorded, and how many bytes of these the
separate file is missing. `RecordedOnce` says that every registration resumes right behind the last
recorded line and that the records are the lines of the file up to there, each once.
`merged_once` is the result for every run: this holds exactly when no registration finds bytes
missing. `line_merged_twice` is a run of a mode without separate files in which a line is
recorded twice.
-/

set_option autoImplicit false

namespace Compostela.Proofs.MergedOnce

open Compostela.Common
open Compostela.Memory
open Compostela.Runs
open Compostela.Ranges
open Compostela.Aggregator
open Compostela.Follower
open Compostela.System
open Compostela.Proofs.Resume
open Link

/-! ### The frames of a history -/

/-- The text of a DATA request. -/
def text (request : Bytes) : Bytes := request.drop (headerSize + cb0)

/-- The DATA request completes a line. -/
def completes (request : Bytes) : Bool :=
  htonl (word 32 ((request.drop headerSize).take 4)) &&& ATTR_TOP ≠ 0

/-- The position in the response to an INIT request. -/
def positionIn (response : Bytes) : Nat :=
  (bswap64 (word 64 ((response.drop headerSize).take 8))).toNat

/-- What the frames so far add up to. `reached` is a position in the followed file, and `held`
bytes up to it are in the channel's buffer. `merged` are the ranges that were recorded, newest
first, and `missing` of their bytes were not appended to the separate file. -/
structure Progress where
  reached : Nat
  held : Nat
  missing : Nat
  merged : List Range
  deriving DecidableEq, Repr

namespace Progress

/-- Nothing was sent. -/
def zero : Progress := ⟨0, 0, 0, []⟩

/-- The position behind the last line that was recorded. -/
def mergedEnd (p : Progress) : Nat :=
  match p.merged with
  | [] => 0
  | r :: _ => r.stop

/-- A piece of a line is buffered. -/
def piece (p : Progress) (length : Nat) : Progress :=
  { p with reached := p.reached + length, held := p.held + length }

/-- A line is completed. The separate file, if the mode has one, gets only the last piece. -/
def line (separates : Bool) (p : Progress) (length : Nat) : Progress where
  reached := p.reached + length
  held := 0
  missing := p.missing + if separates then p.held else p.held + length
  merged := ⟨p.reached - p.held, p.reached + length⟩ :: p.merged

/-- One more entry of the history. A frame without a response was not handled. -/
def next (separates : Bool) (p : Progress) : Item → Progress
  | .connected => { p with held := 0 }
  | .exchange x =>
      if x.response = [] then p
      else if codeOf x.request = SCM_MSG_INIT then
        { p with reached := positionIn x.response, held := 0 }
      else if codeOf x.request = SCM_MSG_DATA then
        if completes x.request then p.line separates (text x.request).length
        else p.piece (text x.request).length
      else p

end Progress

/-- The sum of a history. -/
def progress (separates : Bool) (log : List Item) : Progress :=
  log.foldl (Progress.next separates) .zero

/-- What holds of every INIT request that was handled, with the progress before it and the
position in its response. -/
def AtInit (P : Progress → Nat → Prop) (p : Progress) : Item → Prop
  | .connected => True
  | .exchange x =>
      x.response ≠ [] → codeOf x.request = SCM_MSG_INIT → P p (positionIn x.response)

instance (P : Progress → Nat → Prop) [∀ p n, Decidable (P p n)] (p : Progress) (item : Item) :
    Decidable (AtInit P p item) :=
  match item with
  | .connected => isTrue trivial
  | .exchange _ => inferInstanceAs (Decidable (_ → _ → _))

/-- What holds of every INIT request of a history that was handled. -/
def AtInits (separates : Bool) (P : Progress → Nat → Prop) (log : List Item) : Prop :=
  AtEach (Progress.next separates) (AtInit P) .zero log

/-- Every registration of a history resumes right behind the last line that was recorded. -/
def Resumes (separates : Bool) (log : List Item) : Prop :=
  AtInits separates (fun p position => position = p.mergedEnd) log

/-- At every registration of a history the separate file has the recorded lines whole. -/
def NothingMissing (separates : Bool) (log : List Item) : Prop :=
  AtInits separates (fun p _ => p.missing = 0) log

instance (separates : Bool) (log : List Item) : Decidable (NothingMissing separates log) :=
  AtEach.decidable _ _ _ log

/-- Every registration resumes right behind the last line that was recorded, no position of the
followed file was recorded twice, and the recorded ranges are together the file up to the end
of the last one. -/
structure RecordedOnce (separates : Bool) (file : Bytes) (log : List Item) : Prop where
  resumes : Resumes separates log
  apart : (progress separates log).merged.Pairwise Range.Apart
  whole : ((progress separates log).merged.reverse.flatMap fun r => r.slice file) =
    file.take (progress separates log).mergedEnd

/-- The record of a line of the followed file: the host, perhaps a timestamp, and the line. -/
structure IsRecord (addr : Option Bytes) (file record : Bytes) (r : Range) : Prop where
  inside : r.stop ≤ file.length
  isLine : IsPiece true (r.slice file)
  bytes : ∃ host stamp, addr = some host ∧ record = host ++ stamp ++ [58, 32] ++ r.slice file

/-! ### One more frame -/

section
variable {separates : Bool} {log : List Item} {p : Progress} {P : Progress → Nat → Prop}
  {x : Exchange}

/-- One more frame of a history. -/
theorem progress_concat (item : Item) :
    progress separates (log ++ [item]) = (progress separates log).next separates item := by
  rw [progress, List.foldl_append]
  rfl

/-- A history without frames has no registration. -/
theorem atInits_nil : AtInits separates P [] := trivial

/-- One more frame of a history, which may be a registration. -/
theorem atInits_concat (item : Item) : AtInits separates P (log ++ [item]) ↔
    AtInits separates P log ∧ AtInit P (progress separates log) item :=
  atEach_concat ..

/-- A frame that was not handled, or is not INIT. -/
theorem atInit_of_other (h : x.response = [] ∨ codeOf x.request ≠ SCM_MSG_INIT) :
    AtInit P p (.exchange x) :=
  fun hne hcode => (h.resolve_left hne hcode).elim

/-- A frame without a response changes nothing that is added up here. -/
theorem next_lost (h : x.response = []) : p.next separates (.exchange x) = p := if_pos h

/-- A registration starts at the position that it returns, with an empty channel buffer. -/
theorem next_init (separates : Bool) (p : Progress) (hne : x.response ≠ [])
    (hcode : codeOf x.request = SCM_MSG_INIT) :
    p.next separates (.exchange x) =
      { p with reached := positionIn x.response, held := 0 } := by
  rw [Progress.next, if_neg hne, if_pos hcode]

/-- A line, or the piece of a line. -/
theorem next_data {sender : Sender} {f : Frame} {response : Bytes} {channel : BitVec 16}
    {complete : Bool} {time : BitVec 64} {line : Bytes} (hne : response ≠ [])
    (hframe : IsFrame f SCM_MSG_DATA channel (Req.data channel complete time line).content) :
    p.next separates (.exchange ⟨sender, f.bytes, response⟩) =
      if complete then p.line separates line.length else p.piece line.length := by
  obtain ⟨hcode, htext⟩ : Exchange.Carries ⟨sender, f.bytes, response⟩ line :=
    carries_of_isFrame rfl hframe
  have hattr : (f.bytes.drop headerSize).take 4 =
      netImage 4 (if complete then ATTR_TOP else 0 : BitVec 32) := by
    rw [Frame.bytes, List.drop_left' (by simp), hframe.content_eq, Req.content,
      List.append_assoc, List.take_left' (by simp)]
  -- The attribute is read in network order, from the first four bytes of the content.
  have hcompletes : completes f.bytes = complete := by
    rw [completes, hattr, htonl_word_netImage]
    cases complete <;> decide
  have hdata : codeOf f.bytes = SCM_MSG_DATA := hcode
  have hlen : (text f.bytes).length = line.length := congrArg List.length htext
  have hinit : codeOf f.bytes ≠ SCM_MSG_INIT := by
    rw [hdata]
    decide
  show (if response = [] then p
    else if codeOf f.bytes = SCM_MSG_INIT then
      { p with reached := positionIn response, held := 0 }
    else if codeOf f.bytes = SCM_MSG_DATA then
      if completes f.bytes then p.line separates (text f.bytes).length
      else p.piece (text f.bytes).length
    else p) = _
  rw [if_neg hne, if_neg hinit, if_pos hdata, hcompletes, hlen]

/-- The position in the response of `handler_init` is the size of the separate file. -/
theorem positionIn_initFrame (cfg : Config) (chunks : List Nat) {fs : Fs} {c : ScChannel}
    (attr : BitVec 32) (hsize : fs.size c.filenameFullpath < 2 ^ 63) :
    positionIn (initFrame cfg chunks fs c attr).bytes = fs.size c.filenameFullpath := by
  have hfront : ((initFrame cfg chunks fs c attr).bytes.drop headerSize).take 8 =
      netImage 8 (BitVec.ofNat 64 (fs.size c.filenameFullpath)) := by
    rw [Frame.bytes, List.drop_left' (by simp)]
    show (initContent cfg chunks fs c.filenameFullpath attr).take 8 = _
    rw [initContent, image_bswap64, List.take_left' (by simp)]
  rw [positionIn, hfront, bswap64_word_netImage, BitVec.toNat_ofNat,
    Nat.mod_eq_of_lt (by omega)]

end

/-! ### The aggregator -/

/-- The merged file. -/
def mergedFile (cfg : Config) (name : Bytes) (fs : Fs) : Bytes :=
  (fs.file (mkPath cfg.logdir name PATH_MAX)).getD []

/-- The mode of a separate file merges: it has no aggregate context, or one that says so. The
merged file of the display name is another file. -/
structure Merges (cfg : Config) (addr : Option Bytes) (name path : Bytes) : Prop where
  isName : IsName name
  path_eq : ∃ heap, pathcat heap cfg.logdir (components addr name) = .ok path
  mode : (findAggregateContext cfg path).all (·.fMerge) = true
  other : path ≠ mkPath cfg.logdir name PATH_MAX

/-- The mode of a separate file has the file. -/
def separates (cfg : Config) (path : Bytes) : Bool :=
  (findAggregateContext cfg path).all (·.fSeparate)

section
variable {cfg : Config} {addr : Option Bytes} {name path : Bytes}
  (hmode : Merges cfg addr name path)
include hmode

/-- `handler_data` moves a piece into the channel's buffer. A complete line is recorded behind
the buffered bytes, and the separate file gets it without them. -/
theorem Merges.handleData {c : ScChannel} (hfor : IsFor cfg path c) (hname : c.filename = name)
    {complete : Bool} {time : BitVec 64} {line : Bytes} {call : Call} {msg : ScLogMessage}
    {conn : ScConnection} {fs : Fs} {r : Handled}
    (hframe : IsFrame msg.frame SCM_MSG_DATA 1 (Req.data 1 complete time line).content)
    (hsize : msg.content.size = BUFSIZE)
    (hfit : (Req.data 1 complete time line).content.length ≤ BUFSIZE) (hfs : fs.results = [])
    (hchannels : conn.channelList = [c])
    (h : handle cfg call.heap call.chunks msg conn fs = .ok r) :
    ∃ c', IsFor cfg path c' ∧ c'.filename = name ∧
      r.conn = { conn with channelList := [c'] } ∧ r.fs.results = [] ∧
      if complete then
        c'.buffer.unread = [] ∧
          separate path r.fs = separate path fs ++ (if separates cfg path then line else []) ∧
          ∃ host stamp, conn.remoteAddr = some host ∧ mergedFile cfg name r.fs =
            mergedFile cfg name fs ++ (host ++ stamp ++ [58, 32] ++ (c.buffer.unread ++ line))
      else r.fs = fs ∧ c'.buffer.unread = c.buffer.unread ++ line := by
  obtain ⟨buffer', hupdate, hbranch⟩ :=
    branches_of_data hframe hsize hfit hfor.id_eq hchannels h
  -- A piece of a line only goes to the buffer, the last piece makes a record.
  by_cases hcomplete : complete = true
  · rw [if_pos hcomplete] at hbranch
    have hmerge : c.aggregateContext.all (·.fMerge) = true := by
      rw [hfor.context_eq]
      exact hmode.mode
    obtain ⟨host, stamp, fs1, hhost, -, hmerged, happended, hresults, hvalid, hempty⟩ :=
      recordText_merging hfor.valid hfs hmerge hbranch
    rw [hname] at hmerged
    rw [hfor.path_eq, hfor.context_eq] at happended
    refine ⟨{ c with buffer := buffer' }, ⟨hfor.id_eq, hfor.path_eq, hfor.context_eq, hvalid⟩,
      hname, hupdate, hresults, ?_⟩
    rw [if_pos hcomplete]
    refine ⟨hempty, ?_, host, stamp.getD [], hhost, ?_⟩
    · -- The record does not touch the separate file.
      have hsame : separate path fs1 = separate path fs := by
        rw [separate, hmerged.file_other path hmode.other]
        rfl
      rw [← hsame]
      by_cases hsep : separates cfg path = true
      · have happ : Appended fs1 r.fs .doAppendFile path line := by
          rw [separates] at hsep
          rwa [if_pos hsep] at happended
        rw [if_pos hsep, separate, happ.file_self]
        rfl
      · have hrest : r.fs = fs1 := by
          rw [separates] at hsep
          rwa [if_neg hsep] at happended
        rw [if_neg hsep, hrest, List.append_nil]
    · -- The separate file is not the merged one.
      have hsame : r.fs.file (mkPath cfg.logdir name PATH_MAX) =
          fs1.file (mkPath cfg.logdir name PATH_MAX) := by
        split at happended
        · exact happended.file_other _ hmode.other.symm
        · rw [happended]
      rw [mergedFile, hsame, hmerged.file_self]
      rfl
  · rw [if_neg hcomplete] at hbranch
    obtain ⟨hsame, hbuffer⟩ := hbranch
    obtain ⟨hvalid, hunread⟩ := bufferText_eq_ok hfor.valid hbuffer
    refine ⟨{ c with buffer := buffer' }, ⟨hfor.id_eq, hfor.path_eq, hfor.context_eq, hvalid⟩,
      hname, hupdate, by rw [hsame]; exact hfs, ?_⟩
    rw [if_neg hcomplete]
    exact ⟨hsame, hunread⟩

end

/-! ### The invariant -/

/-- The merged file has grown by a record for each of these ranges, the newest range first. -/
def Recorded (addr : Option Bytes) (file before now : Bytes) (ranges : List Range) : Prop :=
  ∃ records, List.Forall₂ (IsRecord addr file) records ranges ∧
    now = before ++ records.reverse.flatten

/-- The channel's buffer has the bytes that were held back, which end where the frames have got
to. -/
structure Holds (file : Bytes) (p : Progress) (c : ScChannel) : Prop where
  held_eq : c.buffer.unread.length = p.held
  short : p.held ≤ p.reached
  isPiece : LF ∉ c.buffer.unread
  bytes : c.buffer.unread <+: file.drop (p.reached - p.held)

/-- The recorded lines follow each other, and the separate file has them but for what is
missing. -/
structure Exact (stored : Nat) (p : Progress) : Prop where
  stored : stored + p.missing = p.mergedEnd
  tiles : Tiling p.merged p.mergedEnd

section
variable (cfg : Config) (addr : Option Bytes) (name path before file : Bytes)

/-- What the frames on a link add up to. -/
def sumOf (l : Link) : Progress := progress (separates cfg path) l.log

/-- A registered channel. The separate file does not go beyond what it holds, and ends there
with the recorded lines as long as no registration has found bytes missing. -/
structure Channel (l : Link) (c : ScChannel) : Prop where
  channels : l.conn.channelList = [c]
  isFor : IsFor cfg path c
  filename_eq : c.filename = name
  holds : Holds file (sumOf cfg path l) c
  stored : (separate path l.fs).length + (sumOf cfg path l).held ≤ (sumOf cfg path l).reached
  start : NothingMissing (separates cfg path) l.log →
    (sumOf cfg path l).mergedEnd + (sumOf cfg path l).held = (sumOf cfg path l).reached

/-- What the aggregator keeps, whatever happens to the connection. -/
structure Kept (l : Link) : Prop where
  results : l.fs.results = []
  addr_eq : l.conn.remoteAddr = addr
  stored : (separate path l.fs).length ≤ file.length
  recorded : Recorded addr file before (mergedFile cfg name l.fs) (sumOf cfg path l).merged
  agrees : Resumes (separates cfg path) l.log ↔ NothingMissing (separates cfg path) l.log
  exact : NothingMissing (separates cfg path) l.log →
    Exact (separate path l.fs).length (sumOf cfg path l)
  channels : l.conn.channelList = [] ∨ ∃ c, Channel cfg name path file l c

/-- The context is registered, and what it has in hand and in its buffer follows the position
that the frames have reached. -/
structure Synced (cxt : ScFollowContext) (l : Link) (line : Bytes) : Prop where
  registered : l.conn.channelList ≠ []
  channel : cxt.channel = 1
  fd : cxt.fd ≠ -1
  offset : cxt.offset = (sumOf cfg path l).reached + (line ++ cxt.buffer.unread).length
  bytes : line ++ cxt.buffer.unread <+: file.drop (sumOf cfg path l).reached

end

section
variable {cfg : Config} {addr : Option Bytes} {name path before file : Bytes}

/-- A record stays one of a line of the file when the file grows. -/
theorem IsRecord.grow {record : Bytes} {r : Range} (h : IsRecord addr file record r)
    (more : Bytes) : IsRecord addr (file ++ more) record r := by
  have hslice := slice_append h.inside more
  constructor
  · rw [List.length_append]
    exact Nat.le_add_right_of_le h.inside
  · rw [hslice]
    exact h.isLine
  · rw [hslice]
    exact h.bytes

/-- The merged file is a record of the same ranges when the followed file grows. -/
theorem Recorded.grow {now : Bytes} {ranges : List Range}
    (h : Recorded addr file before now ranges) (more : Bytes) :
    Recorded addr (file ++ more) before now ranges := by
  obtain ⟨records, hall, hnow⟩ := h
  exact ⟨records, hall.imp fun _ _ hr => hr.grow more, hnow⟩

/-- One record more. -/
theorem Recorded.concat {now record : Bytes} {ranges : List Range} {r : Range}
    (h : Recorded addr file before now ranges) (hr : IsRecord addr file record r) :
    Recorded addr file before (now ++ record) (r :: ranges) := by
  obtain ⟨records, hall, hnow⟩ := h
  refine ⟨record :: records, List.Forall₂.cons hr hall, ?_⟩
  rw [hnow, List.reverse_cons, List.flatten_append, List.append_assoc, List.flatten_singleton]

/-- What a channel holds of the file, it holds of the file when that grows. -/
theorem Channel.grow {l : Link} {c : ScChannel} (h : Channel cfg name path file l c)
    (more : Bytes) : Channel cfg name path (file ++ more) l c where
  channels := h.channels
  isFor := h.isFor
  filename_eq := h.filename_eq
  holds := ⟨h.holds.held_eq, h.holds.short, h.holds.isPiece, prefix_drop_grow h.holds.bytes more⟩
  stored := h.stored
  start := h.start

/-- What the aggregator keeps does not depend on what the file gets later. -/
theorem Kept.grow {l : Link} (h : Kept cfg addr name path before file l) (more : Bytes) :
    Kept cfg addr name path before (file ++ more) l where
  results := h.results
  addr_eq := h.addr_eq
  stored := by
    rw [List.length_append]
    exact Nat.le_add_right_of_le h.stored
  recorded := h.recorded.grow more
  agrees := h.agrees
  exact := h.exact
  channels := by
    rcases h.channels with hnil | ⟨c, hc⟩
    · exact Or.inl hnil
    · exact Or.inr ⟨c, hc.grow more⟩

/-- A frame that was lost, or a connection without one, adds nothing. -/
theorem Kept.same {l l' : Link} (h : Kept cfg addr name path before file l)
    (hfs : l'.fs = l.fs) (hconn : l'.conn = l.conn)
    (hsum : sumOf cfg path l' = sumOf cfg path l)
    (hinits : ∀ P, AtInits (separates cfg path) P l'.log ↔ AtInits (separates cfg path) P l.log) :
    Kept cfg addr name path before file l' := by
  -- No INIT was added to the log, so what holds at all of them holds as before.
  have hmissing : NothingMissing (separates cfg path) l'.log ↔
      NothingMissing (separates cfg path) l.log := hinits _
  have hresumes : Resumes (separates cfg path) l'.log ↔ Resumes (separates cfg path) l.log :=
    hinits _
  constructor
  · rw [hfs]
    exact h.results
  · rw [hconn]
    exact h.addr_eq
  · rw [hfs]
    exact h.stored
  · rw [hfs, hsum]
    exact h.recorded
  · rw [hresumes, hmissing]
    exact h.agrees
  · rw [hmissing, hfs, hsum]
    exact h.exact
  · rw [hconn]
    rcases h.channels with hnil | ⟨c, hc⟩
    · exact Or.inl hnil
    · refine Or.inr ⟨c, ?_, hc.isFor, hc.filename_eq, ?_, ?_, ?_⟩
      · rw [hconn]
        exact hc.channels
      · rw [hsum]
        exact hc.holds
      · rw [hfs, hsum]
        exact hc.stored
      · rw [hmissing, hsum]
        exact hc.start

/-- A frame that was lost changes nothing at the aggregator. -/
theorem Kept.lost {sender : Sender} {data : Bytes} {l l' : Link}
    (h : Kept cfg addr name path before file l) (hlost : Lost sender data l l') :
    Kept cfg addr name path before file l' := by
  rcases hlost.log with hlog | hlog
  · refine h.same hlost.fs hlost.conn ?_ fun P => ?_
    · rw [sumOf, hlog]
      rfl
    · rw [hlog]
  · refine h.same hlost.fs hlost.conn ?_ fun P => ?_
    · rw [sumOf, hlog, progress_concat, next_lost rfl]
      rfl
    · rw [hlog, atInits_concat, and_iff_left (atInit_of_other (Or.inl rfl))]

/-- Before the first frame. -/
theorem kept_new {fs : Fs} (hresults : fs.results = []) (hempty : separate path fs = []) :
    Kept cfg addr name path (mergedFile cfg name fs) file
      ⟨fs, ⟨addr, []⟩, true, [], .eof, [], []⟩ where
  results := hresults
  addr_eq := rfl
  stored := by
    rw [hempty]
    exact Nat.zero_le _
  recorded := ⟨[], List.Forall₂.nil, by simp⟩
  agrees := ⟨fun _ => atInits_nil, fun _ => atInits_nil⟩
  exact _ := by
    rw [hempty]
    exact ⟨rfl, Tiling.nil⟩
  channels := Or.inl rfl

/-- A new connection throws the buffered bytes away. -/
theorem Kept.reconnect {l : Link} (h : Kept cfg addr name path before file l) :
    Kept cfg addr name path before file (l.reconnect addr) := by
  have hsum : sumOf cfg path (l.reconnect addr) = { sumOf cfg path l with held := 0 } :=
    progress_concat _
  have hinits : ∀ P, AtInits (separates cfg path) P (l.reconnect addr).log ↔
      AtInits (separates cfg path) P l.log := by
    intro P
    show AtInits _ P (l.log ++ [Item.connected]) ↔ _
    rw [atInits_concat]
    exact and_iff_left trivial
  refine ⟨h.results, rfl, h.stored, ?_, ?_, ?_, Or.inl rfl⟩
  · rw [hsum]
    exact h.recorded
  · exact ((hinits _).trans h.agrees).trans (hinits _).symm
  · intro hmissing
    obtain ⟨hstored, htiles⟩ := h.exact ((hinits _).mp hmissing)
    rw [hsum]
    exact ⟨hstored, htiles⟩

end

/-! ### A registration -/

section
variable {cfg : Config} {addr : Option Bytes} {name path before file : Bytes}
  (hmode : Merges cfg addr name path)
include hmode

/-- What the frames add up to after a registration, and what it says of the separate file. -/
theorem Merges.sum_registered {sender : Sender} {cxt : ScFollowContext} {l l' : Link}
    {c : ScChannel} {answer : Frame} (hkept : Kept cfg addr name path before file l)
    (hsize : file.length < 2 ^ 63) (hname : cxt.displayName = name)
    (hnone : l.conn.channelList = []) (h : Registers cfg sender cxt l l' c answer) :
    sumOf cfg path l' =
        { sumOf cfg path l with reached := (separate path l.fs).length, held := 0 } ∧
      ∀ P, AtInits (separates cfg path) P l'.log ↔ AtInits (separates cfg path) P l.log ∧
        P (sumOf cfg path l) (separate path l.fs).length := by
  obtain ⟨hfor, -, -, -⟩ := registered_isFor hmode.path_eq hname hkept.addr_eq hnone h
  obtain ⟨chunks, attr, hframe⟩ := h.answer_eq
  have hsep : l.fs.size c.filenameFullpath = (separate path l.fs).length := by
    rw [hfor.path_eq]
    rfl
  -- The answer carries the size of the separate file.
  have hposition : positionIn answer.bytes = (separate path l.fs).length := by
    have hstored := hkept.stored
    rw [hframe, positionIn_initFrame cfg chunks attr (by omega), hsep]
  have hne : answer.bytes ≠ [] := by
    apply List.ne_nil_of_length_pos
    rw [Frame.length_bytes]
    unfold headerSize
    omega
  have hcode : codeOf (initMessage cxt).frame.bytes = SCM_MSG_INIT := codeOf_bytes _
  constructor
  · have hnext := next_init (separates cfg path) (sumOf cfg path l)
      (x := ⟨sender, (initMessage cxt).frame.bytes, answer.bytes⟩) hne hcode
    rw [sumOf, h.log, progress_concat, ← sumOf, hnext, hposition]
  · intro P
    rw [h.log, atInits_concat]
    refine and_congr_right fun _ => ?_
    show (answer.bytes ≠ [] → codeOf (initMessage cxt).frame.bytes = SCM_MSG_INIT →
      P (sumOf cfg path l) (positionIn answer.bytes)) ↔ _
    rw [hposition]
    exact ⟨fun hP => hP hne hcode, fun hP _ _ => hP⟩

/-- What the aggregator keeps after a registration. It resumes behind the last recorded line
exactly when nothing is missing. -/
theorem Merges.kept_registered {sender : Sender} {cxt : ScFollowContext} {l l' : Link}
    {c : ScChannel} {answer : Frame} (hkept : Kept cfg addr name path before file l)
    (hsize : file.length < 2 ^ 63) (hname : cxt.displayName = name)
    (hnone : l.conn.channelList = []) (h : Registers cfg sender cxt l l' c answer) :
    Kept cfg addr name path before file l' := by
  obtain ⟨hfor, hfilename, hempty, hconn⟩ :=
    registered_isFor hmode.path_eq hname hkept.addr_eq hnone h
  obtain ⟨hsum, hinits⟩ := hmode.sum_registered hkept hsize hname hnone h
  have hmissing : NothingMissing (separates cfg path) l'.log ↔
      NothingMissing (separates cfg path) l.log ∧ (sumOf cfg path l).missing = 0 := hinits _
  have hresumes : Resumes (separates cfg path) l'.log ↔ Resumes (separates cfg path) l.log ∧
      (separate path l.fs).length = (sumOf cfg path l).mergedEnd := hinits _
  have hend : (sumOf cfg path l').mergedEnd = (sumOf cfg path l).mergedEnd := by rw [hsum]; rfl
  refine ⟨?_, ?_, ?_, ?_, ?_, ?_, Or.inr ⟨c, ?_⟩⟩
  · rw [h.fs]
    exact hkept.results
  · rw [hconn]
    exact hkept.addr_eq
  · rw [h.fs]
    exact hkept.stored
  · rw [h.fs, hsum]
    exact hkept.recorded
  -- The new INIT resumes at the end of the merged text just when nothing is missing there.
  · rw [hresumes, hmissing, hkept.agrees]
    refine and_congr_right fun hbefore => ?_
    have hstored := (hkept.exact hbefore).stored
    omega
  · intro hafter
    obtain ⟨hstored, htiles⟩ := hkept.exact (hmissing.mp hafter).1
    rw [h.fs, hsum]
    exact ⟨hstored, htiles⟩
  · refine ⟨by rw [hconn], hfor, hfilename, ?_, ?_, ?_⟩
    · rw [hsum]
      exact ⟨by rw [hempty]; rfl, Nat.zero_le _, by rw [hempty]; exact List.not_mem_nil,
        by rw [hempty]; exact List.nil_prefix⟩
    · rw [h.fs, hsum]
      exact Nat.le_refl _
    · intro hafter
      obtain ⟨hbefore, hzero⟩ := hmissing.mp hafter
      have hstored := (hkept.exact hbefore).stored
      rw [hend, hsum]
      show (sumOf cfg path l).mergedEnd + 0 = (separate path l.fs).length
      omega

/-- The context after a registration is at the end of the separate file. -/
theorem Merges.synced_registered {sender : Sender} {cxt : ScFollowContext} {l l' : Link}
    {c : ScChannel} {answer : Frame} (hkept : Kept cfg addr name path before file l)
    (hsize : file.length < 2 ^ 63) (hname : cxt.displayName = name)
    (hnone : l.conn.channelList = []) (h : Registers cfg sender cxt l l' c answer)
    (hfd : cxt.fd ≠ -1) (hempty : cxt.buffer.unread = []) :
    Synced cfg path file (resumed cxt c l.fs) l' [] := by
  obtain ⟨hfor, -, -, hconn⟩ := registered_isFor hmode.path_eq hname hkept.addr_eq hnone h
  obtain ⟨hsum, -⟩ := hmode.sum_registered hkept hsize hname hnone h
  have hshort : (separate path l.fs).length < 2 ^ 63 := Nat.lt_of_le_of_lt hkept.stored hsize
  rw [resumed_of_isFor hfor hshort]
  refine ⟨?_, rfl, hfd, ?_, ?_⟩
  · rw [hconn]
    exact List.cons_ne_nil _ _
  · rw [hsum]
    show (separate path l.fs).length =
      (separate path l.fs).length + ([] ++ cxt.buffer.unread).length
    rw [hempty]
    rfl
  · show [] ++ cxt.buffer.unread <+: _
    rw [hempty]
    exact List.nil_prefix

end

/-! ### A line -/

section
variable {cfg : Config} {addr : Option Bytes} {name path before file : Bytes} {l l' : Link}
  {c c' : ScChannel} {text : Bytes}

/-- The bytes in the channel's buffer and the text of the next frame follow each other. -/
theorem Channel.buffered_append (hc : Channel cfg name path file l c)
    (htext : text <+: file.drop (sumOf cfg path l).reached) :
    c.buffer.unread ++ text <+:
      file.drop ((sumOf cfg path l).reached - (sumOf cfg path l).held) := by
  refine prefix_drop_append hc.holds.bytes ?_
  have hshort := hc.holds.short
  have hreached : (sumOf cfg path l).reached - (sumOf cfg path l).held + c.buffer.unread.length
      = (sumOf cfg path l).reached := by
    rw [hc.holds.held_eq]
    omega
  rw [hreached]
  exact htext

/-- What the aggregator keeps after it buffered the piece of a line. -/
theorem Kept.piece (h : Kept cfg addr name path before file l)
    (hc : Channel cfg name path file l c) (hfor : IsFor cfg path c') (hname : c'.filename = name)
    (hconn : l'.conn = { l.conn with channelList := [c'] }) (hfs : l'.fs = l.fs)
    (hsum : sumOf cfg path l' = (sumOf cfg path l).piece text.length)
    (hinits : ∀ P, AtInits (separates cfg path) P l'.log ↔ AtInits (separates cfg path) P l.log)
    (hunread : c'.buffer.unread = c.buffer.unread ++ text) (hpiece : LF ∉ text)
    (htext : text <+: file.drop (sumOf cfg path l).reached) :
    Kept cfg addr name path before file l' := by
  have hmissing : NothingMissing (separates cfg path) l'.log ↔
      NothingMissing (separates cfg path) l.log := hinits _
  have hresumes : Resumes (separates cfg path) l'.log ↔ Resumes (separates cfg path) l.log :=
    hinits _
  have hshort := hc.holds.short
  have hstored := hc.stored
  refine ⟨?_, ?_, ?_, ?_, ?_, ?_, Or.inr ⟨c', by rw [hconn], hfor, hname, ⟨?_, ?_, ?_, ?_⟩, ?_, ?_⟩⟩
  · rw [hfs]
    exact h.results
  · rw [hconn]
    exact h.addr_eq
  · rw [hfs]
    exact h.stored
  · rw [hfs, hsum]
    exact h.recorded
  · rw [hresumes, hmissing]
    exact h.agrees
  · intro hafter
    obtain ⟨hexact, htiles⟩ := h.exact (hmissing.mp hafter)
    rw [hfs, hsum]
    exact ⟨hexact, htiles⟩
  · rw [hsum, hunread, List.length_append, hc.holds.held_eq]
    rfl
  · rw [hsum]
    exact Nat.add_le_add_right hshort _
  · rw [hunread, List.mem_append, not_or]
    exact ⟨hc.holds.isPiece, hpiece⟩
  · -- The front of what is buffered stays where it is.
    have hstart : (sumOf cfg path l').reached - (sumOf cfg path l').held =
        (sumOf cfg path l).reached - (sumOf cfg path l).held := by
      rw [hsum]
      exact Nat.add_sub_add_right _ _ _
    rw [hstart, hunread]
    exact hc.buffered_append htext
  · rw [hfs, hsum]
    show _ + ((sumOf cfg path l).held + text.length) ≤ (sumOf cfg path l).reached + text.length
    omega
  · intro hafter
    have hstart := hc.start (hmissing.mp hafter)
    rw [hsum]
    show (sumOf cfg path l).mergedEnd + ((sumOf cfg path l).held + text.length) =
      (sumOf cfg path l).reached + text.length
    omega

/-- What the aggregator keeps after it recorded a line. -/
theorem Kept.line (h : Kept cfg addr name path before file l)
    (hc : Channel cfg name path file l c) (hfor : IsFor cfg path c') (hname : c'.filename = name)
    (hconn : l'.conn = { l.conn with channelList := [c'] }) (hresults : l'.fs.results = [])
    (hsum : sumOf cfg path l' = (sumOf cfg path l).line (separates cfg path) text.length)
    (hinits : ∀ P, AtInits (separates cfg path) P l'.log ↔ AtInits (separates cfg path) P l.log)
    (hempty : c'.buffer.unread = [])
    (hseparate : separate path l'.fs =
      separate path l.fs ++ if separates cfg path then text else [])
    (hmerged : ∃ host stamp, addr = some host ∧ mergedFile cfg name l'.fs =
      mergedFile cfg name l.fs ++ (host ++ stamp ++ [58, 32] ++ (c.buffer.unread ++ text)))
    (hpiece : IsPiece true text) (htext : text <+: file.drop (sumOf cfg path l).reached) :
    Kept cfg addr name path before file l' := by
  have hmissing : NothingMissing (separates cfg path) l'.log ↔
      NothingMissing (separates cfg path) l.log := hinits _
  have hresumes : Resumes (separates cfg path) l'.log ↔ Resumes (separates cfg path) l.log :=
    hinits _
  obtain ⟨init, hinit, hinside⟩ := hpiece
  have hshort := hc.holds.short
  have hstored := hc.stored
  have hend : (sumOf cfg path l).reached + text.length ≤ file.length :=
    length_of_prefix_drop htext (by rw [hinit]; simp)
  have hlength : (separate path l'.fs).length =
      (separate path l.fs).length + if separates cfg path then text.length else 0 := by
    rw [hseparate, List.length_append, apply_ite List.length, List.length_nil]
  -- The recorded range is the one of the buffered bytes and the text.
  have hslice : Range.slice file ⟨(sumOf cfg path l).reached - (sumOf cfg path l).held,
      (sumOf cfg path l).reached + text.length⟩ = c.buffer.unread ++ text := by
    have hstop : (sumOf cfg path l).reached + text.length =
        (sumOf cfg path l).reached - (sumOf cfg path l).held +
          (c.buffer.unread ++ text).length := by
      rw [List.length_append, hc.holds.held_eq]
      omega
    rw [hstop]
    exact slice_of_prefix (hc.buffered_append htext)
  refine ⟨hresults, ?_, ?_, ?_, ?_, ?_,
    Or.inr ⟨c', by rw [hconn], hfor, hname, ⟨?_, ?_, ?_, ?_⟩, ?_, ?_⟩⟩
  · rw [hconn]
    exact h.addr_eq
  · rw [hlength]
    split <;> omega
  · obtain ⟨host, stamp, hhost, hfile⟩ := hmerged
    rw [hsum, hfile]
    refine h.recorded.concat ⟨hend, ?_, host, stamp, hhost, ?_⟩
    · rw [hslice, hinit]
      refine ⟨c.buffer.unread ++ init, (List.append_assoc ..).symm, ?_⟩
      rw [List.mem_append, not_or]
      exact ⟨hc.holds.isPiece, hinside⟩
    · rw [hslice]
  · rw [hresumes, hmissing]
    exact h.agrees
  · intro hafter
    obtain ⟨hexact, htiles⟩ := h.exact (hmissing.mp hafter)
    have hstart := hc.start (hmissing.mp hafter)
    have hrange : (sumOf cfg path l).reached - (sumOf cfg path l).held =
        (sumOf cfg path l).mergedEnd := by omega
    rw [hsum]
    constructor
    · show _ + ((sumOf cfg path l).missing +
        if separates cfg path then (sumOf cfg path l).held
        else (sumOf cfg path l).held + text.length) = (sumOf cfg path l).reached + text.length
      rw [hlength]
      split <;> omega
    · show Tiling (⟨(sumOf cfg path l).reached - (sumOf cfg path l).held,
        (sumOf cfg path l).reached + text.length⟩ :: (sumOf cfg path l).merged) _
      rw [hrange]
      exact Tiling.cons htiles (by show _ ≤ (sumOf cfg path l).reached + text.length; omega)
  · rw [hsum, hempty]
    rfl
  · rw [hsum]
    exact Nat.zero_le _
  · rw [hempty]
    exact List.not_mem_nil
  · rw [hempty]
    exact List.nil_prefix
  · rw [hlength, hsum]
    show _ + 0 ≤ (sumOf cfg path l).reached + text.length
    split <;> omega
  · intro _
    rw [hsum]
    rfl

end

/-! ### Every run of the system -/

section
variable {cfg : Config} {addr : Option Bytes} {name path before file : Bytes}

/-- A context that took a line has it in hand, behind what it has sent. -/
theorem Synced.took {inp : RunInput} {cxt cxt' : ScFollowContext} {l : Link} {got line : Bytes}
    (h : Synced cfg path inp.file cxt l []) (htook : Took inp cxt cxt' got line) :
    Synced cfg path inp.file cxt' l line := by
  have hgot := htook.fetched
  have hoffset := h.offset
  rw [List.nil_append] at hoffset
  rw [hoffset] at hgot
  have hall := prefix_drop_append h.bytes hgot
  rw [List.nil_append, htook.bytes] at hall
  have hlen := congrArg List.length htook.bytes
  rw [List.length_append] at hlen
  refine ⟨h.registered, ?_, ?_, ?_, hall⟩
  · rw [htook.rest]
    exact h.channel
  · rw [htook.rest]
    exact h.fd
  · have hnew : cxt'.offset = cxt.offset + got.length := by rw [htook.rest]
    omega

variable (hmode : Merges cfg addr name path)
include hmode

/-- The aggregator handled the line in hand: its frame is added to the sum, and what is left in
the context's buffer follows it. -/
theorem Merges.handled {sender : Sender} {inp : RunInput} {cxt : ScFollowContext} {l l' : Link}
    {complete : Bool} {line : Bytes} {msg : ScLogMessage} {r : Handled}
    (hkept : Kept cfg addr name path before file l) (hsync : Synced cfg path file cxt l line)
    (hroom : msg.content.size = BUFSIZE)
    (hstore : storeLine inp complete line msg = .ok cxt.messageBuffer)
    (hpiece : IsPiece complete line)
    (h : Handles cfg sender (dataHeader line.length cxt).messageBuffer.frame l l' r) :
    Kept cfg addr name path before file l' ∧ l'.conn.channelList ≠ [] ∧
      (sumOf cfg path l').reached = (sumOf cfg path l).reached + line.length := by
  have hsend : Sendable (dataHeader line.length cxt).messageBuffer SCM_MSG_DATA 1
      (Req.data 1 complete inp.time line).content :=
    sendable_dataHeader hsync.channel hroom hstore
  obtain ⟨c, hc⟩ : ∃ c, Channel cfg name path file l c :=
    hkept.channels.resolve_left hsync.registered
  have hline : line <+: file.drop (sumOf cfg path l).reached :=
    (List.prefix_append _ _).trans hsync.bytes
  -- The frame in the history.
  have hsent : r.sent ≠ [] := by
    rw [sent_of_data hsend.frame hsend.fits (by decide) h]
    apply List.ne_nil_of_length_pos
    rw [Frame.length_bytes]
    unfold headerSize
    omega
  have hsum : sumOf cfg path l' = if complete
      then (sumOf cfg path l).line (separates cfg path) line.length
      else (sumOf cfg path l).piece line.length := by
    rw [sumOf, h.log, progress_concat]
    exact next_data hsent hsend.frame
  have hinits : ∀ P, AtInits (separates cfg path) P l'.log ↔
      AtInits (separates cfg path) P l.log := by
    intro P
    rw [h.log, atInits_concat]
    refine and_iff_left (atInit_of_other (Or.inr ?_))
    rw [codeOf_bytes, hsend.frame.code_eq]
    decide
  -- What the handler did.
  obtain ⟨call, m, hm, hmsize, hhandle⟩ := h.handled
  obtain ⟨c', hfor, hname, hconn, hresults, hbranch⟩ :=
    hmode.handleData hc.isFor hc.filename_eq (by rw [hm]; exact hsend.frame) hmsize hsend.fits
      hkept.results hc.channels hhandle
  rw [← h.conn] at hconn
  rw [← h.fs] at hresults hbranch
  refine ⟨?_, by rw [hconn]; exact List.cons_ne_nil _ _, ?_⟩
  · cases complete with
    | true =>
      obtain ⟨hempty, hseparate, hmerged⟩ := hbranch
      rw [hkept.addr_eq] at hmerged
      exact hkept.line hc hfor hname hconn hresults hsum hinits hempty hseparate hmerged hpiece
        hline
    | false =>
      obtain ⟨hfs, hunread⟩ := hbranch
      exact hkept.piece hc hfor hname hconn hfs hsum hinits hunread hpiece hline
  · rw [hsum]
    split <;> rfl

/-- What every event does to the file, the two files of the aggregator and the history. -/
theorem Merges.tracks : Tracks cfg addr name (Kept cfg addr name path before)
    (Synced cfg path) where
  isName := hmode.isName
  lost h hlost := h.lost hlost
  grow more h := h.grow more
  reconnect h := h.reconnect
  registers hkept hsize hname hnone hreg :=
    ⟨hmode.kept_registered hkept hsize hname hnone hreg,
      hmode.synced_registered hkept hsize hname hnone hreg⟩
  handles := by
    intro file sender inp cxt l l' complete line msg r hkept _ hsync hroom hstore hpiece hr
    obtain ⟨hkept', hregistered, hreached⟩ :=
      hmode.handled hkept hsync hroom hstore hpiece hr
    -- The context goes on behind the line, whatever becomes of the message.
    refine ⟨hkept', fun m => ⟨hregistered, hsync.channel, hsync.fd, ?_, ?_⟩⟩
    · have hoffset := hsync.offset
      rw [List.length_append] at hoffset
      rw [hreached]
      show cxt.offset = _ + _ + cxt.buffer.unread.length
      omega
    · rw [hreached]
      exact prefix_drop_of_append hsync.bytes
  attached hsync := ⟨hsync.channel, hsync.fd⟩
  unheard := by
    intro file cxt l l' line hsync hsame
    have hsum : sumOf cfg path l' = sumOf cfg path l := by
      rw [sumOf, hsame.log]
      rfl
    refine ⟨?_, hsync.channel, hsync.fd, ?_, ?_⟩
    · rw [hsame.conn]
      exact hsync.registered
    · rw [hsum]
      exact hsync.offset
    · rw [hsum]
      exact hsync.bytes
  synced_grow more hsync :=
    ⟨hsync.registered, hsync.channel, hsync.fd, hsync.offset, prefix_drop_grow hsync.bytes more⟩
  took hsync htook := hsync.took htook

end

/-- A mode that merges, from an absent or empty separate file on: in every state that a run
reaches, the merged file has grown by the records of the ranges that its history adds up to,
each of them a line or, after a registration in the middle of a line, the rest of one. Every
registration resumed right behind the last recorded line, and every line was recorded once,
exactly when no registration found bytes of the recorded lines missing in the separate file. -/
theorem merged_once {cfg : Config} {md5 : Md5} {addr : Option Bytes} {name path : Bytes}
    (hmode : Merges cfg addr name path) {heap : Heap} {fname : Option Bytes}
    {ftimestamp opened : Bool} {file : Bytes} {fs : Fs} (hfile : file.length < 2 ^ 63)
    (hresults : fs.results = []) (hempty : separate path fs = [])
    {es : List Pipeline.Event} (hserved : ∀ e ∈ es, Served e) {s : Pipeline}
    (hrun : es.foldlM (Pipeline.step cfg md5 addr)
      (start heap fname name ftimestamp file fs addr opened) = .ok s) :
    Recorded addr s.file (mergedFile cfg name fs) (mergedFile cfg name s.conn.net.fs)
        (progress (separates cfg path) s.conn.net.log).merged ∧
      (RecordedOnce (separates cfg path) s.file s.conn.net.log ↔
        NothingMissing (separates cfg path) s.conn.net.log) := by
  have hkept : Kept cfg addr name path (mergedFile cfg name fs) file
      ⟨fs, ⟨addr, []⟩, true, [], .eof, [], []⟩ := kept_new hresults hempty
  have hend := (hmode.tracks.reached (Tracks.running_new hfile hkept)
    (fun e he _ _ _ heq => Served.malloc (hserved e he) heq) hrun).kept
  refine ⟨hend.recorded, fun hall => hend.agrees.mp hall.resumes, ?_⟩
  intro hmissing
  have htiles := (hend.exact hmissing).tiles
  exact ⟨hend.agrees.mpr hmissing, htiles.apart, htiles.flatMap_slice s.file⟩

/-! ### Small runs -/

/-- A configuration without aggregate contexts, for the path of `smallChannel`. -/
theorem merges_small :
    Merges (smallConfig []) (some [97]) [110] (smallChannel []).filenameFullpath where
  isName := ⟨by decide, by decide⟩
  path_eq := ⟨zeroHeap, by rfl⟩
  mode := rfl
  other := by decide

/-- The lines of `smallEvents` are completed by one frame each, and the connection is lost while
the beginning of the second one is in the channel's buffer. -/
theorem merged_once_small :
    ∃ s, smallEvents.foldlM (Pipeline.step (smallConfig []) zeroMd5 (some [97]))
        (start zeroHeap (some [102]) [110] false [] Fs.empty (some [97]) true) = .ok s ∧
      mergedFile (smallConfig []) [110] s.conn.net.fs =
        [97, 58, 32, 97, LF] ++ [97, 58, 32, 98, LF] ∧
      RecordedOnce true s.file s.conn.net.log := by
  have hend : (smallEvents.foldlM (Pipeline.step (smallConfig []) zeroMd5 (some [97]))
      (start zeroHeap (some [102]) [110] false [] Fs.empty (some [97]) true)).map
        (fun s => (mergedFile (smallConfig []) [110] s.conn.net.fs,
          decide (NothingMissing true s.conn.net.log))) =
      .ok ([97, 58, 32, 97, LF] ++ [97, 58, 32, 98, LF], true) := rfl
  cases hrun : smallEvents.foldlM (Pipeline.step (smallConfig []) zeroMd5 (some [97]))
      (start zeroHeap (some [102]) [110] false [] Fs.empty (some [97]) true) with
  | error t =>
    rw [hrun] at hend
    cases hend
  | ok s =>
    rw [hrun] at hend
    -- The file and the condition are evaluated, the theorem gives the rest.
    obtain ⟨hfile, hmissing⟩ := Prod.mk.inj (Except.ok.inj hend)
    have hserved : ∀ e ∈ smallEvents, Served e := by
      simp [smallEvents, smallPass, Served, zeroHeap]
    obtain ⟨-, hiff⟩ := merged_once merges_small (by decide) rfl rfl hserved hrun
    exact ⟨s, rfl, hfile, hiff.mpr (of_decide_eq_true hmissing)⟩

/-- Merged lines only, for the path of `smallChannel`. -/
def mergeConfig : Config := smallConfig [⟨(smallChannel []).filenameFullpath, false, false, true⟩]

/-- A line arrives, the frame after it is lost, and the context registers again. -/
def lostAfterLine : List Pipeline.Event :=
  [.grow [97, LF, 98], smallPass [.answered, .answered], smallPass [.lost],
    smallPass [.answered, .answered]]

/-- A line arrives in two pieces, the frame after it is lost, and the context registers
again. -/
def lostAfterPieces : List Pipeline.Event :=
  [.grow [97, 98], smallPass [.answered, .answered], .grow [LF, 99], smallPass [.answered],
    smallPass [.lost], smallPass [.answered, .answered]]

/-- Without a separate file the registration after the loss returns zero, and the line is
recorded twice. In the mode with both files, the separate file of a line in two pieces is only
one byte long. A context with `ftimestamp` asks for no digest of this file, and what is behind
the first byte is recorded twice. -/
theorem line_merged_twice :
    (∃ s, lostAfterLine.foldlM (Pipeline.step mergeConfig zeroMd5 (some [97]))
        (start zeroHeap (some [102]) [110] false [] Fs.empty (some [97]) true) = .ok s ∧
      mergedFile mergeConfig [110] s.conn.net.fs =
        [97, 58, 32, 97, LF] ++ [97, 58, 32, 97, LF] ∧
      ¬ RecordedOnce false s.file s.conn.net.log) ∧
    ∃ s, lostAfterPieces.foldlM (Pipeline.step (smallConfig []) zeroMd5 (some [97]))
        (start zeroHeap (some [102]) [110] true [] Fs.empty (some [97]) true) = .ok s ∧
      mergedFile (smallConfig []) [110] s.conn.net.fs =
        [97, 58, 32, 97, 98, LF] ++ [97, 58, 32, 98, LF] ∧
      ¬ RecordedOnce true s.file s.conn.net.log := by
  have hline : (lostAfterLine.foldlM (Pipeline.step mergeConfig zeroMd5 (some [97]))
      (start zeroHeap (some [102]) [110] false [] Fs.empty (some [97]) true)).map
        (fun s => (mergedFile mergeConfig [110] s.conn.net.fs,
          (progress false s.conn.net.log).merged)) =
      .ok ([97, 58, 32, 97, LF] ++ [97, 58, 32, 97, LF], [⟨0, 2⟩, ⟨0, 2⟩]) := rfl
  have hpieces : (lostAfterPieces.foldlM (Pipeline.step (smallConfig []) zeroMd5 (some [97]))
      (start zeroHeap (some [102]) [110] true [] Fs.empty (some [97]) true)).map
        (fun s => (mergedFile (smallConfig []) [110] s.conn.net.fs,
          (progress true s.conn.net.log).merged)) =
      .ok ([97, 58, 32, 97, 98, LF] ++ [97, 58, 32, 98, LF], [⟨1, 3⟩, ⟨0, 3⟩]) :=
    rfl
  constructor
  -- The first run: the two records carry the same line of the file.
  · cases hrun : lostAfterLine.foldlM (Pipeline.step mergeConfig zeroMd5 (some [97]))
        (start zeroHeap (some [102]) [110] false [] Fs.empty (some [97]) true) with
    | error t =>
      rw [hrun] at hline
      cases hline
    | ok s =>
      rw [hrun] at hline
      obtain ⟨hfile, hmerged⟩ := Prod.mk.inj (Except.ok.inj hline)
      refine ⟨s, rfl, hfile, fun h => ?_⟩
      have hapart := h.apart
      rw [hmerged] at hapart
      revert hapart
      decide
  -- The second run: the records start at positions 1 and 0 and overlap.
  · cases hrun : lostAfterPieces.foldlM (Pipeline.step (smallConfig []) zeroMd5 (some [97]))
        (start zeroHeap (some [102]) [110] true [] Fs.empty (some [97]) true) with
    | error t =>
      rw [hrun] at hpieces
      cases hpieces
    | ok s =>
      rw [hrun] at hpieces
      obtain ⟨hfile, hmerged⟩ := Prod.mk.inj (Except.ok.inj hpieces)
      refine ⟨s, rfl, hfile, fun h => ?_⟩
      have hapart := h.apart
      rw [hmerged] at hapart
      revert hapart
      decide

end Compostela.Proofs.MergedOnce
