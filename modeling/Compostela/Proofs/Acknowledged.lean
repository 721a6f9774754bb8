import Compostela.Proofs.SplitLines

/-!
# `Compostela.Proofs.Acknowledged`: what the answer to a DATA request promises

`handler_data` answers `SCM_RESP_OK` whatever happened before. It does not look at the results
of `_do_merge_file` and `_do_append_file`, and these do not look at the results of `write`. The
follower drops the line when it gets the answer.

`AckRecorded` says what the answer should promise: the text is in the channel's buffer, or it
stands with the buffered beginning of its line in every file that the mode enables; and any
other answer leaves the buffer alone. `Recordable` is the condition on the state, on the memory
and on the script of `open` and `write` results, and `ack_recorded_iff` says that it is exact.
-/

set_option autoImplicit false

namespace Compostela.Proofs.Acknowledged

open Compostela.Common
open Compostela.Memory
open Compostela.Aggregator
open Compostela.Proofs.SplitLines

/-! ### The promise -/

/-- The writes that one function made on the way from one file system to a later one. -/
def newWrites (writer : Writer) (fs fs' : Fs) : List FsWrite :=
  (fs'.writes.drop fs.writes.length).filter fun w => w.writer = writer

/-- The writes of the function end with the pieces of the line, each of them written whole to
the file. -/
def Recorded (writer : Writer) (path : Bytes) (pieces : List Bytes) (fs fs' : Fs) : Prop :=
  ∃ front, newWrites writer fs fs' = front ++ pieces.map fun bytes => ⟨writer, path, bytes⟩

/-- The text of the message is held. An incomplete line is in the buffer, behind what was
there. A complete one is in every file that the mode enables, behind its buffered beginning. -/
def Held (cfg : Config) (c : ScChannel) (msg : ScLogMessage) (fs fs' : Fs) (unread : Bytes) :
    Prop :=
  if attrOf msg &&& ATTR_TOP = 0 then unread = c.buffer.unread ++ textOf msg
  else
    (Merging c = true → Recorded .doMergeFile (mkPath cfg.logdir c.filename PATH_MAX)
      (linePieces c.buffer.unread (textOf msg)) fs fs') ∧
    (Separating c = true → Recorded .doAppendFile c.filenameFullpath
      (linePieces c.buffer.unread (textOf msg)) fs fs')

/-- The request is answered, and the answer is `SCM_RESP_OK` only if the text is held. With any
other answer the buffer is as it was. -/
def AckRecorded (cfg : Config) (s : Session) (r : Request) (c : ScChannel) : Prop :=
  ∃ h c', handle cfg r.heap r.chunks r.msg s.conn s.fs = .ok h ∧
    scConnectionChannel h.conn c.id = some c' ∧
    ((codeOf h.sent = SCM_RESP_OK ∧ Held cfg c r.msg s.fs h.fs c'.buffer.unread) ∨
      (codeOf h.sent ≠ SCM_RESP_OK ∧ c'.buffer.unread = c.buffer.unread))

/-! ### The condition -/

/-- The `open` succeeds, and after the pieces in front every piece of the line is written
whole. The others may come to any end. -/
def FileWorks (results : List IoResult) (front pieces : List Bytes) : Prop :=
  results.headD .ok ≠ .fail ∧ outcomes (results.tail.drop front.length) pieces = pieces

/-- The files that the mode enables get the line. With both enabled, `_do_merge_file` empties
the buffer, so the separate file gets the text alone. -/
def FilesWork (cfg : Config) (heap : Heap) (host : Option Bytes) (c : ScChannel)
    (t : BitVec 64) (text : Bytes) (results : List IoResult) : Prop :=
  let pieces := linePieces c.buffer.unread text
  match Merging c, Separating c with
  | false, false => True
  | false, true => FileWorks results [] pieces
  | true, false => ∃ addr stamp, host = some addr ∧
      mergeTimestamp cfg heap t c.aggregateContext = .ok stamp ∧
      FileWorks results (recordHead addr stamp) pieces
  | true, true => ∃ addr stamp, host = some addr ∧
      mergeTimestamp cfg heap t c.aggregateContext = .ok stamp ∧
      FileWorks results (recordHead addr stamp) pieces ∧ c.buffer.unread = [] ∧
      FileWorks (results.tail.drop (recordHead addr stamp ++ pieces).length) [] [text]

/-- There is room in the buffer for an incomplete line, or memory to make it. For a complete
line the files work. -/
def Recordable (cfg : Config) (s : Session) (r : Request) (c : ScChannel) : Prop :=
  if attrOf r.msg &&& ATTR_TOP = 0 then
    (textOf r.msg).length ≤ c.buffer.size - c.buffer.used ∨
      (textOf r.msg).length + c.buffer.size ≤ PTRDIFF_MAX ∧
        r.heap.realloc ((textOf r.msg).length + c.buffer.size) = true
  else FilesWork cfg r.heap s.conn.remoteAddr c (timeOf r.msg) (textOf r.msg) s.fs.results

/-! ### Reading the log of writes -/

section
variable {writer : Writer} {fs fs' : Fs}

/-- The log behind the writes that were there, taken apart. -/
theorem newWrites_eq (path : Bytes) (merged : List Bytes) {separate : List Bytes} {path' : Bytes}
    (h : fs'.writes = fs.writes ++ merged.map (fun bytes => ⟨.doMergeFile, path, bytes⟩)
      ++ separate.map fun bytes => ⟨.doAppendFile, path', bytes⟩) :
    newWrites .doMergeFile fs fs' = merged.map (fun bytes => ⟨.doMergeFile, path, bytes⟩) ∧
      newWrites .doAppendFile fs fs' = separate.map fun bytes => ⟨.doAppendFile, path', bytes⟩ := by
  have hdrop : fs'.writes.drop fs.writes.length
      = merged.map (fun bytes => ⟨.doMergeFile, path, bytes⟩)
        ++ separate.map fun bytes => ⟨.doAppendFile, path', bytes⟩ := by
    rw [h, List.append_assoc, List.drop_left]
  constructor
  · simp [newWrites, hdrop, List.filter_map, Function.comp_def]
  · simp [newWrites, hdrop, List.filter_map, Function.comp_def]

/-- The pieces are recorded exactly when they are written whole. -/
theorem recorded_iff (front : List Bytes) {pieces : List Bytes} {results : List IoResult}
    {path : Bytes} (h : newWrites writer fs fs'
      = (outcomes results (front ++ pieces)).map fun bytes => ⟨writer, path, bytes⟩) :
    Recorded writer path pieces fs fs' ↔
      outcomes (results.drop front.length) pieces = pieces := by
  unfold Recorded
  rw [h, outcomes_append, List.map_append]
  constructor
  · rintro ⟨before, hsame⟩
    obtain ⟨-, hpieces⟩ := List.append_inj' hsame (by simp)
    refine List.map_injective_iff.mpr ?_ hpieces
    intro a b hab
    cases hab
    rfl
  · intro hall
    exact ⟨_, by rw [hall]⟩

/-- What takes more writes than were made is not recorded. -/
theorem not_recorded_of_length (path : Bytes) {pieces : List Bytes}
    (h : (newWrites writer fs fs').length < pieces.length) :
    ¬ Recorded writer path pieces fs fs' := by
  rintro ⟨front, hsame⟩
  rw [hsame, List.length_append, List.length_map] at h
  omega

end

/-- A line takes at least one write. -/
theorem length_linePieces_pos (head text : Bytes) : 0 < (linePieces head text).length := by
  simp [linePieces]

/-! ### A complete line -/

section
variable {cfg : Config} {heap : Heap} {conn : ScConnection} {c : ScChannel} {t : BitVec 64}
  {text : Bytes} {fs : Fs}

/-- The line is in every file that the mode enables, after the second branch of
`handler_data`. -/
def RecordedInAll (cfg : Config) (heap : Heap) (conn : ScConnection) (c : ScChannel)
    (t : BitVec 64) (text : Bytes) (fs : Fs) : Prop :=
  ∃ buffer' fs', recordText cfg heap conn c t (.ok text) fs = .ok (buffer', fs') ∧
    (Merging c = true → Recorded .doMergeFile (mkPath cfg.logdir c.filename PATH_MAX)
      (linePieces c.buffer.unread text) fs fs') ∧
    (Separating c = true → Recorded .doAppendFile c.filenameFullpath
      (linePieces c.buffer.unread text) fs fs')

/-- What the step of the separate file writes. -/
def separateWrites (c : ScChannel) (results : List IoResult) (pieces : List Bytes) : List Bytes :=
  if Separating c = true ∧ results.headD .ok ≠ .fail then outcomes results.tail pieces else []

/-- The step of the separate file, on the files and the buffer that the step before it left. -/
theorem appendText_cases (c : ScChannel) {buffer : AzBuffer} (hv : buffer.Valid) (text : Bytes)
    (fs : Fs) :
    ∃ buffer' fs', appendText c buffer (.ok text) fs = .ok (buffer', fs') ∧
      fs'.writes = fs.writes ++
        (separateWrites c fs.results (linePieces buffer.unread text)).map
          fun bytes => ⟨.doAppendFile, c.filenameFullpath, bytes⟩ := by
  unfold appendText separateWrites
  cases hsep : Separating c with
  | false =>
    have hmode : ¬ c.aggregateContext.all (·.fSeparate) = true := by
      rw [show c.aggregateContext.all (·.fSeparate) = false from hsep]
      decide
    rw [if_neg hmode]
    exact ⟨buffer, fs, rfl, by simp⟩
  | true =>
    obtain ⟨fs1, hresults, hwrites, h⟩ := doAppendFile_eq hv c.filenameFullpath text fs
    have hmode : c.aggregateContext.all (·.fSeparate) = true := hsep
    rw [if_pos hmode]
    -- A separate file that cannot be opened gets nothing.
    split at h
    · rename_i hfail
      refine ⟨buffer, fs1, by rw [h]; rfl, ?_⟩
      rw [if_neg (fun hboth => hboth.2 hfail), hwrites]
      simp
    · rename_i hopen
      obtain ⟨buffer', -, -, h⟩ := h
      refine ⟨buffer', _, by rw [h]; rfl, ?_⟩
      rw [if_pos ⟨rfl, hopen⟩, Fs.writes_writeAll, hwrites, hresults]

/-- The separate file has the line exactly when there is such a file and it works for the pieces
that are written to it, and these are all of the line. -/
theorem recorded_separate_iff {fs' : Fs} {results : List IoResult} {pieces written : List Bytes}
    {path : Bytes} (hsep : Separating c = true) (hpos : 0 < pieces.length)
    (hwritten : written = pieces ∨ written.length < pieces.length)
    (h : newWrites .doAppendFile fs fs'
      = (separateWrites c results written).map fun bytes => ⟨.doAppendFile, path, bytes⟩) :
    Recorded .doAppendFile path pieces fs fs' ↔ written = pieces ∧ FileWorks results [] pieces := by
  unfold separateWrites at h
  unfold FileWorks
  by_cases hfail : results.headD .ok = .fail
  · rw [if_neg (fun hboth => hboth.2 hfail)] at h
    have hnot : ¬ Recorded .doAppendFile path pieces fs fs' :=
      not_recorded_of_length path (by rw [h]; exact hpos)
    exact ⟨fun hrec => absurd hrec hnot, fun hworks => absurd hfail hworks.2.1⟩
  · rw [if_pos ⟨hsep, hfail⟩] at h
    -- Either all the pieces are written, or fewer of them than the line has.
    rcases hwritten with rfl | hshort
    · rw [recorded_iff [] h]
      exact ⟨fun hall => ⟨rfl, hfail, hall⟩, fun hworks => hworks.2.2⟩
    · have hnot : ¬ Recorded .doAppendFile path pieces fs fs' :=
        not_recorded_of_length path (by rw [h, List.length_map, length_outcomes]; exact hshort)
      have hne : written ≠ pieces := by
        intro hsame
        rw [hsame] at hshort
        omega
      exact ⟨fun hrec => absurd hrec hnot, fun hworks => absurd hworks.1 hne⟩

/-- The step of the merged file. It has undefined behaviour without a timestamp or a host. An
`open` that fails leaves everything as it is. Otherwise the record is written, whatever becomes
of its pieces, and the buffer is empty. -/
theorem mergeText_cases (cfg : Config) (heap : Heap) (conn : ScConnection) (t : BitVec 64)
    (text : Bytes) (fs : Fs) (hv : c.buffer.Valid) (hmerge : Merging c = true) :
    ((∃ trap, mergeText cfg heap conn c t (.ok text) fs = .error trap) ∧
      ¬ ((∃ stamp, mergeTimestamp cfg heap t c.aggregateContext = .ok stamp) ∧
        (fs.results.headD .ok = .fail ∨ conn.remoteAddr ≠ none))) ∨
    (∃ fs', mergeText cfg heap conn c t (.ok text) fs = .ok (c.buffer, fs') ∧
      fs'.writes = fs.writes ∧ fs.results.headD .ok = .fail) ∨
    ∃ addr stamp buffer' fs', conn.remoteAddr = some addr ∧
      mergeTimestamp cfg heap t c.aggregateContext = .ok stamp ∧
      fs.results.headD .ok ≠ .fail ∧
      mergeText cfg heap conn c t (.ok text) fs = .ok (buffer', fs') ∧
      buffer'.Valid ∧ buffer'.unread = [] ∧
      fs'.results = fs.results.tail.drop
        (recordHead addr stamp ++ linePieces c.buffer.unread text).length ∧
      fs'.writes = fs.writes ++ (outcomes fs.results.tail
        (recordHead addr stamp ++ linePieces c.buffer.unread text)).map
          fun bytes => ⟨.doMergeFile, mkPath cfg.logdir c.filename PATH_MAX, bytes⟩ := by
  have hmode : c.aggregateContext.all (·.fMerge) = true := hmerge
  unfold mergeText
  rw [if_pos hmode]
  cases hstamp : mergeTimestamp cfg heap t c.aggregateContext with
  | error trap =>
    -- `strftime` overruns its buffer, before the file is opened.
    refine Or.inl ⟨⟨trap, ?_⟩, ?_⟩
    · simp only [doMergeFile, hstamp, error_bind]
    · rintro ⟨⟨stamp, hok⟩, -⟩
      cases hok
  | ok stamp =>
    obtain ⟨fs1, hresults, hwrites, h⟩ :=
      doMergeFile_eq hstamp hv conn.remoteAddr c.filename text fs
    split at h
    · rename_i hfail
      exact Or.inr (Or.inl ⟨fs1, by rw [h]; rfl, hwrites, hfail⟩)
    · rename_i hopen
      cases hhost : conn.remoteAddr with
      | none =>
        rw [hhost] at h
        -- `strlen` of a null address, after the open.
        refine Or.inl ⟨⟨.nullDeref, by simp only [h, error_bind]⟩, ?_⟩
        rintro ⟨-, hfail | hsome⟩
        · exact hopen hfail
        · exact hsome rfl
      | some addr =>
        rw [hhost] at h
        obtain ⟨buffer', hv', hu', h⟩ := h
        refine Or.inr (Or.inr ?_)
        refine ⟨addr, stamp, buffer', _, rfl, rfl, hopen, by rw [h]; rfl, hv', hu', ?_, ?_⟩
        · rw [Fs.results_writeAll, hresults]
        · rw [Fs.writes_writeAll, hwrites, hresults]

/-- Without a merged file the step before the separate file does nothing. -/
theorem mergeText_of_off (data : Except Trap Bytes) (hmerge : Merging c = false) :
    mergeText cfg heap conn c t data fs = .ok (c.buffer, fs) := by
  have hmode : ¬ c.aggregateContext.all (·.fMerge) = true := by
    rw [show c.aggregateContext.all (·.fMerge) = false from hmerge]
    decide
  unfold mergeText
  exact if_neg hmode

/-- Without a merged file the separate file gets the buffered beginning. -/
theorem recordedInAll_of_separate (hv : c.buffer.Valid) (hmerge : Merging c = false) :
    RecordedInAll cfg heap conn c t text fs ↔
      FilesWork cfg heap conn.remoteAddr c t text fs.results := by
  have hfirst : mergeText cfg heap conn c t (.ok text) fs = .ok (c.buffer, fs) :=
    mergeText_of_off _ hmerge
  obtain ⟨buffer', fs', happend, hwrites⟩ := appendText_cases c hv text fs
  obtain ⟨-, hnew⟩ := newWrites_eq [] []
    (by rw [List.map_nil, List.append_nil]; exact hwrites)
  unfold RecordedInAll FilesWork recordText
  simp only [hfirst, ok_bind, happend, hmerge, Except.ok.injEq, Prod.mk.injEq]
  cases hsep : Separating c with
  | false => simp
  | true =>
    have hiff := recorded_separate_iff hsep (length_linePieces_pos _ _) (Or.inl rfl) hnew
    constructor
    · rintro ⟨b, f, ⟨-, rfl⟩, -, hrec⟩
      exact (hiff.mp (hrec rfl)).2
    · intro hworks
      exact ⟨buffer', fs', ⟨rfl, rfl⟩, by simp, fun _ => hiff.mpr ⟨rfl, hworks⟩⟩

/-- With a merged file the separate file gets the text alone. -/
theorem recordedInAll_of_merge (hv : c.buffer.Valid) (hmerge : Merging c = true) :
    RecordedInAll cfg heap conn c t text fs ↔
      FilesWork cfg heap conn.remoteAddr c t text fs.results := by
  -- Every way to satisfy the condition goes through the merged file.
  have hneeds : FilesWork cfg heap conn.remoteAddr c t text fs.results →
      ∃ addr stamp, conn.remoteAddr = some addr ∧
        mergeTimestamp cfg heap t c.aggregateContext = .ok stamp ∧
        fs.results.headD .ok ≠ .fail := by
    unfold FilesWork
    rw [hmerge]
    cases Separating c with
    | false =>
      rintro ⟨addr, stamp, hhost, hstamp, hopen, -⟩
      exact ⟨addr, stamp, hhost, hstamp, hopen⟩
    | true =>
      rintro ⟨addr, stamp, hhost, hstamp, ⟨hopen, -⟩, -⟩
      exact ⟨addr, stamp, hhost, hstamp, hopen⟩
  have hpos := length_linePieces_pos c.buffer.unread text
  rcases mergeText_cases cfg heap conn t text fs hv hmerge with
    ⟨⟨trap, htrap⟩, hnot⟩ | ⟨fs1, hfirst, hwrites1, hfail⟩ |
    ⟨addr, stamp, buffer1, fs1, hhost, hstamp, hopen, hfirst, hv1, hu1, hresults1, hwrites1⟩
  · constructor
    · rintro ⟨b, f, hrecord, -⟩
      unfold recordText at hrecord
      rw [htrap] at hrecord
      cases hrecord
    · intro h
      obtain ⟨addr, stamp, hhost, hstamp, -⟩ := hneeds h
      exact absurd ⟨⟨stamp, hstamp⟩, Or.inr (by simp [hhost])⟩ hnot
  · constructor
    · rintro ⟨b, f, hrecord, hmerged, -⟩
      obtain ⟨buffer', fs', happend, hwrites⟩ := appendText_cases c hv text fs1
      rw [hwrites1] at hwrites
      unfold recordText at hrecord
      simp only [hfirst, ok_bind, happend] at hrecord
      cases hrecord
      obtain ⟨hnew, -⟩ := newWrites_eq [] []
        (by rw [List.map_nil, List.append_nil]; exact hwrites)
      exact absurd (hmerged hmerge) (not_recorded_of_length _ (by rw [hnew]; exact hpos))
    · intro h
      obtain ⟨addr, stamp, -, -, hopen⟩ := hneeds h
      exact absurd hfail hopen
  · obtain ⟨buffer', fs', happend, hwrites⟩ := appendText_cases c hv1 text fs1
    rw [hwrites1, hresults1, hu1] at hwrites
    obtain ⟨hnewMerged, hnewSeparate⟩ := newWrites_eq _ _ hwrites
    have hmerged := recorded_iff _ hnewMerged
    unfold RecordedInAll FilesWork recordText
    simp only [hfirst, ok_bind, happend, hmerge, hhost, hstamp, Except.ok.injEq, Prod.mk.injEq,
      Option.some.injEq]
    cases hsep : Separating c with
    | false =>
      constructor
      · rintro ⟨b, f, ⟨-, rfl⟩, hrec, -⟩
        exact ⟨addr, stamp, rfl, rfl, hopen, hmerged.mp (hrec trivial)⟩
      · rintro ⟨addr', stamp', rfl, rfl, -, hall⟩
        exact ⟨buffer', fs', ⟨rfl, rfl⟩, fun _ => hmerged.mpr hall, by simp⟩
    | true =>
      -- The text alone is all of the line exactly when nothing was buffered.
      have hwhole : linePieces [] text = linePieces c.buffer.unread text ↔
          c.buffer.unread = [] := by
        by_cases hnil : c.buffer.unread = [] <;> simp [linePieces, hnil]
      have hshort : linePieces [] text = linePieces c.buffer.unread text ∨
          (linePieces [] text).length < (linePieces c.buffer.unread text).length := by
        by_cases hnil : c.buffer.unread = [] <;> simp [linePieces, hnil]
      have hseparate := recorded_separate_iff hsep hpos hshort hnewSeparate
      rw [hwhole] at hseparate
      constructor
      · rintro ⟨b, f, ⟨-, rfl⟩, hrec, hrec'⟩
        obtain ⟨hnil, hworks⟩ := hseparate.mp (hrec' rfl)
        refine ⟨addr, stamp, rfl, rfl, ⟨hopen, hmerged.mp (hrec trivial)⟩, hnil, ?_⟩
        rw [hnil] at hworks ⊢
        exact hworks
      · rintro ⟨addr', stamp', rfl, rfl, ⟨-, hall⟩, hnil, hworks⟩
        refine ⟨buffer', fs', ⟨rfl, rfl⟩, fun _ => hmerged.mpr hall, fun _ => ?_⟩
        refine hseparate.mpr ⟨hnil, ?_⟩
        rw [hnil] at hworks ⊢
        exact hworks

/-- The line is in every enabled file exactly when the files work. -/
theorem recordedInAll_iff (hv : c.buffer.Valid) :
    RecordedInAll cfg heap conn c t text fs ↔
      FilesWork cfg heap conn.remoteAddr c t text fs.results := by
  cases hmerge : Merging c with
  | false => exact recordedInAll_of_separate hv hmerge
  | true => exact recordedInAll_of_merge hv hmerge

end

/-! ### The result -/

/-- A DATA request for a registered channel, over every script of results: the answer keeps its
promise exactly when the text can be recorded. -/
theorem ack_recorded_iff {cfg : Config} {s : Session} {r : Request} {c : ScChannel}
    (hwf : s.conn.WellFormed) (hc : c ∈ s.conn.channelList) (hr : DataFor c.id r) :
    AckRecorded cfg s r c ↔ Recordable cfg s r c := by
  have hvalid := hwf.valid c hc
  have hlt := BitVec.toInt_lt (x := r.msg.contentLength)
  have hlen : (textOf r.msg).length < 2 ^ 31 := by
    rw [show (textOf r.msg).length = textLength r.msg from Block.length_bytes _ _ _,
      hr.whole.textLength]
    omega
  -- The answer to a request that is answered, and the channel after it.
  have hanswer : ∀ h, handlerData cfg r.heap r.msg s.conn (some c) s.fs = .ok h →
      codeOf h.sent = SCM_RESP_OK ∧ ∃ buffer',
        scConnectionChannel h.conn c.id = some { c with buffer := buffer' } ∧
        if attrOf r.msg &&& ATTR_TOP = 0 then
          h.fs = s.fs ∧ bufferText r.heap c.buffer (textOf r.msg).length (.ok (textOf r.msg))
            = .ok buffer'
        else recordText cfg r.heap s.conn c (timeOf r.msg) (.ok (textOf r.msg)) s.fs
          = .ok (buffer', h.fs) := by
    intro h hdata
    obtain ⟨buffer', hconn, hsent, hbranch⟩ := handlerData_eq_ok hr.whole hdata
    -- The handler keeps the channel list well formed, so the lookup finds the new channel.
    rw [← handle_data hwf hc hr] at hdata
    have hwf' := hwf.handle hdata
    have hmem : { c with buffer := buffer' } ∈ h.conn.channelList := by
      rw [hconn]
      exact mem_update hc rfl
    refine ⟨?_, buffer', scConnectionChannel_of_mem hwf' hmem, hbranch⟩
    rw [hsent, codeOf_bytes]
    rfl
  unfold AckRecorded Recordable Held
  rw [handle_data hwf hc hr]
  split
  · rename_i hattr
    rw [← bufferText_ok_iff hvalid hlen]
    constructor
    · rintro ⟨h, c', hdata, -, -⟩
      obtain ⟨-, buffer', -, hbranch⟩ := hanswer h hdata
      rw [if_pos hattr] at hbranch
      exact ⟨buffer', hbranch.2⟩
    · rintro ⟨buffer', hbuffer⟩
      have htake : takeText cfg r.heap s.conn c (attrOf r.msg) (timeOf r.msg)
          (textOf r.msg).length (.ok (textOf r.msg)) s.fs = .ok (buffer', s.fs) := by
        unfold takeText
        rw [if_pos hattr, hbuffer]
        rfl
      have hdata := handlerData_of_takeText hr.whole htake
      obtain ⟨hcode, buffer2, hlookup, hbranch⟩ := hanswer _ hdata
      rw [if_pos hattr] at hbranch
      exact ⟨_, _, hdata, hlookup, Or.inl ⟨hcode, (bufferText_eq_ok hvalid hbranch.2).2⟩⟩
  · rename_i hattr
    rw [← recordedInAll_iff hvalid]
    constructor
    · rintro ⟨h, c', hdata, -, hpromise⟩
      obtain ⟨hcode, buffer', -, hbranch⟩ := hanswer h hdata
      rw [if_neg hattr] at hbranch
      rcases hpromise with ⟨-, hheld⟩ | ⟨hnot, -⟩
      · exact ⟨buffer', h.fs, hbranch, hheld⟩
      · exact absurd hcode hnot
    · rintro ⟨buffer', fs', hrecord, hheld⟩
      have htake : takeText cfg r.heap s.conn c (attrOf r.msg) (timeOf r.msg)
          (textOf r.msg).length (.ok (textOf r.msg)) s.fs = .ok (buffer', fs') := by
        unfold takeText
        rw [if_neg hattr, hrecord]
      have hdata := handlerData_of_takeText hr.whole htake
      obtain ⟨hcode, buffer2, hlookup, -⟩ := hanswer _ hdata
      exact ⟨_, _, hdata, hlookup, Or.inl ⟨hcode, hheld⟩⟩

/-- The line `a` in one message. -/
def wholeLine : Request := smallData ATTR_TOP [97, LF]

/-- When every call succeeds, the answer to `wholeLine` keeps its promise in both files. -/
theorem ack_recorded_wholeLine :
    AckRecorded (smallConfig []) (oneChannel []) wholeLine bothChannel := by
  have hdata : DataFor bothChannel.id wholeLine := ⟨rfl, by decide, by decide, by decide⟩
  refine (ack_recorded_iff (oneChannel_wellFormed []) (List.mem_cons_self ..) hdata).mpr ?_
  unfold Recordable
  rw [if_neg (by decide)]
  show ∃ addr stamp, _
  refine ⟨[97], none, rfl, rfl, ⟨by decide, ?_⟩, rfl, by decide, ?_⟩
  · rfl
  · rfl

/-- When no file can be opened, the line is in neither of them, and the answer is
`SCM_RESP_OK`. -/
theorem ack_without_record :
    ¬ AckRecorded (smallConfig [])
      { oneChannel [] with fs := { Fs.empty with results := [.fail, .fail] } } wholeLine
      bothChannel := by
  rintro ⟨h, c', hhandle, -, hpromise⟩
  have hcode : (handle (smallConfig []) wholeLine.heap wholeLine.chunks wholeLine.msg
      (oneChannel []).conn { Fs.empty with results := [.fail, .fail] }).map
        (fun h => (codeOf h.sent, newWrites .doMergeFile Fs.empty h.fs)) = .ok (SCM_RESP_OK, []) :=
    rfl
  have hsame : handle (smallConfig []) wholeLine.heap wholeLine.chunks wholeLine.msg
      (oneChannel []).conn { Fs.empty with results := [.fail, .fail] } = .ok h := hhandle
  rw [hsame] at hcode
  simp only [Except.map, Except.ok.injEq, Prod.mk.injEq] at hcode
  -- The answer is OK, so the promise asks for a write that is not there.
  rcases hpromise with ⟨-, hheld⟩ | ⟨hnot, -⟩
  · unfold Held at hheld
    rw [if_neg (by decide)] at hheld
    obtain ⟨front, hwrites⟩ := hheld.1 (by decide)
    have hempty : newWrites .doMergeFile Fs.empty h.fs = front ++ _ := hwrites
    rw [hcode.2] at hempty
    have hlen := congrArg List.length hempty
    simp [linePieces] at hlen
  · exact hnot hcode.1

end Compostela.Proofs.Acknowledged
