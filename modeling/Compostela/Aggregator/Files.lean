import Compostela.Aggregator.Channels

/-!
# `Compostela.Aggregator.Files`: the log files of the aggregator

The part of the file system that the aggregator works on is a map from paths to contents.
`Fs.results` is the script of the system calls to come: every `write` takes one entry, and every
`open` of a file that is appended to, and past its end every call succeeds. The `open` of
`_do_trunc_file` takes none: it finds the file or does not. `Fs.opened` lists the paths that
were opened for writing, `Fs.made` those that were given to `mkdir`, and `Fs.writes` every
`write` with the function that made it and the bytes that reached the file.

`_do_merge_file` and `_do_append_file` share the buffer with the beginning of a split line.
Each writes it in front of its own text and resets it. `doAppendFile_ok` and
`doMergeFile_ok` say what they do when every call succeeds, `doAppendFile_eq` and
`doMergeFile_eq` what they do under every script.
-/

set_option autoImplicit false

namespace Compostela.Aggregator

open Compostela.Common
open Compostela.Memory

/-- The result of one `open` or `write`: success, failure, or a write of at most `k`
bytes. -/
inductive IoResult
  | ok
  | fail
  | short (k : Nat)
  deriving DecidableEq, Repr

/-- The function that makes a `write`. -/
inductive Writer
  | doMergeFile
  | doAppendFile
  deriving DecidableEq, Repr

/-- One `write`: who made it, the file, and the bytes that were written. -/
structure FsWrite where
  writer : Writer
  path : Bytes
  bytes : Bytes
  deriving DecidableEq, Repr

/-- The file system as the aggregator uses it. Two paths are two files when their texts differ.
A name with the component `.` or `..` in it can lead to the file of another path on a disk, so a
result about two paths is about names without these. -/
structure Fs where
  file : Bytes → Option Bytes
  results : List IoResult
  opened : List Bytes
  made : List Bytes
  writes : List FsWrite

namespace Fs

/-- The size that `stat` finds, and zero for a file that is not there. -/
def size (fs : Fs) (path : Bytes) : Nat := ((fs.file path).getD []).length

/-- `mkdir`, whose result nobody reads. -/
def mkdir (fs : Fs) (path : Bytes) : Fs := { fs with made := fs.made ++ [path] }

/-- `open(path, O_APPEND | O_RDWR | O_CREAT, ...)`: whether it succeeds, and a file that is
there afterwards if it does. -/
def openAppend (fs : Fs) (path : Bytes) : Bool × Fs :=
  let fs' := { fs with results := fs.results.tail, opened := fs.opened ++ [path] }
  match fs.results.headD .ok with
  | .fail => (false, fs')
  | .ok | .short _ =>
      (true, { fs' with file := fun p =>
        if p = path then some ((fs.file path).getD []) else fs.file p })

/-- How much of a write reaches the file. -/
def accepted (r : IoResult) (bytes : Bytes) : Bytes :=
  match r with
  | .ok => bytes
  | .fail => []
  | .short k => bytes.take k

/-- `write` to a file opened with `O_APPEND`. -/
def write (fs : Fs) (writer : Writer) (path bytes : Bytes) : Fs :=
  let done := accepted (fs.results.headD .ok) bytes
  { fs with
    file := fun p => if p = path then some ((fs.file path).getD [] ++ done) else fs.file p
    results := fs.results.tail
    writes := fs.writes ++ [⟨writer, path, done⟩] }

/-- The bytes that one function appended to one file, in order. -/
def written (fs : Fs) (writer : Writer) (path : Bytes) : Bytes :=
  fs.writes.flatMap fun w => if w.writer = writer ∧ w.path = path then w.bytes else []

/-- `mkdir` leaves all files as they are. -/
@[simp] theorem file_mkdir (fs : Fs) (path : Bytes) : (fs.mkdir path).file = fs.file := rfl

/-- `mkdir` takes no entry of the script: nobody reads its result. -/
@[simp] theorem results_mkdir (fs : Fs) (path : Bytes) :
    (fs.mkdir path).results = fs.results := rfl

/-- `mkdir` writes nothing. -/
@[simp] theorem writes_mkdir (fs : Fs) (path : Bytes) :
    (fs.mkdir path).writes = fs.writes := rfl

/-- With an empty script `open` succeeds. -/
theorem openAppend_of_ok {fs : Fs} (h : fs.results = []) (path : Bytes) :
    fs.openAppend path =
      (true, { fs with
        file := fun p => if p = path then some ((fs.file path).getD []) else fs.file p
        opened := fs.opened ++ [path] }) := by
  simp [openAppend, h]

/-- With an empty script a write appends all of its bytes. -/
theorem write_of_ok {fs : Fs} (h : fs.results = []) (writer : Writer) (path bytes : Bytes) :
    fs.write writer path bytes =
      { fs with
        file := fun p => if p = path then some ((fs.file path).getD [] ++ bytes) else fs.file p
        writes := fs.writes ++ [⟨writer, path, bytes⟩] } := by
  simp [write, h, accepted]

/-- A write adds its bytes to what its own function wrote to its own file. -/
theorem written_append (fs : Fs) (ws : List FsWrite) (writer : Writer) (path : Bytes) :
    ({ fs with writes := fs.writes ++ ws } : Fs).written writer path =
      fs.written writer path ++
        ws.flatMap fun w => if w.writer = writer ∧ w.path = path then w.bytes else [] := by
  simp [written]

end Fs

/-! ### Paths -/

/-- `__mk_path` into a buffer of `bufsize` bytes. -/
def mkPath (parent fname : Bytes) (bufsize : Nat) : Bytes :=
  (parent ++ [SLASH] ++ fname).take (bufsize - 1)

/-- `dirname`. -/
def dirname (path : Bytes) : Bytes :=
  let last := dropSlashes path
  let parent := (last.reverse.dropWhile (· ≠ SLASH)).reverse
  if path = [] then [46]
  else if last = [] then [SLASH]
  else if parent = [] then [46]
  else if dropSlashes parent = [] then [SLASH]
  else dropSlashes parent

/-- `_create_dir`: the path up to each slash, and then the whole path. -/
def createDir (fs : Fs) (fpath : Bytes) : Fs :=
  let cuts := (List.range fpath.length).filter fun i => fpath.getD i 0 = SLASH
  (cuts.map (fpath.take ·) ++ [fpath]).foldl Fs.mkdir fs

/-- Any number of `mkdir` calls leaves the files, the script and the writes alone. -/
theorem foldl_mkdir_frame (dirs : List Bytes) (fs : Fs) :
    (dirs.foldl Fs.mkdir fs).file = fs.file ∧ (dirs.foldl Fs.mkdir fs).results = fs.results ∧
      (dirs.foldl Fs.mkdir fs).writes = fs.writes := by
  induction dirs generalizing fs with
  | nil => exact ⟨rfl, rfl, rfl⟩
  | cons d rest ih => exact ih (fs.mkdir d)

/-- Making directories changes no file. -/
theorem createDir_frame (fs : Fs) (fpath : Bytes) :
    (createDir fs fpath).file = fs.file ∧ (createDir fs fpath).results = fs.results ∧
      (createDir fs fpath).writes = fs.writes := foldl_mkdir_frame _ fs

/-! ### Writing a line -/

/-- The write of the buffered beginning of a line, which both functions make when there is
one. -/
def flushBuffer (writer : Writer) (path : Bytes) (buffer : AzBuffer) (fs : Fs) :
    Except Trap (AzBuffer × Fs) :=
  let u := toSize (azBufferUnreadBytes buffer)
  if 0 < u then do
    let head ← buffer.buffer.load buffer.cursor u
    .ok (azBufferReset buffer, fs.write writer path head)
  else .ok (buffer, fs)

/-- `_do_append_file`. `data` is the read of the text out of the message, which happens
inside `write`. -/
def doAppendFile (path : Bytes) (buffer : AzBuffer) (data : Except Trap Bytes) (fs : Fs) :
    Except Trap (Int × AzBuffer × Fs) :=
  let (opened, fs) := (createDir fs (dirname path)).openAppend path
  if opened = false then .ok (-1, buffer, fs)
  else do
    let (buffer, fs) ← flushBuffer .doAppendFile path buffer fs
    let text ← data
    .ok (0, buffer, fs.write .doAppendFile path text)

/-- The timestamp part of a merged record: nothing, or a space and the text of
`__w3cdatetime` in the 32 bytes of `tsbuf`. -/
def mergeTimestamp (cfg : Config) (heap : Heap) (ts : BitVec 64)
    (aggr : Option ScAggregateContext) : Except Trap (Option Bytes) :=
  match aggr with
  | some cxt =>
      if cxt.fTimestamp then do
        let (cb0, tsbuf) ← w3cdatetime ⟨32, heap.stack⟩ 1 (cfg.strftime 30 ts)
        let tsbuf ← tsbuf.store 0 [32]
        let bs ← tsbuf.load 0 (cb0 + 1)
        .ok (some bs)
      else .ok none
  | none => .ok none

/-- The write of the timestamp, which `_do_merge_file` makes when there is one. -/
def writeTimestamp (path : Bytes) (tsbuf : Option Bytes) (fs : Fs) : Fs :=
  match tsbuf with
  | some bs => fs.write .doMergeFile path bs
  | none => fs

/-- The read of `host` by `strlen`. -/
def hostBytes : Option Bytes → Except Trap Bytes
  | some host => .ok host
  | none => .error .nullDeref

/-- `_do_merge_file`. A null `host` is dereferenced once the file is open. -/
def doMergeFile (cfg : Config) (heap : Heap) (host : Option Bytes) (path : Bytes)
    (ts : BitVec 64) (buffer : AzBuffer) (data : Except Trap Bytes)
    (aggr : Option ScAggregateContext) (fs : Fs) : Except Trap (Int × AzBuffer × Fs) := do
  let fullp := mkPath cfg.logdir path PATH_MAX
  let tsbuf ← mergeTimestamp cfg heap ts aggr
  let (opened, fs) := fs.openAppend fullp
  if opened = false then .ok (-1, buffer, fs)
  else do
    let host ← hostBytes host
    let fs := fs.write .doMergeFile fullp host
    let fs := writeTimestamp fullp tsbuf fs
    let fs := fs.write .doMergeFile fullp [58, 32]
    let (buffer, fs) ← flushBuffer .doMergeFile fullp buffer fs
    let text ← data
    .ok (0, buffer, fs.write .doMergeFile fullp text)

/-- `_do_trunc_file`: it opens the file and moves the offset of a descriptor that it closes
right after. Nothing is truncated. -/
def doTruncFile (path : Bytes) (fs : Fs) : Int × Fs :=
  (if (fs.file path).isSome then 0 else -1, { fs with opened := fs.opened ++ [path] })

/-! ### The two functions when every call succeeds -/

/-- `Fs` with the bytes appended to one file by one function, in one or more writes. -/
structure Appended (fs fs' : Fs) (writer : Writer) (path bytes : Bytes) : Prop where
  file_self : fs'.file path = some ((fs.file path).getD [] ++ bytes)
  file_other : ∀ p, p ≠ path → fs'.file p = fs.file p
  results : fs'.results = []
  written : ∀ w p, fs'.written w p =
    fs.written w p ++ if writer = w ∧ path = p then bytes else []

/-- One more write by the same function to the same file. -/
theorem Appended.write {fs fs' : Fs} {writer : Writer} {path bytes : Bytes}
    (h : Appended fs fs' writer path bytes) (more : Bytes) :
    Appended fs (fs'.write writer path more) writer path (bytes ++ more) := by
  rw [Fs.write_of_ok h.results]
  refine ⟨?_, ?_, h.results, ?_⟩
  · simp [h.file_self]
  · intro p hp
    simp [hp, h.file_other p hp]
  · intro w p
    have hw := Fs.written_append fs' [⟨writer, path, more⟩] w p
    have hold := h.written w p
    simp only [Fs.written] at hw hold ⊢
    rw [hw, hold, List.append_assoc]
    by_cases hsame : writer = w ∧ path = p <;> simp [hsame]

/-- An `open` that succeeds appends nothing yet. -/
theorem Appended.openAppend {fs : Fs} (h : fs.results = []) (writer : Writer) (path : Bytes) :
    (fs.openAppend path).1 = true ∧ Appended fs (fs.openAppend path).2 writer path [] := by
  rw [Fs.openAppend_of_ok h]
  refine ⟨rfl, by simp, ?_, h, ?_⟩
  · intro p hp
    simp [hp]
  · intro w p
    simp [Fs.written]

/-- The buffered beginning of a line goes to the file, and the buffer is empty after it. -/
theorem flushBuffer_ok {fs fs' : Fs} {writer : Writer} {path bytes : Bytes}
    {buffer : AzBuffer} (hv : buffer.Valid) (h : Appended fs fs' writer path bytes) :
    ∃ buffer' fs'', flushBuffer writer path buffer fs' = .ok (buffer', fs'') ∧
      Appended fs fs'' writer path (bytes ++ buffer.unread) ∧ buffer'.Valid ∧
      buffer'.unread = [] := by
  unfold flushBuffer
  simp only [hv.toSize_unread]
  -- An empty buffer is not written, and not reset.
  by_cases hempty : buffer.unread = []
  · refine ⟨buffer, fs', by simp [hempty], ?_, hv, hempty⟩
    rw [hempty, List.append_nil]
    exact h
  · have hload := hv.load_cursor (Nat.le_refl buffer.unread.length)
    rw [List.take_length] at hload
    refine ⟨azBufferReset buffer, fs'.write writer path buffer.unread, ?_,
      h.write buffer.unread, hv.reset, rfl⟩
    rw [if_pos (List.length_pos_of_ne_nil hempty), hload]
    rfl

/-- `_do_append_file` with every call successful: the buffered beginning of the line and
the text are appended, and the buffer is empty after it. -/
theorem doAppendFile_ok {fs : Fs} (hfs : fs.results = []) {buffer : AzBuffer}
    (hv : buffer.Valid) (path text : Bytes) :
    ∃ buffer' fs', doAppendFile path buffer (.ok text) fs = .ok (0, buffer', fs') ∧
      Appended fs fs' .doAppendFile path (buffer.unread ++ text) ∧ buffer'.Valid ∧
      buffer'.unread = [] := by
  obtain ⟨hfile, hresults, hwrites⟩ := createDir_frame fs (dirname path)
  have hfs' : (createDir fs (dirname path)).results = [] := by rw [hresults, hfs]
  obtain ⟨hopen, happ⟩ := Appended.openAppend hfs' .doAppendFile path
  obtain ⟨buffer', fs', hflush, happ', hv', hu'⟩ := flushBuffer_ok hv happ
  refine ⟨buffer', fs'.write .doAppendFile path text, ?_, ?_, hv', hu'⟩
  · simp only [doAppendFile]
    rw [if_neg (by simp [hopen])]
    simp only [hflush, ok_bind]
  · have hdone := happ'.write text
    rw [List.nil_append] at hdone
    refine ⟨by rw [hdone.file_self, hfile], fun p hp => by rw [hdone.file_other p hp, hfile],
      hdone.results, fun w p => ?_⟩
    rw [hdone.written w p]
    simp [Fs.written, hwrites]

/-- `_do_merge_file` with every call successful: one record is appended to the merged file,
and the buffer is empty after it. `record` ends with the buffered beginning of the line and
the text. -/
theorem doMergeFile_ok {cfg : Config} {heap : Heap} (host path : Bytes) {ts : BitVec 64}
    {aggr : Option ScAggregateContext} {stamp : Option Bytes} {fs : Fs}
    (hstamp : mergeTimestamp cfg heap ts aggr = .ok stamp) (hfs : fs.results = [])
    {buffer : AzBuffer} (hv : buffer.Valid) (text : Bytes) :
    ∃ buffer' fs',
      doMergeFile cfg heap (some host) path ts buffer (.ok text) aggr fs =
        .ok (0, buffer', fs') ∧
      Appended fs fs' .doMergeFile (mkPath cfg.logdir path PATH_MAX)
        (host ++ stamp.getD [] ++ [58, 32] ++ (buffer.unread ++ text)) ∧
      buffer'.Valid ∧ buffer'.unread = [] := by
  obtain ⟨hopen, happ⟩ := Appended.openAppend hfs .doMergeFile (mkPath cfg.logdir path PATH_MAX)
  have hhost := happ.write host
  -- The front of the record: the host, and the timestamp if there is one.
  have hstart : Appended fs
      (writeTimestamp (mkPath cfg.logdir path PATH_MAX) stamp
        ((fs.openAppend (mkPath cfg.logdir path PATH_MAX)).2.write .doMergeFile
          (mkPath cfg.logdir path PATH_MAX) host))
      .doMergeFile (mkPath cfg.logdir path PATH_MAX) (host ++ stamp.getD []) := by
    cases stamp with
    | none => simpa [writeTimestamp] using hhost
    | some bs => simpa [writeTimestamp] using hhost.write bs
  obtain ⟨buffer', fs2, hflush, happ2, hv', hu'⟩ := flushBuffer_ok hv (hstart.write [58, 32])
  refine ⟨buffer', fs2.write .doMergeFile (mkPath cfg.logdir path PATH_MAX) text, ?_, ?_, hv',
    hu'⟩
  · simp only [doMergeFile, hstamp, ok_bind]
    rw [if_neg (by simp [hopen])]
    simp only [hostBytes, ok_bind, hflush]
  · simpa [List.append_assoc] using happ2.write text

/-! ### The two functions under every script -/

/-- The writes of the pieces of a record, one after the other. -/
def Fs.writeAll (fs : Fs) (writer : Writer) (path : Bytes) (pieces : List Bytes) : Fs :=
  pieces.foldl (fun fs piece => fs.write writer path piece) fs

/-- What reaches the file of each piece. -/
def outcomes : List IoResult → List Bytes → List Bytes
  | _, [] => []
  | results, piece :: rest =>
      Fs.accepted (results.headD .ok) piece :: outcomes results.tail rest

/-- Every piece has an outcome. -/
@[simp] theorem length_outcomes (results : List IoResult) (pieces : List Bytes) :
    (outcomes results pieces).length = pieces.length := by
  induction pieces generalizing results with
  | nil => rfl
  | cons piece rest ih =>
    show (outcomes results.tail rest).length + 1 = _
    rw [ih, List.length_cons]

/-- The outcomes of later pieces come from the rest of the script. -/
theorem outcomes_append (results : List IoResult) (before pieces : List Bytes) :
    outcomes results (before ++ pieces) =
      outcomes results before ++ outcomes (results.drop before.length) pieces := by
  induction before generalizing results with
  | nil => rfl
  | cons piece rest ih =>
    show _ :: outcomes results.tail (rest ++ pieces) = _
    rw [ih, List.length_cons, ← List.drop_tail]
    rfl

/-- A list of writes takes one entry of the script for each piece. -/
theorem Fs.results_writeAll (fs : Fs) (writer : Writer) (path : Bytes) (pieces : List Bytes) :
    (fs.writeAll writer path pieces).results = fs.results.drop pieces.length := by
  induction pieces generalizing fs with
  | nil => rfl
  | cons piece rest ih =>
    show ((fs.write writer path piece).writeAll writer path rest).results = _
    rw [ih, List.length_cons, ← List.drop_tail]
    rfl

/-- A list of writes leaves one record for each piece, with the bytes that got through. -/
theorem Fs.writes_writeAll (fs : Fs) (writer : Writer) (path : Bytes) (pieces : List Bytes) :
    (fs.writeAll writer path pieces).writes =
      fs.writes ++ (outcomes fs.results pieces).map fun bytes => ⟨writer, path, bytes⟩ := by
  induction pieces generalizing fs with
  | nil => exact (List.append_nil _).symm
  | cons piece rest ih =>
    show ((fs.write writer path piece).writeAll writer path rest).writes = _
    rw [ih]
    simp [outcomes, Fs.write]

/-- An `open` takes one entry of the script and writes nothing. -/
theorem Fs.openAppend_eq (fs : Fs) (path : Bytes) :
    (fs.openAppend path).1 = !decide (fs.results.headD .ok = .fail) ∧
      (fs.openAppend path).2.results = fs.results.tail ∧
      (fs.openAppend path).2.writes = fs.writes := by
  unfold Fs.openAppend
  cases fs.results.headD .ok with
  | ok => exact ⟨rfl, rfl, rfl⟩
  | fail => exact ⟨rfl, rfl, rfl⟩
  | short k => exact ⟨rfl, rfl, rfl⟩

/-- The pieces of a line that the two functions write: the buffered beginning, when there is
one, and the text. -/
def linePieces (head text : Bytes) : List Bytes :=
  (if head = [] then [] else [head]) ++ [text]

/-- The buffered beginning is one piece, and the buffer is empty after it. -/
theorem flushBuffer_eq (writer : Writer) (path : Bytes) {buffer : AzBuffer} (hv : buffer.Valid)
    (fs : Fs) :
    ∃ buffer', flushBuffer writer path buffer fs =
        .ok (buffer',
          fs.writeAll writer path (if buffer.unread = [] then [] else [buffer.unread])) ∧
      buffer'.Valid ∧ buffer'.unread = [] := by
  unfold flushBuffer
  simp only [hv.toSize_unread]
  by_cases hempty : buffer.unread = []
  · rw [if_pos hempty, hempty, if_neg (by simp)]
    exact ⟨buffer, rfl, hv, hempty⟩
  · have hload := hv.load_cursor (Nat.le_refl buffer.unread.length)
    rw [List.take_length] at hload
    rw [if_neg hempty, if_pos (List.length_pos_of_ne_nil hempty), hload]
    exact ⟨azBufferReset buffer, rfl, hv.reset, rfl⟩

/-- `_do_append_file` on a valid buffer: an `open` that fails changes nothing, and after one
that succeeds the pieces of the line are written, whatever becomes of each. -/
theorem doAppendFile_eq {buffer : AzBuffer} (hv : buffer.Valid) (path text : Bytes) (fs : Fs) :
    ∃ fs1, fs1.results = fs.results.tail ∧ fs1.writes = fs.writes ∧
      if fs.results.headD .ok = .fail then
        doAppendFile path buffer (.ok text) fs = .ok (-1, buffer, fs1)
      else ∃ buffer', buffer'.Valid ∧ buffer'.unread = [] ∧
        doAppendFile path buffer (.ok text) fs =
          .ok (0, buffer', fs1.writeAll .doAppendFile path (linePieces buffer.unread text)) := by
  obtain ⟨-, hresults, hwrites⟩ := createDir_frame fs (dirname path)
  obtain ⟨hopened, hresults1, hwrites1⟩ :=
    (createDir fs (dirname path)).openAppend_eq path
  rw [hresults] at hopened hresults1
  rw [hwrites] at hwrites1
  refine ⟨_, hresults1, hwrites1, ?_⟩
  -- A failed `open` returns -1 and keeps the buffer.
  split
  · rename_i hfail
    simp only [doAppendFile, hopened, hfail]
    rfl
  · rename_i hopen
    obtain ⟨buffer', hflush, hv', hu'⟩ := flushBuffer_eq .doAppendFile path hv
      ((createDir fs (dirname path)).openAppend path).2
    refine ⟨buffer', hv', hu', ?_⟩
    simp only [doAppendFile, hopened, hopen, decide_false, Bool.not_false, Bool.true_eq_false,
      if_false, hflush, ok_bind]
    simp [linePieces, Fs.writeAll]

/-- What `_do_merge_file` writes in front of a line. -/
def recordHead (host : Bytes) (stamp : Option Bytes) : List Bytes :=
  host :: stamp.toList ++ [[58, 32]]

/-- `_do_merge_file` on a valid buffer, with its timestamp made. -/
theorem doMergeFile_eq {cfg : Config} {heap : Heap} {ts : BitVec 64}
    {aggr : Option ScAggregateContext} {stamp : Option Bytes}
    (hstamp : mergeTimestamp cfg heap ts aggr = .ok stamp) {buffer : AzBuffer} (hv : buffer.Valid)
    (host : Option Bytes) (path text : Bytes) (fs : Fs) :
    ∃ fs1, fs1.results = fs.results.tail ∧ fs1.writes = fs.writes ∧
      if fs.results.headD .ok = .fail then
        doMergeFile cfg heap host path ts buffer (.ok text) aggr fs = .ok (-1, buffer, fs1)
      else match host with
        | none => doMergeFile cfg heap host path ts buffer (.ok text) aggr fs = .error .nullDeref
        | some addr => ∃ buffer', buffer'.Valid ∧ buffer'.unread = [] ∧
            doMergeFile cfg heap host path ts buffer (.ok text) aggr fs =
              .ok (0, buffer', fs1.writeAll .doMergeFile (mkPath cfg.logdir path PATH_MAX)
                (recordHead addr stamp ++ linePieces buffer.unread text)) := by
  obtain ⟨hopened, hresults, hwrites⟩ := fs.openAppend_eq (mkPath cfg.logdir path PATH_MAX)
  refine ⟨_, hresults, hwrites, ?_⟩
  split
  · rename_i hfail
    simp only [doMergeFile, hstamp, ok_bind, hopened, hfail]
    rfl
  · rename_i hopen
    -- `strlen` of a null pointer traps after the file was opened.
    cases host with
    | none =>
      simp only [doMergeFile, hstamp, hopened, hopen, decide_false, Bool.not_false,
        Bool.true_eq_false, if_false, hostBytes, ok_bind, error_bind]
    | some addr =>
      obtain ⟨buffer', hflush, hv', hu'⟩ := flushBuffer_eq .doMergeFile
        (mkPath cfg.logdir path PATH_MAX) hv
        ((writeTimestamp (mkPath cfg.logdir path PATH_MAX) stamp
          ((fs.openAppend (mkPath cfg.logdir path PATH_MAX)).2.write .doMergeFile
            (mkPath cfg.logdir path PATH_MAX) addr)).write .doMergeFile
              (mkPath cfg.logdir path PATH_MAX) [58, 32])
      refine ⟨buffer', hv', hu', ?_⟩
      simp only [doMergeFile, hstamp, hopened, hopen, decide_false, Bool.not_false,
        Bool.true_eq_false, if_false, hostBytes, hflush, ok_bind]
      cases stamp <;> simp [recordHead, linePieces, Fs.writeAll, writeTimestamp]

end Compostela.Aggregator
