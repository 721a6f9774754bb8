import Compostela.Common.AzList
import Compostela.Common.Message

/-!
# `Compostela.RunLoop.Filewatch`: the watched files of `common/runloop_test.c`

The program looks at its files again and again. Each time it makes a new list of entries and
compares it with the list from before. `__eval_filewatch` writes the result of the comparison into
the entries: 2 into an old entry whose file is still there, and 0, 1 or 3 into a new entry.
`__diff_filewatch` reads these marks and queues a task for each change. The new list is the old one
of the next step, with the marks still in it.

* `evalLoop_eq`: the marks that the comparison leaves.
* `diffFilewatch_eq`: the tasks that the marks give.
-/

set_option autoImplicit false

namespace Compostela.RunLoop

open Compostela.Common
open Compostela.Memory

/-- `struct __filewatch`, with the modification time of its `st`. -/
structure Filewatch where
  filename : Bytes
  mtime : Int
  generation : Nat
  deriving DecidableEq, Repr

/-- The types of a task. -/
inductive TaskType
  | none
  | fileAdded
  | fileModified
  | fileDeleted
  | controlNew
  deriving DecidableEq, Repr

/-- `struct __run_loop_task`, with the entry that `object` points to. -/
structure RunLoopTask where
  type : TaskType
  object : Filewatch
  deriving DecidableEq, Repr

/-- `__find_entry_with_filename`. -/
def findEntryWithFilename (list : List Filewatch) (fname : Bytes) : Option Filewatch :=
  list.find? fun wf => fname = wf.filename

/-- The store of a mark through the pointer that the search returns, which is the one to the first
entry of that name. -/
def markEntry (fname : Bytes) (generation : Nat) : List Filewatch → List Filewatch
  | [] => []
  | wf :: list =>
      if fname = wf.filename then { wf with generation := generation } :: list
      else wf :: markEntry fname generation list

/-- The loop of `__eval_filewatch`. The result is the two lists with their marks. -/
def evalLoop (listOrig : List Filewatch) : List Filewatch → List Filewatch × List Filewatch
  | [] => (listOrig, [])
  | wf :: list =>
      match findEntryWithFilename listOrig wf.filename with
      | some wf0 =>
          let wf := { wf with generation := if wf0.mtime ≠ wf.mtime then 3 else 1 }
          let r := evalLoop (markEntry wf.filename 2 listOrig) list
          (r.1, wf :: r.2)
      | none =>
          let wf := { wf with generation := 0 }
          let r := evalLoop listOrig list
          (r.1, wf :: r.2)

/-- `__eval_filewatch`. Without old entries nothing is marked. -/
def evalFilewatch (listOrig list : List Filewatch) : Int × List Filewatch × List Filewatch :=
  if listOrig = [] then (-1, listOrig, list) else (0, evalLoop listOrig list)

/-- The task for an old entry. -/
def oldTask (wf : Filewatch) : Option RunLoopTask :=
  if wf.generation ≠ 2 then some ⟨.fileDeleted, wf⟩ else none

/-- The task for a new entry. -/
def newTask (wf : Filewatch) : Option RunLoopTask :=
  if wf.generation = 0 then some ⟨.fileAdded, wf⟩
  else if wf.generation = 1 then none
  else if wf.generation = 3 then some ⟨.fileModified, wf⟩
  else none

/-- One of the loops of `__diff_filewatch`. A task comes to the front of the queue. -/
def queueTasks (task : Filewatch → Option RunLoopTask) (tasks : List RunLoopTask)
    (list : List Filewatch) : List RunLoopTask :=
  list.foldl (fun tasks wf =>
    match task wf with
    | some t => azListAdd tasks t
    | none => tasks) tasks

/-- `__diff_filewatch`. -/
def diffFilewatch (listOrig list : List Filewatch) (tasks : List RunLoopTask) : List RunLoopTask :=
  queueTasks newTask (queueTasks oldTask tasks listOrig) list

/-- A file as `glob` and `stat` find it: its name and its modification time. -/
abbrev FileStat := Bytes × Int

/-- `__make_filewatch_with_glob`. -/
def makeFilewatch (files : List FileStat) : List Filewatch :=
  files.foldl (fun list file => azListAdd list ⟨file.1, file.2, 0⟩) []

/-- `__run_loop_flush`. -/
def runLoopFlush (_ : List RunLoopTask) : List RunLoopTask := []

/-- `wfiles0`, and the tasks of the run loop. -/
structure Watch where
  wfiles0 : List Filewatch
  tasks : List RunLoopTask

/-- One turn of the loop of `main`: the tasks that it executes, and the state for the next turn.
Waiting for connections does not change either. -/
def watchStep (w : Watch) (files : List FileStat) : Except Trap (List RunLoopTask × Watch) :=
  if w.tasks ≠ [] then .error .assertFailed
  else
    let wfiles := makeFilewatch files
    let (_, wfiles0, wfiles) := evalFilewatch w.wfiles0 wfiles
    let tasks := diffFilewatch wfiles0 wfiles w.tasks
    .ok (tasks, ⟨wfiles, runLoopFlush tasks⟩)

/-- The loop of `main`: the tasks of each turn. -/
def watchRun (w : Watch) : List (List FileStat) → Except Trap (List (List RunLoopTask))
  | [] => .ok []
  | files :: rest => do
      let (tasks, w) ← watchStep w files
      let queued ← watchRun w rest
      .ok (tasks :: queued)

/-! ### The marks -/

/-- The file of an entry. -/
def Filewatch.file (wf : Filewatch) : FileStat := (wf.filename, wf.mtime)

/-- The names of the files are the names of the entries. -/
@[simp] theorem map_fst_file (list : List Filewatch) :
    (list.map Filewatch.file).map Prod.fst = list.map (·.filename) := by
  rw [List.map_map]
  rfl

/-- An old entry after the comparison. -/
def markOld (list : List Filewatch) (wf : Filewatch) : Filewatch :=
  match findEntryWithFilename list wf.filename with
  | some _ => { wf with generation := 2 }
  | none => wf

/-- A new entry after the comparison. -/
def markNew (listOrig : List Filewatch) (wf : Filewatch) : Filewatch :=
  { wf with generation :=
      match findEntryWithFilename listOrig wf.filename with
      | some wf0 => if wf0.mtime ≠ wf.mtime then 3 else 1
      | none => 0 }

/-- Marking an old entry leaves its file alone. -/
@[simp] theorem file_markOld (list : List Filewatch) (wf : Filewatch) :
    (markOld list wf).file = wf.file := by
  unfold markOld
  split
  · rfl
  · rfl

/-- Marking a new entry leaves its file alone. -/
@[simp] theorem file_markNew (listOrig : List Filewatch) (wf : Filewatch) :
    (markNew listOrig wf).file = wf.file := rfl

/-- Marking the entry of a name leaves all files alone. -/
theorem map_file_markEntry (fname : Bytes) (generation : Nat) (list : List Filewatch) :
    (markEntry fname generation list).map Filewatch.file = list.map Filewatch.file := by
  induction list with
  | nil => rfl
  | cons wf list ih =>
    unfold markEntry
    split
    · rfl
    · rw [List.map_cons, List.map_cons, ih]

/-- The entry of a name is the first one that has it. -/
theorem find_cons (wf : Filewatch) (list : List Filewatch) (fname : Bytes) :
    findEntryWithFilename (wf :: list) fname =
      if fname = wf.filename then some wf else findEntryWithFilename list fname := by
  rw [findEntryWithFilename, List.find?_cons]
  split
  · rename_i h
    rw [if_pos (of_decide_eq_true h)]
  · rename_i h
    rw [if_neg (of_decide_eq_false h)]
    rfl

/-- A search does not look at the marks. -/
theorem map_file_find (list : List Filewatch) (fname : Bytes) :
    (findEntryWithFilename list fname).map Filewatch.file =
      (list.map Filewatch.file).find? fun file => fname = file.1 := by
  rw [List.find?_map]
  rfl

/-- The mark of a new entry depends on the names and times of the old ones only. -/
theorem markNew_congr {listOrig listOrig' : List Filewatch}
    (h : listOrig.map Filewatch.file = listOrig'.map Filewatch.file) (wf : Filewatch) :
    markNew listOrig wf = markNew listOrig' wf := by
  have hfind : (findEntryWithFilename listOrig wf.filename).map Filewatch.file =
      (findEntryWithFilename listOrig' wf.filename).map Filewatch.file := by
    rw [map_file_find, map_file_find, h]
  unfold markNew
  cases h1 : findEntryWithFilename listOrig wf.filename with
  | none =>
    cases h2 : findEntryWithFilename listOrig' wf.filename with
    | none => rfl
    | some wf2 => simp [h1, h2] at hfind
  | some wf1 =>
    cases h2 : findEntryWithFilename listOrig' wf.filename with
    | none => simp [h1, h2] at hfind
    | some wf2 =>
      rw [h1, h2] at hfind
      have hmtime : wf1.mtime = wf2.mtime := congrArg Prod.snd (Option.some.inj hfind)
      simp only [hmtime]

/-- With distinct names, the first entry of a name is the only one. -/
theorem markEntry_eq {list : List Filewatch} (h : (list.map (·.filename)).Nodup) (fname : Bytes)
    (generation : Nat) :
    markEntry fname generation list = list.map fun wf =>
      if fname = wf.filename then { wf with generation := generation } else wf := by
  induction list with
  | nil => rfl
  | cons wf list ih =>
    rw [List.map_cons, List.nodup_cons] at h
    unfold markEntry
    rw [List.map_cons]
    split
    · rename_i heq
      -- No other entry has this name.
      have hrest : ∀ wf' ∈ list, ¬ fname = wf'.filename := fun wf' hmem heq' =>
        h.1 (List.mem_map.mpr ⟨wf', hmem, heq'.symm.trans heq⟩)
      congr 1
      refine (List.map_id list).symm.trans (List.map_congr_left fun wf' hmem => ?_)
      exact (if_neg (hrest wf' hmem)).symm
    · rw [ih h.2]

/-- The comparison of two lists. The induction is on the new entries, and the marks in the old ones
do not matter to it. -/
theorem evalLoop_eq {listOrig : List Filewatch} (h : (listOrig.map (·.filename)).Nodup)
    (list : List Filewatch) :
    evalLoop listOrig list = (listOrig.map (markOld list), list.map (markNew listOrig)) := by
  induction list generalizing listOrig with
  | nil =>
    have hold : listOrig.map (markOld []) = listOrig := by
      exact List.map_id listOrig
    rw [evalLoop, hold, List.map_nil]
  | cons wf list ih =>
    unfold evalLoop
    cases hfind : findEntryWithFilename listOrig wf.filename with
    | none =>
      have hnot : ∀ wf' ∈ listOrig, wf.filename ≠ wf'.filename := by
        simpa [findEntryWithFilename] using hfind
      simp only [ih h]
      refine Prod.ext (List.map_congr_left fun wf' hmem => ?_) ?_
      · rw [markOld, markOld, find_cons, if_neg (hnot wf' hmem).symm]
      · simp only [List.map_cons, List.cons.injEq, and_true]
        simp only [markNew, hfind]
    | some wf0 =>
      -- A mark changes neither a name nor a time, so the rest of the loop sees the same files.
      have hfiles := map_file_markEntry wf.filename 2 listOrig
      have hnames : (markEntry wf.filename 2 listOrig).map (·.filename) =
          listOrig.map (·.filename) := by
        rw [← map_fst_file, hfiles, map_fst_file]
      simp only [ih (hnames ▸ h)]
      refine Prod.ext ?_ ?_
      · simp only [markEntry_eq h, List.map_map]
        refine List.map_congr_left fun wf' _ => ?_
        rw [Function.comp_apply]
        by_cases heq : wf.filename = wf'.filename
        · rw [if_pos heq, markOld, markOld, find_cons, if_pos heq.symm]
          cases findEntryWithFilename list wf'.filename with
          | none => rfl
          | some _ => rfl
        · rw [if_neg heq, markOld, markOld, find_cons, if_neg (Ne.symm heq)]
      · simp only [List.map_cons, List.cons.injEq]
        refine ⟨?_, List.map_congr_left fun wf' _ => markNew_congr hfiles wf'⟩
        simp only [markNew, hfind]

/-! ### The tasks -/

/-- The tasks of a list are put in front of those that are there, the last one first. -/
theorem queueTasks_eq (task : Filewatch → Option RunLoopTask) (tasks : List RunLoopTask)
    (list : List Filewatch) :
    queueTasks task tasks list = (list.filterMap task).reverse ++ tasks := by
  induction list generalizing tasks with
  | nil => rfl
  | cons wf list ih =>
    have hstep : queueTasks task tasks (wf :: list) = queueTasks task
        (match task wf with
          | some t => azListAdd tasks t
          | none => tasks) list := rfl
    rw [hstep, ih]
    cases htask : task wf with
    | none => rw [List.filterMap_cons_none htask]
    | some t =>
      rw [List.filterMap_cons_some htask, List.reverse_cons, List.append_assoc]
      rfl

/-- The tasks for the new entries are in front of those for the old ones. -/
theorem diffFilewatch_eq (listOrig list : List Filewatch) (tasks : List RunLoopTask) :
    diffFilewatch listOrig list tasks =
      (list.filterMap newTask).reverse ++ ((listOrig.filterMap oldTask).reverse ++ tasks) := by
  rw [diffFilewatch, queueTasks_eq, queueTasks_eq]

/-- The entries of a new list, in the opposite order of the files and without marks. -/
theorem makeFilewatch_eq (files : List FileStat) :
    makeFilewatch files = (files.map fun file => ⟨file.1, file.2, 0⟩).reverse := by
  have hloop : ∀ li : List Filewatch,
      files.foldl (fun list file => azListAdd list ⟨file.1, file.2, 0⟩) li =
        (files.map fun file => ⟨file.1, file.2, 0⟩).reverse ++ li := by
    induction files with
    | nil => exact fun li => rfl
    | cons file files ih =>
      intro li
      rw [List.foldl_cons, ih, List.map_cons, List.reverse_cons, List.append_assoc]
      rfl
  rw [makeFilewatch, hloop, List.append_nil]

end Compostela.RunLoop
