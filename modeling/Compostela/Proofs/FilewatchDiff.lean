import Compostela.RunLoop.Filewatch
import Mathlib.Data.List.Nodup

/-!
# `Compostela.Proofs.FilewatchDiff`: the tasks are the changes

`Changed` says which tasks two looks at the files call for. The marks that tell the program so are
left in the entries of the new list, which is the old list of the next step. None of them is a 2,
and an old entry is only asked whether its mark is a 2. This is the invariant `Follows`.

* `watchStep_exact`: one step queues a task for each change, and one only.
* `watchRun_exact`: the same for every step of a run.
-/

set_option autoImplicit false

namespace Compostela.RunLoop

open Compostela.Common
open Compostela.Memory

/-- The names of the files. -/
def names (files : List FileStat) : List Bytes := files.map Prod.fst

/-- The tasks that a change from the old files to the new ones calls for. -/
def Changed (old new : List FileStat) : TaskType → Bytes → Prop
  | .fileAdded, fname => fname ∈ names new ∧ fname ∉ names old
  | .fileDeleted, fname => fname ∈ names old ∧ fname ∉ names new
  | .fileModified, fname => ∃ t0 t, (fname, t0) ∈ old ∧ (fname, t) ∈ new ∧ t0 ≠ t
  | .none, _ => False
  | .controlNew, _ => False

/-- What a task says about which file. -/
def RunLoopTask.call (t : RunLoopTask) : TaskType × Bytes := (t.type, t.object.filename)

/-- One task for each change, and none besides. -/
def ExactDiff (old new : List FileStat) (tasks : List RunLoopTask) : Prop :=
  ∀ type fname,
    (Changed old new type fname → (tasks.map RunLoopTask.call).count (type, fname) = 1) ∧
    (¬ Changed old new type fname → (tasks.map RunLoopTask.call).count (type, fname) = 0)

/-- The state of the loop after a look at the files: their entries, with no mark for an old entry,
and no tasks. -/
structure Follows (w : Watch) (files : List FileStat) : Prop where
  entries : (w.wfiles0.map Filewatch.file).Perm files
  unmarked : ∀ wf ∈ w.wfiles0, wf.generation ≠ 2
  flushed : w.tasks = []

/-- Before the first snapshot the list has no entries. -/
theorem follows_start : Follows ⟨[], []⟩ [] := ⟨.nil, nofun, rfl⟩

/-! ### What the tasks say -/

/-- What the task for a new entry says, after the comparison. -/
def newCall (listOrig : List Filewatch) (wf : Filewatch) : Option (TaskType × Bytes) :=
  match findEntryWithFilename listOrig wf.filename with
  | some wf0 => if wf0.mtime ≠ wf.mtime then some (.fileModified, wf.filename) else none
  | none => some (.fileAdded, wf.filename)

/-- What the task for an old entry says. -/
def oldCall (list : List Filewatch) (wf : Filewatch) : Option (TaskType × Bytes) :=
  match findEntryWithFilename list wf.filename with
  | some _ => none
  | none => some (.fileDeleted, wf.filename)

/-- The task for a file of the new list: created, modified, or none. -/
theorem newTask_markNew (listOrig : List Filewatch) (wf : Filewatch) :
    (newTask (markNew listOrig wf)).map RunLoopTask.call = newCall listOrig wf := by
  unfold markNew newCall
  cases findEntryWithFilename listOrig wf.filename with
  | none => rfl
  | some wf0 =>
    simp only
    split
    · rfl
    · rfl

/-- The task for a file of the old list: removed, or none. -/
theorem oldTask_markOld (list : List Filewatch) {wf : Filewatch} (h : wf.generation ≠ 2) :
    (oldTask (markOld list wf)).map RunLoopTask.call = oldCall list wf := by
  unfold markOld oldCall
  cases findEntryWithFilename list wf.filename with
  | some _ => rfl
  | none =>
    simp only [oldTask, if_pos h]
    rfl

/-- The comparison, also when there are no old entries and it does nothing. -/
theorem evalFilewatch_eq {listOrig list : List Filewatch}
    (hnames : (listOrig.map (·.filename)).Nodup) (hnew : ∀ wf ∈ list, wf.generation = 0) :
    (evalFilewatch listOrig list).2 =
      (listOrig.map (markOld list), list.map (markNew listOrig)) := by
  unfold evalFilewatch
  split
  · rename_i hnil
    subst hnil
    refine Prod.ext rfl (List.map_id list |>.symm.trans (List.map_congr_left fun wf hmem => ?_))
    show wf = { wf with generation := 0 }
    rw [← hnew wf hmem]
  · exact evalLoop_eq hnames list

/-- What the queued tasks say. -/
theorem map_call_diffFilewatch {listOrig : List Filewatch}
    (hunmarked : ∀ wf ∈ listOrig, wf.generation ≠ 2) (list : List Filewatch) :
    (diffFilewatch (listOrig.map (markOld list)) (list.map (markNew listOrig)) []).map
        RunLoopTask.call =
      (list.filterMap (newCall listOrig)).reverse ++
        (listOrig.filterMap (oldCall list)).reverse := by
  have hold : ((listOrig.map (markOld list)).filterMap oldTask).map RunLoopTask.call =
      listOrig.filterMap (oldCall list) := by
    rw [List.filterMap_map, List.map_filterMap]
    exact List.filterMap_congr fun wf hmem => oldTask_markOld list (hunmarked wf hmem)
  have hnew : ((list.map (markNew listOrig)).filterMap newTask).map RunLoopTask.call =
      list.filterMap (newCall listOrig) := by
    rw [List.filterMap_map, List.map_filterMap]
    exact List.filterMap_congr fun wf _ => newTask_markNew listOrig wf
  rw [diffFilewatch_eq, List.append_nil, List.map_append, List.map_reverse, List.map_reverse, hold,
    hnew]

/-! ### One step -/

section
variable {listOrig list : List Filewatch} {old new : List FileStat}

/-- No two tasks say the same. -/
theorem nodup_calls (hold : (listOrig.map (·.filename)).Nodup)
    (hnew : (list.map (·.filename)).Nodup) :
    ((list.filterMap (newCall listOrig)).reverse ++
      (listOrig.filterMap (oldCall list)).reverse).Nodup := by
  -- A task is about the file of its entry.
  have hname : ∀ wf call, newCall listOrig wf = some call →
      call.2 = wf.filename ∧ call.1 ≠ .fileDeleted := by
    intro wf call hcall
    unfold newCall at hcall
    split at hcall
    · split at hcall
      · cases hcall
        exact ⟨rfl, nofun⟩
      · cases hcall
    · cases hcall
      exact ⟨rfl, nofun⟩
  have hname' : ∀ wf call, oldCall list wf = some call →
      call.2 = wf.filename ∧ call.1 = .fileDeleted := by
    intro wf call hcall
    unfold oldCall at hcall
    split at hcall
    · cases hcall
    · cases hcall
      exact ⟨rfl, rfl⟩
  refine List.nodup_append.mpr ⟨List.nodup_reverse.mpr ?_, List.nodup_reverse.mpr ?_, ?_⟩
  · refine List.Pairwise.filterMap _ (fun a a' hne b hb b' hb' => ?_) (List.pairwise_map.mp hnew)
    intro heq
    exact hne ((hname a b hb).1.symm.trans ((congrArg Prod.snd heq).trans (hname a' b' hb').1))
  · refine List.Pairwise.filterMap _ (fun a a' hne b hb b' hb' => ?_) (List.pairwise_map.mp hold)
    intro heq
    exact hne ((hname' a b hb).1.symm.trans ((congrArg Prod.snd heq).trans (hname' a' b' hb').1))
  · intro call hcall call' hcall' heq
    obtain ⟨wf, -, hwf⟩ := List.mem_filterMap.mp (List.mem_reverse.mp hcall)
    obtain ⟨wf', -, hwf'⟩ := List.mem_filterMap.mp (List.mem_reverse.mp hcall')
    exact (hname wf call hwf).2 (heq ▸ (hname' wf' call' hwf').2)

/-- An entry that is found is in the list and has the name. -/
theorem of_find_eq_some {fname : Bytes} {wf0 : Filewatch}
    (h : findEntryWithFilename listOrig fname = some wf0) :
    wf0 ∈ listOrig ∧ wf0.filename = fname := by
  unfold findEntryWithFilename at h
  have hname := List.find?_some h
  exact ⟨List.mem_of_find?_eq_some h, (of_decide_eq_true hname).symm⟩

/-- A search among entries with distinct names finds the entry of the name. -/
theorem find_eq_some_iff (hold : (listOrig.map (·.filename)).Nodup) {fname : Bytes} {t : Int} :
    (∃ wf0, findEntryWithFilename listOrig fname = some wf0 ∧ wf0.mtime = t) ↔
      (fname, t) ∈ listOrig.map Filewatch.file := by
  constructor
  · rintro ⟨wf0, hfind, rfl⟩
    obtain ⟨hmem, rfl⟩ := of_find_eq_some hfind
    exact List.mem_map.mpr ⟨wf0, hmem, rfl⟩
  · intro hmem
    obtain ⟨wf, hwf, heq⟩ := List.mem_map.mp hmem
    cases heq
    cases hfind : findEntryWithFilename listOrig wf.filename with
    | none =>
      unfold findEntryWithFilename at hfind
      exact absurd (decide_eq_true rfl) (List.find?_eq_none.mp hfind wf hwf)
    | some wf0 =>
      obtain ⟨hmem', hname⟩ := of_find_eq_some hfind
      have hsame := List.inj_on_of_nodup_map hold hmem' hwf hname
      exact ⟨wf0, rfl, by rw [hsame]⟩

/-- No entry is found exactly when the name is not in the list. -/
theorem find_eq_none_iff {fname : Bytes} :
    findEntryWithFilename listOrig fname = none ↔ fname ∉ listOrig.map (·.filename) := by
  rw [findEntryWithFilename, List.find?_eq_none, List.mem_map]
  constructor
  · rintro h ⟨wf, hwf, rfl⟩
    exact h wf hwf (decide_eq_true rfl)
  · intro h wf hwf heq
    exact h ⟨wf, hwf, (of_decide_eq_true heq).symm⟩

/-- The names of the entries are those of the files. -/
theorem mem_filenames (h : (listOrig.map Filewatch.file).Perm old) (fname : Bytes) :
    fname ∈ listOrig.map (·.filename) ↔ fname ∈ names old := by
  rw [← map_fst_file]
  exact (h.map Prod.fst).mem_iff

/-- The tasks say what has changed. -/
theorem mem_calls_iff (hnames : (listOrig.map (·.filename)).Nodup)
    (hold : (listOrig.map Filewatch.file).Perm old) (hnew : (list.map Filewatch.file).Perm new)
    (type : TaskType) (fname : Bytes) :
    (type, fname) ∈ (list.filterMap (newCall listOrig)).reverse ++
      (listOrig.filterMap (oldCall list)).reverse ↔ Changed old new type fname := by
  rw [List.mem_append, List.mem_reverse, List.mem_reverse, List.mem_filterMap, List.mem_filterMap]
  have hentry : ∀ wf ∈ list, wf.file ∈ new := fun wf hwf =>
    hnew.mem_iff.mp (List.mem_map.mpr ⟨wf, hwf, rfl⟩)
  constructor
  · rintro (⟨wf, hwf, hcall⟩ | ⟨wf, hwf, hcall⟩)
    · unfold newCall at hcall
      split at hcall
      · rename_i wf0 hfind
        split at hcall
        · rename_i hne
          cases hcall
          have hmem := (find_eq_some_iff hnames).mp ⟨wf0, hfind, rfl⟩
          exact ⟨wf0.mtime, wf.mtime, hold.mem_iff.mp hmem, hentry wf hwf, hne⟩
        · cases hcall
      · rename_i hfind
        cases hcall
        rw [find_eq_none_iff, mem_filenames hold] at hfind
        exact ⟨List.mem_map.mpr ⟨_, hentry wf hwf, rfl⟩, hfind⟩
    · unfold oldCall at hcall
      split at hcall
      · cases hcall
      · rename_i hnot
        cases hcall
        rw [find_eq_none_iff, mem_filenames hnew] at hnot
        exact ⟨(mem_filenames hold _).mp (List.mem_map.mpr ⟨wf, hwf, rfl⟩), hnot⟩
  · intro hchanged
    cases type with
    | fileAdded =>
      obtain ⟨hin, hnot⟩ := hchanged
      obtain ⟨wf, hwf, rfl⟩ := List.mem_map.mp ((mem_filenames hnew _).mpr hin)
      rw [← mem_filenames hold, ← find_eq_none_iff] at hnot
      exact .inl ⟨wf, hwf, by rw [newCall, hnot]⟩
    | fileModified =>
      obtain ⟨t0, t, h0, h1, hne⟩ := hchanged
      obtain ⟨wf, hwf, heq⟩ := List.mem_map.mp (hnew.mem_iff.mpr h1)
      cases heq
      obtain ⟨wf0, hfind, rfl⟩ := (find_eq_some_iff hnames).mpr (hold.mem_iff.mpr h0)
      exact .inl ⟨wf, hwf, by simp only [newCall, hfind, if_pos hne]⟩
    | fileDeleted =>
      obtain ⟨hin, hnot⟩ := hchanged
      obtain ⟨wf, hwf, rfl⟩ := List.mem_map.mp ((mem_filenames hold _).mpr hin)
      rw [← mem_filenames hnew, ← find_eq_none_iff] at hnot
      exact .inr ⟨wf, hwf, by rw [oldCall, hnot]⟩
    | none => exact hchanged.elim
    | controlNew => exact hchanged.elim

end

/-- The entries of a new list. -/
theorem makeFilewatch_entries (files : List FileStat) :
    ((makeFilewatch files).map Filewatch.file).Perm files ∧
      ∀ wf ∈ makeFilewatch files, wf.generation = 0 := by
  rw [makeFilewatch_eq]
  constructor
  · rw [List.map_reverse, List.map_map]
    exact (List.reverse_perm _).trans (.of_eq (List.map_id files))
  · intro wf hwf
    obtain ⟨file, -, rfl⟩ := List.mem_map.mp (List.mem_reverse.mp hwf)
    rfl

/-- The comparison leaves no mark of an old entry in the new ones. -/
theorem markNew_unmarked (listOrig : List Filewatch) (wf : Filewatch) :
    (markNew listOrig wf).generation ≠ 2 := by
  unfold markNew
  cases findEntryWithFilename listOrig wf.filename with
  | none => exact nofun
  | some wf0 =>
    simp only
    split
    · decide
    · decide

/-- One step of the loop, from any marks that the steps before have left. -/
theorem watchStep_exact {w : Watch} {old new : List FileStat} (h : Follows w old)
    (hold : (names old).Nodup) (hnew : (names new).Nodup) :
    ∃ tasks w', watchStep w new = .ok (tasks, w') ∧ ExactDiff old new tasks ∧ Follows w' new := by
  obtain ⟨hentries, hzero⟩ := makeFilewatch_entries new
  have hnames : (w.wfiles0.map (·.filename)).Nodup := by
    rw [← map_fst_file]
    exact (h.entries.map Prod.fst).nodup_iff.mpr hold
  have hnames' : ((makeFilewatch new).map (·.filename)).Nodup := by
    rw [← map_fst_file]
    exact (hentries.map Prod.fst).nodup_iff.mpr hnew
  have heval := evalFilewatch_eq hnames hzero
  refine ⟨diffFilewatch (w.wfiles0.map (markOld (makeFilewatch new)))
    ((makeFilewatch new).map (markNew w.wfiles0)) [],
    ⟨(makeFilewatch new).map (markNew w.wfiles0), []⟩, ?_, ?_, ?_, ?_, rfl⟩
  · unfold watchStep
    rw [if_neg (not_not.mpr h.flushed), h.flushed]
    simp only [heval]
    rfl
  · intro type fname
    rw [map_call_diffFilewatch h.unmarked, ← mem_calls_iff hnames h.entries hentries]
    exact ⟨List.count_eq_one_of_mem (nodup_calls hnames hnames'), List.count_eq_zero_of_not_mem⟩
  · rw [List.map_map]
    exact (List.Perm.of_eq (List.map_congr_left fun wf _ => file_markNew _ wf)).trans hentries
  · intro wf hwf
    obtain ⟨wf', -, rfl⟩ := List.mem_map.mp hwf
    exact markNew_unmarked _ wf'

/-- A run of the loop over looks at the files, each with distinct names. In every step the tasks are
the changes from the look before, and from no files at the start. -/
theorem watchRun_exact (snapshots : List (List FileStat))
    (hnames : ∀ files ∈ snapshots, (names files).Nodup) :
    ∃ queued : List (List RunLoopTask), watchRun ⟨[], []⟩ snapshots = .ok queued ∧
      queued.length = snapshots.length ∧
      ∀ (k : Nat) old new tasks, ([] :: snapshots)[k]? = some old → snapshots[k]? = some new →
        queued[k]? = some tasks → ExactDiff old new tasks := by
  -- From any state that follows the files of the look before.
  have hrun : ∀ (w : Watch) (old : List FileStat), Follows w old → (names old).Nodup →
      ∃ queued : List (List RunLoopTask), watchRun w snapshots = .ok queued ∧
        queued.length = snapshots.length ∧
        ∀ (k : Nat) old' new tasks, (old :: snapshots)[k]? = some old' → snapshots[k]? = some new →
          queued[k]? = some tasks → ExactDiff old' new tasks := by
    induction snapshots with
    | nil =>
      intro w old _ _
      exact ⟨[], rfl, rfl, fun k old' new tasks _ hnew => nomatch hnew⟩
    | cons files rest ih =>
      intro w old hfollows hold
      have hfiles := hnames files List.mem_cons_self
      obtain ⟨tasks, w', hstep, hexact, hfollows'⟩ := watchStep_exact hfollows hold hfiles
      obtain ⟨queued, hqueued, hlen, hall⟩ :=
        ih (fun f hf => hnames f (List.mem_cons_of_mem _ hf)) w' files hfollows' hfiles
      refine ⟨tasks :: queued, ?_, congrArg Nat.succ hlen, ?_⟩
      · rw [watchRun, hstep, ok_bind]
        simp only [hqueued, ok_bind]
      · intro k old' new tasks' hold' hnew' htasks'
        cases k with
        | zero =>
          cases hold'
          cases hnew'
          cases htasks'
          exact hexact
        | succ k => exact hall k old' new tasks' hold' hnew' htasks'
  exact hrun _ _ follows_start List.nodup_nil

/-- Two files, of which one is changed and one goes away, and then none. -/
theorem watchRun_exact_two :
    (∀ files ∈ [[([97], 1), ([98], 1)], [([97], 2)], ([] : List FileStat)], (names files).Nodup) ∧
      ∃ queued : List (List RunLoopTask),
        watchRun ⟨[], []⟩ [[([97], 1), ([98], 1)], [([97], 2)], []] = .ok queued ∧
        queued.length = 3 ∧
        ∀ (k : Nat) old new tasks,
          ([[], [([97], 1), ([98], 1)], [([97], 2)], []] : List (List FileStat))[k]?
            = some old →
          ([[([97], 1), ([98], 1)], [([97], 2)], []] : List (List FileStat))[k]? = some new →
          queued[k]? = some tasks → ExactDiff old new tasks :=
  ⟨by decide, watchRun_exact _ (by decide)⟩

end Compostela.RunLoop
