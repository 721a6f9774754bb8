import Mathlib.Data.List.DropRight
import Mathlib.Data.List.Flatten

/-!
# `Compostela.Lib.Pieces`: lines that come in pieces

A writer sends a text in pieces. Some pieces complete a line, the others are the beginning
of one. A reader that must record whole lines only keeps the pieces of an open line back
(`pending`) and has recorded everything up to the last piece that completes a line
(`recorded`). `recorded_append_pending` says that nothing is lost between the two, and the
`concat` lemmas are the step for one more piece.

`completed` is what a reader records that forgets what it kept back. By
`completed_eq_recorded_iff` this is the same only if every piece it forgot was empty.

`lines` are the lines of several writers whose pieces arrive in one order. `lines_of_writer`
says that the pieces of different writers do not mix.
-/

set_option autoImplicit false

namespace Compostela.Pieces

section
variable {α β : Type} (complete : α → Bool) (text : α → List β)

/-- The text of every piece up to the last one that completes a line. -/
def recorded (l : List α) : List β := (l.rdropWhile fun x => !complete x).flatMap text

/-- The text of the pieces after the last one that completes a line. -/
def pending (l : List α) : List β := (l.rtakeWhile fun x => !complete x).flatMap text

/-- The text of the pieces that complete a line, and of no others. -/
def completed (l : List α) : List β := (l.filter complete).flatMap text

/-- The recorded and the pending text are the whole text. -/
theorem recorded_append_pending (l : List α) :
    recorded complete text l ++ pending complete text l = l.flatMap text := by
  rw [recorded, pending, ← List.flatMap_append, List.rdropWhile_append_rtakeWhile]

variable {complete}

/-- One more piece of an open line is kept back. -/
theorem concat_of_open {x : α} (hx : complete x = false) (l : List α) :
    recorded complete text (l ++ [x]) = recorded complete text l ∧
      pending complete text (l ++ [x]) = pending complete text l ++ text x ∧
      completed complete text (l ++ [x]) = completed complete text l := by
  refine ⟨?_, ?_, ?_⟩
  · rw [recorded, List.rdropWhile_concat, if_pos (by simp [hx]), recorded]
  · rw [pending, List.rtakeWhile_concat, if_pos (by simp [hx]), List.flatMap_append, pending]
    simp
  · rw [completed, List.filter_append, List.filter_cons_of_neg (by simp [hx])]
    simp [completed]

/-- One more piece that completes a line: what was pending is recorded in front of it. -/
theorem concat_of_complete {x : α} (hx : complete x = true) (l : List α) :
    recorded complete text (l ++ [x]) =
        recorded complete text l ++ (pending complete text l ++ text x) ∧
      pending complete text (l ++ [x]) = [] ∧
      completed complete text (l ++ [x]) = completed complete text l ++ text x := by
  refine ⟨?_, ?_, ?_⟩
  · rw [recorded, List.rdropWhile_concat, if_neg (by simp [hx]), List.flatMap_append,
      ← recorded_append_pending complete text l]
    simp
  · rw [pending, List.rtakeWhile_concat, if_neg (by simp [hx])]
    rfl
  · rw [completed, List.filter_append, List.filter_cons_of_pos (by simp [hx])]
    simp [completed]

/-- Leaving pieces out keeps the text exactly when the pieces left out are empty. -/
theorem flatMap_filter_eq_iff (l : List α) :
    (l.filter complete).flatMap text = l.flatMap text ↔
      ∀ x ∈ l, complete x = false → text x = [] := by
  induction l with
  | nil => simp
  | cons x rest ih =>
    cases hx : complete x with
    | true =>
      rw [List.filter_cons_of_pos (by simp [hx]), List.flatMap_cons, List.flatMap_cons,
        List.append_cancel_left_eq, ih]
      simp [hx]
    | false =>
      rw [List.filter_cons_of_neg (by simp [hx]), List.flatMap_cons]
      -- The kept text is never longer than the whole, so the piece left out is empty.
      have hle : ((rest.filter complete).flatMap text).length ≤ (rest.flatMap text).length :=
        (List.filter_sublist.flatMap text).length_le
      constructor
      · intro heq
        have hlen := congrArg List.length heq
        rw [List.length_append] at hlen
        have hnil : text x = [] := List.eq_nil_of_length_eq_zero (by omega)
        rw [hnil, List.nil_append] at heq
        intro y hy hopen
        rcases List.mem_cons.mp hy with rfl | hy
        · exact hnil
        · exact ih.mp heq y hy hopen
      · intro hall
        rw [hall x (List.mem_cons_self ..) hx, List.nil_append]
        exact ih.mpr fun y hy => hall y (List.mem_cons_of_mem _ hy)

/-- The pieces that complete a line are all in the recorded part. -/
theorem completed_eq_filter_recorded (l : List α) :
    completed complete text l =
      ((l.rdropWhile fun x => !complete x).filter complete).flatMap text := by
  have hopen : (l.rtakeWhile fun x => !complete x).filter complete = [] := by
    rw [List.filter_eq_nil_iff]
    intro x hx
    simpa using List.mem_rtakeWhile_imp hx
  conv_lhs =>
    rw [completed, ← List.rdropWhile_append_rtakeWhile (p := fun x => !complete x) (l := l)]
  rw [List.filter_append, hopen, List.append_nil]

/-- Recording only the pieces that complete a line is right exactly when every recorded
piece of an open line is empty. -/
theorem completed_eq_recorded_iff (l : List α) :
    completed complete text l = recorded complete text l ↔
      ∀ x ∈ l.rdropWhile fun x => !complete x, complete x = false → text x = [] := by
  rw [completed_eq_filter_recorded, recorded, flatMap_filter_eq_iff]

/-! ### Several writers -/

section
variable {κ : Type} [DecidableEq κ] (key : α → κ) (complete)

/-- The pieces of one writer. -/
def piecesOf (k : κ) (l : List α) : List α := l.filter fun x => key x = k

/-- The lines that are completed by the pieces of `l`, in order, after the pieces in `before`.
Each line comes with the piece that completes it, and is made of pieces of its writer. -/
def linesFrom : List α → List α → List (α × List β)
  | _, [] => []
  | before, x :: rest =>
      (if complete x then [(x, pending complete text (piecesOf key (key x) before) ++ text x)]
        else []) ++ linesFrom (before ++ [x]) rest

/-- The lines of several writers whose pieces are interleaved. -/
def lines (l : List α) : List (α × List β) := linesFrom complete text key [] l

/-- One more piece completes its writer's line, or leaves it open. -/
theorem linesFrom_concat (before l : List α) (x : α) :
    linesFrom complete text key before (l ++ [x]) =
      linesFrom complete text key before l ++
        if complete x then
          [(x, pending complete text (piecesOf key (key x) (before ++ l)) ++ text x)]
        else [] := by
  induction l generalizing before with
  | nil => simp [linesFrom]
  | cons y rest ih =>
    rw [List.cons_append, linesFrom, linesFrom, ih, List.append_assoc]
    simp

/-- One more piece: a line, when it completes one. -/
theorem lines_concat (l : List α) (x : α) :
    lines complete text key (l ++ [x]) =
      lines complete text key l ++
        if complete x then [(x, pending complete text (piecesOf key (key x) l) ++ text x)]
        else [] := by
  rw [lines, linesFrom_concat, List.nil_append, lines]

/-- One more piece belongs to its own writer. -/
theorem piecesOf_concat (k : κ) (l : List α) (x : α) :
    piecesOf key k (l ++ [x]) = piecesOf key k l ++ if key x = k then [x] else [] := by
  rw [piecesOf, List.filter_append, piecesOf]
  by_cases h : key x = k <;> simp [h]

/-- No text of another writer gets into the lines of a writer: together they are its own text up
to the last piece that completes a line. -/
theorem lines_of_writer (k : κ) (l : List α) :
    ((lines complete text key l).filter fun line => key line.1 = k).flatMap Prod.snd =
      recorded complete text (piecesOf key k l) := by
  induction l using List.reverseRecOn with
  | nil => rfl
  | append_singleton l x ih =>
    rw [lines_concat, List.filter_append, List.flatMap_append, ih, piecesOf_concat]
    by_cases hkey : key x = k
    · rw [if_pos hkey]
      cases hx : complete x with
      | false => simp [(concat_of_open text hx _).1]
      | true => simp [(concat_of_complete text hx _).1, hkey]
    · rw [if_neg hkey, List.append_nil]
      cases hx : complete x with
      | false => simp
      | true => simp [hkey]

end

end

end Compostela.Pieces
