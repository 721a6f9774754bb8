import Mathlib.Data.List.Basic

/-!
# `Compostela.Lib.Ranges`: ranges of a list that grows

A list that is only appended to keeps its positions. A `Range` is a part of it by position,
and `Range.slice` the elements there. What follows a position is spoken of as a prefix of the
list from there on, which stays true while the list grows.

* `prefix_drop_append`: two parts that follow each other are one part.
* `slice_append`: a range inside the list keeps its elements.
* `slice_of_prefix`: the elements that follow a position are those of their range.
* `Tiling`: ranges that follow each other from the start of the list on. They are apart from
  each other, and together they have the elements up to the end of the last one.
-/

set_option autoImplicit false

namespace Compostela.Ranges

variable {α : Type}

/-- The positions from `start` on and before `stop`. -/
structure Range where
  start : Nat
  stop : Nat
  deriving DecidableEq, Repr

/-- The elements of a list in a range. -/
def Range.slice (l : List α) (r : Range) : List α := (l.drop r.start).take (r.stop - r.start)

/-- No position is in both ranges. -/
def Range.Apart (r r' : Range) : Prop := r.stop ≤ r'.start ∨ r'.stop ≤ r.start

instance (r r' : Range) : Decidable (r.Apart r') := inferInstanceAs (Decidable (_ ∨ _))

/-- A list that grows keeps what follows a position. -/
theorem prefix_drop_grow {a l : List α} {n : Nat} (h : a <+: l.drop n) (more : List α) :
    a <+: (l ++ more).drop n := by
  rw [List.drop_append]
  exact h.trans (List.prefix_append _ _)

/-- A part that follows a position, and another one that follows the first. -/
theorem prefix_drop_append {a b l : List α} {n : Nat} (ha : a <+: l.drop n)
    (hb : b <+: l.drop (n + a.length)) : a ++ b <+: l.drop n := by
  obtain ⟨rest, hrest⟩ := ha
  have hdrop : l.drop (n + a.length) = rest := by
    rw [← List.drop_drop, ← hrest, List.drop_left]
  rw [hdrop] at hb
  rw [← hrest]
  exact (List.prefix_append_right_inj a).mpr hb

/-- The second of two parts that follow a position. -/
theorem prefix_drop_of_append {a b l : List α} {n : Nat} (h : a ++ b <+: l.drop n) :
    b <+: l.drop (n + a.length) := by
  obtain ⟨rest, hrest⟩ := h
  rw [← List.drop_drop, ← hrest, List.append_assoc, List.drop_left]
  exact List.prefix_append _ _

/-- A part that is not empty ends inside the list. -/
theorem length_of_prefix_drop {a l : List α} {n : Nat} (h : a <+: l.drop n) (hne : a ≠ []) :
    n + a.length ≤ l.length := by
  have hle := h.length_le
  have hpos := List.length_pos_of_ne_nil hne
  rw [List.length_drop] at hle
  omega

/-- What follows a position is a slice. -/
theorem slice_of_prefix {a l : List α} {n : Nat} (h : a <+: l.drop n) :
    Range.slice l ⟨n, n + a.length⟩ = a := by
  rw [Range.slice, Nat.add_sub_cancel_left]
  exact (List.prefix_iff_eq_take.mp h).symm

/-- A range inside the list keeps its elements while the list grows. -/
theorem slice_append {l : List α} {r : Range} (h : r.stop ≤ l.length) (more : List α) :
    r.slice (l ++ more) = r.slice l := by
  unfold Range.slice
  by_cases hle : r.start ≤ l.length
  · rw [List.drop_append_of_le_length hle, List.take_append_of_le_length]
    rw [List.length_drop]
    omega
  · -- The range is empty.
    have hzero : r.stop - r.start = 0 := by omega
    rw [hzero, List.take_zero, List.take_zero]

/-- Slices inside the list keep their elements while the list grows. -/
theorem flatMap_slice_append {l : List α} {rs : List Range} (h : ∀ r ∈ rs, r.stop ≤ l.length)
    (more : List α) :
    rs.flatMap (fun r => r.slice (l ++ more)) = rs.flatMap fun r => r.slice l := by
  apply List.flatMap_congr
  intro r hr
  exact slice_append (h r hr) more

/-! ### Ranges that follow each other -/

/-- The ranges, the last one first, follow each other from the start of a list to `stop`. -/
inductive Tiling : List Range → Nat → Prop
  | nil : Tiling [] 0
  | cons {rs : List Range} {start stop : Nat} (h : Tiling rs start) (hle : start ≤ stop) :
      Tiling (⟨start, stop⟩ :: rs) stop

/-- No range goes past the end of the last one. -/
theorem Tiling.stop_le {rs : List Range} {stop : Nat} (h : Tiling rs stop) :
    ∀ r ∈ rs, r.stop ≤ stop := by
  induction h with
  | nil => simp
  | cons h hle ih =>
    intro r hr
    rcases List.mem_cons.mp hr with rfl | hr
    · exact Nat.le_refl _
    · exact Nat.le_trans (ih r hr) hle

/-- No position is in two of the ranges. -/
theorem Tiling.apart {rs : List Range} {stop : Nat} (h : Tiling rs stop) :
    rs.Pairwise Range.Apart := by
  induction h with
  | nil => exact List.Pairwise.nil
  | cons h hle ih =>
    rw [List.pairwise_cons]
    exact ⟨fun r hr => Or.inr (h.stop_le r hr), ih⟩

/-- The slices are together the front of the list. -/
theorem Tiling.flatMap_slice {rs : List Range} {stop : Nat} (h : Tiling rs stop) (l : List α) :
    (rs.reverse.flatMap fun r => r.slice l) = l.take stop := by
  induction h with
  | nil => rfl
  | @cons rs start stop h hle ih =>
    have hstop : stop = start + (stop - start) := by omega
    rw [List.reverse_cons, List.flatMap_append, ih, List.flatMap_singleton]
    show l.take start ++ (l.drop start).take (stop - start) = l.take stop
    rw [← List.take_add, ← hstop]

end Compostela.Ranges
