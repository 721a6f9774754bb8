import Mathlib.Data.List.Basic

/-!
# `Compostela.Lib.LastWrite`: fields that the last write decides

A loop over a list updates a record. An item sets a field of it when `pick` takes something from
the item, and otherwise leaves the field alone. So the field ends with what the last such item
holds (`foldl_field`), or as it was.
-/

set_option autoImplicit false

namespace Compostela.LastWrite

section
variable {α β γ σ : Type}

/-- What the last item holds from which `pick` takes something. -/
def lastOf (pick : α → Option β) (xs : List α) : Option β := (xs.filterMap pick).getLast?

/-- Nothing is the last of no elements. -/
@[simp] theorem lastOf_nil (pick : α → Option β) : lastOf pick [] = none := rfl

/-- A first item counts when no later one does. -/
theorem lastOf_cons (pick : α → Option β) (x : α) (xs : List α) :
    lastOf pick (x :: xs) = (lastOf pick xs).or (pick x) := by
  cases hx : pick x with
  | none => simp [lastOf, hx]
  | some b =>
    show (List.filterMap pick (x :: xs)).getLast? = _
    rw [List.filterMap_cons_some hx, List.getLast?_cons]
    cases h : (xs.filterMap pick).getLast? with
    | none => simp [lastOf, h]
    | some last => simp [lastOf, h]

/-- There is no last one when no element is picked. -/
theorem lastOf_eq_none_iff {pick : α → Option β} {xs : List α} :
    lastOf pick xs = none ↔ ∀ x ∈ xs, pick x = none := by
  rw [lastOf, List.getLast?_eq_none_iff, List.filterMap_eq_nil_iff]

/-- Behind an item from which something is taken, nothing else is. -/
theorem lastOf_append_cons {pick : α → Option β} {front back : List α} {x : α} {b : β}
    (hx : pick x = some b) (hback : ∀ y ∈ back, pick y = none) :
    lastOf pick (front ++ x :: back) = some b := by
  induction front with
  | nil =>
    rw [List.nil_append, lastOf_cons, lastOf_eq_none_iff.mpr hback, hx]
    rfl
  | cons y front ih =>
    rw [List.cons_append, lastOf_cons, ih]
    rfl

/-- The field of the record after the loop. -/
theorem foldl_field (field : σ → γ) {pick : α → Option β} {set : β → γ} {step : σ → α → σ}
    (h : ∀ s x, field (step s x) = ((pick x).map set).getD (field s)) (s : σ) (xs : List α) :
    field (xs.foldl step s) = ((lastOf pick xs).map set).getD (field s) := by
  induction xs generalizing s with
  | nil => rfl
  | cons x xs ih =>
    rw [List.foldl_cons, ih, h, lastOf_cons]
    cases lastOf pick xs <;> rfl

/-- The same for a field that may be missing, and that no item takes away. -/
theorem foldl_field_or (field : σ → Option β) {pick : α → Option β} {step : σ → α → σ}
    (h : ∀ s x, field (step s x) = (pick x).or (field s)) (s : σ) (xs : List α) :
    field (xs.foldl step s) = (lastOf pick xs).or (field s) := by
  have hsome : ∀ x y : Option β, x.or y = (x.map some).getD y := by
    intro x y
    cases x <;> rfl
  rw [hsome]
  exact foldl_field field (fun s x => (h s x).trans (hsome _ _)) s xs

end

end Compostela.LastWrite
