import Compostela.Lib.Memory

/-!
# `Compostela.Common.AzList`: the linked list of `common/azlist.c`

An `az_list` is the list of the objects its nodes point to, first node first. Objects are
compared by address in C, and `same` is that comparison here.
-/

set_option autoImplicit false

namespace Compostela.Common

open Compostela.Memory

section
variable {α : Type}

/-- `az_list_add`. -/
def azListAdd (li : List α) (object : α) : List α := object :: li

/-- `az_list_delete`. The recursion has no test for the end of the list, so an object that
is not there ends in a null dereference. -/
def azListDelete (same : α → Bool) : List α → Except Trap (List α)
  | [] => .error .nullDeref
  | x :: rest =>
      if same x then .ok rest
      else do
        let rest' ← azListDelete same rest
        .ok (x :: rest')

/-- A deletion takes out the first node that points to the object, and traps when there is
none. -/
theorem azListDelete_eq (same : α → Bool) (li : List α) :
    azListDelete same li = if li.any same then .ok (li.eraseP same) else .error .nullDeref := by
  induction li with
  | nil => rfl
  | cons x rest ih =>
    cases hx : same x with
    | true => simp [azListDelete, hx]
    | false =>
      simp only [azListDelete, hx, Bool.false_eq_true, if_false, ih, List.any_cons,
        Bool.false_or]
      split
      · simp [hx]
      · rfl

/-- A successful deletion. -/
theorem azListDelete_eq_ok {same : α → Bool} {li li' : List α} :
    azListDelete same li = .ok li' ↔ (∃ x ∈ li, same x) ∧ li' = li.eraseP same := by
  have hany : li.any same = true ↔ ∃ x ∈ li, same x := List.any_eq_true
  -- The loop runs off the end of the list for an object that is not in it.
  rw [azListDelete_eq]
  split
  · rename_i h
    constructor
    · intro heq
      cases heq
      exact ⟨hany.mp h, rfl⟩
    · rintro ⟨-, rfl⟩
      rfl
  · rename_i h
    constructor
    · intro heq
      cases heq
    · rintro ⟨hx, -⟩
      exact absurd (hany.mpr hx) h

end

end Compostela.Common
