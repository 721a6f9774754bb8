import Compostela.Lib.Memory

/-!
# `Compostela.Lib.Fuel`: loops with a budget

A loop that may go on forever is modelled with a budget: a number of turns after which it stops
with an error. `Extends x y` says that `y` has the result of `x`, if there is one. A family of
computations is `Increasing` when a larger budget extends a smaller one. `Ends f P` says that some
budget is large enough: the loop ends, with a result in `P`.

* `Extends.bind`: two sequences with parts that extend each other.
* `ends_succ_iff`, `not_ends_of_loop` and `ends_bind_iff`: the rules for one turn of a loop, for a
  turn that leads back to its start, and for a sequence.
-/

set_option autoImplicit false

namespace Compostela.Fuel

open Compostela.Memory

section
variable {ε α β : Type}

/-- The result of `x`, if it has one, is the result of `y`. -/
def Extends (x y : Except ε α) : Prop := ∀ a, x = .ok a → y = .ok a

/-- A computation extends itself. -/
@[simp] theorem Extends.refl (x : Except ε α) : Extends x x := fun _ h => h

/-- An error has no result. -/
@[simp] theorem Extends.error (e : ε) (y : Except ε α) : Extends (.error e) y := nofun

/-- Two steps extend two steps. -/
theorem Extends.bind {x y : Except ε α} {f g : α → Except ε β} (hxy : Extends x y)
    (hfg : ∀ a, Extends (f a) (g a)) : Extends (x >>= f) (y >>= g) := by
  intro b hb
  obtain ⟨a, ha, hb⟩ := bind_eq_ok.mp hb
  exact bind_eq_ok.mpr ⟨a, hxy a ha, hfg a b hb⟩

/-- A larger budget keeps the result. -/
def Increasing (f : Nat → Except ε α) : Prop := ∀ n, Extends (f n) (f (n + 1))

/-- With more fuel a computation extends what it was. -/
theorem Increasing.extends {f : Nat → Except ε α} (hf : Increasing f) {n m : Nat} (hnm : n ≤ m) :
    Extends (f n) (f m) := by
  induction hnm with
  | refl => exact .refl _
  | step _ ih => exact fun a ha => hf _ a (ih a ha)

/-- Some budget is large enough, and the result is in `P`. -/
def Ends (f : Nat → Except ε α) (P : α → Prop) : Prop := ∃ n a, f n = .ok a ∧ P a

/-- A loop that has no budget for its first turn has no result. -/
theorem ends_succ_iff {f : Nat → Except ε α} {e : ε} (hzero : f 0 = .error e) (P : α → Prop) :
    Ends f P ↔ Ends (fun n => f (n + 1)) P := by
  constructor
  · rintro ⟨n, a, hn, ha⟩
    cases n with
    | zero => exact nomatch hzero.symm.trans hn
    | succ n => exact ⟨n, a, hn, ha⟩
  · rintro ⟨n, a, hn, ha⟩
    exact ⟨n + 1, a, hn, ha⟩

/-- A computation that needs no fuel ends with its result. -/
@[simp] theorem ends_ok_iff (a : α) (P : α → Prop) :
    Ends (fun _ => (.ok a : Except ε α)) P ↔ P a := by
  constructor
  · rintro ⟨n, b, hb, hP⟩
    cases hb
    exact hP
  · intro hP
    exact ⟨0, a, rfl, hP⟩

/-- A computation that traps does not end. -/
@[simp] theorem not_ends_error (e : ε) (P : α → Prop) :
    ¬ Ends (fun _ => (.error e : Except ε α)) P := nofun

/-- A loop whose turn leads back to its start does not end. -/
theorem not_ends_of_loop {f : Nat → Except ε α} {e : ε} (hzero : f 0 = .error e)
    (hloop : ∀ n, f (n + 1) = f n) (P : α → Prop) : ¬ Ends f P := by
  rintro ⟨n, a, hn, -⟩
  induction n with
  | zero => exact nomatch hzero.symm.trans hn
  | succ n ih => exact ih ((hloop n).symm.trans hn)

/-- A sequence ends exactly when its first part does, with a value from which the second part
does. Each part can have a budget of its own. -/
theorem ends_bind_iff {f : Nat → Except ε α} {k : α → Nat → Except ε β} (hf : Increasing f)
    (hk : ∀ a, Increasing (k a)) (P : β → Prop) :
    Ends (fun n => f n >>= fun a => k a n) P ↔ Ends f fun a => Ends (k a) P := by
  constructor
  · rintro ⟨n, b, hn, hb⟩
    obtain ⟨a, ha, hab⟩ := bind_eq_ok.mp hn
    exact ⟨n, a, ha, n, b, hab, hb⟩
  · rintro ⟨n, a, hn, m, b, hm, hb⟩
    -- The larger of the two budgets is large enough for both parts.
    have hn' : f (max n m) = .ok a := hf.extends (Nat.le_max_left n m) a hn
    have hm' : k a (max n m) = .ok b := (hk a).extends (Nat.le_max_right n m) b hm
    exact ⟨max n m, b, bind_eq_ok.mpr ⟨a, hn', hm'⟩, hb⟩

end

end Compostela.Fuel
