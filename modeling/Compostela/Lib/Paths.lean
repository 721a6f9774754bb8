import Mathlib.Data.List.Infix

/-!
# `Compostela.Lib.Paths`: places in a tree of directories

A path is read from left to right. A step goes down to a name, or one level up. Nothing is looked
up on the way, so a place is what the steps alone say: the levels that lie above the start, and
the names that lead down from there. A walk from the root does not go above it.

* `walk_eq_go`: a walk goes as many levels up as it does seen from its own start, and then down
  the same names.
* `contains_go_iff`: such a walk ends in the place it started from, or below it, exactly when it
  goes down through the names that it went up (`ComesBack`).
* `go_contains_iff`: it ends above this place, or in it, exactly when it goes down through a part
  of them (`OnTheWay`).
-/

set_option autoImplicit false

namespace Compostela.Paths

/-- `ups` levels above the start, and from there down through `names`. -/
structure Place (α : Type) where
  ups : Nat
  names : List α
  deriving DecidableEq, Repr

namespace Place

section
variable {α : Type}

/-- The start of a walk. -/
def start : Place α := ⟨0, []⟩

/-- One level up. -/
def up (rooted : Bool) (p : Place α) : Place α :=
  ⟨if p.names.isEmpty && !rooted then p.ups + 1 else p.ups, p.names.dropLast⟩

/-- One step: down to a name, or up. -/
def step (rooted : Bool) (p : Place α) : Option α → Place α
  | some name => ⟨p.ups, p.names ++ [name]⟩
  | none => p.up rooted

/-- The place after all steps. -/
def walk (rooted : Bool) (p : Place α) (steps : List (Option α)) : Place α :=
  steps.foldl (step rooted) p

/-- The place that is reached from `p` by going `e.ups` levels up and then down through
`e.names`. -/
def go (rooted : Bool) (p e : Place α) : Place α :=
  ⟨if rooted then p.ups else p.ups + (e.ups - p.names.length),
    p.names.take (p.names.length - e.ups) ++ e.names⟩

/-- The way that stays where it starts. -/
@[simp] theorem go_start (rooted : Bool) (p : Place α) : p.go rooted start = p := by
  cases rooted <;> simp [go, start]

/-- A way with one more name at its end ends one step further down. -/
theorem go_down (rooted : Bool) (p e : Place α) (name : α) :
    p.go rooted (e.step false (some name)) = (p.go rooted e).step rooted (some name) := by
  simp [go, step]

/-- A step up. The names that `e` has are left first. -/
theorem go_up (rooted : Bool) (p e : Place α) :
    p.go rooted (e.up false) = (p.go rooted e).up rooted := by
  obtain ⟨ups, names⟩ := p
  obtain ⟨n, down⟩ := e
  -- Without names of its own the step up is one more of `e.ups`. Otherwise it drops the last name.
  rcases List.eq_nil_or_concat down with rfl | ⟨down, last, rfl⟩
  · have hnames :
        (names.take (names.length - n)).dropLast = names.take (names.length - (n + 1)) := by
      rw [List.dropLast_eq_take, List.take_take, List.length_take]
      congr 1
      omega
    simp only [go, up, List.append_nil, List.isEmpty_nil, Bool.not_false, Bool.and_self, if_true,
      List.dropLast_nil, hnames]
    cases rooted with
    | true => simp
    | false =>
      -- Not from the root, it counts as a level above the start once the names of `p` are used up.
      by_cases hempty : (names.take (names.length - n)).isEmpty
      · have hle : names.length ≤ n := by
          rw [List.isEmpty_iff, List.take_eq_nil_iff] at hempty
          rcases hempty with h | h
          · omega
          · simp [h]
        simp only [hempty, Bool.false_eq_true, if_false, Bool.not_false, Bool.and_self, if_true,
          Place.mk.injEq, and_true]
        omega
      · have hlt : n < names.length := by
          by_contra hle
          rw [Nat.sub_eq_zero_of_le (by omega)] at hempty
          exact hempty rfl
        simp only [hempty, Bool.false_eq_true, if_false, Bool.not_false, Bool.and_true,
          Place.mk.injEq, and_true]
        omega
  · simp [go, up, List.concat_eq_append, ← List.append_assoc]

/-- A walk from `p`, by way of the same walk from its own start. -/
theorem walk_eq_go (rooted : Bool) (p : Place α) (steps : List (Option α)) :
    p.walk rooted steps = p.go rooted (start.walk false steps) := by
  -- A walk is read from its end: the last step is taken from where the others lead.
  induction steps using List.reverseRecOn with
  | nil => exact (go_start rooted p).symm
  | append_singleton steps last ih =>
    simp only [walk, List.foldl_append, List.foldl_cons, List.foldl_nil] at ih ⊢
    rw [ih]
    cases last with
    | none => exact (go_up rooted p _).symm
    | some name => exact (go_down rooted p _ name).symm

/-! ### Above and below -/

/-- `q` is `p` or lies below it, as far as the places say it. -/
def Contains (p q : Place α) : Prop :=
  p.ups = q.ups ∧ p.names <+: q.names ∨ q.ups < p.ups ∧ p.names = []

instance [DecidableEq α] (p q : Place α) : Decidable (p.Contains q) :=
  inferInstanceAs (Decidable (_ ∨ _))

/-- The way `e` goes down through all names of `p` that it has gone up, and does not go above the
start of `p`. -/
def ComesBack (rooted : Bool) (p e : Place α) : Prop :=
  (rooted = true ∨ e.ups ≤ p.names.length) ∧ p.names.drop (p.names.length - e.ups) <+: e.names

/-- The way `e` goes down through some names of `p` that it has gone up, and through no others. -/
def OnTheWay (rooted : Bool) (p e : Place α) : Prop :=
  if rooted = true ∨ e.ups ≤ p.names.length then
    e.names <+: p.names.drop (p.names.length - e.ups)
  else e.names = []

/-- After the first `n` names, `down` goes on through the others exactly when they are in front of
it. -/
theorem prefix_take_append_iff (names down : List α) (n : Nat) :
    names <+: names.take n ++ down ↔ names.drop n <+: down := by
  have hsplit : names.take n ++ names.drop n <+: names.take n ++ down ↔ names.drop n <+: down :=
    List.prefix_append_right_inj _
  rwa [List.take_append_drop] at hsplit

/-- After the first `n` names, `down` stays on the names exactly when it is in front of the
others. -/
theorem take_append_prefix_iff (names down : List α) (n : Nat) :
    names.take n ++ down <+: names ↔ down <+: names.drop n := by
  have hsplit : names.take n ++ down <+: names.take n ++ names.drop n ↔ down <+: names.drop n :=
    List.prefix_append_right_inj _
  rwa [List.take_append_drop] at hsplit

/-- A walk that is not from the root goes above the start of `p` when it goes up more levels than
`p` has names. -/
theorem ups_go (rooted : Bool) (p e : Place α) :
    p.ups ≤ (p.go rooted e).ups ∧
      ((p.go rooted e).ups = p.ups ↔ rooted = true ∨ e.ups ≤ p.names.length) := by
  cases rooted with
  | true => simp [go]
  | false =>
    simp only [go, Bool.false_eq_true, if_false, false_or]
    omega

/-- A way ends below its start exactly when it comes back down to it. -/
theorem contains_go_iff (rooted : Bool) (p e : Place α) :
    p.Contains (p.go rooted e) ↔ p.ComesBack rooted e := by
  obtain ⟨hle, hups⟩ := ups_go rooted p e
  have hsecond : ¬ ((p.go rooted e).ups < p.ups ∧ p.names = []) := fun h => by omega
  -- A walk never gets below the level of the start again, so the second case is out.
  rw [Contains, or_iff_left hsecond, eq_comm, hups]
  exact and_congr_right' (prefix_take_append_iff _ _ _)

/-- A way ends above its start exactly when it goes down along the names it went up. -/
theorem go_contains_iff (rooted : Bool) (p e : Place α) :
    (p.go rooted e).Contains p ↔ p.OnTheWay rooted e := by
  obtain ⟨hle, hups⟩ := ups_go rooted p e
  unfold Contains OnTheWay
  split
  · rename_i hin
    -- The walk stays in the names of `p`: what is left of them has to go on to `p`.
    have heq := hups.mpr hin
    rw [or_iff_left (fun h => by omega), and_iff_right heq]
    exact take_append_prefix_iff _ _ _
  · rename_i hout
    -- It goes above the start of `p`, so no names may follow.
    have hne : (p.go rooted e).ups ≠ p.ups := fun h => hout (hups.mp h)
    have hzero : p.names.length - e.ups = 0 := by
      rcases not_or.mp hout with ⟨-, hmany⟩
      omega
    rw [or_iff_right (fun h => hne h.1), and_iff_right (by omega)]
    show p.names.take (p.names.length - e.ups) ++ e.names = [] ↔ _
    rw [hzero, List.take_zero, List.nil_append]

end

end Place

end Compostela.Paths
