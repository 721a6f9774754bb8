import Compostela.Lib.Memory
import Mathlib.Algebra.BigOperators.Group.List.Basic
import Mathlib.Algebra.Order.Ring.Nat
import Mathlib.Logic.Function.Basic

/-!
# `Compostela.Lib.Separation`: programs that allocate and free

`Mem` is a memory of blocks, where the type of a block depends on its address. An `Assertion` is
about a part of the memory that it owns. Two assertions about parts that are apart make one,
written as a product, with `1` for no memory at all. So assertions are a commutative monoid, and
`List.prod` is the assertion about the members of a list.

`Prog` is a program on the memory. It stops with a trap when it uses a block that is not there.
`Triple P c Q` says that `c` does not stop in a memory with `P` in it, that `Q` holds of its result,
and that the rest of the memory is as it was. As `P` and `Q` own all that they speak of, a triple is
exact: what `c` allocates is in `Q`, and what is not in `Q` was freed.

* `Triple.load`, `Triple.store`, `Triple.release` and `Mem.set_new`: the blocks. A rule is about the
  first step of a program, and the rest of the program comes after it in a premise.
* `Triple.unpack`, `Triple.pack` and `Triple.given`: what exists, and what is known, before a
  program.
* `Counts.mul`: the number of blocks that an assertion owns.
-/

set_option autoImplicit false

namespace Compostela.Separation

open Compostela.Memory

/-- The blocks in memory, by address. -/
def Mem {α : Type} (β : α → Type) := (a : α) → Option (β a)

section
variable {α : Type} {β : α → Type}

namespace Mem

def empty : Mem β := fun _ => none

/-- No address is in use in both. -/
def Disjoint (m n : Mem β) : Prop := ∀ a, m a = none ∨ n a = none

/-- Two parts together. -/
def union (m n : Mem β) : Mem β := fun a => (m a).or (n a)

/-- Not every address is in use. -/
def Finite (m : Mem β) : Prop := ∃ used : List α, ∀ a, m a ≠ none → a ∈ used

/-- A memory with fewer addresses in use is finite too. -/
theorem Finite.of_imp {m n : Mem β} (h : m.Finite) (himp : ∀ a, n a ≠ none → m a ≠ none) :
    n.Finite := by
  obtain ⟨used, hused⟩ := h
  exact ⟨used, fun a ha => hused a (himp a ha)⟩

/-- Being apart does not depend on the order of the two parts. -/
theorem Disjoint.symm {m n : Mem β} (h : m.Disjoint n) : n.Disjoint m := fun a => (h a).symm

/-- Parts that are apart can be put together in either order. -/
theorem union_comm {m n : Mem β} (h : m.Disjoint n) : m.union n = n.union m := by
  funext a
  show (m a).or (n a) = (n a).or (m a)
  rcases h a with hm | hn
  · simp [hm]
  · simp [hn]

/-- Three parts can be put together in either grouping. -/
theorem union_assoc (m n k : Mem β) : (m.union n).union k = m.union (n.union k) := by
  funext a
  exact Option.or_assoc

/-- A union is apart from a third part exactly when both of its parts are. -/
theorem disjoint_union {m n k : Mem β} :
    (m.union n).Disjoint k ↔ m.Disjoint k ∧ n.Disjoint k := by
  constructor
  · intro h
    refine ⟨fun a => ?_, fun a => ?_⟩
    · exact (h a).imp_left fun hor => (Option.or_eq_none_iff.mp hor).1
    · exact (h a).imp_left fun hor => (Option.or_eq_none_iff.mp hor).2
  · rintro ⟨hm, hn⟩ a
    rcases hm a with hma | hka
    · exact (hn a).imp_left fun hna => Option.or_eq_none_iff.mpr ⟨hma, hna⟩
    · exact Or.inr hka

end Mem

/-! ### Assertions -/

/-- What is said of a part of the memory. -/
def Assertion (β : α → Type) := Mem β → Prop

namespace Assertion

/-- Two assertions about parts that are apart. -/
def sep (P Q : Assertion β) : Assertion β := fun m =>
  ∃ m1 m2 : Mem β, m1.Disjoint m2 ∧ m1.union m2 = m ∧ P m1 ∧ Q m2

/-- The assertion holds of some value. -/
def any {γ : Type} (P : γ → Assertion β) : Assertion β := fun m => ∃ x, P x m

/-- A fact and an assertion. -/
def given (p : Prop) (P : Assertion β) : Assertion β := fun m => p ∧ P m

/-- The two parts of a product can change places. -/
theorem sep_comm (P Q : Assertion β) : sep P Q = sep Q P := by
  have hswap : ∀ (P Q : Assertion β) (m : Mem β), sep P Q m → sep Q P m := by
    rintro P Q m ⟨m1, m2, hdis, hm, hP, hQ⟩
    exact ⟨m2, m1, hdis.symm, (Mem.union_comm hdis).symm.trans hm, hQ, hP⟩
  funext m
  exact propext ⟨hswap P Q m, hswap Q P m⟩

/-- A product of three assertions does not depend on the grouping. -/
theorem sep_assoc (P Q R : Assertion β) : sep (sep P Q) R = sep P (sep Q R) := by
  have hshift : ∀ (P Q R : Assertion β) (m : Mem β), sep (sep P Q) R m → sep P (sep Q R) m := by
    rintro P Q R m ⟨m12, m3, hdis, hm, ⟨m1, m2, hdis', rfl, hP, hQ⟩, hR⟩
    obtain ⟨h13, h23⟩ := Mem.disjoint_union.mp hdis
    refine ⟨m1, m2.union m3, ?_, (Mem.union_assoc m1 m2 m3).symm.trans hm, hP, m2, m3, h23, rfl,
      hQ, hR⟩
    exact (Mem.disjoint_union.mpr ⟨hdis'.symm, h13.symm⟩).symm
  funext m
  refine propext ⟨hshift P Q R m, fun h => ?_⟩
  -- The other direction is the same one, turned around.
  rw [sep_comm P, sep_comm Q] at h
  have h' := hshift R Q P m h
  rwa [sep_comm R, sep_comm Q] at h'

/-- No memory at all. -/
def emp : Assertion β := fun m => m = Mem.empty

/-- No memory beside a part is the part. -/
theorem emp_sep (P : Assertion β) : sep emp P = P := by
  funext m
  refine propext ⟨?_, fun h => ⟨Mem.empty, m, fun a => Or.inl rfl, ?_, rfl, h⟩⟩
  · rintro ⟨m1, m2, -, rfl, rfl, hP⟩
    exact hP
  · rfl

instance : CommMonoid (Assertion β) where
  mul := sep
  one := emp
  mul_assoc := sep_assoc
  one_mul := emp_sep
  mul_one P := (sep_comm P emp).trans (emp_sep P)
  mul_comm := sep_comm

/-- What exists in one part exists in the whole. -/
theorem any_mul {γ : Type} (P : γ → Assertion β) (Q : Assertion β) :
    any P * Q = any fun x => P x * Q := by
  funext m
  refine propext ⟨?_, ?_⟩
  · rintro ⟨m1, m2, hdis, hm, ⟨x, hP⟩, hQ⟩
    exact ⟨x, m1, m2, hdis, hm, hP, hQ⟩
  · rintro ⟨x, m1, m2, hdis, hm, hP, hQ⟩
    exact ⟨m1, m2, hdis, hm, ⟨x, hP⟩, hQ⟩

/-- A fact beside one part is a fact beside the whole. -/
theorem given_mul (p : Prop) (P Q : Assertion β) : given p P * Q = given p (P * Q) := by
  funext m
  refine propext ⟨?_, ?_⟩
  · rintro ⟨m1, m2, hdis, hm, ⟨hp, hP⟩, hQ⟩
    exact ⟨hp, m1, m2, hdis, hm, hP, hQ⟩
  · rintro ⟨hp, m1, m2, hdis, hm, hP, hQ⟩
    exact ⟨m1, m2, hdis, hm, ⟨hp, hP⟩, hQ⟩

/-- The third part first. -/
theorem third (P Q R S : Assertion β) : P * (Q * (R * S)) = R * (P * (Q * S)) := by
  rw [mul_left_comm Q R S, mul_left_comm P R]

/-- The fourth part first. -/
theorem fourth (P Q R S T : Assertion β) :
    P * (Q * (R * (S * T))) = S * (P * (Q * (R * T))) := by
  rw [third Q R S T, mul_left_comm P S]

/-- The part of one assertion can be weakened. -/
theorem mul_mono {P P' Q : Assertion β} {m : Mem β} (h : ∀ m, P m → P' m) (hm : (P * Q) m) :
    (P' * Q) m := by
  obtain ⟨m1, m2, hdis, rfl, hP, hQ⟩ := hm
  exact ⟨m1, m2, hdis, rfl, h m1 hP, hQ⟩

/-- One member of a list apart from the others. -/
theorem prod_map_split {γ : Type} (P : γ → Assertion β) (front back : List γ) (x : γ) :
    ((front ++ x :: back).map P).prod = P x * ((front ++ back).map P).prod := by
  simp only [List.map_append, List.map_cons, List.prod_append, List.prod_cons]
  exact mul_left_comm _ _ _

end Assertion

open Assertion

/-! ### Programs -/

/-- A program on the memory. -/
abbrev Prog (β : α → Type) (γ : Type) := StateT (Mem β) (Except Trap) γ

/-- A computation that does not use the memory. -/
def Prog.call {γ : Type} (x : Except Trap γ) : Prog β γ := fun m => x.map fun r => (r, m)

/-- The program runs in every memory with `P` in it, and has `Q` of its result in place of it. -/
def Triple {γ : Type} (P : Assertion β) (c : Prog β γ) (Q : γ → Assertion β) : Prop :=
  ∀ (F : Assertion β) (m : Mem β), m.Finite → (P * F) m →
    ∃ r m', c m = .ok (r, m') ∧ m'.Finite ∧ (Q r * F) m'

section
variable {γ δ : Type} {P P' R F : Assertion β} {Q Q' : γ → Assertion β} {S : δ → Assertion β}
  {c : Prog β γ} {f : γ → Prog β δ}

/-- A program that returns at once needs what it promises. -/
theorem Triple.pure {x : γ} (himp : ∀ m, P m → Q x m) : Triple P (Pure.pure x : Prog β γ) Q :=
  fun _ m hfin hm => ⟨x, m, rfl, hfin, mul_mono himp hm⟩

/-- The assertion before a program can be strengthened. -/
theorem Triple.pre (h : Triple P c Q) (himp : ∀ m, P' m → P m) : Triple P' c Q :=
  fun F m hfin hm => h F m hfin (mul_mono himp hm)

/-- What exists before a program. -/
theorem Triple.any {ζ : Type} {P : ζ → Assertion β} (h : ∀ x, Triple (P x) c Q) :
    Triple (any P) c Q := by
  intro F m hfin hm
  rw [any_mul] at hm
  obtain ⟨x, hm⟩ := hm
  exact h x F m hfin hm

/-- What exists in a part of the memory before a program. -/
theorem Triple.unpack {ζ : Type} {A : ζ → Assertion β} (hP : P = Assertion.any A * F)
    (h : ∀ x, Triple (A x * F) c Q) : Triple P c Q := by
  rw [hP, any_mul]
  exact Triple.any h

/-- A part of the memory as a program needs it. -/
theorem Triple.pack {ζ : Type} {A : ζ → Assertion β} (x : ζ) (hP : P = A x * F)
    (h : Triple (Assertion.any A * F) c Q) : Triple P c Q := by
  refine h.pre fun m hm => ?_
  rw [any_mul]
  rw [hP] at hm
  exact ⟨x, hm⟩

/-- What is known before a program. -/
theorem Triple.given {p : Prop} (h : p → Triple P c Q) : Triple (given p P) c Q := by
  intro F m hfin hm
  rw [given_mul] at hm
  exact h hm.1 F m hfin hm.2

/-- A run of the program. -/
theorem Triple.run {m : Mem β} (h : Triple P c Q) (hfin : m.Finite) (hm : P m) :
    ∃ r m', c m = .ok (r, m') ∧ m'.Finite ∧ Q r m' := by
  rw [← mul_one P] at hm
  obtain ⟨r, m', hrun, hfin', hm'⟩ := h 1 m hfin hm
  rw [mul_one] at hm'
  exact ⟨r, m', hrun, hfin', hm'⟩

/-- What a part of the memory implies. -/
theorem Triple.fact {p : Prop} (hp : ∀ m, P m → p) (h : p → Triple P c Q) : Triple P c Q := by
  intro F m hfin hm
  obtain ⟨m1, -, -, -, hP, -⟩ := id hm
  exact h (hp m1 hP) F m hfin hm

/-- A program that is called last. -/
theorem Triple.last (h : Triple P (c >>= Pure.pure) Q) : Triple P c Q := by
  rwa [bind_pure] at h

/-- A computation that does not use the memory. -/
theorem Triple.call {x : Except Trap γ} {r : γ} (hx : x = .ok r)
    (hf : Triple P (f r) S) : Triple P (Prog.call x >>= f) S := by
  subst hx
  exact hf

end

/-! ### Blocks -/

section
variable [DecidableEq α]

/-- The memory with a block at an address. -/
def Mem.set (m : Mem β) (a : α) (b : β a) : Mem β := Function.update m a (some b)

/-- The memory without the block at an address. -/
def Mem.erase (m : Mem β) (a : α) : Mem β := Function.update m a none

/-- One block. -/
def cell (a : α) (b : β a) : Assertion β := fun m => m = Mem.empty.set a b

/-- The block at an address. -/
def load (a : α) : Prog β (β a) := fun m =>
  match m a with
  | some b => .ok (b, m)
  | none => .error .useAfterFree

/-- A store to a block that is there. -/
def store (a : α) (b : β a) : Prog β Unit := fun m =>
  match m a with
  | some _ => .ok ((), m.set a b)
  | none => .error .useAfterFree

/-- `free` of a block. -/
def release (a : α) : Prog β Unit := fun m =>
  match m a with
  | some _ => .ok ((), m.erase a)
  | none => .error .useAfterFree

variable {γ : Type} {a a' : α} {b b' : β a} {m : Mem β} {P F : Assertion β}
  {S : γ → Assertion β}

/-- The block that was put at an address is there. -/
theorem Mem.set_self (m : Mem β) (a : α) (b : β a) : m.set a b a = some b :=
  Function.update_self ..

/-- A block put at one address leaves the other addresses alone. -/
theorem Mem.set_of_ne (m : Mem β) {a a' : α} (b : β a) (h : a' ≠ a) : m.set a b a' = m a' :=
  Function.update_of_ne h ..

/-- No block is left at an address that was erased. -/
theorem Mem.erase_self (m : Mem β) (a : α) : m.erase a a = none := Function.update_self ..

/-- Erasing one address leaves the others alone. -/
theorem Mem.erase_of_ne (m : Mem β) {a a' : α} (h : a' ≠ a) : m.erase a a' = m a' :=
  Function.update_of_ne h ..

/-- One more block keeps a memory finite. -/
theorem Mem.Finite.set (h : m.Finite) (a : α) (b : β a) : (m.set a b).Finite := by
  obtain ⟨used, hused⟩ := h
  refine ⟨a :: used, fun a' ha' => ?_⟩
  by_cases heq : a' = a
  · rw [heq]
    exact List.mem_cons_self
  · rw [m.set_of_ne b heq] at ha'
    exact List.mem_cons_of_mem a (hused a' ha')

/-- Erasing a block keeps a memory finite. -/
theorem Mem.Finite.erase (h : m.Finite) (a : α) : (m.erase a).Finite := by
  refine h.of_imp fun a' ha' => ?_
  by_cases heq : a' = a
  · rw [heq, m.erase_self a] at ha'
    exact absurd rfl ha'
  · rwa [m.erase_of_ne heq] at ha'

/-- A block beside the rest of the memory. -/
theorem cell_mul_iff : (cell a b * P) m ↔ m a = some b ∧ P (m.erase a) := by
  constructor
  · rintro ⟨m1, m2, hdis, rfl, rfl, hP⟩
    have hself : Mem.empty.set a b a = some b := Mem.set_self ..
    -- The other part cannot hold the address, since the two are disjoint.
    have hnone : m2 a = none := (hdis a).resolve_left (by rw [hself]; exact nofun)
    refine ⟨?_, ?_⟩
    · show (Mem.empty.set a b a).or (m2 a) = some b
      rw [hself]
      rfl
    · have hrest : ((Mem.empty.set a b).union m2).erase a = m2 := by
        funext a'
        by_cases heq : a' = a
        · subst heq
          rw [Mem.erase_self, hnone]
        · rw [Mem.erase_of_ne _ heq]
          show (Mem.empty.set a b a').or (m2 a') = m2 a'
          rw [Mem.set_of_ne _ _ heq]
          rfl
      rw [hrest]
      exact hP
  · rintro ⟨hcell, hP⟩
    refine ⟨Mem.empty.set a b, m.erase a, fun a' => ?_, ?_, rfl, hP⟩
    · by_cases heq : a' = a
      · exact Or.inr (by rw [heq, Mem.erase_self])
      · exact Or.inl (Mem.set_of_ne _ _ heq)
    · funext a'
      show (Mem.empty.set a b a').or (m.erase a a') = m a'
      by_cases heq : a' = a
      · subst heq
        rw [Mem.set_self, hcell]
        rfl
      · rw [Mem.set_of_ne _ _ heq, Mem.erase_of_ne _ heq]
        rfl

/-- A new block at an address that is not in use. -/
theorem Mem.set_new (hm : P m) (ha : m a = none) : (cell a b * P) (m.set a b) := by
  refine cell_mul_iff.mpr ⟨m.set_self a b, ?_⟩
  have hsame : (m.set a b).erase a = m := by
    funext a'
    by_cases heq : a' = a
    · subst heq
      rw [Mem.erase_self, ha]
    · rw [Mem.erase_of_ne _ heq, Mem.set_of_ne _ _ heq]
  rw [hsame]
  exact hm

/-- Two blocks are at different addresses. -/
theorem cell_ne {b' : β a'} (h : (cell a b * (cell a' b' * P)) m) : a ≠ a' := by
  rintro rfl
  obtain ⟨-, h⟩ := cell_mul_iff.mp h
  have hnone := (cell_mul_iff.mp h).1
  rw [Mem.erase_self] at hnone
  cases hnone

/-- A load gives the block that is owned, and the memory stays as it is. -/
theorem Triple.load {f : β a → Prog β γ} (hP : P = cell a b * F) (hf : Triple P (f b) S) :
    Triple P (load a >>= f) S := by
  intro G m hfin hm
  have hcell : m a = some b := by
    rw [hP, mul_assoc] at hm
    exact (cell_mul_iff.mp hm).1
  obtain ⟨r, m', hrun, hrest⟩ := hf G m hfin hm
  refine ⟨r, m', ?_, hrest⟩
  show (Separation.load a m >>= fun r => f r.1 r.2) = _
  unfold Separation.load
  rw [hcell]
  exact hrun

/-- A store replaces the block that is owned. -/
theorem Triple.store {f : Unit → Prog β γ} (hP : P = cell a b' * F)
    (hf : Triple (cell a b * F) (f ()) S) : Triple P (store a b >>= f) S := by
  intro G m hfin hm
  rw [hP, mul_assoc] at hm
  obtain ⟨hcell, hrest⟩ := cell_mul_iff.mp hm
  have hnew : (cell a b * (F * G)) (m.set a b) := by
    refine cell_mul_iff.mpr ⟨m.set_self a b, ?_⟩
    have hsame : (m.set a b).erase a = m.erase a := Function.update_idem ..
    rw [hsame]
    exact hrest
  rw [← mul_assoc] at hnew
  obtain ⟨r, m', hrun, hfin', hm'⟩ := hf G _ (hfin.set a b) hnew
  refine ⟨r, m', ?_, hfin', hm'⟩
  show (Separation.store a b m >>= fun r => f r.1 r.2) = _
  unfold Separation.store
  rw [hcell]
  exact hrun

/-- After `release` the block is not owned any more. -/
theorem Triple.release {f : Unit → Prog β γ} (hP : P = cell a b * F)
    (hf : Triple F (f ()) S) : Triple P (release a >>= f) S := by
  intro G m hfin hm
  rw [hP, mul_assoc] at hm
  obtain ⟨hcell, hrest⟩ := cell_mul_iff.mp hm
  obtain ⟨r, m', hrun, hfin', hm'⟩ := hf G _ (hfin.erase a) hrest
  refine ⟨r, m', ?_, hfin', hm'⟩
  show (Separation.release a m >>= fun r => f r.1 r.2) = _
  unfold Separation.release
  rw [hcell]
  exact hrun

end

end

/-! ### Counting -/

section
variable {α : Type} {β : α → Type}

/-- The memory has `n` blocks. -/
def Mem.Uses (m : Mem β) (n : Nat) : Prop :=
  ∃ used : List α, used.Nodup ∧ used.length = n ∧ ∀ a, m a ≠ none ↔ a ∈ used

/-- The assertion owns `n` blocks. -/
def Assertion.Counts (P : Assertion β) (n : Nat) : Prop := ∀ m, P m → m.Uses n

namespace Assertion.Counts

variable {γ : Type} {P Q : Assertion β} {n k : Nat}

/-- No memory has no block. -/
theorem one : (1 : Assertion β).Counts 0 := by
  rintro m rfl
  refine ⟨[], List.nodup_nil, rfl, fun a => ⟨fun h => absurd rfl h, fun h => ?_⟩⟩
  exact absurd h List.not_mem_nil

/-- One cell is one block. -/
theorem cell [DecidableEq α] {a : α} {b : β a} : (Separation.cell a b).Counts 1 := by
  rintro m rfl
  refine ⟨[a], List.pairwise_singleton _ a, rfl, fun a' => ?_⟩
  rw [List.mem_singleton]
  by_cases heq : a' = a
  · subst heq
    rw [Mem.set_self]
    exact ⟨fun _ => rfl, fun _ => nofun⟩
  · rw [Mem.set_of_ne _ _ heq]
    exact ⟨fun h => absurd rfl h, fun h => absurd h heq⟩

/-- Two parts that are apart have their blocks together. -/
theorem mul (hP : P.Counts n) (hQ : Q.Counts k) : (P * Q).Counts (n + k) := by
  rintro m ⟨m1, m2, hdis, rfl, h1, h2⟩
  obtain ⟨used1, hnodup1, hlen1, hmem1⟩ := hP m1 h1
  obtain ⟨used2, hnodup2, hlen2, hmem2⟩ := hQ m2 h2
  refine ⟨used1 ++ used2, List.nodup_append.mpr ⟨hnodup1, hnodup2, ?_⟩, ?_, fun a => ?_⟩
  · rintro a ha _ ha' rfl
    exact (hdis a).elim ((hmem1 a).mpr ha) ((hmem2 a).mpr ha')
  · rw [List.length_append, hlen1, hlen2]
  · rw [List.mem_append, ← hmem1, ← hmem2, ← not_and_or]
    exact not_congr Option.or_eq_none_iff

/-- The number of blocks, when it is the same for every value. -/
theorem any {P : γ → Assertion β} (h : ∀ x, (P x).Counts n) : (Assertion.any P).Counts n :=
  fun m ⟨x, hm⟩ => h x m hm

/-- The number of blocks of an assertion with a fact beside it. -/
theorem given {p : Prop} (h : p → P.Counts n) : (Assertion.given p P).Counts n :=
  fun m hm => h hm.1 m hm.2

/-- The number of blocks of a power is a multiple. -/
theorem pow (h : P.Counts n) : (P ^ k).Counts (k * n) := by
  induction k with
  | zero =>
    rw [pow_zero, Nat.zero_mul]
    exact one
  | succ k ih =>
    rw [pow_succ, Nat.succ_mul]
    exact ih.mul h

/-- The blocks of a list of assertions add up. -/
theorem prod_map {P : γ → Assertion β} {n : γ → Nat} {xs : List γ}
    (h : ∀ x ∈ xs, (P x).Counts (n x)) : (xs.map P).prod.Counts (xs.map n).sum := by
  induction xs with
  | nil => exact one
  | cons x xs ih =>
    show (P x * (xs.map P).prod).Counts (n x + (xs.map n).sum)
    exact (h x List.mem_cons_self).mul (ih fun y hy => h y (List.mem_cons_of_mem _ hy))

end Assertion.Counts

end

end Compostela.Separation
