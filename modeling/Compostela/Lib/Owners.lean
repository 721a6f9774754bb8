import Mathlib.Data.List.Perm.Subperm
import Mathlib.Data.List.Perm.Lattice

/-!
# `Compostela.Lib.Owners`: resources with one owner each

A program acquires resources, keeps each of them in some place of its state, and releases it from
there. `Owned table owners` relates the open resources to the places that refer to them: each
open resource is in exactly one place, and no place refers to a released one.

* `Owned.acquire`, `Owned.release` and `Owned.releaseAll`: a place takes a new resource, or
  gives up its own.
* `Owned.count_eq_one` and `Owned.lost`: an open resource has one owner, and a resource whose
  owner goes away without a release has none.
* `held`: the resource in a place that can be empty, with a value that says so.
* `lowestFree`: the lowest number that is not in use.
-/

set_option autoImplicit false

namespace Compostela.Owners

section
variable {α β : Type}

/-- The open resources are those that the places refer to, each one once. -/
structure Owned (table owners : List α) : Prop where
  nodup : table.Nodup
  perm : table.Perm owners

variable {table owners owners' : List α} {d : α}

/-- The order of the places does not matter. -/
theorem Owned.congr (h : Owned table owners) (hperm : owners.Perm owners') :
    Owned table owners' := ⟨h.nodup, h.perm.trans hperm⟩

/-- A new resource gets a place. -/
theorem Owned.acquire (h : Owned table owners) (hnew : d ∉ table) :
    Owned (d :: table) (d :: owners) :=
  ⟨List.nodup_cons.mpr ⟨hnew, h.nodup⟩, h.perm.cons d⟩

/-- A place gives up its resource. -/
theorem Owned.release [DecidableEq α] (h : Owned table (d :: owners)) :
    Owned (table.erase d) owners := by
  refine ⟨h.nodup.erase d, ?_⟩
  have hperm := h.perm.erase d
  rwa [List.erase_cons_head] at hperm

/-- Several places give up their resources. -/
theorem Owned.releaseAll [DecidableEq α] {released : List α}
    (h : Owned table (released ++ owners)) :
    Owned (released.foldl List.erase table) owners := by
  induction released generalizing table with
  | nil => exact h
  | cons d rest ih => exact ih h.release

/-- An open resource has exactly one owner. -/
theorem Owned.count_eq_one [DecidableEq α] (h : Owned table owners) (hd : d ∈ table) :
    owners.count d = 1 := by
  rw [← h.perm.count_eq]
  exact List.count_eq_one_of_mem h.nodup hd

/-- A resource of a place that is dropped is still open, and has no other owner. -/
theorem Owned.lost (h : Owned table (d :: owners)) : d ∈ table ∧ d ∉ owners := by
  have hnodup : (d :: owners).Nodup := h.perm.nodup_iff.mp h.nodup
  exact ⟨h.perm.mem_iff.mpr List.mem_cons_self, (List.nodup_cons.mp hnodup).1⟩

/-- What a place holds. `none` stands for an empty place. -/
def held [DecidableEq α] (none d : α) : List α := if d = none then [] else [d]

/-- The value that stands for nothing is held by nobody. -/
@[simp] theorem held_self [DecidableEq α] (none : α) : held none none = [] := if_pos rfl

/-- Any other value is held. -/
theorem held_of_ne [DecidableEq α] {none d : α} (h : d ≠ none) : held none d = [d] := if_neg h

/-- A place that can be empty gives up what it holds. -/
theorem Owned.releaseHeld [DecidableEq α] {none : α} (h : Owned table (held none d ++ owners))
    (hnone : none ∉ table) : Owned (table.erase d) owners := by
  unfold held at h
  split at h
  · rename_i hempty
    rw [hempty, List.erase_of_not_mem hnone]
    exact h
  · exact h.release

/-- One entry of a list of places is replaced, or taken out. -/
theorem exists_perm_flatMap (f : β → List α) {l : List β} {i : Nat} {b : β} (h : l[i]? = some b) :
    ∃ rest, (l.flatMap f).Perm (f b ++ rest) ∧ ((l.eraseIdx i).flatMap f).Perm rest ∧
      ∀ b', ((l.set i b').flatMap f).Perm (f b' ++ rest) := by
  obtain ⟨hi, rfl⟩ := List.getElem?_eq_some_iff.mp h
  refine ⟨(l.take i).flatMap f ++ (l.drop (i + 1)).flatMap f, ?_, ?_, ?_⟩
  · conv_lhs => rw [← List.take_append_drop i l, List.drop_eq_getElem_cons hi]
    rw [List.flatMap_append, List.flatMap_cons]
    exact List.perm_append_comm_assoc ..
  · rw [List.eraseIdx_eq_take_drop_succ, List.flatMap_append]
  · intro b'
    rw [List.set_eq_take_append_cons_drop, if_pos hi, List.flatMap_append, List.flatMap_cons]
    exact List.perm_append_comm_assoc ..

end

/-- The lowest number that is not in use. -/
def lowestFree (used : List Int) : Int :=
  ((List.range (used.length + 1)).find? fun n : Nat => decide ((n : Int) ∉ used)).getD 0

/-- The lowest free number is not negative. -/
theorem lowestFree_nonneg (used : List Int) : 0 ≤ lowestFree used := Int.natCast_nonneg _

/-- One of the first numbers is free, because there are more of them than are in use. -/
theorem lowestFree_notMem (used : List Int) : lowestFree used ∉ used := by
  unfold lowestFree
  cases hfind : (List.range (used.length + 1)).find? fun n : Nat => decide ((n : Int) ∉ used) with
  | some n => simpa using List.find?_some hfind
  | none =>
    exfalso
    have hall : (List.range (used.length + 1)).map (fun n : Nat => (n : Int)) ⊆ used := by
      intro d hd
      obtain ⟨n, hn, rfl⟩ := List.mem_map.mp hd
      simpa using List.find?_eq_none.mp hfind n hn
    have hnodup : ((List.range (used.length + 1)).map (fun n : Nat => (n : Int))).Nodup :=
      List.nodup_range.map fun m n hmn => Int.ofNat.inj hmn
    have hlen := (List.subperm_of_subset hnodup hall).length_le
    rw [List.length_map, List.length_range] at hlen
    omega

end Compostela.Owners
