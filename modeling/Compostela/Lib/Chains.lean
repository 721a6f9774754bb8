import Compostela.Lib.Memory
import Mathlib.Logic.Function.Basic

/-!
# `Compostela.Lib.Chains`: singly linked lists in memory

`Nodes` is a memory of list nodes, by address. A node that was freed, or never allocated, is not
there. `Chain nodes p cells` says that the nodes from `p` to the null pointer are `cells`, each with
its address and its object, and `Nodes.Holds` forgets the addresses.

* `Chain.congr`: a memory that agrees on the nodes of a chain has the chain too.
* `Chain.nodup`: no node is twice in a chain, because the walk from a node ends in one way.
* `Chain.push`, `Chain.pop` and `Chain.relink`: a new first node, the first node freed, and the
  first node with another successor.
-/

set_option autoImplicit false

namespace Compostela.Chains

open Compostela.Memory

/-- A node of a list. -/
structure Node (ι α : Type) where
  next : Option ι
  object : α

/-- The nodes in memory. -/
def Nodes (ι α : Type) := ι → Option (Node ι α)

section
variable {ι α : Type}

/-- The node behind a pointer. -/
def Nodes.read (nodes : Nodes ι α) : Option ι → Except Trap (Node ι α)
  | none => .error .nullDeref
  | some a =>
      match nodes a with
      | none => .error .useAfterFree
      | some node => .ok node

/-- The nodes from a pointer to the null pointer, each with its address. -/
def Chain (nodes : Nodes ι α) : Option ι → List (ι × α) → Prop
  | p, [] => p = none
  | p, (a, x) :: cells => p = some a ∧ ∃ next, nodes a = some ⟨next, x⟩ ∧ Chain nodes next cells

/-- The addresses of the nodes. -/
def addresses (cells : List (ι × α)) : List ι := cells.map Prod.fst

/-- The objects of the nodes. -/
def objects (cells : List (ι × α)) : List α := cells.map Prod.snd

/-- An object that is not twice in a list is neither in front of its node nor behind it. -/
theorem notMem_objects_of_nodup {front back : List (ι × α)} {a : ι} {x : α}
    (h : (objects (front ++ (a, x) :: back)).Nodup) : x ∉ objects front ∧ x ∉ objects back := by
  rw [objects, List.map_append] at h
  obtain ⟨-, hback, hapart⟩ := List.nodup_append.mp h
  exact ⟨fun hmem => hapart _ hmem _ List.mem_cons_self rfl, (List.nodup_cons.mp hback).1⟩

/-- The list at a pointer has these objects, in this order. -/
def Nodes.Holds (nodes : Nodes ι α) (p : Option ι) (xs : List α) : Prop :=
  ∃ cells, Chain nodes p cells ∧ objects cells = xs

variable {nodes nodes' : Nodes ι α} {p next : Option ι} {a : ι} {x : α} {cells : List (ι × α)}

/-- The first node of a chain can be read. -/
theorem Chain.read (h : Chain nodes p ((a, x) :: cells)) :
    ∃ next, nodes.read p = .ok ⟨next, x⟩ ∧ p = some a ∧ nodes a = some ⟨next, x⟩ ∧
      Chain nodes next cells := by
  obtain ⟨rfl, next, ha, hrest⟩ := h
  refine ⟨next, ?_, rfl, ha, hrest⟩
  show (match nodes a with
    | none => Except.error Trap.useAfterFree
    | some node => .ok node) = _
  rw [ha]

/-- The chain depends on its own nodes only. -/
theorem Chain.congr (h : Chain nodes p cells) (hsame : ∀ a ∈ addresses cells, nodes' a = nodes a) :
    Chain nodes' p cells := by
  induction cells generalizing p with
  | nil => exact h
  | cons cell cells ih =>
    obtain ⟨hp, next, ha, hrest⟩ := h
    refine ⟨hp, next, ?_, ?_⟩
    · rw [hsame cell.1 List.mem_cons_self, ha]
    · exact ih hrest fun b hb => hsame b (List.mem_cons_of_mem _ hb)

/-- Two chains from one pointer are the same. -/
theorem Chain.unique {cells' : List (ι × α)} (h : Chain nodes p cells)
    (h' : Chain nodes p cells') : cells = cells' := by
  induction cells generalizing p cells' with
  | nil =>
    cases cells' with
    | nil => rfl
    | cons cell' cells' => exact nomatch h.symm.trans h'.1
  | cons cell cells ih =>
    obtain ⟨rfl, next, ha, hrest⟩ := h
    cases cells' with
    | nil => exact nomatch h'
    | cons cell' cells' =>
      obtain ⟨hp, next', ha', hrest'⟩ := h'
      obtain ⟨b, y⟩ := cell'
      cases hp
      cases ha.symm.trans ha'
      rw [ih hrest hrest']

/-- From each node of a chain the rest of it starts. -/
theorem Chain.tail_of_mem (h : Chain nodes p cells) (ha : a ∈ addresses cells) :
    ∃ front back, cells = front ++ back ∧ Chain nodes (some a) back := by
  induction cells generalizing p with
  | nil => cases ha
  | cons cell cells ih =>
    rcases List.mem_cons.mp ha with rfl | ha
    · exact ⟨[], cell :: cells, rfl, rfl, h.2⟩
    · obtain ⟨-, next, -, hrest⟩ := h
      obtain ⟨front, back, rfl, hback⟩ := ih hrest ha
      exact ⟨cell :: front, back, rfl, hback⟩

/-- The nodes of a chain are there. -/
theorem Chain.ne_none (h : Chain nodes p cells) (ha : a ∈ addresses cells) : nodes a ≠ none := by
  obtain ⟨front, back, -, hback⟩ := h.tail_of_mem ha
  cases back with
  | nil => cases hback
  | cons cell back =>
    obtain ⟨heq, next, hnode, -⟩ := hback
    cases heq
    rw [hnode]
    exact nofun

/-- A node that came twice would start two chains of different length. -/
theorem Chain.nodup (h : Chain nodes p cells) : (addresses cells).Nodup := by
  induction cells generalizing p with
  | nil => exact List.nodup_nil
  | cons cell cells ih =>
    obtain ⟨hp, next, ha, hrest⟩ := h
    refine List.nodup_cons.mpr ⟨?_, ih hrest⟩
    intro hmem
    obtain ⟨front, back, hsplit, hback⟩ := hrest.tail_of_mem hmem
    have hwhole : Chain nodes (some cell.1) (cell :: cells) := ⟨rfl, next, ha, hrest⟩
    have hlen := congrArg List.length (hwhole.unique hback)
    rw [hsplit, List.length_cons, List.length_append] at hlen
    omega

variable [DecidableEq ι]

/-- The memory after a store to a node. -/
def Nodes.write (nodes : Nodes ι α) (a : ι) (node : Node ι α) : Nodes ι α :=
  Function.update nodes a (some node)

/-- The memory after `free`. -/
def Nodes.free (nodes : Nodes ι α) (a : ι) : Nodes ι α := Function.update nodes a none

/-- The node that was written is there. -/
@[simp] theorem Nodes.write_self (nodes : Nodes ι α) (a : ι) (node : Node ι α) :
    nodes.write a node a = some node := Function.update_self ..

/-- A freed node is not there any more. -/
@[simp] theorem Nodes.free_self (nodes : Nodes ι α) (a : ι) : nodes.free a a = none :=
  Function.update_self ..

/-- Writing one node leaves the others alone. -/
theorem Nodes.write_of_ne (nodes : Nodes ι α) {a b : ι} (node : Node ι α) (h : b ≠ a) :
    nodes.write a node b = nodes b := Function.update_of_ne h ..

/-- Freeing one node leaves the others alone. -/
theorem Nodes.free_of_ne (nodes : Nodes ι α) {a b : ι} (h : b ≠ a) : nodes.free a b = nodes b :=
  Function.update_of_ne h ..

/-- A store to a node outside the chain. -/
theorem Chain.write (h : Chain nodes p cells) (ha : a ∉ addresses cells) (node : Node ι α) :
    Chain (nodes.write a node) p cells :=
  h.congr fun _ hb => nodes.write_of_ne node fun heq => ha (heq ▸ hb)

/-- A store to a node outside the chain puts the node in front of it. -/
theorem Chain.relink (h : Chain nodes p cells) (ha : a ∉ addresses cells) (x : α) :
    Chain (nodes.write a ⟨p, x⟩) (some a) ((a, x) :: cells) :=
  ⟨rfl, p, nodes.write_self a _, h.write ha _⟩

/-- The first node is freed. -/
theorem Chain.pop (h : Chain nodes p ((a, x) :: cells)) :
    ∃ next, nodes.read p = .ok ⟨next, x⟩ ∧ Chain (nodes.free a) next cells := by
  have hnew : a ∉ addresses cells := (List.nodup_cons.mp h.nodup).1
  obtain ⟨next, hread, -, -, hrest⟩ := h.read
  refine ⟨next, hread, hrest.congr ?_⟩
  intro b hb
  exact nodes.free_of_ne fun heq => hnew (heq ▸ hb)

end

end Compostela.Chains
