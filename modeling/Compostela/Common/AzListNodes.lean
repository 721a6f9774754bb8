import Compostela.Common.AzList
import Compostela.Lib.Chains

/-!
# `Compostela.Common.AzListNodes`: the nodes of `common/azlist.c`

`az_list_add`, `az_list_delete`, `az_list_delete_all`, `az_list_reverse` and `az_list_find_ex` on
nodes in memory, with their loads, stores and `free`. Walks along the nodes get a budget.
`Common.AzList` has these lists without their nodes.

* `azListDelete_chain`: a deletion frees the first node of the object and links its neighbours.
* `azListReverse_holds`: the loop over the nodes leaves the list in the reverse order.
* `azListFind_holds`: a search finds the first object of the list that passes the test.
-/

set_option autoImplicit false

namespace Compostela.Common.Linked

open Compostela.Chains
open Compostela.Memory

section
variable {ι α : Type} [DecidableEq ι]

/-- `az_list_add`, with `a` the node that `malloc` gives. -/
def azListAdd (nodes : Nodes ι α) (a : ι) (li0 : Option ι) (object : α) :
    Option ι × Nodes ι α := (some a, nodes.write a ⟨li0, object⟩)

/-- `az_list_delete`, which calls itself for the next node and stores the result there. -/
def azListDelete [DecidableEq α] (object : α) :
    Nat → Nodes ι α → Option ι → Except Trap (Option ι × Nodes ι α)
  | 0, _, _ => .error .hangs
  | _ + 1, _, none => .error .nullDeref
  | fuel + 1, nodes, some li => do
      let node ← nodes.read (some li)
      if node.object = object then .ok (node.next, nodes.free li)
      else do
        let (next, nodes) ← azListDelete object fuel nodes node.next
        let node ← nodes.read (some li)
        .ok (some li, nodes.write li { node with next := next })

/-- The loop of `az_list_delete_all`. -/
def azListDeleteAll : Nat → Nodes ι α → Option ι → Except Trap (Nodes ι α)
  | 0, _, _ => .error .hangs
  | _ + 1, nodes, none => .ok nodes
  | fuel + 1, nodes, some i0 => do
      let node ← nodes.read (some i0)
      azListDeleteAll fuel (nodes.free i0) node.next

/-- The loop of `az_list_reverse`. -/
def reverseLoop : Nat → Nodes ι α → Option ι → Option ι → Except Trap (Option ι × Nodes ι α)
  | 0, _, _, _ => .error .hangs
  | _ + 1, nodes, top, none => .ok (top, nodes)
  | fuel + 1, nodes, top, some next => do
      let node ← nodes.read (some next)
      reverseLoop fuel (nodes.write next { node with next := top }) (some next) node.next

/-- `az_list_reverse`. -/
def azListReverse (fuel : Nat) (nodes : Nodes ι α) : Option ι → Except Trap (Option ι × Nodes ι α)
  | none => .ok (none, nodes)
  | some top => do
      let node ← nodes.read (some top)
      reverseLoop fuel (nodes.write top { node with next := none }) (some top) node.next

/-- The loop of `az_list_find_ex`. -/
def azListFind (found : α → Bool) : Nat → Nodes ι α → Option ι → Except Trap (Option α)
  | 0, _, _ => .error .hangs
  | _ + 1, _, none => .ok none
  | fuel + 1, nodes, some i => do
      let node ← nodes.read (some i)
      if found node.object then .ok (some node.object) else azListFind found fuel nodes node.next

variable {nodes : Nodes ι α} {p : Option ι} {cells : List (ι × α)} {xs : List α}

/-- A node that is not in use becomes the first one. -/
theorem azListAdd_holds {a : ι} (hnew : nodes a = none) (h : nodes.Holds p xs) (x : α) :
    (azListAdd nodes a p x).2.Holds (azListAdd nodes a p x).1 (Common.azListAdd xs x) := by
  obtain ⟨cells, hchain, rfl⟩ := h
  have hfree : a ∉ addresses cells := by
    intro hmem
    obtain ⟨front, back, -, hback⟩ := hchain.tail_of_mem hmem
    cases back with
    | nil => cases hback
    | cons cell back =>
      obtain ⟨heq, next, hnode, -⟩ := hback
      cases heq
      exact nomatch hnew.symm.trans hnode
  exact ⟨(a, x) :: cells, hchain.relink hfree x, rfl⟩

/-- A deletion, for the first node of the object. The other nodes outside the chain stay. -/
theorem azListDelete_chain [DecidableEq α] {fuel : Nat} {pre post : List (ι × α)} {a : ι} {x : α}
    (h : Chain nodes p (pre ++ (a, x) :: post)) (hfirst : x ∉ objects pre)
    (hfuel : pre.length < fuel) :
    ∃ q nodes', azListDelete x fuel nodes p = .ok (q, nodes') ∧
      Chain nodes' q (pre ++ post) ∧ nodes' a = none ∧
      ∀ b ∉ addresses (pre ++ (a, x) :: post), nodes' b = nodes b := by
  induction pre generalizing nodes p fuel with
  | nil =>
    obtain ⟨fuel, rfl⟩ := Nat.exists_eq_add_one_of_ne_zero (Nat.ne_zero_of_lt hfuel)
    obtain ⟨next, hread, hrest⟩ := h.pop
    obtain ⟨rfl, -⟩ := h
    refine ⟨next, nodes.free a, ?_, hrest, nodes.free_self a, ?_⟩
    · rw [azListDelete, hread, ok_bind]
      exact if_pos rfl
    · intro b hb
      exact nodes.free_of_ne fun heq => hb (heq ▸ List.mem_cons_self)
  | cons cell pre ih =>
    obtain ⟨b, y⟩ := cell
    obtain ⟨fuel, rfl⟩ := Nat.exists_eq_add_one_of_ne_zero (Nat.ne_zero_of_lt hfuel)
    have hnodup := h.nodup
    obtain ⟨next, hread, rfl, hb, hrest⟩ := h.read
    have hyx : y ≠ x := fun heq => hfirst (heq ▸ List.mem_cons_self)
    obtain ⟨q, nodes', hdelete, hchain, hgone, hsame⟩ := ih hrest
      (fun hmem => hfirst (List.mem_cons_of_mem _ hmem)) (Nat.lt_of_succ_lt_succ hfuel)
    -- The node in front is not among the others.
    have hnew : b ∉ addresses (pre ++ (a, x) :: post) := (List.nodup_cons.mp hnodup).1
    have hab : a ≠ b := by
      intro heq
      apply hnew
      rw [← heq, addresses, List.map_append]
      exact List.mem_append_right _ List.mem_cons_self
    have hnode : nodes' b = some ⟨next, y⟩ := (hsame b hnew).trans hb
    have hsub : b ∉ addresses (pre ++ post) := by
      intro hmem
      apply hnew
      rw [addresses, List.map_append] at hmem ⊢
      exact (List.mem_append.mp hmem).elim (List.mem_append_left _)
        fun hpost => List.mem_append_right _ (List.mem_cons_of_mem _ hpost)
    refine ⟨some b, nodes'.write b ⟨q, y⟩, ?_, hchain.relink hsub y, ?_, ?_⟩
    · have hread' : nodes'.read (some b) = .ok ⟨next, y⟩ := by
        simp only [Nodes.read, hnode]
      rw [azListDelete, hread, ok_bind, if_neg hyx, hdelete]
      show (nodes'.read (some b) >>= _) = _
      rw [hread']
      rfl
    · rw [nodes'.write_of_ne _ hab, hgone]
    · intro c hc
      have hcb : c ≠ b := fun heq => hc (heq ▸ List.mem_cons_self)
      rw [nodes'.write_of_ne _ hcb]
      exact hsame c fun hmem => hc (List.mem_cons_of_mem _ hmem)

/-- The loop frees the nodes of the list and no others. -/
theorem azListDeleteAll_chain {fuel : Nat} (h : Chain nodes p cells)
    (hfuel : cells.length < fuel) :
    ∃ nodes', azListDeleteAll fuel nodes p = .ok nodes' ∧
      (∀ a ∈ addresses cells, nodes' a = none) ∧ ∀ a ∉ addresses cells, nodes' a = nodes a := by
  induction cells generalizing nodes p fuel with
  | nil =>
    obtain ⟨fuel, rfl⟩ := Nat.exists_eq_add_one_of_ne_zero (Nat.ne_zero_of_lt hfuel)
    cases h
    exact ⟨nodes, rfl, fun a ha => absurd ha List.not_mem_nil, fun a _ => rfl⟩
  | cons cell cells ih =>
    obtain ⟨b, x⟩ := cell
    obtain ⟨fuel, rfl⟩ := Nat.exists_eq_add_one_of_ne_zero (Nat.ne_zero_of_lt hfuel)
    -- No address is freed twice: the first is not among the others.
    have hnew : b ∉ addresses cells := (List.nodup_cons.mp h.nodup).1
    obtain ⟨next, hread, hrest⟩ := h.pop
    obtain ⟨rfl, -⟩ := h
    obtain ⟨nodes', hdelete, hgone, hsame⟩ := ih hrest (Nat.lt_of_succ_lt_succ hfuel)
    refine ⟨nodes', ?_, fun a ha => ?_, fun a ha => ?_⟩
    · rw [azListDeleteAll, hread, ok_bind]
      exact hdelete
    · rcases List.mem_cons.mp ha with rfl | ha
      · rw [hsame a hnew]
        exact nodes.free_self a
      · exact hgone a ha
    · obtain ⟨hne, ha⟩ := not_or.mp fun h => ha (List.mem_cons.mpr h)
      rw [hsame a ha]
      exact nodes.free_of_ne hne

/-- The loop moves the nodes one by one in front of those that it has turned around. -/
theorem reverseLoop_chain {fuel : Nat} {top : Option ι} {done : List (ι × α)}
    (hdone : Chain nodes top done) (h : Chain nodes p cells) (hfuel : cells.length < fuel)
    (hapart : ∀ a ∈ addresses cells, a ∉ addresses done) :
    ∃ q nodes', reverseLoop fuel nodes top p = .ok (q, nodes') ∧
      Chain nodes' q (cells.reverse ++ done) := by
  induction cells generalizing nodes p top done fuel with
  | nil =>
    obtain ⟨fuel, rfl⟩ := Nat.exists_eq_add_one_of_ne_zero (Nat.ne_zero_of_lt hfuel)
    cases h
    exact ⟨top, nodes, rfl, hdone⟩
  | cons cell cells ih =>
    obtain ⟨a, x⟩ := cell
    obtain ⟨fuel, rfl⟩ := Nat.exists_eq_add_one_of_ne_zero (Nat.ne_zero_of_lt hfuel)
    obtain ⟨hnew, hnodup⟩ := List.nodup_cons.mp h.nodup
    obtain ⟨next, hread, rfl, -, hrest⟩ := h.read
    -- The cell is turned round before the loop goes on, and stays apart from those still ahead.
    have hturned := hdone.relink (hapart a List.mem_cons_self) x
    obtain ⟨q, nodes', heq, hchain⟩ := ih hturned (hrest.write hnew _)
      (Nat.lt_of_succ_lt_succ hfuel) (by
        intro b hb hmem
        rcases List.mem_cons.mp hmem with rfl | hmem
        · exact hnew hb
        · exact hapart b (List.mem_cons_of_mem _ hb) hmem)
    refine ⟨q, nodes', ?_, ?_⟩
    · rw [reverseLoop, hread, ok_bind]
      exact heq
    · rw [List.reverse_cons, List.append_assoc]
      exact hchain

/-- A reversal turns the whole list around. -/
theorem azListReverse_holds {fuel : Nat} (h : nodes.Holds p xs) (hfuel : xs.length < fuel) :
    ∃ q nodes', azListReverse fuel nodes p = .ok (q, nodes') ∧ nodes'.Holds q xs.reverse := by
  obtain ⟨cells, hchain, rfl⟩ := h
  cases cells with
  | nil =>
    cases hchain
    exact ⟨none, nodes, rfl, [], rfl, rfl⟩
  | cons cell cells =>
    obtain ⟨a, x⟩ := cell
    obtain ⟨hnew, -⟩ := List.nodup_cons.mp hchain.nodup
    obtain ⟨next, hread, rfl, -, hrest⟩ := hchain.read
    have hlen : cells.length + 1 < fuel := by simpa [objects] using hfuel
    have hnone : Chain nodes none [] := rfl
    -- The first cell becomes the last, with nothing behind it.
    have hfirst : Chain (nodes.write a ⟨none, x⟩) (some a) [(a, x)] :=
      hnone.relink List.not_mem_nil x
    obtain ⟨q, nodes', heq, hturned⟩ := reverseLoop_chain hfirst
      (hrest.write hnew _) (Nat.lt_of_succ_lt hlen) (by
        intro b hb hmem
        exact hnew (List.mem_singleton.mp hmem ▸ hb))
    refine ⟨q, nodes', ?_, _, hturned, ?_⟩
    · rw [azListReverse, hread, ok_bind]
      exact heq
    · simp [objects]

omit [DecidableEq ι] in
/-- A search takes the first object that passes the test. -/
theorem azListFind_holds {found : α → Bool} {fuel : Nat} (h : nodes.Holds p xs)
    (hfuel : xs.length < fuel) : azListFind found fuel nodes p = .ok (xs.find? found) := by
  obtain ⟨cells, hchain, rfl⟩ := h
  induction cells generalizing p fuel with
  | nil =>
    obtain ⟨fuel, rfl⟩ := Nat.exists_eq_add_one_of_ne_zero (Nat.ne_zero_of_lt hfuel)
    cases hchain
    rfl
  | cons cell cells ih =>
    obtain ⟨a, x⟩ := cell
    obtain ⟨fuel, rfl⟩ := Nat.exists_eq_add_one_of_ne_zero (Nat.ne_zero_of_lt hfuel)
    obtain ⟨next, hread, rfl, -, hrest⟩ := hchain.read
    rw [azListFind, hread, ok_bind]
    show _ = Except.ok ((x :: objects cells).find? found)
    by_cases hx : found x = true
    · rw [if_pos hx, List.find?_cons_of_pos hx]
    · rw [if_neg hx, List.find?_cons_of_neg hx]
      exact ih hrest (Nat.lt_of_succ_lt_succ hfuel)

end

end Compostela.Common.Linked
