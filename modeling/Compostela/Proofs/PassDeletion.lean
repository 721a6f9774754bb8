import Compostela.Follower.PassNodes

/-!
# `Compostela.Proofs.PassDeletion`: deletions during a pass of the main loop

The main loop deletes a context whose run returned -1 from the list that it goes through. The node
is freed with it, and `li = li->next` reads the freed node then.

* `Listing.add`: the lists that the follower builds.
* `pass_of_failed`: a pass in which a run returns -1 reads freed memory.
* `pass_correct_iff`: the passes that run every context once and keep exactly those that did not
  fail.
-/

set_option autoImplicit false

namespace Compostela.Follower

open Compostela.Chains
open Compostela.Common
open Compostela.Memory

section
variable {γ σ : Type}

/-- Runs with an assigned result for each context. `effect` is what they do to the context and the
rest. -/
def assigned (results : Nat → Int) (effect : Nat → γ → σ → γ × σ) : Runner γ σ :=
  fun cxt c env => .ok (results cxt, effect cxt c env)

/-- The list is in memory with these contexts, each of them once and none of them freed. -/
structure PassState.Listing (s : PassState γ σ) (cxts : List Nat) : Prop where
  holds : s.nodes.Holds s.head cxts
  nodup : cxts.Nodup
  live : ∀ cxt ∈ cxts, ∃ c, s.cxts cxt = some c

/-- The pass ends, has run every context once in the order of the list, and leaves the contexts
whose runs did not fail, in their order. -/
def PassesCorrectly (results : Nat → Int) (effect : Nat → γ → σ → γ × σ) (s : PassState γ σ)
    (cxts : List Nat) : Prop :=
  ∃ s', pass (assigned results effect) (cxts.length + 1) s = .ok s' ∧ s'.ran = s.ran ++ cxts ∧
    s'.nodes.Holds s'.head (cxts.filter fun cxt => results cxt ≠ -1)

/-- `az_list_add` for a new context, with the addresses of the context and of the node. -/
def PassState.add (s : PassState γ σ) (cxt a : Nat) (c : γ) : PassState γ σ :=
  { s with
    nodes := (Linked.azListAdd s.nodes a s.head cxt).2
    head := (Linked.azListAdd s.nodes a s.head cxt).1
    cxts := Function.update s.cxts cxt (some c) }

variable {results : Nat → Int} {effect : Nat → γ → σ → γ × σ} {s : PassState γ σ}
  {cells : List (Nat × Nat)} {cxts : List Nat} {p : Option Nat}

/-- A new context goes to the front. Fresh memory is not in use. -/
theorem PassState.Listing.add (h : s.Listing cxts) {cxt a : Nat} (hcxt : s.cxts cxt = none)
    (ha : s.nodes a = none) (c : γ) : (s.add cxt a c).Listing (cxt :: cxts) := by
  have hnew : cxt ∉ cxts := by
    intro hmem
    obtain ⟨c', hc'⟩ := h.live cxt hmem
    exact nomatch hcxt.symm.trans hc'
  refine ⟨Linked.azListAdd_holds ha h.holds cxt, List.nodup_cons.mpr ⟨hnew, h.nodup⟩, ?_⟩
  intro other hother
  rcases List.mem_cons.mp hother with rfl | hother
  · exact ⟨c, Function.update_self ..⟩
  · obtain ⟨c', hc'⟩ := h.live other hother
    have hne : other ≠ cxt := fun heq => hnew (heq ▸ hother)
    exact ⟨c', (Function.update_of_ne hne ..).trans hc'⟩

/-- The turns of the loop for contexts that stay. By induction on the nodes ahead. -/
theorem passNodes_of_kept (h : Chain s.nodes p cells) (hnodup : (objects cells).Nodup)
    (hlive : ∀ cxt ∈ objects cells, ∃ c, s.cxts cxt = some c)
    (hkept : ∀ cxt ∈ objects cells, results cxt ≠ -1) {fuel : Nat} (hfuel : cells.length < fuel)
    (size : Nat) :
    ∃ s', passNodes (assigned results effect) size fuel s p = .ok s' ∧ s'.nodes = s.nodes ∧
      s'.head = s.head ∧ s'.ran = s.ran ++ objects cells := by
  induction cells generalizing s p fuel with
  | nil =>
    obtain ⟨fuel, rfl⟩ := Nat.exists_eq_add_one_of_ne_zero (Nat.ne_zero_of_lt hfuel)
    cases h
    exact ⟨s, rfl, rfl, rfl, (List.append_nil _).symm⟩
  | cons cell cells ih =>
    obtain ⟨li, cxt⟩ := cell
    obtain ⟨fuel, rfl⟩ := Nat.exists_eq_add_one_of_ne_zero (Nat.ne_zero_of_lt hfuel)
    obtain ⟨hnew, hnodup⟩ := List.nodup_cons.mp hnodup
    obtain ⟨c, hc⟩ := hlive cxt List.mem_cons_self
    have hrun : assigned results effect cxt c s.env =
        .ok (results cxt, (effect cxt c s.env).1, (effect cxt c s.env).2) := rfl
    -- The context stays, and its node tells where the next one is.
    obtain ⟨next, hnext, hturn⟩ := passNodes_keep h hc hrun (hkept cxt List.mem_cons_self) size fuel
    obtain ⟨s', heq, hnodes, hhead, hran⟩ := ih
      (s := s.after cxt (results cxt) (effect cxt c s.env).1 (effect cxt c s.env).2) hnext hnodup
      (by
        intro other hother
        rw [PassState.after_cxts_of_notMem hnew hother]
        exact hlive other (List.mem_cons_of_mem _ hother))
      (fun other hother => hkept other (List.mem_cons_of_mem _ hother))
      (Nat.lt_of_succ_lt_succ hfuel)
    refine ⟨s', hturn.trans heq, hnodes, hhead, hran.trans ?_⟩
    show s.ran ++ [cxt] ++ objects cells = s.ran ++ cxt :: objects cells
    rw [List.append_assoc]
    rfl

/-- The loop up to the first context whose run returns -1. By induction on the nodes ahead. -/
theorem passNodes_of_failed {pre : List (Nat × Nat)}
    (hlist : Chain s.nodes s.head (pre ++ cells)) (h : Chain s.nodes p cells)
    (hnodup : (objects (pre ++ cells)).Nodup)
    (hlive : ∀ cxt ∈ objects cells, ∃ c, s.cxts cxt = some c)
    (hfailed : ∃ cxt ∈ objects cells, results cxt = -1) {size fuel : Nat}
    (hsize : (pre ++ cells).length < size) (hfuel : cells.length < fuel) :
    passNodes (assigned results effect) size fuel s p = .error .useAfterFree := by
  induction cells generalizing s p pre fuel with
  | nil =>
    obtain ⟨cxt, hmem, -⟩ := hfailed
    cases hmem
  | cons cell cells ih =>
    obtain ⟨li, cxt⟩ := cell
    obtain ⟨fuel, rfl⟩ := Nat.exists_eq_add_one_of_ne_zero (Nat.ne_zero_of_lt hfuel)
    obtain ⟨hfirst, hnew⟩ := notMem_objects_of_nodup hnodup
    obtain ⟨c, hc⟩ := hlive cxt List.mem_cons_self
    have hrun : assigned results effect cxt c s.env =
        .ok (results cxt, (effect cxt c s.env).1, (effect cxt c s.env).2) := rfl
    -- The first context that fails is deleted together with its node, which is read once more.
    by_cases hret : results cxt = -1
    · rw [hret] at hrun
      exact passNodes_drop hlist hfirst h hc hrun (by simp at hsize; omega) fuel
    · obtain ⟨next, hnext, hturn⟩ := passNodes_keep h hc hrun hret size fuel
      have hsplit : pre ++ (li, cxt) :: cells = (pre ++ [(li, cxt)]) ++ cells := by
        rw [List.append_assoc]
        rfl
      rw [hturn]
      rw [hsplit] at hlist hnodup hsize
      refine ih (s := s.after cxt (results cxt) (effect cxt c s.env).1 (effect cxt c s.env).2)
        hlist hnext hnodup ?_ ?_ hsize (Nat.lt_of_succ_lt_succ hfuel)
      · intro other hother
        rw [PassState.after_cxts_of_notMem hnew hother]
        exact hlive other (List.mem_cons_of_mem _ hother)
      · obtain ⟨other, hmem, hother⟩ := hfailed
        rcases List.mem_cons.mp hmem with rfl | hmem
        · exact absurd hother hret
        · exact ⟨other, hmem, hother⟩

/-- A pass in which the run of some context returns -1 reads the freed node. -/
theorem pass_of_failed (h : s.Listing cxts) (hfailed : ∃ cxt ∈ cxts, results cxt = -1) :
    pass (assigned results effect) (cxts.length + 1) s = .error .useAfterFree := by
  obtain ⟨cells, hchain, rfl⟩ := h.holds
  have hlen : (objects cells).length = cells.length := List.length_map ..
  have hlist : Chain s.nodes s.head ([] ++ cells) := hchain
  exact passNodes_of_failed hlist hchain h.nodup h.live hfailed
    (by rw [hlen]; exact Nat.lt_succ_self _) (by rw [hlen]; exact Nat.lt_succ_self _)

/-- A pass over a list of any length is correct exactly when no run returns -1. -/
theorem pass_correct_iff (h : s.Listing cxts) (results : Nat → Int)
    (effect : Nat → γ → σ → γ × σ) :
    PassesCorrectly results effect s cxts ↔ ∀ cxt ∈ cxts, results cxt ≠ -1 := by
  constructor
  · rintro ⟨s', heq, -⟩ cxt hcxt hfailed
    exact nomatch (pass_of_failed h ⟨cxt, hcxt, hfailed⟩).symm.trans heq
  · intro hkept
    obtain ⟨cells, hchain, rfl⟩ := h.holds
    have hlen : (objects cells).length = cells.length := List.length_map ..
    obtain ⟨s', heq, hnodes, hhead, hran⟩ := @passNodes_of_kept γ σ results effect s cells s.head
      hchain h.nodup h.live hkept _ (Nat.lt_succ_self cells.length) (cells.length + 1)
    refine ⟨s', ?_, hran, ?_⟩
    · rw [hlen]
      exact heq
    · have hall : (objects cells).filter (fun cxt => results cxt ≠ -1) = objects cells :=
        List.filter_eq_self.mpr fun cxt hcxt => decide_eq_true (hkept cxt hcxt)
      rw [hall, hnodes, hhead]
      exact ⟨cells, hchain, rfl⟩

end

/-- A follower without contexts. -/
def noContexts : PassState Unit Unit := ⟨fun _ => none, fun _ => none, none, (), 1, false, []⟩

/-- The list without nodes lists no contexts. -/
theorem listing_noContexts : noContexts.Listing [] :=
  ⟨⟨[], rfl, rfl⟩, List.nodup_nil, nofun⟩

/-- The only context of a list fails. Its node is freed and read then. -/
theorem pass_reads_freed_node :
    (noContexts.add 7 1 ()).Listing [7] ∧
      pass (assigned (fun _ => -1) fun _ c env => (c, env)) 2 (noContexts.add 7 1 ()) =
        .error .useAfterFree ∧
      ¬ PassesCorrectly (fun _ => -1) (fun _ c env => (c, env)) (noContexts.add 7 1 ()) [7] := by
  refine ⟨listing_noContexts.add rfl rfl (), rfl, ?_⟩
  rintro ⟨s', heq, -⟩
  exact nomatch heq

/-- Two contexts, of which none is to be deleted. -/
theorem pass_correct_iff_two :
    ((noContexts.add 7 1 ()).add 8 2 ()).Listing [8, 7] ∧
      (PassesCorrectly (fun cxt => (cxt : Int) - 7) (fun _ c env => (c, env))
        ((noContexts.add 7 1 ()).add 8 2 ()) [8, 7] ↔
          ∀ cxt ∈ ([8, 7] : List Nat), (cxt : Int) - 7 ≠ -1) :=
  have hlist : ((noContexts.add 7 1 ()).add 8 2 ()).Listing [8, 7] :=
    (listing_noContexts.add rfl rfl ()).add rfl rfl ()
  ⟨hlist, pass_correct_iff hlist _ _⟩

end Compostela.Follower
