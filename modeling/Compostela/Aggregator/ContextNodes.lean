import Compostela.Aggregator.AppConfig
import Compostela.Common.AzListNodes

/-!
# `Compostela.Aggregator.ContextNodes`: the list of contexts on its nodes

`_pick_patterns` puts each context in front of the list, `_pick_global` turns the nodes of the list
around in place, and `__find_aggregate_context` walks along them. The loops are here with these
nodes in memory. `malloc n` is the address that the `n`-th `az_list_add` gets.

* `pickPatternsNodes_refines`: the nodes hold the list of `Loader.pickPatterns`.
* `pickContexts_holds`: after the reversal they hold it in the order of the file.
* `findContext_holds`: the walk finds what `find?` finds in the list.
-/

set_option autoImplicit false

namespace Compostela.Aggregator

open Compostela.Chains
open Compostela.Common
open Compostela.Memory

section
variable {ι : Type} [DecidableEq ι] (malloc : Nat → ι)

/-- The loop of `_pick_patterns`, when `n` nodes were allocated before. -/
def pickPatternsNodes : Nat → YamlParser → Nat → Nodes ι PickedContext → Option ι →
    Except Trap (Option ι × Nodes ι PickedContext × YamlParser)
  | 0, _, _, _, _ => .error .hangs
  | fuel + 1, parser, n, nodes, li =>
      match parser.parse with
      | (none, parser) => .ok (li, nodes, parser)
      | (some .sequenceEnd, parser) => .ok (li, nodes, parser)
      | (some .mappingStart, parser) => do
          let (cxt, parser) ← AppConfig.loader.pickEntry fuel parser AppConfig.loader.newEntry
          let (li, nodes) := Linked.azListAdd nodes (malloc n) li cxt
          pickPatternsNodes fuel parser (n + 1) nodes li
      | (some _, parser) => pickPatternsNodes fuel parser n nodes li

/-- What `_pick_global` does for `patterns`: the new `g_config_aggregate_context_list`. -/
def pickContexts (fuel : Nat) (parser : YamlParser) (nodes : Nodes ι PickedContext) :
    Except Trap (Option ι × Nodes ι PickedContext × YamlParser) := do
  let (li, nodes, parser) ← pickPatternsNodes malloc fuel parser 0 nodes none
  let (li, nodes) ← Linked.azListReverse fuel nodes li
  .ok (li, nodes, parser)

end

section
variable {ι : Type}

/-- The loop of `__find_aggregate_context`. A context without a path has a null pointer there. -/
def findContext (fnmatch : Bytes → Bytes → Bool) (fname : Bytes) :
    Nat → Nodes ι PickedContext → Option ι → Except Trap (Option PickedContext)
  | 0, _, _ => .error .hangs
  | _ + 1, _, none => .ok none
  | fuel + 1, nodes, some li => do
      let node ← nodes.read (some li)
      match node.object.path with
      | none => .error .nullDeref
      | some path =>
          if fnmatch path fname then .ok (some node.object)
          else findContext fnmatch fname fuel nodes node.next

end

/-! ### The list and its nodes -/

section
variable {ι : Type} [DecidableEq ι] {malloc : Nat → ι}

/-- Every entry of the list takes a turn of the loop. -/
theorem length_pickPatterns {fuel : Nat} {parser parser' : YamlParser}
    {li li' : List PickedContext}
    (h : AppConfig.loader.pickPatterns fuel parser li = .ok (li', parser')) :
    li'.length < li.length + fuel := by
  induction fuel generalizing parser li with
  | zero => cases h
  | succ fuel ih =>
    simp only [Loader.pickPatterns] at h
    split at h
    · cases h
      omega
    · cases h
      omega
    · obtain ⟨⟨entry, parser⟩, -, h⟩ := bind_eq_ok.mp h
      -- A mapping adds one context and takes one step.
      have hlen := ih h
      simp only [azListAdd, List.length_cons] at hlen
      omega
    · have hlen := ih h
      omega

/-- The loop over nodes puts the same contexts in front of the list as the loop without them. -/
theorem pickPatternsNodes_refines (hinjective : Function.Injective malloc) {fuel n : Nat}
    {parser parser' : YamlParser} {nodes : Nodes ι PickedContext} {p : Option ι}
    {li li' : List PickedContext} (hfree : ∀ k, n ≤ k → nodes (malloc k) = none)
    (hli : nodes.Holds p li)
    (h : AppConfig.loader.pickPatterns fuel parser li = .ok (li', parser')) :
    ∃ q nodes', pickPatternsNodes malloc fuel parser n nodes p = .ok (q, nodes', parser') ∧
      nodes'.Holds q li' := by
  induction fuel generalizing parser n nodes p li with
  | zero => cases h
  | succ fuel ih =>
    cases hparse : parser.parse with
    | mk event parser₁ =>
      simp only [Loader.pickPatterns, hparse] at h
      simp only [pickPatternsNodes, hparse]
      cases event with
      | none =>
        cases h
        exact ⟨p, nodes, rfl, hli⟩
      | some event =>
        cases event with
        | sequenceEnd =>
          cases h
          exact ⟨p, nodes, rfl, hli⟩
        | mappingStart =>
          obtain ⟨⟨entry, parser₂⟩, hentry, h⟩ := bind_eq_ok.mp h
          -- The addresses behind this one are still free.
          have hfree' : ∀ k, n + 1 ≤ k →
              (Linked.azListAdd nodes (malloc n) p entry).2 (malloc k) = none := by
            intro k hk
            have hne : malloc k ≠ malloc n := hinjective.ne (by omega)
            exact (nodes.write_of_ne _ hne).trans (hfree k (Nat.le_of_succ_le hk))
          simp only [hentry, ok_bind]
          exact ih hfree' (Linked.azListAdd_holds (hfree n (Nat.le_refl n)) hli entry) h
        | _ => exact ih hfree hli h

/-- The nodes hold the contexts that the loader assigns to its global. -/
theorem pickContexts_holds (hinjective : Function.Injective malloc) {fuel : Nat}
    {parser parser' : YamlParser} {nodes : Nodes ι PickedContext} {li : List PickedContext}
    (hfree : ∀ k, nodes (malloc k) = none)
    (h : AppConfig.loader.pickPatterns fuel parser [] = .ok (li, parser')) :
    ∃ q nodes', pickContexts malloc fuel parser nodes = .ok (q, nodes', parser') ∧
      nodes'.Holds q li.reverse := by
  have hnone : nodes.Holds none [] := ⟨[], rfl, rfl⟩
  obtain ⟨p, nodes₁, hpick, hholds⟩ :=
    pickPatternsNodes_refines hinjective (fun k _ => hfree k) hnone h
  -- The list is no longer than the events it was read from.
  have hlen : li.length < fuel := by simpa using length_pickPatterns h
  obtain ⟨q, nodes', hturn, hturned⟩ := Linked.azListReverse_holds hholds hlen
  refine ⟨q, nodes', ?_, hturned⟩
  rw [pickContexts, hpick, ok_bind]
  show (Linked.azListReverse fuel nodes₁ p >>= _) = _
  rw [hturn]
  rfl

end

section
variable {ι : Type}

/-- The path of the context matches the name. -/
def matchesName (fnmatch : Bytes → Bytes → Bool) (fname : Bytes) (cxt : PickedContext) : Bool :=
  cxt.path.any fun path => fnmatch path fname

/-- The walk along the nodes of contexts that all have a path. -/
theorem findContext_holds {fnmatch : Bytes → Bytes → Bool} {fname : Bytes} {fuel : Nat}
    {nodes : Nodes ι PickedContext} {p : Option ι} {li : List PickedContext}
    (hli : nodes.Holds p li) (hpath : ∀ cxt ∈ li, cxt.path.isSome) (hfuel : li.length < fuel) :
    findContext fnmatch fname fuel nodes p = .ok (li.find? (matchesName fnmatch fname)) := by
  obtain ⟨cells, hchain, rfl⟩ := hli
  induction cells generalizing p fuel with
  | nil =>
    obtain ⟨fuel, rfl⟩ := Nat.exists_eq_add_one_of_ne_zero (Nat.ne_zero_of_lt hfuel)
    cases hchain
    rfl
  | cons cell cells ih =>
    obtain ⟨a, cxt⟩ := cell
    obtain ⟨fuel, rfl⟩ := Nat.exists_eq_add_one_of_ne_zero (Nat.ne_zero_of_lt hfuel)
    obtain ⟨next, hread, rfl, -, hrest⟩ := hchain.read
    obtain ⟨path, hcxt⟩ := Option.isSome_iff_exists.mp (hpath cxt List.mem_cons_self)
    -- A context of the file has its path, so the loop never asks for that of a null.
    have hmatches : matchesName fnmatch fname cxt = fnmatch path fname := by
      rw [matchesName, hcxt]
      rfl
    rw [findContext, hread, ok_bind]
    simp only [hcxt]
    show _ = Except.ok ((cxt :: objects cells).find? _)
    cases hfound : fnmatch path fname with
    | true => rw [if_pos rfl, List.find?_cons_of_pos (hmatches.trans hfound)]
    | false =>
      rw [if_neg Bool.false_ne_true, List.find?_cons_of_neg (by simp [hmatches, hfound])]
      exact ih hrest (fun cxt hmem => hpath cxt (List.mem_cons_of_mem _ hmem))
        (Nat.lt_of_succ_lt_succ hfuel)

end

end Compostela.Aggregator
