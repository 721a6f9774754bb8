import Compostela.Common.AzListNodes
import Compostela.Follower.Rotate

/-!
# `Compostela.Follower.PassNodes`: a pass of the main loop on the nodes of the list

The loop of `main` over `g_context_list`, with the list in memory. A node has the address of its
context, and a context is there until `sc_follow_context_destroy` frees it. The loop reads the
successor of a node after the body, which may have freed the node.

What the run of a context does is a parameter. `ran` records the runs in their order.

* `passNodes_keep` and `passNodes_drop`: one turn, for a context that stays and for one whose run
  returned -1.
* `pass_refines`: the pass and `passLoop`, which has the list without its nodes.
-/

set_option autoImplicit false

namespace Compostela.Follower

open Compostela.Chains
open Compostela.Common
open Compostela.Memory

/-- `_run_follow_context` for a context, with what it uses besides: the result, the context and the
rest after the run. -/
def Runner (γ σ : Type) := Nat → γ → σ → Except Trap (Int × γ × σ)

/-- The variables of a pass. -/
structure PassState (γ σ : Type) where
  nodes : Nodes Nat Nat
  cxts : Nat → Option γ
  /-- `g_context_list`. -/
  head : Option Nat
  env : σ
  sl : Int
  rc : Bool
  ran : List Nat

section
variable {γ σ : Type} (run : Runner γ σ)

/-- The run of a context. -/
def runContext (s : PassState γ σ) (cxt : Nat) : Except Trap (Int × PassState γ σ) :=
  match s.cxts cxt with
  | none => .error .useAfterFree
  | some c => do
      let (ret, c, env) ← run cxt c s.env
      .ok (ret, { s with
        cxts := Function.update s.cxts cxt (some c), env := env, ran := s.ran ++ [cxt] })

/-- The deletion of a context from the list, and `sc_follow_context_destroy`. -/
def dropContext (size : Nat) (s : PassState γ σ) (cxt : Nat) : Except Trap (PassState γ σ) := do
  let (head, nodes) ← Linked.azListDelete cxt size s.nodes s.head
  match s.cxts cxt with
  | none => .error .useAfterFree
  | some _ =>
      .ok { s with head := head, nodes := nodes, cxts := Function.update s.cxts cxt none }

/-- The body of the loop, with a budget for the walk of a deletion. -/
def passBody (size : Nat) (s : PassState γ σ) (li : Nat) : Except Trap (PassState γ σ) := do
  let node ← s.nodes.read (some li)
  let (ret, s) ← runContext run s node.object
  if 0 < ret then .ok { s with rc := s.rc || ret = ERR_MUST_RECONNECT }
  else if ret = -1 then dropContext size s node.object
  else .ok { s with sl := 0 }

/-- The loop, from a node on. -/
def passNodes (size : Nat) : Nat → PassState γ σ → Option Nat → Except Trap (PassState γ σ)
  | 0, _, _ => .error .hangs
  | _ + 1, s, none => .ok s
  | fuel + 1, s, some li => do
      let s ← passBody run size s li
      let node ← s.nodes.read (some li)
      passNodes size fuel s node.next

/-- The loop over the whole list. -/
def pass (budget : Nat) (s : PassState γ σ) : Except Trap (PassState γ σ) :=
  passNodes run budget budget s s.head

/-- The state after a run with a result other than -1. -/
def PassState.after (s : PassState γ σ) (cxt : Nat) (ret : Int) (c : γ) (env : σ) :
    PassState γ σ :=
  { s with
    cxts := Function.update s.cxts cxt (some c)
    env := env
    ran := s.ran ++ [cxt]
    rc := s.rc || ret = ERR_MUST_RECONNECT
    sl := if 0 < ret then s.sl else 0 }

variable {run} {s : PassState γ σ} {cells : List (Nat × Nat)} {p : Option Nat} {li cxt : Nat}
  {ret : Int} {c c' : γ} {env' : σ}

/-- The run of a context changes none of the others. -/
theorem PassState.after_cxts_of_notMem {others : List Nat} (hcxt : cxt ∉ others) {other : Nat}
    (hother : other ∈ others) : (s.after cxt ret c env').cxts other = s.cxts other := by
  have hne : other ≠ cxt := fun heq => hcxt (heq ▸ hother)
  exact Function.update_of_ne hne ..

/-- A context that is there is run. -/
theorem runContext_eq (hlive : s.cxts cxt = some c) (hrun : run cxt c s.env = .ok (ret, c', env')) :
    runContext run s cxt = .ok (ret, { s with
      cxts := Function.update s.cxts cxt (some c'), env := env', ran := s.ran ++ [cxt] }) := by
  unfold runContext
  rw [hlive]
  simp only [hrun, ok_bind]

/-- A turn for a context that stays: the loop goes on with the next node. -/
theorem passNodes_keep (h : Chain s.nodes p ((li, cxt) :: cells)) (hlive : s.cxts cxt = some c)
    (hrun : run cxt c s.env = .ok (ret, c', env')) (hret : ret ≠ -1) (size fuel : Nat) :
    ∃ next, Chain s.nodes next cells ∧
      passNodes run size (fuel + 1) s p =
        passNodes run size fuel (s.after cxt ret c' env') next := by
  obtain ⟨next, hread, rfl, -, hrest⟩ := h.read
  have hbody : passBody run size s li = .ok (s.after cxt ret c' env') := by
    rw [passBody, hread, ok_bind, runContext_eq hlive hrun, ok_bind]
    by_cases hpos : 0 < ret
    · simp only [if_pos hpos, PassState.after]
    · have hother : ret ≠ ERR_MUST_RECONNECT := fun heq => hpos (heq ▸ by decide)
      simp only [if_neg hpos, if_neg hret, PassState.after, decide_eq_false hother,
        Bool.or_false]
  refine ⟨next, hrest, ?_⟩
  rw [passNodes, hbody, ok_bind]
  show ((s.nodes.read (some li)) >>= _) = _
  rw [hread]
  rfl

/-- A turn for a context whose run returned -1. Its node is gone when the loop reads the
successor. -/
theorem passNodes_drop {pre post : List (Nat × Nat)}
    (hlist : Chain s.nodes s.head (pre ++ (li, cxt) :: post)) (hfirst : cxt ∉ objects pre)
    (h : Chain s.nodes p ((li, cxt) :: post)) (hlive : s.cxts cxt = some c)
    (hrun : run cxt c s.env = .ok (-1, c', env')) {size : Nat} (hsize : pre.length < size)
    (fuel : Nat) :
    passNodes run size (fuel + 1) s p = .error .useAfterFree := by
  obtain ⟨next, hread, rfl, -, -⟩ := h.read
  obtain ⟨q, nodes', hdelete, -, hgone, -⟩ := Linked.azListDelete_chain hlist hfirst hsize
  rw [passNodes, passBody, hread, ok_bind, runContext_eq hlive hrun]
  simp only [ok_bind, Int.reduceNeg, if_true, dropContext, hdelete,
    Function.update_self]
  rw [if_neg (by decide : ¬ (0 : Int) < -1), ok_bind]
  show ((nodes'.read (some li)) >>= _) = _
  have hfreed : nodes'.read (some li) = .error .useAfterFree := by
    simp only [Nodes.read, hgone]
  rw [hfreed]
  rfl

end

/-! ### The list without its nodes -/

section
variable {σ : Type} (net : Listed → Net σ) (md5 : Md5) (inputs : Nat → RunInput)

/-- `_run_follow_context` for the context at an address, which is its serial number. -/
def contextRunner : Runner ScFollowContext (ScAggregatorConnection σ) := fun serial cxt conn =>
  runFollowContext (net ⟨serial, cxt⟩) md5 (inputs serial) cxt conn

/-- The list in memory is this list of contexts. -/
structure PassState.Lists (s : PassState ScFollowContext (ScAggregatorConnection σ))
    (contexts : List Listed) : Prop where
  holds : s.nodes.Holds s.head (contexts.map Listed.serial)
  nodup : (contexts.map Listed.serial).Nodup
  content : ∀ c ∈ contexts, s.cxts c.serial = some c.cxt

variable {net md5 inputs}

/-- The loop over the rest of a list, and `passLoop`. The list, its nodes in front of the rest
/-- The loop over the nodes does what the loop over the list of contexts does, from any node on. -/
included, stays as it is until a run returns -1. -/
theorem passNodes_refines {s : PassState ScFollowContext (ScAggregatorConnection σ)}
    {pre cells : List (Nat × Nat)} {p : Option Nat} {contexts : List Listed} {size fuel : Nat}
    (hlist : Chain s.nodes s.head (pre ++ cells)) (h : Chain s.nodes p cells)
    (hobjects : objects cells = contexts.map Listed.serial)
    (hnodup : (objects (pre ++ cells)).Nodup)
    (hcontent : ∀ c ∈ contexts, s.cxts c.serial = some c.cxt)
    (hsize : (pre ++ cells).length < size) (hfuel : cells.length < fuel) :
    match passLoop net md5 inputs contexts s.env with
    | .error t => passNodes (contextRunner net md5 inputs) size fuel s p = .error t
    | .ok (rc, contexts', conn) => ∃ s',
        passNodes (contextRunner net md5 inputs) size fuel s p = .ok s' ∧
          s'.nodes = s.nodes ∧ s'.head = s.head ∧ s'.env = conn ∧ s'.rc = (s.rc || rc) ∧
          contexts'.map Listed.serial = contexts.map Listed.serial ∧
          (∀ c ∈ contexts', s'.cxts c.serial = some c.cxt) ∧
          ∀ a ∉ contexts.map Listed.serial, s'.cxts a = s.cxts a := by
  induction cells generalizing s p pre contexts fuel with
  | nil =>
    obtain ⟨fuel, rfl⟩ := Nat.exists_eq_add_one_of_ne_zero (Nat.ne_zero_of_lt hfuel)
    cases List.map_eq_nil_iff.mp hobjects.symm
    cases h
    exact ⟨s, rfl, rfl, rfl, rfl, (Bool.or_false _).symm, rfl, nofun, fun _ _ => rfl⟩
  | cons cell cells ih =>
    obtain ⟨li, cxt⟩ := cell
    obtain ⟨fuel, rfl⟩ := Nat.exists_eq_add_one_of_ne_zero (Nat.ne_zero_of_lt hfuel)
    cases contexts with
    | nil => cases hobjects
    | cons c contexts =>
    obtain ⟨hcxt, hrest⟩ := List.cons.inj hobjects
    change cxt = c.serial at hcxt
    subst hcxt
    have hlive := hcontent c List.mem_cons_self
    have hsplit : pre ++ (li, c.serial) :: cells = (pre ++ [(li, c.serial)]) ++ cells := by
      rw [List.append_assoc]
      rfl
    have hapart : c.serial ∉ objects pre ∧ c.serial ∉ contexts.map Listed.serial := by
      rw [← hrest]
      exact notMem_objects_of_nodup hnodup
    rw [passLoop]
    cases hrun : runFollowContext (net c) md5 (inputs c.serial) c.cxt s.env with
    | error t =>
      obtain ⟨next, hread, rfl, -, -⟩ := h.read
      show passNodes _ size (fuel + 1) s (some li) = .error t
      rw [passNodes, passBody, hread, ok_bind, runContext, hlive]
      simp only [contextRunner, hrun, error_bind]
    | ok result =>
      obtain ⟨ret, cxt', conn'⟩ := result
      have hrun' : contextRunner net md5 inputs c.serial c.cxt s.env =
          .ok (ret, cxt', conn') := hrun
      rw [ok_bind]
      by_cases hret : ret = -1
      · subst hret
        simp only [if_true]
        exact passNodes_drop hlist hapart.1 h hlive hrun' (by simp at hsize; omega) fuel
      · obtain ⟨next, hnext, hturn⟩ := passNodes_keep h hlive hrun' hret size fuel
        -- The run has changed no other context.
        have hcontent' : ∀ d ∈ contexts,
            (s.after c.serial ret cxt' conn').cxts d.serial = some d.cxt := by
          intro d hd
          rw [PassState.after_cxts_of_notMem hapart.2 (List.mem_map_of_mem hd)]
          exact hcontent d (List.mem_cons_of_mem _ hd)
        rw [hsplit] at hlist hnodup hsize
        have hloop := ih (s := s.after c.serial ret cxt' conn') hlist hnext hrest hnodup hcontent'
          hsize (Nat.lt_of_succ_lt_succ hfuel)
        simp only [if_neg hret]
        change (match passLoop net md5 inputs contexts conn' with
          | .error t => _
          | .ok (rc, contexts', conn) => _) at hloop
        cases hpass : passLoop net md5 inputs contexts conn' with
        | error t =>
          rw [hpass] at hloop
          rw [hturn]
          exact hloop
        | ok result =>
          obtain ⟨rc, contexts', conn⟩ := result
          rw [hpass] at hloop
          obtain ⟨s', heq, hnodes, hhead, henv, hrc, hserials, hall, hframe⟩ := hloop
          refine ⟨s', hturn.trans heq, hnodes, hhead, henv, ?_, ?_, ?_, ?_⟩
          · rw [hrc]
            show ((s.rc || decide (ret = ERR_MUST_RECONNECT)) || rc) = _
            rw [Bool.or_assoc, Bool.or_comm (decide _)]
          · show c.serial :: _ = c.serial :: _
            rw [hserials]
          · intro d hd
            rcases List.mem_cons.mp hd with rfl | hd
            · rw [hframe c.serial hapart.2]
              exact Function.update_self ..
            · exact hall d hd
          · intro a ha
            rw [List.map_cons, List.mem_cons, not_or] at ha
            rw [hframe a ha.2]
            exact Function.update_of_ne ha.1 ..

/-- A pass over the nodes is `passLoop` over the list that they make up. -/
theorem pass_refines {s : PassState ScFollowContext (ScAggregatorConnection σ)}
    {contexts : List Listed} (h : s.Lists contexts) {budget : Nat}
    (hbudget : contexts.length < budget) :
    match passLoop net md5 inputs contexts s.env with
    | .error t => pass (contextRunner net md5 inputs) budget s = .error t
    | .ok (rc, contexts', conn) => ∃ s',
        pass (contextRunner net md5 inputs) budget s = .ok s' ∧ s'.Lists contexts' ∧
          s'.env = conn ∧ s'.rc = (s.rc || rc) := by
  obtain ⟨cells, hchain, hobjects⟩ := h.holds
  have hlen : cells.length = contexts.length := by
    have heq := congrArg List.length hobjects
    simpa [objects] using heq
  -- The loop over the nodes starts with none of them visited and the budget of the whole list.
  have hloop := @passNodes_refines σ net md5 inputs s [] cells s.head contexts budget budget hchain
    hchain hobjects (hobjects ▸ h.nodup) h.content (by rw [List.nil_append]; omega) (by omega)
  cases hpass : passLoop net md5 inputs contexts s.env with
  | error t =>
    rw [hpass] at hloop
    exact hloop
  | ok result =>
    obtain ⟨rc, contexts', conn⟩ := result
    rw [hpass] at hloop
    obtain ⟨s', heq, hnodes, hhead, henv, hrc, hserials, hall, -⟩ := hloop
    refine ⟨s', heq, ⟨?_, ?_, hall⟩, henv, hrc⟩
    · rw [hnodes, hhead, hserials]
      exact h.holds
    · rw [hserials]
      exact h.nodup

end

end Compostela.Follower
