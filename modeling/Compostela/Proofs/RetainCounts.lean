import Compostela.Common.AzMalloc
import Compostela.Lib.Runs
import Mathlib.Data.List.Induction

/-!
# `Compostela.Proofs.RetainCounts`: the count of a block over its life

The number of references to a block is one more than its retains, less its releases. A caller makes
no call any more when the number has come to zero: these are the calls that are `Due`. `Exact` says
that the block follows the number, to its end.

* `exact_concat`: one more call.
* `counts_iff`: the block follows the number exactly when the fresh memory held a one, and the
  number stays an `int`.
-/

set_option autoImplicit false

namespace Compostela.Common

open Compostela.Memory
open Compostela.Runs

/-- A call on a block. -/
inductive AzCall
  | retain
  | release
  deriving DecidableEq, Repr

/-- What a call does to the number of references. -/
def AzCall.change : AzCall → Int
  | .retain => 1
  | .release => -1

/-- One call. -/
def azCall (p : AzPointer) : AzCall → Except Trap AzPointer
  | .retain => azRetain p
  | .release => azRelease p

/-- One plus the retains, minus the releases. -/
def references (calls : List AzCall) : Int := 1 + calls.count .retain - calls.count .release

/-- Every call is made while there are references. -/
def Due (calls : List AzCall) : Prop :=
  ∀ before call after, calls = before ++ call :: after → 0 < references before

/-- After the calls, the block is live with the number of references as its count, or it is freed
and the number is zero. -/
def Exact (p : AzPointer) (calls : List AzCall) : Prop :=
  ∃ p', calls.foldlM azCall p = .ok p' ∧
    (0 < references calls → azRetainCount p' = .ok (references calls)) ∧
    (references calls = 0 → p' = .freed)

/-- One more call changes the number of references by one. -/
theorem references_concat (calls : List AzCall) (call : AzCall) :
    references (calls ++ [call]) = references calls + call.change := by
  cases call with
  | retain =>
    simp [references, AzCall.change]
    omega
  | release =>
    simp [references, AzCall.change]
    omega

/-- The calls before the last one are due, and there are references when it is made. -/
theorem due_concat {calls : List AzCall} {call : AzCall} :
    Due (calls ++ [call]) ↔ Due calls ∧ 0 < references calls := by
  constructor
  · intro h
    refine ⟨fun before c after heq => h before c (after ++ [call]) ?_, h calls call [] rfl⟩
    rw [heq]
    simp
  · rintro ⟨hdue, hpos⟩ before c after heq
    rcases concat_eq_append_cons heq with ⟨-, -, rfl⟩ | ⟨after', -, rfl⟩
    · exact hpos
    · exact hdue before c after' rfl

/-- One more call that is due. -/
theorem exact_concat {p : AzPointer} {calls : List AzCall} {call : AzCall} (h : Exact p calls)
    (hpos : 0 < references calls) (hmax : references (calls ++ [call]) < 2 ^ 31) :
    Exact p (calls ++ [call]) := by
  obtain ⟨p', hrun, hlive, -⟩ := h
  have hcounted := azRetainCount_eq_ok.mp (hlive hpos)
  rw [references_concat] at hmax
  cases call with
  | retain =>
    obtain ⟨p'', hcall, hcounted'⟩ := azRetain_counted hcounted hmax
    refine ⟨p'', foldlM_concat_eq_ok.mpr ⟨p', hrun, hcall⟩, ?_, ?_⟩
    · intro _
      rw [references_concat]
      exact azRetainCount_eq_ok.mpr hcounted'
    · intro hzero
      rw [references_concat] at hzero
      simp only [AzCall.change] at hzero
      omega
  | release =>
    -- The last release frees the object, every other one counts down.
    obtain ⟨p'', hcall, hstays, hlast⟩ := azRelease_counted hcounted hpos
    refine ⟨p'', foldlM_concat_eq_ok.mpr ⟨p', hrun, hcall⟩, ?_, ?_⟩
    · intro hpos'
      rw [references_concat] at hpos' ⊢
      simp only [AzCall.change] at hpos' ⊢
      exact azRetainCount_eq_ok.mpr (hstays (by omega))
    · intro hzero
      rw [references_concat] at hzero
      simp only [AzCall.change] at hzero
      exact hlast (by omega)

/-- A block from `az_malloc`, under any calls. It follows the number of its references exactly when
it has room for the counter, its memory held a one there, and the number stays an `int`. -/
theorem counts_iff {heap : Heap} {sz : Nat} {p : AzPointer} (h : azMalloc heap sz = .ok p)
    (calls : List AzCall) :
    (∀ before, before <+: calls → Due before → Exact p before) ↔
      OFFSET_HIDDEN ≤ (sz + OFFSET_HIDDEN) % 2 ^ 64 ∧
      (word 32 ((List.range OFFSET_HIDDEN).map heap.fresh)).toInt = 1 ∧
      ∀ before, before <+: calls → Due before → references before < 2 ^ 31 := by
  obtain rfl : p = .live ⟨(sz + OFFSET_HIDDEN) % 2 ^ 64, heap.fresh⟩ := by
    simp only [azMalloc] at h
    split at h
    · cases h
      rfl
    · cases h
  have hbytes : (Block.mk ((sz + OFFSET_HIDDEN) % 2 ^ 64) heap.fresh).bytes 0 OFFSET_HIDDEN =
      (List.range OFFSET_HIDDEN).map heap.fresh := by
    simp [Block.bytes]
  constructor
  · intro hall
    obtain ⟨p0, hnil, hstart, -⟩ :=
      hall [] List.nil_prefix fun before call after heq => by simp at heq
    cases hnil
    obtain ⟨block, hlive, hroom, hone⟩ := azRetainCount_eq_ok.mp (hstart (by decide))
    cases hlive
    rw [hbytes] at hone
    refine ⟨hroom, hone, ?_⟩
    intro before hprefix hdue
    obtain ⟨p', -, hlive, -⟩ := hall before hprefix hdue
    by_cases hpos : 0 < references before
    · exact (azRetainCount_eq_ok.mp (hlive hpos)).le
    · omega
  · rintro ⟨hroom, hone, hmax⟩ before
    -- The calls so far, one after another.
    induction before using List.reverseRecOn with
    | nil =>
      intro _ _
      refine ⟨_, rfl, fun _ => azRetainCount_eq_ok.mpr ⟨_, rfl, hroom, ?_⟩,
        fun hzero => absurd hzero (by decide)⟩
      rw [hbytes]
      exact hone
    | append_singleton before call ih =>
      intro hprefix hdue
      obtain ⟨hdue', hpos⟩ := due_concat.mp hdue
      have hexact := ih ((List.prefix_append before [call]).trans hprefix) hdue'
      exact exact_concat hexact hpos (hmax _ hprefix hdue)

/-- In memory that holds zeros the count starts at zero. -/
theorem zeros_not_counted :
    ∃ p, azMalloc zeroHeap 8 = .ok p ∧ azRetainCount p = .ok 0 ∧
      ¬ ∀ calls, Due calls → Exact p calls := by
  refine ⟨_, rfl, rfl, fun hall => ?_⟩
  obtain ⟨p', hnil, hlive, -⟩ := hall [] fun before call after heq => by simp at heq
  cases hnil
  exact absurd (hlive (by decide)) (by decide)

/-- Memory that happens to hold a one. -/
def oneHeap : Heap := { zeroHeap with fresh := fun i => if i = 0 then 1 else 0 }

/-- A block of 8 bytes whose counter is 1 before the first call, under a retain and two releases. -/
theorem counts_iff_one :
    azMalloc oneHeap 8 = .ok (.live ⟨12, oneHeap.fresh⟩) ∧
      ((∀ before, before <+: [AzCall.retain, .release, .release] → Due before →
        Exact (.live ⟨12, oneHeap.fresh⟩) before) ↔
        OFFSET_HIDDEN ≤ (8 + OFFSET_HIDDEN) % 2 ^ 64 ∧
        (word 32 ((List.range OFFSET_HIDDEN).map oneHeap.fresh)).toInt = 1 ∧
        ∀ before, before <+: [AzCall.retain, .release, .release] → Due before →
          references before < 2 ^ 31) := by
  have hmalloc : azMalloc oneHeap 8 = .ok (.live ⟨12, oneHeap.fresh⟩) := rfl
  exact ⟨hmalloc, counts_iff hmalloc _⟩

end Compostela.Common
