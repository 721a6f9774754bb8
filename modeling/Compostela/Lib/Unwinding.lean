import Compostela.Lib.Runs

/-!
# `Compostela.Lib.Unwinding`: what is left of a run when some events are taken out

A system is a step function `σ → ε → Except τ σ`, and `own` selects the events of one party.
`Unwinds own R` has the two conditions that relate the states of a run to those of the run
with the own events alone: an event of another party keeps the relation while the second run
waits, and an own event is taken by both. `Unwinds.purge` is the theorem: the own events alone
make a run, and its end is related to the end of the whole run.

The relation says what the party sees. It can carry an invariant of the first run.
-/

set_option autoImplicit false

namespace Compostela.Unwinding

open Compostela.Runs

variable {σ ε τ : Type} {step : σ → ε → Except τ σ} {own : ε → Bool} {P : ε → Prop}
  {R : σ → σ → Prop}

/-- The conditions on single events, for events that satisfy `P`. -/
structure Unwinds (step : σ → ε → Except τ σ) (own : ε → Bool) (P : ε → Prop)
    (R : σ → σ → Prop) : Prop where
  other : ∀ {s t s' : σ} {e : ε}, R s t → P e → own e = false → step s e = .ok s' → R s' t
  same : ∀ {s t s' : σ} {e : ε}, R s t → P e → own e = true → step s e = .ok s' →
    ∃ t', step t e = .ok t' ∧ R s' t'

/-- The own events of a run make a run, with a related end. -/
theorem Unwinds.purge (h : Unwinds step own P R) {s t s' : σ} {es : List ε}
    (hP : ∀ e ∈ es, P e) (hR : R s t) (hrun : es.foldlM step s = .ok s') :
    ∃ t', (es.filter own).foldlM step t = .ok t' ∧ R s' t' := by
  induction es generalizing s t with
  | nil =>
    cases hrun
    exact ⟨t, rfl, hR⟩
  | cons e es ih =>
    obtain ⟨s1, hstep, hrest⟩ := foldlM_cons_eq_ok.mp hrun
    have hPe := hP e (List.mem_cons_self ..)
    have hPrest : ∀ e' ∈ es, P e' := fun e' he' => hP e' (List.mem_cons_of_mem e he')
    cases hown : own e with
    | false =>
      rw [List.filter_cons_of_neg (by simp [hown])]
      exact ih hPrest (h.other hR hPe hown hstep) hrest
    | true =>
      obtain ⟨t1, ht1, hR1⟩ := h.same hR hPe hown hstep
      obtain ⟨t', hrun', hR'⟩ := ih hPrest hR1 hrest
      rw [List.filter_cons_of_pos hown]
      exact ⟨t', foldlM_cons_eq_ok.mpr ⟨t1, ht1, hrun'⟩, hR'⟩

end Compostela.Unwinding
