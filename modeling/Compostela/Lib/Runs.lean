import Compostela.Lib.Memory

/-!
# `Compostela.Lib.Runs`: runs of a step function that may trap

A system is a step function `σ → ε → Except τ σ`: an event moves it to a new state, or ends
it. A run is the monadic fold of the step function over a list of events, and a state is
reached when a run ends in it.

* `run_invariant`: what every step preserves, every run preserves. `run_history` is the same
  for an invariant that speaks of the events so far, and `run_countdown` for a rank that every
  step takes down.
* `Along`: a condition on the state before each step and its event. `Along.invariant` is
  the run rule for an invariant that only the steps under the condition preserve, and
  `Along.imp_of_invariant` for what such an invariant says about the steps. `Along.iff_of_error`
  is for a condition that is also necessary.
* `AtEach`: a condition on each entry of a history and what the entries before it add up to.
-/

set_option autoImplicit false

namespace Compostela.Runs

open Compostela.Memory

/-- Where an entry stands in a history with one more entry at its end. -/
theorem concat_eq_append_cons {α : Type} {log before after : List α} {item x : α}
    (h : log ++ [item] = before ++ x :: after) :
    (after = [] ∧ x = item ∧ before = log) ∨
      ∃ after', after = after' ++ [item] ∧ log = before ++ x :: after' := by
  rcases List.eq_nil_or_concat after with rfl | ⟨after', last, rfl⟩
  · obtain ⟨hlog, hitem⟩ := List.append_inj' h rfl
    cases hitem
    exact Or.inl ⟨rfl, rfl, hlog.symm⟩
  · rw [List.concat_eq_append, ← List.cons_append, ← List.append_assoc] at h
    obtain ⟨hlog, hitem⟩ := List.append_inj' h rfl
    cases hitem
    exact Or.inr ⟨after', List.concat_eq_append, hlog⟩

section
variable {σ ε τ : Type} {step : σ → ε → Except τ σ}

/-- A run over one more event at the front. -/
theorem foldlM_cons_eq_ok {s s' : σ} {e : ε} {es : List ε} :
    (e :: es).foldlM step s = .ok s' ↔ ∃ s1, step s e = .ok s1 ∧ es.foldlM step s1 = .ok s' := by
  rw [List.foldlM_cons, bind_eq_ok]

/-- A run over one more event at the end. -/
theorem foldlM_concat_eq_ok {s s' : σ} {es : List ε} {e : ε} :
    (es ++ [e]).foldlM step s = .ok s' ↔ ∃ s1, es.foldlM step s = .ok s1 ∧ step s1 e = .ok s' := by
  rw [List.foldlM_append, bind_eq_ok]
  constructor
  · rintro ⟨s1, h1, h2⟩
    obtain ⟨s2, hstep, hnil⟩ := foldlM_cons_eq_ok.mp h2
    cases hnil
    exact ⟨s1, h1, hstep⟩
  · rintro ⟨s1, h1, hstep⟩
    exact ⟨s1, h1, foldlM_cons_eq_ok.mpr ⟨s', hstep, rfl⟩⟩

/-- What every step preserves holds in every state that a run reaches. -/
theorem run_invariant {I : σ → Prop} (hstep : ∀ s e s', I s → step s e = .ok s' → I s')
    {s s' : σ} {es : List ε} (h : I s) (hrun : es.foldlM step s = .ok s') : I s' := by
  induction es generalizing s with
  | nil =>
    cases hrun
    exact h
  | cons e es ih =>
    obtain ⟨s1, h1, hrest⟩ := foldlM_cons_eq_ok.mp hrun
    exact ih (hstep s e s1 h h1) hrest

/-- The run rule for an invariant that is stated against the events so far. Only events that
satisfy `P` occur. -/
theorem run_history {I : List ε → σ → Prop} {P : ε → Prop}
    (hstep : ∀ done s e s', I done s → P e → step s e = .ok s' → I (done ++ [e]) s')
    {done : List ε} {s s' : σ} {es : List ε} (hP : ∀ e ∈ es, P e) (h : I done s)
    (hrun : es.foldlM step s = .ok s') : I (done ++ es) s' := by
  induction es generalizing done s with
  | nil =>
    cases hrun
    simpa using h
  | cons e es ih =>
    obtain ⟨s1, h1, hrest⟩ := foldlM_cons_eq_ok.mp hrun
    have hone := hstep done s e s1 h (hP e (List.mem_cons_self ..)) h1
    have hall := ih (fun e' he' => hP e' (List.mem_cons_of_mem e he')) hone hrest
    simpa using hall

/-- The run rule for an invariant that the events with a property preserve. -/
theorem run_invariant_of {I : σ → Prop} {P : ε → Prop}
    (hstep : ∀ s e s', I s → P e → step s e = .ok s' → I s') {s s' : σ} {es : List ε}
    (hP : ∀ e ∈ es, P e) (h : I s) (hrun : es.foldlM step s = .ok s') : I s' :=
  @run_history σ ε τ step (fun _ => I) P (fun _ => hstep) [] s s' es hP h hrun

/-- A rank that every step takes down by one: a run of enough events brings it to zero. -/
theorem run_countdown {I : Nat → σ → Prop} {P : ε → Prop}
    (hstep : ∀ n s e s', I n s → P e → step s e = .ok s' → I (n - 1) s') {n : Nat} {s s' : σ}
    {es : List ε} (hP : ∀ e ∈ es, P e) (h : I n s) (hrun : es.foldlM step s = .ok s') :
    I (n - es.length) s' := by
  induction es generalizing n s with
  | nil =>
    cases hrun
    exact h
  | cons e es ih =>
    obtain ⟨s1, h1, hrest⟩ := foldlM_cons_eq_ok.mp hrun
    have hone := hstep n s e s1 h (hP e (List.mem_cons_self ..)) h1
    have hall := ih (fun e' he' => hP e' (List.mem_cons_of_mem e he')) hone hrest
    rwa [Nat.sub_sub, Nat.add_comm] at hall

/-- Every step that a run takes meets a condition on the state before it and its event. -/
def Along (step : σ → ε → Except τ σ) (C : σ → ε → Prop) : σ → List ε → Prop
  | _, [] => True
  | s, e :: es => C s e ∧ ∀ s', step s e = .ok s' → Along step C s' es

/-- An invariant that the steps under a condition preserve holds in every state that a run
under the condition reaches. -/
theorem Along.invariant {C : σ → ε → Prop} {I : σ → Prop}
    (hstep : ∀ s e s', I s → C s e → step s e = .ok s' → I s') {s s' : σ} {es : List ε}
    (hall : Along step C s es) (h : I s) (hrun : es.foldlM step s = .ok s') : I s' := by
  induction es generalizing s with
  | nil =>
    cases hrun
    exact h
  | cons e es ih =>
    obtain ⟨s1, h1, hrest⟩ := foldlM_cons_eq_ok.mp hrun
    exact ih (hall.2 s1 h1) (hstep s e s1 h hall.1 h1) hrest

/-- The steps of a run under a condition, with a property that all of its events have. -/
theorem Along.with_forall {C : σ → ε → Prop} {P : ε → Prop} {s : σ} {es : List ε}
    (hall : Along step C s es) (hP : ∀ e ∈ es, P e) :
    Along step (fun s e => P e ∧ C s e) s es := by
  induction es generalizing s with
  | nil => trivial
  | cons e es ih =>
    refine ⟨⟨hP e (List.mem_cons_self ..), hall.1⟩, ?_⟩
    intro s' hstep
    exact ih (hall.2 s' hstep) fun e' he' => hP e' (List.mem_cons_of_mem e he')

/-- What follows from an invariant and the condition of a step holds of every step that a run
takes. -/
theorem Along.imp_of_invariant {C D : σ → ε → Prop} {I : σ → Prop}
    (hstep : ∀ s e s', I s → C s e → step s e = .ok s' → I s')
    (himp : ∀ s e, I s → C s e → D s e) {s : σ} {es : List ε}
    (hall : Along step C s es) (h : I s) : Along step D s es := by
  induction es generalizing s with
  | nil => trivial
  | cons e es ih =>
    refine ⟨himp s e h hall.1, ?_⟩
    intro s' hs'
    exact ih (hall.2 s' hs') (hstep s e s' h hall.1 hs')

/-- A condition that tells which steps have no bad error tells it of the runs, when it does so in
every state of an invariant. -/
theorem Along.iff_of_error {C : σ → ε → Prop} {I : σ → Prop} {E : τ → Prop}
    (hkeep : ∀ s e s', I s → step s e = .ok s' → I s')
    (hstep : ∀ s e, I s → ((∀ t, step s e = .error t → E t) ↔ C s e)) {s : σ} {es : List ε}
    (h : I s) : (∀ t, es.foldlM step s = .error t → E t) ↔ Along step C s es := by
  induction es generalizing s with
  | nil => exact ⟨fun _ => trivial, fun _ => nofun⟩
  | cons e es ih =>
    rw [List.foldlM_cons, Along, ← hstep s e h]
    cases hs : step s e with
    | error t =>
      show (∀ t', Except.error t = .error t' → E t') ↔ _
      exact ⟨fun herror => ⟨herror, nofun⟩, fun hall => hall.1⟩
    | ok s1 =>
      show (∀ t, es.foldlM step s1 = .error t → E t) ↔ _
      rw [ih (hkeep s e s1 h hs)]
      constructor
      · intro hall
        exact ⟨nofun, fun s' hs' => Except.ok.inj hs' ▸ hall⟩
      · intro hall
        exact hall.2 s1 rfl

/-- A condition that can be tested can be tested along a run. -/
instance Along.decidable {C : σ → ε → Prop} [∀ s e, Decidable (C s e)] :
    ∀ s es, Decidable (Along step C s es)
  | _, [] => isTrue trivial
  | s, e :: es =>
      have : Decidable (∀ s', step s e = .ok s' → Along step C s' es) :=
        match step s e with
        | .error _ => isTrue nofun
        | .ok s1 =>
            have : Decidable (Along step C s1 es) := Along.decidable s1 es
            decidable_of_iff (Along step C s1 es)
              ⟨fun hall _ h => Except.ok.inj h ▸ hall, fun hall => hall s1 rfl⟩
      inferInstanceAs (Decidable (C s e ∧ _))

end

/-! ### Conditions on a history -/

section
variable {σ ε : Type} (next : σ → ε → σ) (C : σ → ε → Prop)

/-- Every entry of a history meets a condition on it and the state before it, where each entry
changes the state with `next`. -/
def AtEach : σ → List ε → Prop
  | _, [] => True
  | s, e :: es => C s e ∧ AtEach (next s e) es

/-- One more event of a run, at the state that the others lead to. -/
theorem atEach_concat (s : σ) (es : List ε) (e : ε) :
    AtEach next C s (es ++ [e]) ↔ AtEach next C s es ∧ C (es.foldl next s) e := by
  induction es generalizing s with
  | nil => simp [AtEach]
  | cons e' es ih =>
    rw [List.cons_append, AtEach, AtEach, ih (next s e'), and_assoc]
    rfl

instance AtEach.decidable [∀ s e, Decidable (C s e)] : ∀ s es, Decidable (AtEach next C s es)
  | _, [] => isTrue trivial
  | s, e :: es =>
      have : Decidable (AtEach next C (next s e) es) := AtEach.decidable (next s e) es
      inferInstanceAs (Decidable (C s e ∧ _))

end

end Compostela.Runs
