import Compostela.Lib.Runs

/-!
# `Compostela.Lib.Matching`: computations whose results are matched by another computation

Two systems can run the same program over states of their own. `Matched P x y` says that a
result of `x` comes with a result of `y`, and that `P` relates the two. It goes through `>>=`,
so a program that reaches its state through a few calls is matched when the calls are.

`Matched.run` is the rule for runs: a step function that is matched event by event has
matched runs.
-/

set_option autoImplicit false

namespace Compostela.Matching

open Compostela.Memory
open Compostela.Runs

variable {α β γ δ τ : Type}

/-- Every result of `x` is matched by a result of `y`. -/
def Matched (P : α → β → Prop) (x : Except τ α) (y : Except τ β) : Prop :=
  ∀ a, x = .ok a → ∃ b, y = .ok b ∧ P a b

variable {P Q : α → β → Prop} {x : Except τ α} {y : Except τ β}

/-- Two results that are related match. -/
theorem Matched.ok {a : α} {b : β} (h : P a b) :
    Matched P (.ok a : Except τ α) (.ok b : Except τ β) := by
  intro a' ha'
  cases ha'
  exact ⟨b, rfl, h⟩

/-- A trap on the left matches anything. -/
theorem Matched.error {t : τ} : Matched P (.error t) y := by
  intro a ha
  cases ha

/-- A computation matches itself. -/
theorem Matched.same (x : Except τ α) : Matched Eq x x := fun a ha => ⟨a, ha, rfl⟩

/-- A weaker relation between the results is enough. -/
theorem Matched.mono (h : Matched P x y) (himp : ∀ a b, P a b → Q a b) : Matched Q x y := by
  intro a ha
  obtain ⟨b, hb, hP⟩ := h a ha
  exact ⟨b, hb, himp a b hP⟩

/-- The rule for `>>=`, where the second part may use what the first part does. -/
theorem Matched.bind_of {R : γ → δ → Prop} {f : α → Except τ γ} {g : β → Except τ δ}
    (h : Matched P x y) (hf : ∀ a b, x = .ok a → P a b → Matched R (f a) (g b)) :
    Matched R (x >>= f) (y >>= g) := by
  intro c hc
  obtain ⟨a, ha, hc⟩ := bind_eq_ok.mp hc
  obtain ⟨b, hb, hP⟩ := h a ha
  obtain ⟨d, hd, hR⟩ := hf a b ha hP c hc
  exact ⟨d, bind_eq_ok.mpr ⟨b, hb, hd⟩, hR⟩

/-- Two steps match when the first ones do, and the second ones do on related results. -/
theorem Matched.bind {R : γ → δ → Prop} {f : α → Except τ γ} {g : β → Except τ δ}
    (h : Matched P x y) (hf : ∀ a b, P a b → Matched R (f a) (g b)) :
    Matched R (x >>= f) (y >>= g) := h.bind_of fun a b _ => hf a b

/-- Behind a computation that both sides share. -/
theorem Matched.bind_same {R : γ → δ → Prop} {z : Except τ α} {f : α → Except τ γ}
    {g : α → Except τ δ} (hf : ∀ a, z = .ok a → Matched R (f a) (g a)) :
    Matched R (z >>= f) (z >>= g) :=
  (Matched.same z).bind_of fun a _ ha hab => hab ▸ hf a ha

/-- The left side goes on alone. -/
theorem Matched.bind_left {R : γ → β → Prop} {f : α → Except τ γ} (h : Matched P x y)
    (hf : ∀ a b, P a b → Matched R (f a) (.ok b)) : Matched R (x >>= f) y := by
  intro c hc
  obtain ⟨a, ha, hc⟩ := bind_eq_ok.mp hc
  obtain ⟨b, hb, hP⟩ := h a ha
  obtain ⟨b', hb', hR⟩ := hf a b hP c hc
  cases hb'
  exact ⟨b, hb, hR⟩

/-- Both sides take the same branch. -/
theorem Matched.ite_iff {c c' : Prop} [Decidable c] [Decidable c'] {x' : Except τ α}
    {y' : Except τ β} (hc : c ↔ c') (hthen : c → Matched P x y) (helse : ¬ c → Matched P x' y') :
    Matched P (if c then x else x') (if c' then y else y') := by
  by_cases h : c
  · rw [if_pos h, if_pos (hc.mp h)]
    exact hthen h
  · rw [if_neg h, if_neg (mt hc.mpr h)]
    exact helse h

/-- Two branches match under the same condition. -/
theorem Matched.ite {c : Prop} [Decidable c] {x' : Except τ α} {y' : Except τ β}
    (hthen : c → Matched P x y) (helse : ¬ c → Matched P x' y') :
    Matched P (if c then x else x') (if c then y else y') := .ite_iff Iff.rfl hthen helse

/-- Runs over matched steps. `image` is what the second system sees of an event. -/
theorem Matched.run {σ ρ ε η : Type} {step : σ → ε → Except τ σ} {step' : ρ → η → Except τ ρ}
    {R : σ → ρ → Prop} {C : ε → Prop} {image : ε → η}
    (hstep : ∀ s t e, R s t → C e → Matched R (step s e) (step' t (image e))) {s : σ} {t : ρ}
    {es : List ε} (hC : ∀ e ∈ es, C e) (h : R s t) :
    Matched R (es.foldlM step s) ((es.map image).foldlM step' t) := by
  induction es generalizing s t with
  | nil => exact .ok h
  | cons e es ih =>
    rw [List.map_cons, List.foldlM_cons, List.foldlM_cons]
    exact (hstep s t e h (hC e (List.mem_cons_self ..))).bind fun s1 t1 h1 =>
      ih (fun e' he' => hC e' (List.mem_cons_of_mem e he')) h1

end Compostela.Matching
