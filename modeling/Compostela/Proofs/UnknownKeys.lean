import Compostela.Proofs.ConfigSettings
import Compostela.Proofs.LastSettings

/-!
# `Compostela.Proofs.UnknownKeys`: what keys of other programs do to the settings

`_pick_pattern_entry` reads a value after every key. `_pick_global` reads one only after the keys
that it knows. Behind another key it reads the value as the next key: a value that is a sequence or
a mapping ends the loop, and a value that is the name of a key takes the next key as its own value.

When `_pick_global` stops in the middle of a mapping, the loop of `load_config_file` goes on there,
and calls it again at the next mapping, which is one inside a value. `Quiet` follows the two loops
over the events.

A mapping is a collection of pairs, which a file can give in any order. `undisturbed_iff` says for
which collections the recognised keys are set as if the others were absent, whatever the order, by
the call of `_pick_global` and by `load_config_file`.

* `setsAll_of_undisturbed` and `loadsAll_of_undisturbed`: these collections are read as they should
  be.
* `keeps_iff_quiet`: no key is read after `_pick_global` stopped.
* `leaves_stop_iff`, `not_kept_of_key` and `not_ends_of_misleading`: a pair that ends the loop, a
  value that is taken for a key, and such values in front of the end of the mapping.
-/

set_option autoImplicit false

namespace Compostela.Common.Loader

open Compostela.Fuel
open Compostela.Memory
open YamlNode

section
variable {ε γ : Type} (L : Loader ε γ)

/-- `_pick_global`, over a mapping up to its end, leaves the globals `c'` behind. -/
def Leaves (pairs : List YamlPair) (rest : List YamlEvent) (fails : Bool) (c c' : γ) : Prop :=
  Ends (fun n => L.pickGlobal n ⟨pairsEvents pairs ++ .mappingEnd :: rest, fails⟩ c) fun q =>
    q.1 = c'

/-- The recognised pairs are set, and nothing else is, wherever the mapping stands. -/
def SetsAll (pairs : List YamlPair) : Prop :=
  ∀ rest fails c c', L.Leaves pairs rest fails c c' ↔
    L.Passes pairs c ∧ c' = L.applied pairs c

/-- It is the same for a file with this outermost mapping. -/
def LoadsAll (pairs : List YamlPair) : Prop :=
  ∀ c c', L.Loads pairs c c' ↔ L.Passes pairs c ∧ c' = L.applied pairs c

/-- No known key is read where `_pick_global` looks for one. The flag says whether it reads the
next event, or the loop of `load_config_file` does. `_pick_global` returns at an event that is no
scalar, and that event is gone. The other loop calls it at the start of a mapping. -/
def Quiet : Bool → List YamlEvent → Prop
  | _, [] => True
  | true, .scalar text :: events => L.isKey text = false ∧ Quiet true events
  | true, _ :: events => Quiet false events
  | false, .mappingStart :: events => Quiet true events
  | false, .streamEnd :: _ => True
  | false, _ :: events => Quiet false events

/-- No pair disturbs the others. -/
structure Undisturbed (pairs : List YamlPair) : Prop where
  /-- A value behind an unknown key is not the name of a key. -/
  value : ∀ key text, (scalar key, scalar text) ∈ pairs → L.isKey key = false →
    L.isKey text = false
  /-- An unknown key and its value are scalars, unless no pair has a known key. -/
  scalars : ∀ p ∈ pairs, L.recognised p = false →
    (∃ key text, p = (scalar key, scalar text)) ∨ ∀ q ∈ pairs, L.recognised q = false
  /-- When no pair has a known key, none is read in the mappings inside the values either. -/
  nested : (∀ p ∈ pairs, L.recognised p = false) →
    ∀ qs, qs.Perm pairs → L.Quiet true (pairsEvents qs)

variable {L}

/-- Whether pairs disturb each other does not depend on their order. -/
theorem Undisturbed.perm {ps qs : List YamlPair} (h : L.Undisturbed ps) (hperm : qs.Perm ps) :
    L.Undisturbed qs where
  value key text hmem := h.value key text (hperm.mem_iff.mp hmem)
  scalars p hp hunknown := by
    rcases h.scalars p (hperm.mem_iff.mp hp) hunknown with htexts | hnone
    · exact .inl htexts
    · exact .inr fun q hq => hnone q (hperm.mem_iff.mp hq)
  nested hunknown qs' hperm' :=
    h.nested (fun p hp => hunknown p (hperm.mem_iff.mpr hp)) qs' (hperm'.trans hperm)

/-! ### Collections that are read as they should be -/

/-- Without recognised pairs none is left by the filter. -/
theorem filter_recognised_eq_nil {pairs : List YamlPair}
    (h : ∀ p ∈ pairs, L.recognised p = false) : pairs.filter L.recognised = [] :=
  List.filter_eq_nil_iff.mpr fun p hp => by simp [h p hp]

/-- Pairs that are not recognised set nothing. -/
theorem applied_of_unrecognised {pairs : List YamlPair}
    (h : ∀ p ∈ pairs, L.recognised p = false) (c : γ) : L.applied pairs c = c := by
  rw [← applied_filter, filter_recognised_eq_nil h]
  rfl

/-- Pairs that are not recognised are never asserted. -/
theorem passes_of_unrecognised {pairs : List YamlPair}
    (h : ∀ p ∈ pairs, L.recognised p = false) (c : γ) : L.Passes pairs c :=
  passes_of_noPatterns (fun p hp => givesPatterns_of_unrecognised (h p hp)) c

/-- The loop ends at a pair with an unknown key that is no pair of scalars. -/
theorem leaves_stop_iff {pair : YamlPair} (hunknown : L.recognised pair = false)
    (hnode : ¬ ∃ key text, pair = (scalar key, scalar text)) {pairs : List YamlPair}
    {rest : List YamlEvent} {fails : Bool} {c c' : γ} :
    L.Leaves (pair :: pairs) rest fails c c' ↔ c' = c := by
  obtain ⟨key, value⟩ := pair
  rw [Leaves, pairsEvents_cons, List.append_assoc, List.append_assoc]
  by_cases hkey : ∃ name, key = scalar name
  · obtain ⟨name, rfl⟩ := hkey
    obtain ⟨event, events, hevents, hstop⟩ :=
      value.events_of_not_scalar fun text heq => hnode ⟨name, text, by rw [heq]⟩
    simp only [events_scalar, List.cons_append, List.nil_append, hevents]
    rw [L.ends_pickGlobal_unknown_iff hunknown, L.ends_pickGlobal_stop_iff hstop]
    exact eq_comm
  · obtain ⟨event, events, hevents, hstop⟩ :=
      key.events_of_not_scalar fun name heq => hkey ⟨name, heq⟩
    simp only [List.cons_append, hevents]
    rw [L.ends_pickGlobal_stop_iff hstop]
    exact eq_comm

/-- Without known keys nothing is set. -/
theorem leaves_unrecognised_iff {pairs : List YamlPair}
    (hunknown : ∀ p ∈ pairs, L.recognised p = false)
    (hvalue : ∀ key text, (scalar key, scalar text) ∈ pairs → L.isKey text = false)
    {rest : List YamlEvent} {fails : Bool} {c c' : γ} :
    L.Leaves pairs rest fails c c' ↔ c' = c := by
  induction pairs with
  | nil => exact (L.ends_pickGlobal_mappingEnd_iff c _).trans eq_comm
  | cons pair pairs ih =>
    have hpair := hunknown pair List.mem_cons_self
    by_cases htexts : ∃ key text, pair = (scalar key, scalar text)
    · obtain ⟨key, text, rfl⟩ := htexts
      rw [Leaves, pairsEvents_cons]
      simp only [events_scalar, List.cons_append, List.nil_append]
      rw [L.ends_pickGlobal_unknown_iff hpair,
        L.ends_pickGlobal_unknown_iff (hvalue key text List.mem_cons_self)]
      exact ih (fun p hp => hunknown p (List.mem_cons_of_mem _ hp))
        fun key text hmem => hvalue key text (List.mem_cons_of_mem _ hmem)
    · exact leaves_stop_iff hpair htexts

/-- `_pick_global` sets the recognised pairs, and nothing else, when no pair disturbs the others. -/
theorem setsAll_of_undisturbed {pairs : List YamlPair} (hexpected : ∀ p ∈ pairs, L.Expected p)
    (h : L.Undisturbed pairs) : L.SetsAll pairs := by
  intro rest fails c c'
  by_cases hknown : ∀ p ∈ pairs, L.recognised p = false
  · rw [applied_of_unrecognised hknown, and_iff_right (passes_of_unrecognised hknown c)]
    exact leaves_unrecognised_iff hknown fun key text hmem =>
      h.value key text hmem (hknown _ hmem)
  · -- Every other pair looks like two unknown keys.
    have hplain : ∀ p ∈ pairs, L.recognised p = false → L.Plain p := by
      intro p hp hunknown
      obtain ⟨key, text, rfl⟩ := (h.scalars p hp hunknown).resolve_right hknown
      exact ⟨hunknown, h.value key text hp hunknown⟩
    rw [Leaves, L.ends_pickGlobal_pairs_iff hexpected hplain, L.ends_pickGlobal_mappingEnd_iff]
    exact and_congr_right fun _ => eq_comm

/-- The rest of a file, for the loop that reads its next event. -/
def Reads (L : Loader ε γ) (inGlobal : Bool) (events : List YamlEvent) (c : γ) (P : γ → Prop) :
    Prop :=
  if inGlobal then
    Ends (fun n => L.pickGlobal n ⟨events, false⟩ c) fun q =>
      Ends (fun n => L.loadLoop n q.2 q.1) P
  else Ends (fun n => L.loadLoop n ⟨events, false⟩ c) P

/-- `_pick_global` returns at an event that is no scalar. -/
theorem reads_stop_iff {event : YamlEvent} (h : ∀ value, event ≠ .scalar value)
    (events : List YamlEvent) (c : γ) (P : γ → Prop) :
    L.Reads true (event :: events) c P ↔ L.Reads false events c P :=
  L.ends_pickGlobal_stop_iff h c fun q => Ends (fun n => L.loadLoop n q.2 q.1) P

/-- `_pick_global` drops a scalar that is no key of the program. -/
theorem reads_unknown_iff {text : Bytes} (h : L.isKey text = false) (events : List YamlEvent)
    (c : γ) (P : γ → Prop) : L.Reads true (.scalar text :: events) c P ↔ L.Reads true events c P :=
  L.ends_pickGlobal_unknown_iff h c fun q => Ends (fun n => L.loadLoop n q.2 q.1) P

/-- The loop of `load_config_file` calls `_pick_global`. -/
theorem reads_mappingStart_iff (events : List YamlEvent) (c : γ) (P : γ → Prop) :
    L.Reads false (.mappingStart :: events) c P ↔ L.Reads true events c P := by
  show Ends (fun n => L.loadLoop n _ c) P ↔ _
  rw [ends_succ_iff (f := fun n => L.loadLoop n _ c) rfl]
  simp only [loadLoop, YamlParser.parse_cons]
  exact ends_bind_iff (L.increasing_pickGlobal _ _) (fun q => L.increasing_loadLoop q.2 q.1) P

/-- It ends at the end of the stream. -/
theorem reads_streamEnd_iff (events : List YamlEvent) (c : γ) (P : γ → Prop) :
    L.Reads false (.streamEnd :: events) c P ↔ P c := by
  show Ends (fun n => L.loadLoop n _ c) P ↔ _
  rw [ends_succ_iff (f := fun n => L.loadLoop n _ c) rfl]
  exact ends_ok_iff _ _

/-- Every other event is passed over. -/
theorem reads_skip_iff {event : YamlEvent} (hstart : event ≠ .mappingStart)
    (hend : event ≠ .streamEnd) (events : List YamlEvent) (c : γ) (P : γ → Prop) :
    L.Reads false (event :: events) c P ↔ L.Reads false events c P := by
  show Ends (fun n => L.loadLoop n _ c) P ↔ Ends (fun n => L.loadLoop n _ c) P
  rw [ends_succ_iff (f := fun n => L.loadLoop n _ c) rfl]
  cases event with
  | mappingStart => exact absurd rfl hstart
  | streamEnd => exact absurd rfl hend
  | _ => exact Iff.rfl

/-- What is left of a file behind the pairs of its outermost mapping. -/
theorem reads_end_iff (inGlobal : Bool) (c : γ) (P : γ → Prop) :
    L.Reads inGlobal [.mappingEnd, .documentEnd, .streamEnd] c P ↔ P c := by
  cases inGlobal with
  | true =>
    exact (reads_stop_iff (by simp) _ c P).trans (L.ends_loadLoop_rest_iff c P)
  | false =>
    exact (reads_skip_iff (by simp) (by simp) _ c P).trans (L.ends_loadLoop_rest_iff c P)

/-- Where no known key is read the globals stay as they are. -/
theorem reads_of_quiet {inGlobal : Bool} {events : List YamlEvent}
    (h : L.Quiet inGlobal events) (c : γ) (P : γ → Prop) :
    L.Reads inGlobal (events ++ [.mappingEnd, .documentEnd, .streamEnd]) c P ↔ P c := by
  induction events generalizing inGlobal with
  | nil => exact reads_end_iff inGlobal c P
  | cons event events ih =>
    rw [List.cons_append]
    cases inGlobal with
    | true =>
      -- `_pick_global` goes on at a scalar that is no key, and ends at any other event.
      by_cases hscalar : ∃ text, event = .scalar text
      · obtain ⟨text, rfl⟩ := hscalar
        rw [reads_unknown_iff h.1]
        exact ih h.2
      · have hstop : ∀ text, event ≠ .scalar text := fun text heq => hscalar ⟨text, heq⟩
        rw [reads_stop_iff hstop]
        apply ih
        cases event with
        | scalar text => exact absurd rfl (hstop text)
        | _ => exact h
    | false =>
      -- The loop outside only looks for a mapping or the end of the stream.
      by_cases hstart : event = .mappingStart
      · subst hstart
        rw [reads_mappingStart_iff]
        exact ih h
      by_cases hend : event = .streamEnd
      · subst hend
        exact reads_streamEnd_iff _ c P
      rw [reads_skip_iff hstart hend]
      apply ih
      cases event with
      | mappingStart => exact absurd rfl hstart
      | streamEnd => exact absurd rfl hend
      | _ => exact h

/-- The file of an undisturbed collection. -/
theorem loadsAll_of_undisturbed {pairs : List YamlPair} (hexpected : ∀ p ∈ pairs, L.Expected p)
    (h : L.Undisturbed pairs) : L.LoadsAll pairs := by
  intro c c'
  by_cases hknown : ∀ p ∈ pairs, L.recognised p = false
  · rw [applied_of_unrecognised hknown, and_iff_right (passes_of_unrecognised hknown c), loads_iff]
    exact (reads_of_quiet (h.nested hknown pairs (.refl _)) c fun d => d = c').trans eq_comm
  · refine L.loads_pairs_iff hexpected (fun p hp hunknown => ?_) c c'
    obtain ⟨key, text, rfl⟩ := (h.scalars p hp hunknown).resolve_right hknown
    exact ⟨hunknown, h.value key text hp hunknown⟩

/-! ### Collections that are not -/

variable (L)

/-- A setting does not depend on the one before, and no setting is there from the start. -/
structure Overwrites : Prop where
  again : ∀ {key : Bytes} {set : Bytes → γ → γ}, L.globalKey key = some set →
    ∀ value c, set value (set value c) = set value c
  changes : ∀ {key : Bytes} {set : Bytes → γ → γ}, L.globalKey key = some set →
    ∀ value, ∃ c, set value c ≠ c
  patterns_again : ∀ li li' c, L.setPatterns li (L.setPatterns li' c) = L.setPatterns li c

variable {L}

/-- A pair with a known key does not leave all globals as they were. -/
theorem Overwrites.exists_ne (h : L.Overwrites) (c₀ : γ) {pair : YamlPair}
    (hexpected : L.Expected pair) (hknown : L.recognised pair = true) :
    ∃ c, ∀ d, L.apply d pair ≠ c := by
  rcases recognised_cases hexpected hknown with
    ⟨key, text, set, rfl, hset, happly, -⟩ | ⟨key, entries, rfl, -, -, happly, -⟩
  · obtain ⟨c, hc⟩ := h.changes hset (cstr text)
    refine ⟨c, fun d heq => hc ?_⟩
    rw [happly] at heq
    rw [← heq, h.again hset]
  · -- Patterns where the pair gives none, or the other way round.
    refine ⟨L.setPatterns (if entries.isEmpty then [L.newEntry] else []) c₀, fun d heq => ?_⟩
    have hempty := congrArg (fun c => (L.patterns c).isEmpty) heq
    simp only [happly, L.isEmpty_setPatterns] at hempty
    cases entries <;> simp at hempty

/-- The name of a key sets something, or does not come to an end. `K c'` is what is asked of the
return of `_pick_global`, such as that it leaves the globals `c'` behind. -/
theorem not_kept_of_key (h : L.Overwrites) (c₀ : γ) {text : Bytes} (htext : L.isKey text = true)
    (event : YamlEvent) (events : List YamlEvent) (fails : Bool) (K : γ → γ × YamlParser → Prop) :
    ¬ ∀ c c', Ends (fun n => L.pickGlobal n ⟨.scalar text :: event :: events, fails⟩ c) (K c') ↔
      c' = c := by
  intro hkept
  -- Two states from which the loop does the same cannot both be kept.
  have hsame : ∀ {c₁ c₂ : γ}, (∀ P : γ × YamlParser → Prop,
      Ends (fun n => L.pickGlobal n ⟨.scalar text :: event :: events, fails⟩ c₁) P ↔
        Ends (fun n => L.pickGlobal n ⟨.scalar text :: event :: events, fails⟩ c₂) P) →
        c₁ = c₂ :=
    fun {c₁ c₂} heq => (hkept c₂ c₁).mp ((heq _).mp ((hkept c₁ c₁).mpr rfl))
  rcases isKey_cases htext with ⟨set, hset⟩ | ⟨hglobal, hkey⟩
  · cases event with
    | scalar value =>
      obtain ⟨c, hc⟩ := h.changes hset (cstr value)
      apply hc
      apply hsame
      intro P
      rw [L.ends_pickGlobal_set_iff hset, L.ends_pickGlobal_set_iff hset, h.again hset]
    | _ => exact L.not_ends_pickGlobal_set hset (by simp) c₀ _ ((hkept c₀ c₀).mpr rfl)
  · have hempty : (L.patterns (L.setPatterns [] c₀)).isEmpty = true := L.isEmpty_setPatterns [] c₀
    have hfull : (L.patterns (L.setPatterns [L.newEntry] c₀)).isEmpty = false :=
      L.isEmpty_setPatterns [L.newEntry] c₀
    by_cases honce : L.once = true
    · -- The assertion fails when patterns are there.
      have hends := (hkept (L.setPatterns [L.newEntry] c₀) _).mpr rfl
      rw [L.ends_pickGlobal_patterns_iff hglobal hkey] at hends
      rw [hends.1 honce] at hfull
      cases hfull
    · have heq : L.setPatterns [] c₀ = L.setPatterns [L.newEntry] c₀ := by
        apply hsame
        intro P
        rw [L.ends_pickGlobal_patterns_iff hglobal hkey,
          L.ends_pickGlobal_patterns_iff hglobal hkey]
        simp [honce, h.patterns_again]
      rw [heq, hfull] at hempty
      cases hempty

/-- The globals stay as they are exactly where no known key is read. By induction on the events,
in step with the two loops. -/
theorem keeps_iff_quiet (h : L.Overwrites) (c₀ : γ) {inGlobal : Bool} {events : List YamlEvent} :
    (∀ c c', L.Reads inGlobal (events ++ [.mappingEnd, .documentEnd, .streamEnd]) c (· = c') ↔
      c' = c) ↔ L.Quiet inGlobal events := by
  refine ⟨fun hkept => ?_, fun hquiet c c' => (reads_of_quiet hquiet c _).trans eq_comm⟩
  induction events generalizing inGlobal with
  | nil => cases inGlobal <;> trivial
  | cons event events ih =>
    rw [List.cons_append] at hkept
    cases inGlobal with
    | true =>
      cases event with
      | scalar text =>
        -- A key would take the next event for its value and change the globals.
        have htext : L.isKey text = false := by
          by_contra hkey
          obtain ⟨event', events', hevents⟩ := List.exists_cons_of_ne_nil
            (List.append_ne_nil_of_right_ne_nil events
              (List.cons_ne_nil YamlEvent.mappingEnd [.documentEnd, .streamEnd]))
          rw [hevents] at hkept
          exact not_kept_of_key h c₀ (Bool.eq_true_of_not_eq_false hkey) event' events' false
            (fun c' q => Ends (fun n => L.loadLoop n q.2 q.1) (· = c')) hkept
        refine ⟨htext, ih fun c c' => ?_⟩
        exact (reads_unknown_iff htext _ c _).symm.trans (hkept c c')
      | _ =>
        show L.Quiet false events
        refine ih fun c c' => ?_
        exact (reads_stop_iff (by simp) _ c _).symm.trans (hkept c c')
    | false =>
      cases event with
      | mappingStart =>
        show L.Quiet true events
        refine ih fun c c' => ?_
        exact (reads_mappingStart_iff _ c _).symm.trans (hkept c c')
      | streamEnd => trivial
      | _ =>
        show L.Quiet false events
        refine ih fun c c' => ?_
        exact (reads_skip_iff (by simp) (by simp) _ c _).symm.trans (hkept c c')

/-- `_pick_patterns` waits in vain for the end of a sequence that did not begin. -/
theorem not_ends_pickPatterns_of_texts (texts : List (Bytes × Bytes)) (li : List ε)
    (P : List ε × YamlParser → Prop) :
    ¬ Ends (fun n =>
      L.pickPatterns n
        ⟨pairsEvents (textPairs texts) ++ [.mappingEnd, .documentEnd, .streamEnd], false⟩
        li) P := by
  induction texts with
  | nil =>
    -- The three events of the end, and then empty ones.
    rw [ends_succ_iff (f := fun n => L.pickPatterns n _ li) rfl,
      ends_succ_iff (f := fun n => L.pickPatterns (n + 1) _ li) rfl,
      ends_succ_iff (f := fun n => L.pickPatterns (n + 1 + 1) _ li) rfl]
    exact not_ends_of_loop (f := fun n => L.pickPatterns n ⟨[], false⟩ li) rfl (fun _ => rfl) _
  | cons text texts ih =>
    -- The key and the value are read one by one.
    rw [ends_succ_iff (f := fun n => L.pickPatterns n _ li) rfl]
    simp only [textPairs, List.map_cons, pairsEvents_cons, events_scalar, List.cons_append,
      List.nil_append, pickPatterns, YamlParser.parse_cons]
    rw [ends_succ_iff (f := fun n => L.pickPatterns n _ li) rfl]
    exact ih

/-- A value that is the name of a key, and behind it only pairs that have such a value. The
induction is on these pairs: each of their keys becomes the value of what was read before. -/
theorem not_ends_of_misleading {texts : List (Bytes × Bytes)}
    (hvalue : ∀ t ∈ texts, L.isKey t.2 = true) {text : Bytes} (htext : L.isKey text = true) (c : γ)
    (P : γ × YamlParser → Prop) :
    ¬ Ends (fun n => L.pickGlobal n
      ⟨.scalar text ::
        (pairsEvents (textPairs texts) ++ [.mappingEnd, .documentEnd, .streamEnd]), false⟩ c)
      P := by
  induction texts generalizing text c with
  | nil =>
    rcases isKey_cases htext with ⟨set, hset⟩ | ⟨hglobal, hkey⟩
    · exact L.not_ends_pickGlobal_set hset (by simp) c P
    · rw [L.ends_pickGlobal_patterns_iff hglobal hkey]
      exact fun h => not_ends_pickPatterns_of_texts [] [] _ h.2
  | cons t texts ih =>
    rcases isKey_cases htext with ⟨set, hset⟩ | ⟨hglobal, hkey⟩
    · simp only [textPairs, List.map_cons, pairsEvents_cons, events_scalar, List.cons_append,
        List.nil_append]
      rw [L.ends_pickGlobal_set_iff hset]
      exact ih (fun s hs => hvalue s (List.mem_cons_of_mem _ hs)) (hvalue t List.mem_cons_self) _
    · rw [L.ends_pickGlobal_patterns_iff hglobal hkey]
      exact fun h => not_ends_pickPatterns_of_texts (t :: texts) [] _ h.2

/-! ### An order that goes wrong -/

/-- A pair that ends the loop comes first, and one with a known key last. -/
theorem Overwrites.not_setsAll_of_stop (h : L.Overwrites) (c₀ : γ) {ps : List YamlPair}
    (hexpected : ∀ p ∈ ps, L.Expected p) {p q : YamlPair} (hp : p ∈ ps) (hq : q ∈ ps)
    (hunknown : L.recognised p = false)
    (hnode : ¬ ∃ key text, p = (scalar key, scalar text)) (hknown : L.recognised q = true) :
    ∃ qs, qs.Perm ps ∧ ¬ L.SetsAll qs := by
  obtain ⟨front, back, rfl⟩ := List.append_of_mem hp
  have hother : q ∈ front ++ back := by
    have hmem : q ∈ p :: (front ++ back) := List.perm_middle.mem_iff.mp hq
    rcases List.mem_cons.mp hmem with rfl | hmem
    · exact nomatch hunknown.symm.trans hknown
    · exact hmem
  obtain ⟨before, behind, hsplit⟩ := List.append_of_mem hother
  have hlast : (before ++ behind ++ [q]).Perm (front ++ back) := by
    rw [hsplit]
    exact (List.perm_append_singleton q _).trans List.perm_middle.symm
  refine ⟨p :: (before ++ behind ++ [q]), (hlast.cons p).trans List.perm_middle.symm, ?_⟩
  intro hall
  obtain ⟨c, hc⟩ := h.exists_ne c₀ (hexpected q hq) hknown
  have hleaves := (hall [.documentEnd, .streamEnd] false c c).mp
    ((leaves_stop_iff hunknown hnode).mpr rfl)
  -- The last pair is the last to set anything.
  have hset : L.applied (p :: (before ++ behind ++ [q])) c =
      L.apply (L.applied (p :: (before ++ behind)) c) q := by
    show List.foldl L.apply c ((p :: (before ++ behind)) ++ [q]) = _
    rw [List.foldl_append]
    rfl
  exact hc _ (hset.symm.trans hleaves.2.symm)

/-- A value that is the name of a key comes first, and no pair has a known key. -/
theorem Overwrites.not_setsAll_of_value (h : L.Overwrites) (c₀ : γ) {ps : List YamlPair}
    (hnone : ∀ p ∈ ps, L.recognised p = false) {key text : Bytes}
    (hmem : (scalar key, scalar text) ∈ ps) (htext : L.isKey text = true) :
    ∃ qs, qs.Perm ps ∧ ¬ L.SetsAll qs := by
  have hkey : L.isKey key = false := hnone _ hmem
  obtain ⟨front, back, rfl⟩ := List.append_of_mem hmem
  have hperm : ((scalar key, scalar text) :: (front ++ back)).Perm
      (front ++ (scalar key, scalar text) :: back) := List.perm_middle.symm
  refine ⟨_, hperm, ?_⟩
  intro hall
  obtain ⟨event, events, hevents⟩ :=
    List.exists_cons_of_ne_nil (List.append_ne_nil_of_right_ne_nil (pairsEvents (front ++ back))
      (List.cons_ne_nil YamlEvent.mappingEnd [.documentEnd, .streamEnd]))
  -- The value is a key itself, and sets whatever comes behind it.
  refine not_kept_of_key h c₀ htext event events false (fun c' q => q.1 = c') fun c c' => ?_
  have hunknown : ∀ p ∈ (scalar key, scalar text) :: (front ++ back), L.recognised p = false :=
    fun p hp => hnone p (hperm.mem_iff.mp hp)
  have hleaves := hall [.documentEnd, .streamEnd] false c c'
  rw [applied_of_unrecognised hunknown, and_iff_right (passes_of_unrecognised hunknown c), Leaves,
    pairsEvents_cons] at hleaves
  simp only [events_scalar, List.cons_append, List.nil_append, hevents] at hleaves
  rw [L.ends_pickGlobal_unknown_iff hkey] at hleaves
  exact hleaves

/-- A pair of scalars with a value that is the name of a key, but an unknown key. -/
def misleads (L : Loader ε γ) : YamlPair → Bool
  | (.scalar key, .scalar text) => !L.isKey key && L.isKey text
  | _ => false

/-- A pair misleads when its key is unknown and its value is the name of a key. -/
theorem recognised_of_misleads {p : YamlPair} (h : L.misleads p = true) :
    L.recognised p = false ∧
      ∃ key text, p = (scalar key, scalar text) ∧ L.isKey key = false ∧ L.isKey text = true := by
  obtain ⟨key, value⟩ := p
  match key, value, h with
  | .scalar key, .scalar text, h =>
    obtain ⟨hkey, htext⟩ : L.isKey key = false ∧ L.isKey text = true := by
      simpa [misleads] using h
    exact ⟨hkey, key, text, rfl, hkey, htext⟩

/-- Pairs of this kind, as their texts. -/
theorem exists_textPairs {pairs : List YamlPair} (h : ∀ p ∈ pairs, L.misleads p = true) :
    ∃ texts, pairs = textPairs texts ∧
      ∀ t ∈ texts, L.isKey t.1 = false ∧ L.isKey t.2 = true := by
  induction pairs with
  | nil => exact ⟨[], rfl, nofun⟩
  | cons pair pairs ih =>
    obtain ⟨-, key, text, rfl, hkey, htext⟩ := recognised_of_misleads (h pair List.mem_cons_self)
    obtain ⟨texts, rfl, htexts⟩ := ih fun p hp => h p (List.mem_cons_of_mem _ hp)
    refine ⟨(key, text) :: texts, rfl, ?_⟩
    intro t ht
    rcases List.mem_cons.mp ht with rfl | ht
    · exact ⟨hkey, htext⟩
    · exact htexts t ht

/-- The values that are names of keys come last. -/
theorem not_setsAll_of_last {qs : List YamlPair} (hexpected : ∀ p ∈ qs, L.Expected p)
    (htexts : ∀ p ∈ qs, L.recognised p = false → ∃ key text, p = (scalar key, scalar text))
    {c : γ} (hpasses : L.Passes qs c) (hsome : ∃ p ∈ qs, L.misleads p = true) :
    ∃ qs', qs'.Perm qs ∧ ¬ L.SetsAll qs' := by
  have hperm : (qs.filter (fun p => !L.misleads p) ++ qs.filter L.misleads).Perm qs :=
    List.perm_append_comm.trans (List.filter_append_perm L.misleads qs)
  refine ⟨_, hperm, ?_⟩
  intro hall
  -- The known keys are in the order of `qs`, so the assertion passes.
  have hknown : (qs.filter (fun p => !L.misleads p) ++ qs.filter L.misleads).filter L.recognised =
      qs.filter L.recognised := by
    have hfront : ∀ p ∈ qs, (L.recognised p && !L.misleads p) = L.recognised p := by
      intro p _
      cases hmis : L.misleads p with
      | true => rw [(recognised_of_misleads hmis).1, Bool.false_and]
      | false => rw [Bool.not_false, Bool.and_true]
    have hback : (qs.filter L.misleads).filter L.recognised = [] :=
      filter_recognised_eq_nil fun p hp => (recognised_of_misleads (List.mem_filter.mp hp).2).1
    rw [List.filter_append, hback, List.append_nil, List.filter_filter]
    exact List.filter_congr hfront
  have hpasses' : L.Passes (qs.filter (fun p => !L.misleads p) ++ qs.filter L.misleads) c := by
    rw [← passes_filter, hknown, passes_filter]
    exact hpasses
  have hleaves := (hall [.documentEnd, .streamEnd] false c _).mpr ⟨hpasses', rfl⟩
  obtain ⟨texts, hlast, hvalues⟩ : ∃ texts, qs.filter L.misleads = textPairs texts ∧
      ∀ t ∈ texts, L.isKey t.1 = false ∧ L.isKey t.2 = true :=
    exists_textPairs fun p hp => (List.mem_filter.mp hp).2
  have hplain : ∀ p ∈ qs.filter (fun p => !L.misleads p), L.recognised p = false → L.Plain p := by
    intro p hp hunknown
    obtain ⟨hmem, hnot⟩ := List.mem_filter.mp hp
    obtain ⟨key, text, rfl⟩ := htexts p hmem hunknown
    have hkey : L.isKey key = false := hunknown
    exact ⟨hkey, by simpa [misleads, hkey] using hnot⟩
  rw [Leaves, pairsEvents_append, List.append_assoc,
    L.ends_pickGlobal_pairs_iff (fun p hp => hexpected p (List.mem_filter.mp hp).1) hplain,
    hlast] at hleaves
  cases texts with
  | nil =>
    obtain ⟨p, hp, hmis⟩ := hsome
    have hmem : p ∈ qs.filter L.misleads := List.mem_filter.mpr ⟨hp, hmis⟩
    rw [hlast] at hmem
    exact List.not_mem_nil hmem
  | cons t texts =>
    have hends := hleaves.2
    simp only [textPairs, List.map_cons, pairsEvents_cons, events_scalar, List.cons_append,
      List.nil_append] at hends
    rw [L.ends_pickGlobal_unknown_iff (hvalues t List.mem_cons_self).1] at hends
    exact not_ends_of_misleading (fun s hs => (hvalues s (List.mem_cons_of_mem _ hs)).2)
      (hvalues t List.mem_cons_self).2 _ _ hends

/-- The recognised keys are set as if the other pairs were absent, in every order of the pairs, by
`_pick_global` and in the whole file, exactly when no pair disturbs the others. -/
theorem undisturbed_iff (h : L.Overwrites) (c₀ : γ) {ps : List YamlPair}
    (hexpected : ∀ p ∈ ps, L.Expected p) (hpasses : ∃ qs c, qs.Perm ps ∧ L.Passes qs c) :
    (∀ qs, qs.Perm ps → L.SetsAll qs ∧ L.LoadsAll qs) ↔ L.Undisturbed ps := by
  constructor
  · intro hboth
    have hall : ∀ qs, qs.Perm ps → L.SetsAll qs := fun qs hperm => (hboth qs hperm).1
    -- A node that is not a scalar ends the mapping, and a known pair may stand behind it.
    have hscalars : ∀ p ∈ ps, L.recognised p = false →
        (∃ key text, p = (scalar key, scalar text)) ∨ ∀ q ∈ ps, L.recognised q = false := by
      intro p hp hunknown
      by_contra hneither
      obtain ⟨hnode, hknown⟩ := not_or.mp hneither
      push Not at hknown
      obtain ⟨q, hq, hknown⟩ := hknown
      obtain ⟨qs, hperm, hnot⟩ := h.not_setsAll_of_stop c₀ hexpected hp hq hunknown hnode
        (Bool.eq_true_of_not_eq_false hknown)
      exact hnot (hall qs hperm)
    refine ⟨fun key text hmem hkey => ?_, hscalars, fun hnone qs hperm => ?_⟩
    swap
    · -- Without known keys the file has to keep the globals.
      have hunknown : ∀ p ∈ qs, L.recognised p = false := fun p hp =>
        hnone p (hperm.mem_iff.mp hp)
      refine (keeps_iff_quiet h c₀).mp fun c c' => ?_
      have hloads := (hboth qs hperm).2 c c'
      rw [applied_of_unrecognised hunknown, and_iff_right (passes_of_unrecognised hunknown c),
        loads_iff] at hloads
      exact hloads
    by_contra htext
    have hvalue : L.isKey text = true := Bool.eq_true_of_not_eq_false htext
    by_cases hnone : ∀ p ∈ ps, L.recognised p = false
    · obtain ⟨qs, hperm, hnot⟩ := h.not_setsAll_of_value c₀ hnone hmem hvalue
      exact hnot (hall qs hperm)
    · obtain ⟨qs, c, hperm, hpass⟩ := hpasses
      have htexts : ∀ p ∈ qs, L.recognised p = false →
          ∃ key text, p = (scalar key, scalar text) := by
        intro p hp hunknown
        exact (hscalars p (hperm.mem_iff.mp hp) hunknown).resolve_right hnone
      obtain ⟨qs', hperm', hnot⟩ := not_setsAll_of_last
        (fun p hp => hexpected p (hperm.mem_iff.mp hp)) htexts hpass
        ⟨_, hperm.mem_iff.mpr hmem, by simp [misleads, hkey, hvalue]⟩
      exact hnot (hall qs' (hperm'.trans hperm))
  · intro hundisturbed qs hperm
    have hexpected' : ∀ p ∈ qs, L.Expected p := fun p hp => hexpected p (hperm.mem_iff.mp hp)
    exact ⟨setsAll_of_undisturbed hexpected' (hundisturbed.perm hperm),
      loadsAll_of_undisturbed hexpected' (hundisturbed.perm hperm)⟩

/-! ### Patterns that come twice -/

/-- A mapping that gives patterns more than once has two such pairs, and the first leaves something
behind. -/
theorem exists_twice {ps : List YamlPair} (h : ¬ L.PatternsOnce ps) :
    ∃ p q others, (p :: q :: others).Perm ps ∧ L.givesPatterns p = true ∧
      p.2 ≠ sequence [] ∧ L.givesPatterns q = true := by
  obtain ⟨hmany, hsome⟩ := not_or.mp h
  push Not at hmany hsome
  obtain ⟨p, hp, hgives, hne⟩ := hsome
  obtain ⟨front, back, rfl⟩ := List.append_of_mem hp
  have hperm : (p :: (front ++ back)).Perm (front ++ p :: back) := List.perm_middle.symm
  -- The others give patterns once more.
  rw [← (hperm.filter L.givesPatterns).length_eq, List.filter_cons_of_pos hgives,
    List.length_cons] at hmany
  obtain ⟨q, hq⟩ := List.exists_mem_of_length_pos (Nat.succ_lt_succ_iff.mp hmany)
  obtain ⟨hmem, hagain⟩ := List.mem_filter.mp hq
  obtain ⟨before, behind, hsplit⟩ := List.append_of_mem hmem
  refine ⟨p, q, before ++ behind, ?_, hgives, hne, hagain⟩
  have hother : (q :: (before ++ behind)).Perm (front ++ back) := by
    rw [hsplit]
    exact List.perm_middle.symm
  exact (hother.cons p).trans hperm

/-- The assertion fails at the second ones. -/
theorem not_leaves_of_twice (honce : L.once = true) {p q : YamlPair} (hp : L.Expected p)
    (hq : L.Expected q) (hgives : L.givesPatterns p = true) (hne : p.2 ≠ sequence [])
    (hagain : L.givesPatterns q = true) {others : List YamlPair} {rest : List YamlEvent}
    {fails : Bool} {c c' : γ} : ¬ L.Leaves (p :: q :: others) rest fails c c' := by
  rw [Leaves, pairsEvents_cons, pairsEvents_cons, List.append_assoc, List.append_assoc,
    List.append_assoc, List.append_assoc,
    L.ends_pickGlobal_apply_iff hp (recognised_of_givesPatterns hgives),
    L.ends_pickGlobal_apply_iff hq (recognised_of_givesPatterns hagain)]
  rintro ⟨-, hempty, -⟩
  rcases recognised_cases hp (recognised_of_givesPatterns hgives) with
    ⟨_, _, _, -, -, -, hnot⟩ | ⟨key, entries, rfl, -, -, happly, -⟩
  · exact nomatch hnot.symm.trans hgives
  · have hnil := congrArg List.isEmpty (hempty honce hagain)
    rw [happly, L.isEmpty_setPatterns] at hnil
    cases entries with
    | nil => exact hne rfl
    | cons texts entries => simp at hnil

end

end Compostela.Common.Loader

namespace Compostela.Proofs.UnknownKeys

open Compostela.Common
open Compostela.Fuel
open Compostela.Memory
open Loader

/-- Each key of the follower is a field of its own, which a second value overwrites. -/
theorem follower_overwrites : Follower.AppConfig.loader.Overwrites where
  again {key set} hset value c := by
    have hkey : Follower.AppConfig.globalKey key = some set := hset
    unfold Follower.AppConfig.globalKey at hkey
    split_ifs at hkey
    all_goals
      cases hkey
      rfl
  changes {key set} hset value := by
    have hkey : Follower.AppConfig.globalKey key = some set := hset
    unfold Follower.AppConfig.globalKey at hkey
    split_ifs at hkey
    all_goals cases hkey
    · exact ⟨.init, fun heq => nomatch congrArg Follower.AppConfig.serverAddress heq⟩
    · refine ⟨{ Follower.AppConfig.init with serverPort := strtoulInt value + 1 }, fun heq => ?_⟩
      have hport := congrArg Follower.AppConfig.serverPort heq
      simp at hport
    · exact ⟨.init, fun heq => nomatch congrArg Follower.AppConfig.controlPath heq⟩
    · refine ⟨{ Follower.AppConfig.init with waitingSeconds := strtoulInt value + 1 },
        fun heq => ?_⟩
      have hwaiting := congrArg Follower.AppConfig.waitingSeconds heq
      simp at hwaiting
  patterns_again _ _ _ := rfl

/-- Each key of the aggregator is a field of its own, which a second value overwrites. -/
theorem aggregator_overwrites : Aggregator.AppConfig.loader.Overwrites where
  again {key set} hset value c := by
    have hkey : Aggregator.AppConfig.globalKey key = some set := hset
    unfold Aggregator.AppConfig.globalKey at hkey
    split_ifs at hkey
    all_goals
      cases hkey
      rfl
  changes {key set} hset value := by
    have hkey : Aggregator.AppConfig.globalKey key = some set := hset
    unfold Aggregator.AppConfig.globalKey at hkey
    split_ifs at hkey
    all_goals cases hkey
    · exact ⟨.init, fun heq => nomatch congrArg Aggregator.AppConfig.serverLogdir heq⟩
    · refine ⟨{ Aggregator.AppConfig.init with serverPort := strtoulInt value + 1 }, fun heq => ?_⟩
      have hport := congrArg Aggregator.AppConfig.serverPort heq
      simp at hport
    · refine ⟨{ Aggregator.AppConfig.init with hostnameLookups := decide (value ≠ ascii "true") },
        fun heq => ?_⟩
      have hlookups := congrArg Aggregator.AppConfig.hostnameLookups heq
      simp at hlookups
  patterns_again _ _ _ := rfl

/-- The follower has no assertion. -/
theorem follower_passes (pairs : List YamlPair) (c : Follower.AppConfig) :
    Follower.AppConfig.loader.Passes pairs c := by
  induction pairs generalizing c with
  | nil => trivial
  | cons pair pairs ih => exact ⟨nofun, ih _⟩

/-- The aggregator, for the orders of a mapping that gives patterns once. -/
theorem aggregator_passes_iff {pairs qs : List YamlPair}
    (honce : Aggregator.AppConfig.loader.PatternsOnce pairs) (hperm : qs.Perm pairs)
    (c : Aggregator.AppConfig) :
    Aggregator.AppConfig.loader.Passes qs c ↔ c.aggregateContextList = [] ∨
      ∀ p ∈ qs, Aggregator.AppConfig.loader.givesPatterns p = false :=
  passes_iff_of_once rfl (honce.perm hperm) c

/-- The pairs of the outermost mapping, in any order, with values of their kinds for the known
keys. The globals are then the last values of the known keys, as if the other pairs were absent,
when `_pick_global` returns and when the file is loaded, exactly when no pair disturbs the others,
and the aggregator is given patterns once. It asserts that it has none when it comes to them. -/
theorem leaves_last_iff (pairs : List YamlPair) :
    ((∀ p ∈ pairs, Follower.AppConfig.loader.Expected p) →
      ((∀ qs, qs.Perm pairs →
        (∀ rest fails c c', Follower.AppConfig.loader.Leaves qs rest fails c c' ↔
          c' = Follower.AppConfig.settingsOf (qs.filter Follower.AppConfig.loader.recognised) c) ∧
        ∀ c c', Follower.AppConfig.loader.Loads qs c c' ↔
          c' = Follower.AppConfig.settingsOf (qs.filter Follower.AppConfig.loader.recognised) c) ↔
        Follower.AppConfig.loader.Undisturbed pairs)) ∧
    ((∀ p ∈ pairs, Aggregator.AppConfig.loader.Expected p) →
      ((∀ qs, qs.Perm pairs →
        (∀ rest fails c c', Aggregator.AppConfig.loader.Leaves qs rest fails c c' ↔
          (c.aggregateContextList = [] ∨
            ∀ p ∈ qs, Aggregator.AppConfig.loader.givesPatterns p = false) ∧
          c' = Aggregator.AppConfig.settingsOf
            (qs.filter Aggregator.AppConfig.loader.recognised) c) ∧
        ∀ c c', Aggregator.AppConfig.loader.Loads qs c c' ↔
          (c.aggregateContextList = [] ∨
            ∀ p ∈ qs, Aggregator.AppConfig.loader.givesPatterns p = false) ∧
          c' = Aggregator.AppConfig.settingsOf
            (qs.filter Aggregator.AppConfig.loader.recognised) c) ↔
        Aggregator.AppConfig.loader.Undisturbed pairs ∧
          Aggregator.AppConfig.loader.PatternsOnce pairs)) := by
  constructor
  · intro hexpected
    have hiff := undisturbed_iff follower_overwrites .init hexpected
      ⟨pairs, .init, .rfl, follower_passes _ _⟩
    simp only [SetsAll, LoadsAll, follower_passes, true_and] at hiff
    simp only [← Follower.AppConfig.applied_eq, applied_filter]
    exact hiff
  · intro hexpected
    simp only [← Aggregator.AppConfig.applied_eq, applied_filter]
    by_cases honce : Aggregator.AppConfig.loader.PatternsOnce pairs
    · -- The assertion is about the state before the mapping.
      have hiff := undisturbed_iff aggregator_overwrites .init hexpected
        ⟨pairs, .init, .rfl, (aggregator_passes_iff honce .rfl .init).mpr (.inl rfl)⟩
      rw [and_iff_left honce, ← hiff]
      refine forall₂_congr fun qs hperm => ?_
      simp only [SetsAll, LoadsAll, aggregator_passes_iff honce hperm]
    -- Patterns given twice run into the assertion, in the order that puts the two first.
    · refine iff_of_false (fun hall => ?_) fun h => honce h.2
      obtain ⟨p, q, others, hperm, hgives, hne, hagain⟩ := exists_twice honce
      have hp : p ∈ pairs := hperm.mem_iff.mp List.mem_cons_self
      have hq : q ∈ pairs :=
        hperm.mem_iff.mp (List.mem_cons_of_mem _ List.mem_cons_self)
      have hleaves :=
        ((hall _ hperm).1 [.documentEnd, .streamEnd] false .init _).mpr ⟨.inl rfl, rfl⟩
      exact not_leaves_of_twice rfl (hexpected p hp) (hexpected q hq) hgives hne hagain hleaves

-- The mapping in `note: [{port: 1}]` sets the port, so this pair alone is a disturbance.
example : ¬ Follower.AppConfig.loader.Undisturbed
    [(.scalar (ascii "note"),
      .sequence [.mapping [(.scalar (ascii "port"), .scalar (ascii "1"))]])] := by
  intro h
  have hquiet := h.nested (by decide) _ .rfl
  have hport : Follower.AppConfig.loader.isKey (ascii "port") = true := rfl
  simp [YamlNode.events, Quiet, hport] at hquiet

/-- `note`, with some value, and `port: 8021` behind it. -/
def portBehindNote (value : YamlNode) : List YamlPair :=
  [(.scalar (ascii "note"), value), (.scalar (ascii "port"), .scalar (ascii "8021"))]

/-- A port behind a note has the value that both programs expect, whatever the note is. -/
theorem portBehindNote_expected (value : YamlNode) :
    (∀ p ∈ portBehindNote value, Follower.AppConfig.loader.Expected p) ∧
      ∀ p ∈ portBehindNote value, Aggregator.AppConfig.loader.Expected p := by
  have hnote : ascii "note" ≠ PATTERNS := by decide
  constructor
  · refine List.forall_mem_cons.mpr ⟨fun h => absurd h hnote, ?_⟩
    exact List.forall_mem_singleton.mpr ⟨_, rfl⟩
  · refine List.forall_mem_cons.mpr ⟨fun h => absurd h hnote, ?_⟩
    exact List.forall_mem_singleton.mpr ⟨_, rfl⟩

/-- A note whose text is no key leaves the port alone. -/
theorem portBehindNote_undisturbed {ε γ : Type} (L : Loader ε γ) {text : Bytes}
    (htext : L.isKey text = false) (hport : L.isKey (ascii "port") = true) :
    L.Undisturbed (portBehindNote (.scalar text)) where
  value key value hmem hkey := by
    rcases List.mem_cons.mp hmem with heq | hmem
    · cases heq
      exact htext
    · cases List.mem_singleton.mp hmem
      exact nomatch hport.symm.trans hkey
  scalars p hp _ := by
    rcases List.mem_cons.mp hp with rfl | hp
    · exact .inl ⟨_, _, rfl⟩
    · cases List.mem_singleton.mp hp
      exact .inl ⟨_, _, rfl⟩
  nested hnone _ _ :=
    nomatch hport.symm.trans (hnone _ (List.mem_cons_of_mem _ List.mem_cons_self))

/-- With `note: x`, the port is set in both orders. -/
theorem leaves_last_iff_note :
    Follower.AppConfig.loader.Undisturbed (portBehindNote (.scalar (ascii "x"))) ∧
    Aggregator.AppConfig.loader.Undisturbed (portBehindNote (.scalar (ascii "x"))) ∧
    (∀ qs, qs.Perm (portBehindNote (.scalar (ascii "x"))) →
      (∀ rest fails c c', Follower.AppConfig.loader.Leaves qs rest fails c c' ↔
        c' = Follower.AppConfig.settingsOf (qs.filter Follower.AppConfig.loader.recognised) c) ∧
      ∀ c c', Follower.AppConfig.loader.Loads qs c c' ↔
        c' = Follower.AppConfig.settingsOf (qs.filter Follower.AppConfig.loader.recognised) c) ∧
    ∀ qs, qs.Perm (portBehindNote (.scalar (ascii "x"))) →
      (∀ rest fails c c', Aggregator.AppConfig.loader.Leaves qs rest fails c c' ↔
        (c.aggregateContextList = [] ∨
          ∀ p ∈ qs, Aggregator.AppConfig.loader.givesPatterns p = false) ∧
        c' = Aggregator.AppConfig.settingsOf
          (qs.filter Aggregator.AppConfig.loader.recognised) c) ∧
      ∀ c c', Aggregator.AppConfig.loader.Loads qs c c' ↔
        (c.aggregateContextList = [] ∨
          ∀ p ∈ qs, Aggregator.AppConfig.loader.givesPatterns p = false) ∧
        c' = Aggregator.AppConfig.settingsOf
          (qs.filter Aggregator.AppConfig.loader.recognised) c := by
  have hfollower : Follower.AppConfig.loader.Undisturbed (portBehindNote (.scalar (ascii "x"))) :=
    portBehindNote_undisturbed _ rfl rfl
  have haggregator :
      Aggregator.AppConfig.loader.Undisturbed (portBehindNote (.scalar (ascii "x"))) :=
    portBehindNote_undisturbed _ rfl rfl
  have honce : Aggregator.AppConfig.loader.PatternsOnce (portBehindNote (.scalar (ascii "x"))) :=
    .inl (by decide)
  have hiff := leaves_last_iff (portBehindNote (.scalar (ascii "x")))
  refine ⟨hfollower, haggregator, ?_, ?_⟩
  · exact (hiff.1 (portBehindNote_expected _).1).mpr hfollower
  · exact (hiff.2 (portBehindNote_expected _).2).mpr ⟨haggregator, honce⟩

/-- The port behind `note: []` is not set, in either program, by `_pick_global` or by the rest
of the file. -/
theorem note_hides_port :
    (¬ ∀ pairs, (∀ p ∈ pairs, Follower.AppConfig.loader.Expected p) → ∀ rest fails c c',
      Follower.AppConfig.loader.Leaves pairs rest fails c c' ↔
        c' = Follower.AppConfig.settingsOf
          (pairs.filter Follower.AppConfig.loader.recognised) c) ∧
    (¬ ∀ pairs, (∀ p ∈ pairs, Aggregator.AppConfig.loader.Expected p) → ∀ rest fails c c',
      c.aggregateContextList = [] →
        (Aggregator.AppConfig.loader.Leaves pairs rest fails c c' ↔
          c' = Aggregator.AppConfig.settingsOf
            (pairs.filter Aggregator.AppConfig.loader.recognised) c)) ∧
    Follower.AppConfig.loader.Loads (portBehindNote (.sequence [])) .init .init ∧
    Aggregator.AppConfig.loader.Loads (portBehindNote (.sequence [])) .init .init := by
  refine ⟨?_, ?_, ⟨20, _, rfl, rfl⟩, 20, _, rfl, rfl⟩
  · intro hclaim
    have hleaves :=
      hclaim _ (portBehindNote_expected (.sequence [])).1 [.documentEnd, .streamEnd] false
      .init .init
    rw [portBehindNote, leaves_stop_iff rfl (by simp)] at hleaves
    -- The port in the file is not read, so it stays 0.
    have hport := congrArg Follower.AppConfig.serverPort (hleaves.mp rfl)
    exact absurd hport (by decide)
  · intro hclaim
    have hleaves :=
      hclaim _ (portBehindNote_expected (.sequence [])).2 [.documentEnd, .streamEnd] false
      .init .init rfl
    rw [portBehindNote, leaves_stop_iff rfl (by simp)] at hleaves
    have hport := congrArg Aggregator.AppConfig.serverPort (hleaves.mp rfl)
    exact absurd hport (by decide)

end Compostela.Proofs.UnknownKeys
