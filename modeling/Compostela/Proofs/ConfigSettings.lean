import Compostela.Common.ConfigNodes
import Compostela.Proofs.ConfigLoading

/-!
# `Compostela.Proofs.ConfigSettings`: what the loops read from the nodes of a file

One lemma per loop. `_pick_pattern_entry` takes a mapping of scalars to its end, `_pick_patterns` a
sequence of such mappings, and `_pick_global` one pair after another, as long as they are the pairs
that it can read: those with a known key, and those that look like two unknown keys.

* `ends_pickEntry_iff` and `ends_pickPatterns_iff`: the loops for an entry and for the patterns.
* `ends_pickGlobal_apply_iff`: one pair with a known key.
* `ends_pickGlobal_pairs_iff`: all pairs, by induction on them.
-/

set_option autoImplicit false

namespace Compostela.Common.Loader

open Compostela.Fuel
open Compostela.Memory
open YamlNode

section
variable {ε γ : Type} (L : Loader ε γ)
variable {rest : List YamlEvent} {fails : Bool}

/-- The loop for an entry, over a mapping of scalars. -/
theorem ends_pickEntry_iff (texts : List (Bytes × Bytes)) (entry : ε) (P : ε × YamlParser → Prop) :
    Ends (fun n =>
      L.pickEntry n ⟨pairsEvents (textPairs texts) ++ .mappingEnd :: rest, fails⟩ entry) P ↔
      P ((textPairs texts).foldl L.setEntry entry, ⟨rest, fails⟩) := by
  induction texts generalizing entry with
  | nil =>
    rw [ends_succ_iff (f := fun n => L.pickEntry n _ entry) rfl]
    exact ends_ok_iff _ _
  | cons text texts ih =>
    -- A key and its value are read in one turn.
    rw [ends_succ_iff (f := fun n => L.pickEntry n _ entry) rfl]
    have hnext := ih (L.setEntry entry (.scalar text.1, .scalar text.2))
    simp only [setEntry] at hnext
    simp only [textPairs, List.map_cons, pairsEvents_cons, events_scalar, List.cons_append,
      List.nil_append, pickEntry, YamlParser.parse_cons, List.foldl_cons, setEntry]
    cases hkey : L.entryKey (cstr text.1) with
    | some set =>
      rw [hkey] at hnext
      exact hnext
    | none =>
      rw [hkey] at hnext
      exact hnext

/-- The loop for the patterns, over the mappings of a sequence and its end. -/
theorem ends_pickPatterns_items_iff (entries : List (List (Bytes × Bytes))) (li : List ε)
    (P : List ε × YamlParser → Prop) :
    Ends (fun n => L.pickPatterns n
      ⟨itemsEvents (entries.map ofTexts) ++ .sequenceEnd :: rest, fails⟩ li) P ↔
      P (((entries.map ofTexts).map L.entryOf).reverse ++ li, ⟨rest, fails⟩) := by
  induction entries generalizing li with
  | nil =>
    rw [ends_succ_iff (f := fun n => L.pickPatterns n _ li) rfl]
    exact ends_ok_iff _ _
  | cons texts entries ih =>
    rw [ends_succ_iff (f := fun n => L.pickPatterns n _ li) rfl]
    simp only [List.map_cons, itemsEvents_cons, ofTexts, events, List.cons_append,
      List.append_assoc, List.nil_append, pickPatterns, YamlParser.parse_cons]
    rw [ends_bind_iff (L.increasing_pickEntry _ _)
      (fun q => L.increasing_pickPatterns q.2 (azListAdd li q.1)), ends_pickEntry_iff]
    -- The entry is put in front of the others.
    refine (ih _).trans ?_
    rw [List.reverse_cons, List.append_assoc]
    exact Iff.rfl

/-- `_pick_patterns`, for a sequence of mappings of scalars. -/
theorem ends_pickPatterns_iff (entries : List (List (Bytes × Bytes)))
    (P : List ε × YamlParser → Prop) :
    Ends (fun n =>
      L.pickPatterns n ⟨(sequence (entries.map ofTexts)).events ++ rest, fails⟩ []) P ↔
      P (((entries.map ofTexts).map L.entryOf).reverse, ⟨rest, fails⟩) := by
  rw [ends_succ_iff (f := fun n => L.pickPatterns n _ []) rfl]
  -- The loop goes on at the start of the sequence.
  simp only [events, List.cons_append, List.append_assoc, List.nil_append, pickPatterns,
    YamlParser.parse_cons]
  rw [ends_pickPatterns_items_iff, List.append_nil]

/-! ### The pairs of the outermost mapping -/

/-- A key that sets a global, and a scalar. -/
theorem ends_pickGlobal_set_iff {key : Bytes} {set : Bytes → γ → γ}
    (hset : L.globalKey (cstr key) = some set) (text : Bytes) (c : γ)
    (P : γ × YamlParser → Prop) :
    Ends (fun n => L.pickGlobal n ⟨.scalar key :: .scalar text :: rest, fails⟩ c) P ↔
      Ends (fun n => L.pickGlobal n ⟨rest, fails⟩ (set (cstr text) c)) P := by
  rw [ends_succ_iff (f := fun n => L.pickGlobal n _ c) rfl]
  simp only [pickGlobal, YamlParser.parse_cons, hset]
  exact Iff.rfl

/-- Every other value is an invalid pointer. -/
theorem not_ends_pickGlobal_set {key : Bytes} {set : Bytes → γ → γ}
    (hset : L.globalKey (cstr key) = some set) {event : YamlEvent}
    (h : ∀ value, event ≠ .scalar value) (c : γ) (P : γ × YamlParser → Prop) :
    ¬ Ends (fun n => L.pickGlobal n ⟨.scalar key :: event :: rest, fails⟩ c) P := by
  rw [ends_succ_iff (f := fun n => L.pickGlobal n _ c) rfl]
  simp only [pickGlobal, YamlParser.parse_cons, hset]
  cases event with
  | scalar value => exact absurd rfl (h value)
  | _ => exact not_ends_error _ _

/-- `patterns`, and whatever comes behind it. -/
theorem ends_pickGlobal_patterns_iff {key : Bytes} (hglobal : L.globalKey (cstr key) = none)
    (hkey : cstr key = PATTERNS) (c : γ) (P : γ × YamlParser → Prop) :
    Ends (fun n => L.pickGlobal n ⟨.scalar key :: rest, fails⟩ c) P ↔
      (L.once = true → L.patterns c = []) ∧
        Ends (fun n => L.pickPatterns n ⟨rest, fails⟩ []) fun q =>
          Ends (fun n => L.pickGlobal n q.2 (L.setPatterns q.1 c)) P := by
  rw [ends_succ_iff (f := fun n => L.pickGlobal n _ c) rfl]
  simp only [pickGlobal, YamlParser.parse_cons, hglobal, if_pos hkey]
  split_ifs with honce
  · -- The assertion fails.
    exact iff_of_false (not_ends_error _ _) fun h => honce.2 (h.1 honce.1)
  · rw [ends_bind_iff (L.increasing_pickPatterns _ _)
      (fun q => L.increasing_pickGlobal q.2 (L.setPatterns q.1 c))]
    refine (and_iff_right ?_).symm
    exact fun h => not_not.mp fun hne => honce ⟨h, hne⟩

/-- A pair with a known key and a value of its kind. -/
theorem ends_pickGlobal_apply_iff {pair : YamlPair} (hexpected : L.Expected pair)
    (hknown : L.recognised pair = true) (c : γ) (P : γ × YamlParser → Prop) :
    Ends (fun n => L.pickGlobal n ⟨pair.1.events ++ (pair.2.events ++ rest), fails⟩ c) P ↔
      (L.once = true → L.givesPatterns pair = true → L.patterns c = []) ∧
        Ends (fun n => L.pickGlobal n ⟨rest, fails⟩ (L.apply c pair)) P := by
  rcases recognised_cases hexpected hknown with
    ⟨key, text, set, rfl, hset, happly, hgives⟩ | ⟨key, entries, rfl, hglobal, hkey, happly, hgives⟩
  · simp only [events_scalar, List.cons_append, List.nil_append]
    rw [L.ends_pickGlobal_set_iff hset, happly, hgives]
    simp
  · simp only [events_scalar, List.cons_append, List.nil_append]
    rw [L.ends_pickGlobal_patterns_iff hglobal hkey, ends_pickPatterns_iff, happly, hgives]
    simp

/-- A scalar that is no key of the program is dropped. -/
theorem ends_pickGlobal_unknown_iff {key : Bytes} (hkey : L.isKey key = false) (c : γ)
    (P : γ × YamlParser → Prop) :
    Ends (fun n => L.pickGlobal n ⟨.scalar key :: rest, fails⟩ c) P ↔
      Ends (fun n => L.pickGlobal n ⟨rest, fails⟩ c) P := by
  obtain ⟨hglobal, hpatterns⟩ : L.globalKey (cstr key) = none ∧ cstr key ≠ PATTERNS := by
    simpa [isKey] using hkey
  rw [ends_succ_iff (f := fun n => L.pickGlobal n _ c) rfl]
  simp only [pickGlobal, YamlParser.parse_cons, hglobal, if_neg hpatterns]

/-- Every other event ends the loop. -/
theorem ends_pickGlobal_stop_iff {event : YamlEvent} (h : ∀ value, event ≠ .scalar value) (c : γ)
    (P : γ × YamlParser → Prop) :
    Ends (fun n => L.pickGlobal n ⟨event :: rest, fails⟩ c) P ↔ P (c, ⟨rest, fails⟩) := by
  rw [ends_succ_iff (f := fun n => L.pickGlobal n _ c) rfl]
  cases event with
  | scalar value => exact absurd rfl (h value)
  | _ => exact ends_ok_iff _ _

/-- `_pick_global` returns at the end of the mapping with what it has. -/
theorem ends_pickGlobal_mappingEnd_iff (c : γ) (P : γ × YamlParser → Prop) :
    Ends (fun n => L.pickGlobal n ⟨.mappingEnd :: rest, fails⟩ c) P ↔ P (c, ⟨rest, fails⟩) :=
  L.ends_pickGlobal_stop_iff (by simp) c P

/-- A pair of two scalars that are no keys of the program. It is read as two keys. -/
def Plain : YamlPair → Prop
  | (.scalar key, .scalar text) => L.isKey key = false ∧ L.isKey text = false
  | _ => False

/-- The loop of `_pick_global` over pairs that it can read. The induction is on the pairs, and the
loop sees one whole pair in each step. -/
theorem ends_pickGlobal_pairs_iff {pairs : List YamlPair} (hexpected : ∀ p ∈ pairs, L.Expected p)
    (hplain : ∀ p ∈ pairs, L.recognised p = false → L.Plain p) (c : γ)
    (P : γ × YamlParser → Prop) :
    Ends (fun n => L.pickGlobal n ⟨pairsEvents pairs ++ rest, fails⟩ c) P ↔
      L.Passes pairs c ∧ Ends (fun n => L.pickGlobal n ⟨rest, fails⟩ (L.applied pairs c)) P := by
  induction pairs generalizing c with
  | nil =>
    rw [pairsEvents_nil]
    exact (and_iff_right trivial).symm
  | cons pair pairs ih =>
    have hnext := ih (fun p hp => hexpected p (List.mem_cons_of_mem _ hp))
      (fun p hp => hplain p (List.mem_cons_of_mem _ hp)) (L.apply c pair)
    rw [pairsEvents_cons, List.append_assoc, List.append_assoc]
    cases hknown : L.recognised pair with
    | true =>
      rw [L.ends_pickGlobal_apply_iff (hexpected pair List.mem_cons_self) hknown, hnext]
      exact and_assoc.symm
    | false =>
      obtain ⟨key, value⟩ := pair
      have hpair := hplain _ List.mem_cons_self hknown
      -- A pair that is not recognised is two scalars here, and each is skipped as an event of its
      -- own.
      match key, value, hpair with
      | .scalar key, .scalar text, ⟨hkey, htext⟩ =>
        rw [apply_of_unrecognised hknown] at hnext
        simp only [events_scalar, List.cons_append, List.nil_append]
        rw [L.ends_pickGlobal_unknown_iff hkey, L.ends_pickGlobal_unknown_iff htext, hnext]
        show _ ↔ (_ ∧ L.Passes pairs (L.apply c _)) ∧
          Ends (fun n => L.pickGlobal n _ (L.applied pairs (L.apply c _))) P
        rw [apply_of_unrecognised hknown, givesPatterns_of_unrecognised hknown]
        simp

/-- `load_config_file`, for a file with these pairs in its outermost mapping, leaves the globals
`c'` behind. -/
def Loads (pairs : List YamlPair) (c c' : γ) : Prop :=
  Ends (fun n => L.loadConfigFile n
    (some ⟨Proofs.ConfigLoading.document (pairsEvents pairs), false⟩) c) fun r => r = (0, c')

/-- `_pick_global` reads the outermost mapping, and the outermost loop what is left. -/
theorem loads_iff (pairs : List YamlPair) (c c' : γ) :
    L.Loads pairs c c' ↔
      Ends (fun n => L.pickGlobal n
        ⟨pairsEvents pairs ++ [.mappingEnd, .documentEnd, .streamEnd], false⟩ c) fun q =>
          Ends (fun n => L.loadLoop n q.2 q.1) fun d => d = c' := by
  have hload : L.Loads pairs c c' ↔ Ends (fun n =>
      L.loadLoop n ⟨Proofs.ConfigLoading.document (pairsEvents pairs), false⟩ c) fun d =>
        d = c' := by
    constructor
    · rintro ⟨n, r, hrun, rfl⟩
      obtain ⟨d, hd, heq⟩ := bind_eq_ok.mp hrun
      cases heq
      exact ⟨n, c', hd, rfl⟩
    · rintro ⟨n, d, hd, rfl⟩
      exact ⟨n, (0, d), bind_eq_ok.mpr ⟨d, hd, rfl⟩, rfl⟩
  -- The start of the stream and of the document, and then the mapping.
  rw [hload, ends_succ_iff (f := fun n => L.loadLoop n _ c) rfl,
    ends_succ_iff (f := fun n => L.loadLoop (n + 1) _ c) rfl,
    ends_succ_iff (f := fun n => L.loadLoop (n + 1 + 1) _ c) rfl]
  simp only [Proofs.ConfigLoading.document, List.cons_append, List.nil_append, loadLoop,
    YamlParser.parse_cons]
  exact ends_bind_iff (L.increasing_pickGlobal _ _) (fun q => L.increasing_loadLoop q.2 q.1) _

/-- The outermost loop, behind the outermost mapping. -/
theorem ends_loadLoop_rest_iff (c : γ) (P : γ → Prop) :
    Ends (fun n => L.loadLoop n ⟨[.documentEnd, .streamEnd], false⟩ c) P ↔ P c := by
  rw [ends_succ_iff (f := fun n => L.loadLoop n _ c) rfl,
    ends_succ_iff (f := fun n => L.loadLoop (n + 1) _ c) rfl]
  exact ends_ok_iff _ _

/-- A file with pairs that the loop can read. -/
theorem loads_pairs_iff {pairs : List YamlPair} (hexpected : ∀ p ∈ pairs, L.Expected p)
    (hplain : ∀ p ∈ pairs, L.recognised p = false → L.Plain p) (c c' : γ) :
    L.Loads pairs c c' ↔ L.Passes pairs c ∧ c' = L.applied pairs c := by
  rw [L.loads_iff, L.ends_pickGlobal_pairs_iff hexpected hplain, L.ends_pickGlobal_mappingEnd_iff,
    L.ends_loadLoop_rest_iff, eq_comm]

variable {L}

/-- A file with these pairs in its outermost mapping is loaded. -/
theorem loadConfigFile_document {pairs : List YamlPair} (hexpected : ∀ p ∈ pairs, L.Expected p)
    (hplain : ∀ p ∈ pairs, L.recognised p = false → L.Plain p) {c : γ}
    (hpasses : L.Passes pairs c) :
    ∃ fuel, L.loadConfigFile fuel
      (some ⟨Proofs.ConfigLoading.document (pairsEvents pairs), false⟩) c =
        .ok (0, L.applied pairs c) := by
  obtain ⟨fuel, r, hload, rfl⟩ := (L.loads_pairs_iff hexpected hplain c _).mpr ⟨hpasses, rfl⟩
  exact ⟨fuel, hload⟩

/-! ### Patterns that are there -/

/-- A program that asserts that no patterns are there keeps those that are. -/
theorem pickGlobal_keeps (honce : L.once = true) {fuel : Nat} {parser parser' : YamlParser}
    {c c' : γ} (hne : L.patterns c ≠ [])
    (h : L.pickGlobal fuel parser c = .ok (c', parser')) : L.patterns c' = L.patterns c := by
  induction fuel generalizing parser c with
  | zero => cases h
  | succ fuel ih =>
    cases hparse : parser.parse with
    | mk event parser₁ =>
      simp only [pickGlobal, hparse] at h
      cases event with
      | none =>
        cases h
        rfl
      | some event =>
        cases event with
        | scalar key =>
          cases hset : L.globalKey (cstr key) with
          | some set =>
            cases hvalue : parser₁.parse with
            | mk value parser₂ =>
              simp only [hset, hvalue] at h
              cases value with
              | none =>
                cases h
                rfl
              | some value =>
                obtain ⟨text, -, h⟩ := bind_eq_ok.mp h
                -- A global is set, and the patterns stay.
                have hpatterns := L.patterns_globalKey hset text c
                exact (ih (hpatterns ▸ hne) h).trans hpatterns
          | none =>
            simp only [hset] at h
            split_ifs at h with hkey hassert
            · exact absurd ⟨honce, hne⟩ hassert
            · exact ih hne h
        | _ =>
          cases h
          rfl

/-- A program that asserts it has no patterns is never given others: it keeps those it has, or
traps. -/
theorem loadLoop_keeps (honce : L.once = true) {fuel : Nat} {parser : YamlParser} {c c' : γ}
    (hne : L.patterns c ≠ []) (h : L.loadLoop fuel parser c = .ok c') :
    L.patterns c' = L.patterns c := by
  induction fuel generalizing parser c with
  | zero => cases h
  | succ fuel ih =>
    cases hparse : parser.parse with
    | mk event parser₁ =>
      simp only [loadLoop, hparse] at h
      cases event with
      | none =>
        cases h
        rfl
      | some event =>
        cases event with
        | streamEnd =>
          cases h
          rfl
        -- Only a mapping is looked into, every other event is skipped.
        | mappingStart =>
          obtain ⟨⟨c₁, parser₂⟩, hglobal, h⟩ := bind_eq_ok.mp h
          have hkeep := pickGlobal_keeps honce hne hglobal
          exact (ih (hkeep ▸ hne) h).trans hkeep
        | _ => exact ih hne h

end

end Compostela.Common.Loader
