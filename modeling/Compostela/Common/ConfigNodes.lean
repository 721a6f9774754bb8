import Compostela.Common.ConfigFile
import Compostela.Lib.LastWrite

/-!
# `Compostela.Common.ConfigNodes`: the nodes of a configuration file

What a file says, apart from the loops that read it. A document is a tree of `YamlNode`s, and the
parser delivers its `events`. A pair of the outermost mapping, or of the mapping of an entry, is
`recognised` by its key. `Loader.applied` is what the recognised pairs set, one after another.
-/

set_option autoImplicit false

namespace Compostela.Common

open Compostela.LastWrite
open Compostela.Memory

/-- A node of a document. -/
inductive YamlNode
  | scalar (value : Bytes)
  | aliased
  | sequence (items : List YamlNode)
  | mapping (pairs : List (YamlNode × YamlNode))
  deriving Repr

/-- A pair of a mapping. -/
abbrev YamlPair := YamlNode × YamlNode

namespace YamlNode

mutual

/-- What the parser delivers for a node. -/
def events : YamlNode → List YamlEvent
  | .scalar value => [.scalar value]
  | .aliased => [.aliased]
  | .sequence items => .sequenceStart :: (itemsEvents items ++ [.sequenceEnd])
  | .mapping pairs => .mappingStart :: (pairsEvents pairs ++ [.mappingEnd])

/-- The events of the items, in their order. -/
def itemsEvents : List YamlNode → List YamlEvent
  | [] => []
  | item :: items => events item ++ itemsEvents items

/-- The events of the pairs, each with its key first. -/
def pairsEvents : List (YamlNode × YamlNode) → List YamlEvent
  | [] => []
  | (key, value) :: pairs => events key ++ (events value ++ pairsEvents pairs)

end

/-- A scalar is one event. -/
@[simp] theorem events_scalar (value : Bytes) : (scalar value).events = [.scalar value] := by
  rw [events]

/-- No item has no event. -/
@[simp] theorem itemsEvents_nil : itemsEvents [] = [] := by
  rw [itemsEvents]

/-- The events of a sequence are those of its first item and those of the others. -/
@[simp] theorem itemsEvents_cons (item : YamlNode) (items : List YamlNode) :
    itemsEvents (item :: items) = item.events ++ itemsEvents items := by
  rw [itemsEvents]

/-- No pair has no event. -/
@[simp] theorem pairsEvents_nil : pairsEvents [] = [] := by
  rw [pairsEvents]

/-- The events of a mapping are those of the first key, of its value, and of the other pairs. -/
@[simp] theorem pairsEvents_cons (pair : YamlPair) (pairs : List YamlPair) :
    pairsEvents (pair :: pairs) = pair.1.events ++ (pair.2.events ++ pairsEvents pairs) := by
  rw [pairsEvents]

/-- The events of two groups of pairs stand one behind the other. -/
theorem pairsEvents_append (front back : List YamlPair) :
    pairsEvents (front ++ back) = pairsEvents front ++ pairsEvents back := by
  induction front with
  | nil => simp
  | cons pair front ih => simp [ih]

/-- Pairs of scalars. -/
def textPairs (texts : List (Bytes × Bytes)) : List YamlPair :=
  texts.map fun text => (.scalar text.1, .scalar text.2)

/-- A mapping of scalars. -/
def ofTexts (texts : List (Bytes × Bytes)) : YamlNode := .mapping (textPairs texts)

/-- A node that is no scalar starts with an event that is none. -/
theorem events_of_not_scalar {node : YamlNode} (h : ∀ value, node ≠ .scalar value) :
    ∃ event events, node.events = event :: events ∧ ∀ value, event ≠ .scalar value := by
  cases node with
  | scalar value => exact absurd rfl (h value)
  | aliased => exact ⟨.aliased, [], by rw [events], nofun⟩
  | sequence items => exact ⟨.sequenceStart, _, by rw [events], nofun⟩
  | mapping pairs => exact ⟨.mappingStart, _, by rw [events], nofun⟩

/-- The pairs of a mapping. -/
def pairs : YamlNode → List YamlPair
  | .mapping pairs => pairs
  | _ => []

end YamlNode

namespace YamlPair

/-- The value, when it is a scalar and the key is one of these. -/
def valueOf (keys : List Bytes) : YamlPair → Option Bytes
  | (.scalar key, .scalar text) => if cstr key ∈ keys then some (cstr text) else none
  | _ => none

/-- The items, when the value is a sequence and the key is `patterns`. -/
def patternsOf : YamlPair → Option (List YamlNode)
  | (.scalar key, .sequence items) => if cstr key = PATTERNS then some items else none
  | _ => none

end YamlPair

namespace Loader

section
variable {ε γ : Type} (L : Loader ε γ)

/-- An entry after a pair of its mapping. -/
def setEntry (entry : ε) : YamlPair → ε
  | (.scalar key, .scalar text) =>
      match L.entryKey (cstr key) with
      | some set => set (cstr text) entry
      | none => entry
  | _ => entry

/-- The entry of a mapping. -/
def entryOf (item : YamlNode) : ε := item.pairs.foldl L.setEntry L.newEntry

/-- The key is one of the globals or `patterns`. -/
def isKey (key : Bytes) : Bool := (L.globalKey (cstr key)).isSome || cstr key = PATTERNS

/-- The key of the pair is one of the program's. -/
def recognised : YamlPair → Bool
  | (.scalar key, _) => L.isKey key
  | _ => false

/-- The pair gives patterns. -/
def givesPatterns : YamlPair → Bool
  | (.scalar key, _) => (L.globalKey (cstr key)).isNone && cstr key = PATTERNS
  | _ => false

/-- The values that the keys take: a scalar, and for `patterns` a sequence of mappings of
scalars. -/
def Expected : YamlPair → Prop
  | (.scalar key, value) =>
      match L.globalKey (cstr key) with
      | some _ => ∃ text, value = .scalar text
      | none => cstr key = PATTERNS →
          ∃ entries : List (List (Bytes × Bytes)), value = .sequence (entries.map YamlNode.ofTexts)
  | _ => True

/-- The globals after a pair. -/
def apply (c : γ) : YamlPair → γ
  | (.scalar key, .scalar text) =>
      match L.globalKey (cstr key) with
      | some set => set (cstr text) c
      | none => c
  | (.scalar key, .sequence items) =>
      if (L.globalKey (cstr key)).isNone ∧ cstr key = PATTERNS then
        L.setPatterns (items.map L.entryOf).reverse c
      else c
  | _ => c

/-- The globals after the pairs. -/
def applied (pairs : List YamlPair) (c : γ) : γ := pairs.foldl L.apply c

/-- The assertion of `_pick_global` does not fail: no patterns are there when a pair gives some. -/
def Passes : List YamlPair → γ → Prop
  | [], _ => True
  | pair :: pairs, c =>
      (L.once = true → L.givesPatterns pair = true → L.patterns c = []) ∧
        Passes pairs (L.apply c pair)

/-- `patterns` comes once, or with an empty sequence each time. -/
def PatternsOnce (pairs : List YamlPair) : Prop :=
  (pairs.filter L.givesPatterns).length ≤ 1 ∨
    ∀ p ∈ pairs, L.givesPatterns p = true → p.2 = .sequence []

variable {L}

/-- A pair with a known key and a value of its kind sets a global, or the patterns. -/
theorem recognised_cases {pair : YamlPair} (hexpected : L.Expected pair)
    (hknown : L.recognised pair = true) :
    (∃ key text set, pair = (.scalar key, .scalar text) ∧ L.globalKey (cstr key) = some set ∧
      (∀ c, L.apply c pair = set (cstr text) c) ∧ L.givesPatterns pair = false) ∨
    (∃ (key : Bytes) (entries : List (List (Bytes × Bytes))),
      pair = (.scalar key, .sequence (entries.map YamlNode.ofTexts)) ∧
      L.globalKey (cstr key) = none ∧ cstr key = PATTERNS ∧
      (∀ c, L.apply c pair =
        L.setPatterns ((entries.map YamlNode.ofTexts).map L.entryOf).reverse c) ∧
      L.givesPatterns pair = true) := by
  obtain ⟨key, value⟩ := pair
  cases key with
  | scalar key =>
    have hkey : L.isKey key = true := hknown
    simp only [Expected] at hexpected
    -- A setting has a text, `patterns` a sequence of mappings.
    cases hglobal : L.globalKey (cstr key) with
    | some set =>
      rw [hglobal] at hexpected
      obtain ⟨text, rfl⟩ := hexpected
      exact .inl ⟨key, text, set, rfl, hglobal, by simp [apply, hglobal],
        by simp [givesPatterns, hglobal]⟩
    | none =>
      rw [hglobal] at hexpected
      have hpatterns : cstr key = PATTERNS := by
        simpa [isKey, hglobal] using hkey
      have hnone : (L.globalKey (cstr key)).isNone = true := by
        rw [hglobal]
        rfl
      obtain ⟨entries, rfl⟩ := hexpected hpatterns
      refine .inr ⟨key, entries, rfl, hglobal, hpatterns, fun c => if_pos ⟨hnone, hpatterns⟩, ?_⟩
      rw [givesPatterns, hnone, Bool.true_and]
      exact decide_eq_true hpatterns
  | _ => cases hknown

/-- A key of the program sets a global, or is `patterns`. -/
theorem isKey_cases {key : Bytes} (h : L.isKey key = true) :
    (∃ set, L.globalKey (cstr key) = some set) ∨
      L.globalKey (cstr key) = none ∧ cstr key = PATTERNS := by
  cases hglobal : L.globalKey (cstr key) with
  | some set => exact .inl ⟨set, rfl⟩
  | none => exact .inr ⟨rfl, by simpa [isKey, hglobal] using h⟩

/-- A pair without one of the program's keys sets nothing. -/
theorem apply_of_unrecognised {pair : YamlPair} (h : L.recognised pair = false) (c : γ) :
    L.apply c pair = c := by
  obtain ⟨key, value⟩ := pair
  cases key with
  | scalar key =>
    have hkey : L.isKey key = false := h
    obtain ⟨hglobal, hpatterns⟩ : L.globalKey (cstr key) = none ∧ cstr key ≠ PATTERNS := by
      simpa [isKey] using hkey
    cases value <;> simp [apply, hglobal, hpatterns]
  | _ => rfl

/-- A pair that is not recognised gives no patterns. -/
theorem givesPatterns_of_unrecognised {pair : YamlPair} (h : L.recognised pair = false) :
    L.givesPatterns pair = false := by
  obtain ⟨key, value⟩ := pair
  cases key with
  | scalar key =>
    have hkey : L.isKey key = false := h
    obtain ⟨-, hpatterns⟩ : L.globalKey (cstr key) = none ∧ cstr key ≠ PATTERNS := by
      simpa [isKey] using hkey
    simp [givesPatterns, hpatterns]
  | _ => rfl

/-- A pair that gives patterns is recognised. -/
theorem recognised_of_givesPatterns {pair : YamlPair} (h : L.givesPatterns pair = true) :
    L.recognised pair = true := by
  cases hknown : L.recognised pair with
  | true => rfl
  | false => exact (givesPatterns_of_unrecognised hknown).symm.trans h

/-- The globals are set as if the other pairs were absent. -/
theorem applied_filter (pairs : List YamlPair) (c : γ) :
    L.applied (pairs.filter L.recognised) c = L.applied pairs c := by
  induction pairs generalizing c with
  | nil => rfl
  | cons pair pairs ih =>
    cases h : L.recognised pair with
    | true =>
      rw [List.filter_cons_of_pos h]
      exact ih _
    | false =>
      rw [List.filter_cons_of_neg (by simp [h]), ih]
      show _ = L.applied pairs (L.apply c pair)
      rw [apply_of_unrecognised h]

/-- Whether the assertion holds depends on the recognised pairs only. -/
theorem passes_filter (pairs : List YamlPair) (c : γ) :
    L.Passes (pairs.filter L.recognised) c ↔ L.Passes pairs c := by
  induction pairs generalizing c with
  | nil => exact Iff.rfl
  | cons pair pairs ih =>
    cases h : L.recognised pair with
    | true =>
      rw [List.filter_cons_of_pos h]
      exact and_congr_right fun _ => ih _
    | false =>
      rw [List.filter_cons_of_neg (by simp [h]), ih]
      show _ ↔ _ ∧ L.Passes pairs (L.apply c pair)
      rw [apply_of_unrecognised h, givesPatterns_of_unrecognised h]
      simp

/-! ### The assertion -/

/-- The other pairs leave the patterns alone. -/
theorem patterns_apply_of_noPatterns {pair : YamlPair} (h : L.givesPatterns pair = false) (c : γ) :
    L.patterns (L.apply c pair) = L.patterns c := by
  obtain ⟨key, value⟩ := pair
  cases key with
  | scalar key =>
    cases value with
    | scalar text =>
      cases hglobal : L.globalKey (cstr key) with
      | some set => simpa only [apply, hglobal] using L.patterns_globalKey hglobal (cstr text) c
      | none => simp only [apply, hglobal]
    | sequence items =>
      have hnot : ¬ ((L.globalKey (cstr key)).isNone ∧ cstr key = PATTERNS) := by
        simpa [givesPatterns] using h
      simp only [apply, if_neg hnot]
    | _ => rfl
  | _ => rfl

/-- Empty patterns are no patterns. -/
theorem patterns_apply_of_empty {pair : YamlPair} (h : L.givesPatterns pair = true)
    (hempty : pair.2 = .sequence []) (c : γ) : L.patterns (L.apply c pair) = [] := by
  obtain ⟨key, value⟩ := pair
  cases hempty
  cases key with
  | scalar key =>
    have hkey : (L.globalKey (cstr key)).isNone ∧ cstr key = PATTERNS := by
      simpa [givesPatterns] using h
    simp only [apply, if_pos hkey]
    exact List.isEmpty_iff.mp (L.isEmpty_setPatterns [] c)
  | _ => cases h

/-- Without patterns the assertion is never made. -/
theorem passes_of_noPatterns {pairs : List YamlPair}
    (h : ∀ p ∈ pairs, L.givesPatterns p = false) (c : γ) : L.Passes pairs c := by
  induction pairs generalizing c with
  | nil => trivial
  | cons pair pairs ih =>
    refine ⟨fun _ hgives => ?_, ih (fun p hp => h p (List.mem_cons_of_mem _ hp)) _⟩
    exact nomatch (h pair List.mem_cons_self).symm.trans hgives

/-- Patterns that come once in a mapping come at most once behind its first pair. -/
theorem PatternsOnce.tail {pair : YamlPair} {pairs : List YamlPair}
    (h : L.PatternsOnce (pair :: pairs)) : L.PatternsOnce pairs := by
  rcases h with hone | hempty
  · have hle := (List.sublist_cons_self pair pairs).filter L.givesPatterns
    exact .inl (hle.length_le.trans hone)
  · exact .inr fun p hp => hempty p (List.mem_cons_of_mem _ hp)

/-- How often patterns come does not depend on the order of the pairs. -/
theorem PatternsOnce.perm {ps qs : List YamlPair} (h : L.PatternsOnce ps) (hperm : qs.Perm ps) :
    L.PatternsOnce qs := by
  rcases h with hone | hempty
  · exact .inl ((hperm.filter L.givesPatterns).length_eq.trans_le hone)
  · exact .inr fun p hp => hempty p (hperm.mem_iff.mp hp)

/-- The assertion passes when no patterns were there, or none are given. -/
theorem passes_iff_of_once (honce : L.once = true) {pairs : List YamlPair}
    (h : L.PatternsOnce pairs) (c : γ) :
    L.Passes pairs c ↔ L.patterns c = [] ∨ ∀ p ∈ pairs, L.givesPatterns p = false := by
  induction pairs generalizing c with
  | nil => exact iff_of_true trivial (.inr nofun)
  | cons pair pairs ih =>
    have hnext := ih h.tail (L.apply c pair)
    cases hgives : L.givesPatterns pair with
    | false =>
      rw [patterns_apply_of_noPatterns hgives] at hnext
      rw [List.forall_mem_cons, and_iff_right hgives, ← hnext]
      refine and_iff_right fun _ hgives' => ?_
      exact nomatch hgives.symm.trans hgives'
    | true =>
      -- After this pair the assertion cannot fail any more.
      have hpasses : L.Passes pairs (L.apply c pair) := by
        rcases h with hone | hempty
        · refine passes_of_noPatterns (fun p hp => ?_) _
          rw [List.filter_cons_of_pos hgives, List.length_cons] at hone
          have hnil : pairs.filter L.givesPatterns = [] :=
            List.eq_nil_of_length_eq_zero (by omega)
          exact Bool.eq_false_of_not_eq_true (List.filter_eq_nil_iff.mp hnil p hp)
        · exact hnext.mpr (.inl
            (patterns_apply_of_empty hgives (hempty pair List.mem_cons_self hgives) c))
      constructor
      · exact fun hall => .inl (hall.1 honce hgives)
      · rintro (hnone | hall)
        · exact ⟨fun _ _ => hnone, hpasses⟩
        · exact nomatch hgives.symm.trans (hall pair List.mem_cons_self)

end

end Loader

end Compostela.Common
