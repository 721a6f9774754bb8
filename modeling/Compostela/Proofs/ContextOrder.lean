import Compostela.Aggregator.Channels
import Compostela.Aggregator.ContextNodes
import Compostela.Proofs.ConfigSettings
import Compostela.Proofs.LastSettings

/-!
# `Compostela.Proofs.ContextOrder`: the contexts are searched in the order of the file

The mappings behind `patterns` become contexts, and a name gets the first of them with a path that
matches it. Three loops read the mappings, a fourth turns the list around, and a fifth walks along
it.

* `loads_contexts`: a file that gives patterns once is loaded with these contexts.
* `keeps_contexts`: in any file, what comes behind them does not change them.
* `nodes_hold_contexts`: the list in memory has them in the order of the file.
* `find_firstMatch`: a search takes the first that matches.
-/

set_option autoImplicit false

namespace Compostela.Aggregator

open Compostela.Chains
open Compostela.Common
open Compostela.Fuel
open Compostela.LastWrite
open Compostela.Memory
open Compostela.Proofs.ConfigLoading
open YamlNode

/-- The contexts of the mappings, in their order. -/
def contextsOf (entries : List (List (Bytes × Bytes))) : List PickedContext :=
  entries.map fun texts => AppConfig.contextOf (ofTexts texts)

/-- `patterns`, with a sequence of mappings of scalars. -/
def patternsPair (entries : List (List (Bytes × Bytes))) : YamlPair :=
  (scalar PATTERNS, sequence (entries.map ofTexts))

/-- Another pair of the outermost mapping: a known key with a value of its kind, or two scalars
that are no known keys. -/
structure Beside (p : YamlPair) : Prop where
  expected : AppConfig.loader.Expected p
  plain : AppConfig.loader.recognised p = false → AppConfig.loader.Plain p
  noPatterns : ∀ key, p.1 = scalar key → cstr key ≠ PATTERNS

/-- The result of a search: the first context that matches, or nothing when none does. -/
def FirstMatch (fnmatch : Bytes → Bytes → Bool) (fname : Bytes) (contexts : List PickedContext) :
    Option PickedContext → Prop
  | some cxt => ∃ front back, contexts = front ++ cxt :: back ∧
      matchesName fnmatch fname cxt = true ∧ ∀ c ∈ front, matchesName fnmatch fname c = false
  | none => ∀ c ∈ contexts, matchesName fnmatch fname c = false

/-- What the handlers read of a context with a path. -/
def PickedContext.toContext (cxt : PickedContext) : Option ScAggregateContext :=
  cxt.path.map fun path => ⟨path, cxt.fTimestamp, cxt.fSeparate, cxt.fMerge⟩

/-! ### The loader -/

section
variable {entries : List (List (Bytes × Bytes))}

/-- The contexts that the file asks for are those of its entries. -/
theorem map_contextOf : (entries.map ofTexts).map AppConfig.contextOf = contextsOf entries :=
  List.map_map

/-- The patterns of the file are a sequence of mappings of scalars. -/
theorem patternsPair_expected : AppConfig.loader.Expected (patternsPair entries) :=
  fun _ => ⟨entries, rfl⟩

/-- The patterns set the contexts of their entries, in the order of the file. -/
theorem apply_patternsPair (entries : List (List (Bytes × Bytes))) (c : AppConfig) :
    (AppConfig.loader.apply c (patternsPair entries)).aggregateContextList =
      contextsOf entries := by
  rw [AppConfig.apply_eq]
  exact map_contextOf

/-- Such a pair gives no patterns. -/
theorem Beside.patternsOf {p : YamlPair} (h : Beside p) : p.patternsOf = none := by
  obtain ⟨key, value⟩ := p
  match key, value with
  | .scalar key, .sequence items => exact if_neg (h.noPatterns key rfl)
  | .scalar _, .scalar _ => rfl
  | .scalar _, .aliased => rfl
  | .scalar _, .mapping _ => rfl
  | .aliased, _ => rfl
  | .sequence _, _ => rfl
  | .mapping _, _ => rfl

/-- A pair beside the patterns gives none. -/
theorem Beside.givesPatterns {p : YamlPair} (h : Beside p) :
    AppConfig.loader.givesPatterns p = false := by
  obtain ⟨key, value⟩ := p
  cases key with
  | scalar key => simp [Loader.givesPatterns, h.noPatterns key rfl]
  | _ => rfl

/-- The assertion passes when patterns are given once. -/
theorem passes_once {front back : List YamlPair} (hfront : ∀ p ∈ front, Beside p)
    (hback : ∀ p ∈ back, Beside p) {c : AppConfig} (hc : c.aggregateContextList = []) :
    AppConfig.loader.Passes (front ++ patternsPair entries :: back) c := by
  have hnone : ∀ {pairs : List YamlPair}, (∀ p ∈ pairs, Beside p) →
      pairs.filter AppConfig.loader.givesPatterns = [] := fun h =>
    List.filter_eq_nil_iff.mpr fun p hp => Bool.eq_false_iff.mp (h p hp).givesPatterns
  have honce : AppConfig.loader.PatternsOnce (front ++ patternsPair entries :: back) := by
    left
    have hle := List.length_filter_le AppConfig.loader.givesPatterns [patternsPair entries]
    rw [List.filter_append, hnone hfront, List.filter_cons, hnone hback]
    exact hle
  exact (Loader.passes_iff_of_once rfl honce c).mpr (.inl hc)

/-- A file that gives patterns once, between other pairs. -/
theorem loads_contexts {front back : List YamlPair} (hfront : ∀ p ∈ front, Beside p)
    (hback : ∀ p ∈ back, Beside p) {c : AppConfig} (hc : c.aggregateContextList = []) :
    ∃ fuel c', loadConfigFile fuel
      (some ⟨document (pairsEvents (front ++ patternsPair entries :: back)), false⟩) c =
        .ok (0, c') ∧ c'.aggregateContextList = contextsOf entries := by
  have hexpected : ∀ p ∈ front ++ patternsPair entries :: back, AppConfig.loader.Expected p := by
    intro p hp
    rcases List.mem_append.mp hp with hp | hp
    · exact (hfront p hp).expected
    · rcases List.mem_cons.mp hp with rfl | hp
      · exact patternsPair_expected
      · exact (hback p hp).expected
  have hplain : ∀ p ∈ front ++ patternsPair entries :: back,
      AppConfig.loader.recognised p = false → AppConfig.loader.Plain p := by
    intro p hp
    rcases List.mem_append.mp hp with hp | hp
    · exact (hfront p hp).plain
    · rcases List.mem_cons.mp hp with rfl | hp
      · exact nofun
      · exact (hback p hp).plain
  obtain ⟨fuel, hload⟩ := Loader.loadConfigFile_document hexpected hplain
    (passes_once hfront hback hc)
  refine ⟨fuel, _, hload, ?_⟩
  -- No pair behind has patterns, so these are the last.
  have hlast : lastOf YamlPair.patternsOf (front ++ patternsPair entries :: back) =
      some (entries.map ofTexts) := lastOf_append_cons rfl fun p hp => (hback p hp).patternsOf
  rw [AppConfig.applied_eq]
  show ((lastOf YamlPair.patternsOf (front ++ patternsPair entries :: back)).map _).getD _ = _
  rw [hlast]
  exact map_contextOf

/-- Once the mappings are read, the file can go on in any way: a loader that returns has their
contexts. -/
theorem keeps_contexts {rest : List YamlEvent} {fails : Bool} {c : AppConfig}
    (hentries : entries ≠ []) {n m : Nat} {c₁ c₂ : AppConfig} {parser : YamlParser}
    (hpick : AppConfig.loader.pickGlobal n
      ⟨pairsEvents [patternsPair entries] ++ rest, fails⟩ c = .ok (c₁, parser))
    (hload : AppConfig.loader.loadLoop m parser c₁ = .ok c₂) :
    c₂.aggregateContextList = contextsOf entries := by
  -- The loop goes on with the contexts of the mappings.
  have hends : Ends (fun n => AppConfig.loader.pickGlobal n
      ⟨pairsEvents [patternsPair entries] ++ rest, fails⟩ c) (fun q => q = (c₁, parser)) :=
    ⟨n, _, hpick, rfl⟩
  rw [pairsEvents_cons, pairsEvents_nil, List.append_nil, List.append_assoc,
    AppConfig.loader.ends_pickGlobal_apply_iff patternsPair_expected rfl] at hends
  obtain ⟨-, k, _, hrest, rfl⟩ := hends
  have hcontexts := apply_patternsPair entries c
  have hne : (AppConfig.loader.apply c (patternsPair entries)).aggregateContextList ≠ [] := by
    rw [hcontexts]
    exact fun h => hentries (List.map_eq_nil_iff.mp h)
  -- From here on the assertion keeps them.
  have hkeep : c₁.aggregateContextList =
      (AppConfig.loader.apply c (patternsPair entries)).aggregateContextList :=
    Loader.pickGlobal_keeps rfl hne hrest
  have hne₁ : c₁.aggregateContextList ≠ [] := by
    rw [hkeep]
    exact hne
  have hkeep₁ : c₂.aggregateContextList = c₁.aggregateContextList :=
    Loader.loadLoop_keeps rfl hne₁ hload
  rw [hkeep₁, hkeep, hcontexts]

/-! ### The list in memory -/

/-- The nodes after `patterns` is read, and what a walk along them finds. -/
theorem nodes_hold_contexts (entries : List (List (Bytes × Bytes))) {ι : Type} [DecidableEq ι]
    {malloc : Nat → ι}
    (hinjective : Function.Injective malloc) {nodes : Nodes ι PickedContext}
    (hfree : ∀ k, nodes (malloc k) = none) (rest : List YamlEvent) (fails : Bool) :
    ∃ fuel q nodes', pickContexts malloc fuel
      ⟨(sequence (entries.map ofTexts)).events ++ rest, fails⟩ nodes =
        .ok (q, nodes', ⟨rest, fails⟩) ∧ nodes'.Holds q (contextsOf entries) := by
  have hends : Ends (fun n => AppConfig.loader.pickPatterns n
      ⟨(sequence (entries.map ofTexts)).events ++ rest, fails⟩ []) fun q =>
        q = (((entries.map ofTexts).map AppConfig.loader.entryOf).reverse, ⟨rest, fails⟩) :=
    (AppConfig.loader.ends_pickPatterns_iff entries _).mpr rfl
  obtain ⟨fuel, _, hpick, rfl⟩ := hends
  obtain ⟨q, nodes', hcontexts, hholds⟩ := pickContexts_holds hinjective hfree hpick
  refine ⟨fuel, q, nodes', hcontexts, ?_⟩
  have hentries : (entries.map ofTexts).map AppConfig.loader.entryOf = contextsOf entries := by
    rw [List.map_map]
    exact List.map_congr_left fun texts _ => AppConfig.entryOf_eq _
  rw [List.reverse_reverse, hentries] at hholds
  exact hholds

end

/-! ### The search -/

/-- `find?` gives the first match in the order of the list. -/
theorem find_firstMatch (fnmatch : Bytes → Bytes → Bool) (fname : Bytes)
    (contexts : List PickedContext) :
    FirstMatch fnmatch fname contexts (contexts.find? (matchesName fnmatch fname)) := by
  cases hfind : contexts.find? (matchesName fnmatch fname) with
  | none =>
    intro cxt hmem
    simpa using List.find?_eq_none.mp hfind cxt hmem
  | some cxt =>
    obtain ⟨hmatches, front, back, heq, hnone⟩ := List.find?_eq_some_iff_append.mp hfind
    exact ⟨front, back, heq, hmatches, fun c hc => by simpa using hnone c hc⟩

/-- The search of the handlers, over the contexts as they see them. -/
theorem findAggregateContext_eq {cfg : Config} {contexts : List PickedContext}
    (hcfg : cfg.contexts = contexts.filterMap PickedContext.toContext) (fname : Bytes) :
    findAggregateContext cfg fname =
      (contexts.find? (matchesName cfg.fnmatch fname)).bind PickedContext.toContext := by
  rw [findAggregateContext, hcfg]
  clear hcfg
  induction contexts with
  | nil => rfl
  | cons cxt contexts ih =>
    cases hpath : cxt.path with
    | none =>
      -- A context without a path is left out of both lists, and never matches.
      have hnone : cxt.toContext = none := by
        rw [PickedContext.toContext, hpath]
        rfl
      have hmatches : matchesName cfg.fnmatch fname cxt = false := by
        rw [matchesName, hpath]
        rfl
      rw [List.filterMap_cons_none hnone, List.find?_cons_of_neg (by simp [hmatches])]
      exact ih
    | some path =>
      have hsome : cxt.toContext =
          some ⟨path, cxt.fTimestamp, cxt.fSeparate, cxt.fMerge⟩ := by
        rw [PickedContext.toContext, hpath]
        rfl
      have hmatches : matchesName cfg.fnmatch fname cxt = cfg.fnmatch path fname := by
        rw [matchesName, hpath]
        rfl
      rw [List.filterMap_cons_some hsome]
      cases hfound : cfg.fnmatch path fname with
      | true =>
        rw [List.find?_cons_of_pos (p := fun c : ScAggregateContext => cfg.fnmatch c.path fname)
          hfound, List.find?_cons_of_pos (hmatches.trans hfound)]
        exact hsome.symm
      | false =>
        rw [List.find?_cons_of_neg (by simp [hfound]),
          List.find?_cons_of_neg (by simp [hmatches, hfound])]
        exact ih

/-! ### From the file to the search -/

/-- A mapping with a path gives a context with one. -/
theorem path_isSome {entries : List (List (Bytes × Bytes))}
    (hpath : ∀ texts ∈ entries, ∃ t ∈ texts, cstr t.1 = ascii "path") :
    ∀ cxt ∈ contextsOf entries, cxt.path.isSome := by
  intro cxt hcxt
  obtain ⟨texts, hmem, rfl⟩ := List.mem_map.mp hcxt
  obtain ⟨t, ht, hkey⟩ := hpath texts hmem
  rw [Option.isSome_iff_ne_none]
  intro hnone
  have hlast : lastOf (YamlPair.valueOf [ascii "path"]) (textPairs texts) = none := hnone
  have hpair := lastOf_eq_none_iff.mp hlast _ (List.mem_map.mpr ⟨t, ht, rfl⟩)
  rw [YamlPair.valueOf, if_pos (List.mem_singleton.mpr hkey)] at hpair
  cases hpair

/-- Patterns that are given once, with a path in each mapping. A file with other pairs around them
is loaded with one context for each mapping, in the order of the file. Whatever comes behind them
in another file, a loader that returns has these contexts. The list in memory holds them, and a
walk along it, like the search of the handlers, takes the first that matches. -/
theorem contexts_first_match (entries : List (List (Bytes × Bytes)))
    (hpath : ∀ texts ∈ entries, ∃ t ∈ texts, cstr t.1 = ascii "path") :
    (∀ front back c, (∀ p ∈ front, Beside p) → (∀ p ∈ back, Beside p) →
      c.aggregateContextList = [] →
      ∃ fuel c', loadConfigFile fuel
        (some ⟨document (pairsEvents (front ++ patternsPair entries :: back)), false⟩) c =
          .ok (0, c') ∧ c'.aggregateContextList = contextsOf entries) ∧
    (entries ≠ [] → ∀ rest fails c n c₁ parser m c₂,
      AppConfig.loader.pickGlobal n ⟨pairsEvents [patternsPair entries] ++ rest, fails⟩ c =
        .ok (c₁, parser) → AppConfig.loader.loadLoop m parser c₁ = .ok c₂ →
      c₂.aggregateContextList = contextsOf entries) ∧
    (∀ (ι : Type) [DecidableEq ι] (malloc : Nat → ι) (nodes : Nodes ι PickedContext) rest fails,
      Function.Injective malloc → (∀ k, nodes (malloc k) = none) →
      ∃ fuel q nodes', pickContexts malloc fuel
        ⟨(sequence (entries.map ofTexts)).events ++ rest, fails⟩ nodes =
          .ok (q, nodes', ⟨rest, fails⟩) ∧ nodes'.Holds q (contextsOf entries) ∧
        ∀ fnmatch fname, ∃ m cxt, findContext fnmatch fname m nodes' q = .ok cxt ∧
          FirstMatch fnmatch fname (contextsOf entries) cxt) ∧
    ∀ cfg fname, cfg.contexts = (contextsOf entries).filterMap PickedContext.toContext →
      ∃ cxt, findAggregateContext cfg fname = cxt.bind PickedContext.toContext ∧
        FirstMatch cfg.fnmatch fname (contextsOf entries) cxt := by
  refine ⟨?_, ?_, ?_, ?_⟩
  · intro front back c hfront hback hc
    exact loads_contexts hfront hback hc
  · intro hentries rest fails c n c₁ parser m c₂ hpick hload
    exact keeps_contexts hentries hpick hload
  · intro ι _ malloc nodes rest fails hinjective hfree
    obtain ⟨fuel, q, nodes', hpick, hholds⟩ :=
      nodes_hold_contexts entries hinjective hfree rest fails
    refine ⟨fuel, q, nodes', hpick, hholds, ?_⟩
    intro fnmatch fname
    exact ⟨_, _, findContext_holds hholds (path_isSome hpath) (Nat.lt_succ_self _),
      find_firstMatch fnmatch fname _⟩
  · intro cfg fname hcfg
    exact ⟨_, findAggregateContext_eq hcfg fname, find_firstMatch cfg.fnmatch fname _⟩

/-- `path: /var/*` with `mode: merge`, and `path: /*` behind it. -/
def twoPatterns : List (List (Bytes × Bytes)) :=
  [[(ascii "path", ascii "/var/*"), (ascii "mode", ascii "merge")], [(ascii "path", ascii "/*")]]

/-- Of two patterns that both match, the first of the file is first in the list. -/
theorem contexts_first_match_two :
    ∃ fuel c', loadConfigFile fuel
      (some ⟨document (pairsEvents [patternsPair twoPatterns]), false⟩) .init = .ok (0, c') ∧
        c'.aggregateContextList =
          [⟨some (ascii "/var/*"), none, true, false, false, true⟩,
            ⟨some (ascii "/*"), none, true, false, true, true⟩] := by
  have hpath : ∀ texts ∈ twoPatterns, ∃ t ∈ texts, cstr t.1 = ascii "path" := by decide
  obtain ⟨fuel, c', hload, hcontexts⟩ :=
    (contexts_first_match twoPatterns hpath).1 [] [] .init nofun nofun rfl
  exact ⟨fuel, c', hload, hcontexts.trans (by decide)⟩

end Compostela.Aggregator
