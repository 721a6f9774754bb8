import Compostela.Aggregator.AppConfig
import Compostela.Common.ConfigNodes
import Compostela.Follower.AppConfig

/-!
# `Compostela.Proofs.LastSettings`: the last occurrence of a key counts

What the settings of a file should be, for each program: the value of the last pair with a key, or
the value from before when no pair has it. `applied_eq` and `entryOf_eq` say that this is what the
recognised pairs set one after another.
-/

set_option autoImplicit false

namespace Compostela.Follower.AppConfig

open Compostela.Common
open Compostela.LastWrite
open Compostela.Memory
open YamlPair

attribute [ext] PatternEntry AppConfig

/-- The entry of a mapping. -/
def patternEntryOf (item : YamlNode) : PatternEntry where
  path := lastOf (valueOf [ascii "path"]) item.pairs
  displayName := lastOf (valueOf [ascii "displayName"]) item.pairs
  rotate :=
    ((lastOf (valueOf [ascii "rotate"]) item.pairs).map (strcasecmp · (ascii "true"))).getD false
  appendTimestamp :=
    ((lastOf (valueOf [ascii "timestamp"]) item.pairs).map (strcasecmp · (ascii "true"))).getD false

/-- The globals of the outermost mapping. `waiting` is another word for `waitingSeconds`, and the
last mapping of the last `patterns` comes first. -/
def settingsOf (pairs : List YamlPair) (c : AppConfig) : AppConfig where
  serverAddress := (lastOf (valueOf [ascii "server"]) pairs).or c.serverAddress
  serverPort := ((lastOf (valueOf [ascii "port"]) pairs).map strtoulInt).getD c.serverPort
  waitingSeconds :=
    ((lastOf (valueOf [ascii "waitingSeconds", ascii "waiting"]) pairs).map strtoulInt).getD
      c.waitingSeconds
  controlPath := (lastOf (valueOf [ascii "controlPath"]) pairs).or c.controlPath
  patterns :=
    ((lastOf patternsOf pairs).map fun items => (items.map patternEntryOf).reverse).getD c.patterns

/-- The entry after a pair, field by field. -/
theorem setEntry_eq (entry : PatternEntry) (pair : YamlPair) :
    loader.setEntry entry pair =
      { path := (valueOf [ascii "path"] pair).or entry.path
        displayName := (valueOf [ascii "displayName"] pair).or entry.displayName
        rotate :=
          ((valueOf [ascii "rotate"] pair).map (strcasecmp · (ascii "true"))).getD entry.rotate
        appendTimestamp :=
          ((valueOf [ascii "timestamp"] pair).map (strcasecmp · (ascii "true"))).getD
            entry.appendTimestamp } := by
  obtain ⟨key, value⟩ := pair
  match key, value with
  | .scalar key, .scalar text =>
    simp only [Loader.setEntry, loader, entryKey, valueOf, List.mem_singleton]
    -- One of the keys, or none: two of them are never the same.
    split_ifs <;> simp_all +decide
  | .scalar _, .aliased => rfl
  | .scalar _, .sequence _ => rfl
  | .scalar _, .mapping _ => rfl
  | .aliased, _ => rfl
  | .sequence _, _ => rfl
  | .mapping _, _ => rfl

/-- The entry that the loader makes of a pattern is the one that its last values describe. -/
theorem entryOf_eq (item : YamlNode) : loader.entryOf item = patternEntryOf item := by
  show List.foldl loader.setEntry ⟨none, none, false, false⟩ item.pairs = _
  apply PatternEntry.ext
  · refine Eq.trans ?_ Option.or_none
    exact foldl_field_or PatternEntry.path (fun s x => by rw [setEntry_eq]) _ _
  · refine Eq.trans ?_ Option.or_none
    exact foldl_field_or PatternEntry.displayName (fun s x => by rw [setEntry_eq]) _ _
  · exact foldl_field PatternEntry.rotate (fun s x => by rw [setEntry_eq]) _ _
  · exact foldl_field PatternEntry.appendTimestamp (fun s x => by rw [setEntry_eq]) _ _

/-- The globals after a pair, field by field. -/
theorem apply_eq (c : AppConfig) (pair : YamlPair) :
    loader.apply c pair =
      { serverAddress := (valueOf [ascii "server"] pair).or c.serverAddress
        serverPort := ((valueOf [ascii "port"] pair).map strtoulInt).getD c.serverPort
        waitingSeconds :=
          ((valueOf [ascii "waitingSeconds", ascii "waiting"] pair).map strtoulInt).getD
            c.waitingSeconds
        controlPath := (valueOf [ascii "controlPath"] pair).or c.controlPath
        patterns :=
          ((patternsOf pair).map fun items => (items.map patternEntryOf).reverse).getD
            c.patterns } := by
  obtain ⟨key, value⟩ := pair
  match key, value with
  | .scalar key, .scalar text =>
    simp only [Loader.apply, loader, globalKey, valueOf, patternsOf, List.mem_cons]
    split_ifs <;> simp_all +decide
  | .scalar key, .sequence items =>
    have hentries : items.map loader.entryOf = items.map patternEntryOf :=
      List.map_congr_left fun item _ => entryOf_eq item
    simp only [Loader.apply, valueOf, patternsOf, hentries]
    by_cases hkey : cstr key = PATTERNS
    · simp only [hkey]
      rfl
    · rw [if_neg fun h => hkey h.2, if_neg hkey]
      rfl
  | .scalar _, .aliased => rfl
  | .scalar _, .mapping _ => rfl
  | .aliased, _ => rfl
  | .sequence _, _ => rfl
  | .mapping _, _ => rfl

/-- The globals that the loader sets are the last values of the keys. -/
theorem applied_eq (pairs : List YamlPair) (c : AppConfig) :
    loader.applied pairs c = settingsOf pairs c := by
  show List.foldl loader.apply c pairs = _
  apply AppConfig.ext
  · exact foldl_field_or AppConfig.serverAddress (fun s x => by rw [apply_eq]) _ _
  · exact foldl_field AppConfig.serverPort (fun s x => by rw [apply_eq]) _ _
  · exact foldl_field AppConfig.waitingSeconds (fun s x => by rw [apply_eq]) _ _
  · exact foldl_field_or AppConfig.controlPath (fun s x => by rw [apply_eq]) _ _
  · exact foldl_field AppConfig.patterns (fun s x => by rw [apply_eq]) _ _

end Compostela.Follower.AppConfig

namespace Compostela.Aggregator.AppConfig

open Compostela.Common
open Compostela.LastWrite
open Compostela.Memory
open YamlPair

attribute [ext] PickedContext AppConfig

/-- `f_separate` and `f_merge`, for the three values of `mode`. -/
def flagsOf (v : Bytes) : Option (Bool × Bool) :=
  if strcasecmp v (ascii "both") then some (true, true)
  else if strcasecmp v (ascii "separate") then some (true, false)
  else if strcasecmp v (ascii "merge") then some (false, true)
  else none

/-- The two flags, when the key is `mode` and the value one of the three. -/
def modeOf (pair : YamlPair) : Option (Bool × Bool) := (valueOf [ascii "mode"] pair).bind flagsOf

/-- The context of a mapping. -/
def contextOf (item : YamlNode) : PickedContext where
  path := lastOf (valueOf [ascii "path"]) item.pairs
  displayName := lastOf (valueOf [ascii "displayName"]) item.pairs
  fRotate :=
    ((lastOf (valueOf [ascii "rotate"]) item.pairs).map (strcasecmp · (ascii "true"))).getD true
  fTimestamp :=
    ((lastOf (valueOf [ascii "timestamp"]) item.pairs).map (strcasecmp · (ascii "true"))).getD false
  fSeparate := ((lastOf modeOf item.pairs).map Prod.fst).getD true
  fMerge := ((lastOf modeOf item.pairs).map Prod.snd).getD true

/-- The globals of the outermost mapping. The contexts are in the order of the file. -/
def settingsOf (pairs : List YamlPair) (c : AppConfig) : AppConfig where
  serverLogdir := (lastOf (valueOf [ascii "logdir"]) pairs).or c.serverLogdir
  serverPort := ((lastOf (valueOf [ascii "port"]) pairs).map strtoulInt).getD c.serverPort
  hostnameLookups :=
    ((lastOf (valueOf [ascii "hostnameLookups"]) pairs).map fun v =>
      decide (v = ascii "true")).getD c.hostnameLookups
  aggregateContextList :=
    ((lastOf patternsOf pairs).map fun items => items.map contextOf).getD c.aggregateContextList

/-- `mode` sets the flags that its text names, and leaves them when it names none. -/
theorem setMode_eq (v : Bytes) (cxt : PickedContext) :
    setMode v cxt =
      { cxt with
        fSeparate := ((flagsOf v).map Prod.fst).getD cxt.fSeparate
        fMerge := ((flagsOf v).map Prod.snd).getD cxt.fMerge } := by
  unfold setMode flagsOf
  split_ifs <;> rfl

/-- The context after a pair, field by field. -/
theorem setEntry_eq (cxt : PickedContext) (pair : YamlPair) :
    loader.setEntry cxt pair =
      { path := (valueOf [ascii "path"] pair).or cxt.path
        displayName := (valueOf [ascii "displayName"] pair).or cxt.displayName
        fRotate :=
          ((valueOf [ascii "rotate"] pair).map (strcasecmp · (ascii "true"))).getD cxt.fRotate
        fTimestamp :=
          ((valueOf [ascii "timestamp"] pair).map (strcasecmp · (ascii "true"))).getD cxt.fTimestamp
        fSeparate := ((modeOf pair).map Prod.fst).getD cxt.fSeparate
        fMerge := ((modeOf pair).map Prod.snd).getD cxt.fMerge } := by
  obtain ⟨key, value⟩ := pair
  match key, value with
  | .scalar key, .scalar text =>
    simp only [Loader.setEntry, loader, entryKey, valueOf, modeOf, List.mem_singleton]
    split_ifs <;> simp_all +decide [setMode_eq]
  | .scalar _, .aliased => rfl
  | .scalar _, .sequence _ => rfl
  | .scalar _, .mapping _ => rfl
  | .aliased, _ => rfl
  | .sequence _, _ => rfl
  | .mapping _, _ => rfl

/-- The context that the loader makes of a pattern is the one that its last values describe. -/
theorem entryOf_eq (item : YamlNode) : loader.entryOf item = contextOf item := by
  show List.foldl loader.setEntry ⟨none, none, true, false, true, true⟩ item.pairs = _
  apply PickedContext.ext
  · refine Eq.trans ?_ Option.or_none
    exact foldl_field_or PickedContext.path (fun s x => by rw [setEntry_eq]) _ _
  · refine Eq.trans ?_ Option.or_none
    exact foldl_field_or PickedContext.displayName (fun s x => by rw [setEntry_eq]) _ _
  · exact foldl_field PickedContext.fRotate (fun s x => by rw [setEntry_eq]) _ _
  · exact foldl_field PickedContext.fTimestamp (fun s x => by rw [setEntry_eq]) _ _
  · exact foldl_field PickedContext.fSeparate (fun s x => by rw [setEntry_eq]) _ _
  · exact foldl_field PickedContext.fMerge (fun s x => by rw [setEntry_eq]) _ _

/-- The globals after a pair, field by field. -/
theorem apply_eq (c : AppConfig) (pair : YamlPair) :
    loader.apply c pair =
      { serverLogdir := (valueOf [ascii "logdir"] pair).or c.serverLogdir
        serverPort := ((valueOf [ascii "port"] pair).map strtoulInt).getD c.serverPort
        hostnameLookups :=
          ((valueOf [ascii "hostnameLookups"] pair).map fun v => decide (v = ascii "true")).getD
            c.hostnameLookups
        aggregateContextList :=
          ((patternsOf pair).map fun items => items.map contextOf).getD
            c.aggregateContextList } := by
  obtain ⟨key, value⟩ := pair
  match key, value with
  | .scalar key, .scalar text =>
    simp only [Loader.apply, loader, globalKey, valueOf, patternsOf, List.mem_singleton]
    split_ifs <;> simp_all +decide
  | .scalar key, .sequence items =>
    have hentries : items.map loader.entryOf = items.map contextOf :=
      List.map_congr_left fun item _ => entryOf_eq item
    simp only [Loader.apply, valueOf, patternsOf, hentries]
    by_cases hkey : cstr key = PATTERNS
    · have hturned : (loader.setPatterns (items.map contextOf).reverse c).aggregateContextList =
          items.map contextOf := List.reverse_reverse _
      simp only [hkey]
      exact AppConfig.ext rfl rfl rfl hturned
    · rw [if_neg fun h => hkey h.2, if_neg hkey]
      rfl
  | .scalar _, .aliased => rfl
  | .scalar _, .mapping _ => rfl
  | .aliased, _ => rfl
  | .sequence _, _ => rfl
  | .mapping _, _ => rfl

/-- The globals that the loader sets are the last values of the keys. -/
theorem applied_eq (pairs : List YamlPair) (c : AppConfig) :
    loader.applied pairs c = settingsOf pairs c := by
  show List.foldl loader.apply c pairs = _
  apply AppConfig.ext
  · exact foldl_field_or AppConfig.serverLogdir (fun s x => by rw [apply_eq]) _ _
  · exact foldl_field AppConfig.serverPort (fun s x => by rw [apply_eq]) _ _
  · exact foldl_field AppConfig.hostnameLookups (fun s x => by rw [apply_eq]) _ _
  · exact foldl_field AppConfig.aggregateContextList (fun s x => by rw [apply_eq]) _ _

end Compostela.Aggregator.AppConfig
