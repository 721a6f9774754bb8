import Compostela.Common.ConfigFile

/-!
# `Compostela.Aggregator.AppConfig`: the configuration of the aggregator

`aggregator/appconfig.c`. The loader asserts that there is no list of contexts when it comes to
the `patterns` of the file, and turns the list around that it has read.
-/

set_option autoImplicit false

namespace Compostela.Aggregator

open Compostela.Common
open Compostela.Memory

/-- `sc_aggregate_context`, as the loader fills it. -/
structure PickedContext where
  path : Option Bytes
  displayName : Option Bytes
  fRotate : Bool
  fTimestamp : Bool
  fSeparate : Bool
  fMerge : Bool
  deriving DecidableEq, Repr

/-- The globals that start with `g_config_`, without `g_config_server_addr`, which nothing
sets. -/
structure AppConfig where
  serverLogdir : Option Bytes
  serverPort : Int
  hostnameLookups : Bool
  aggregateContextList : List PickedContext
  deriving DecidableEq, Repr

namespace AppConfig

/-- The values that the globals are defined with. -/
def init : AppConfig where
  serverLogdir := none
  serverPort := 0
  hostnameLookups := false
  aggregateContextList := []

/-- The three values of `mode`. Another value changes nothing. -/
def setMode (v : Bytes) (cxt : PickedContext) : PickedContext :=
  if strcasecmp v (ascii "both") then { cxt with fSeparate := true, fMerge := true }
  else if strcasecmp v (ascii "separate") then { cxt with fSeparate := true, fMerge := false }
  else if strcasecmp v (ascii "merge") then { cxt with fSeparate := false, fMerge := true }
  else cxt

/-- The keys of `_pick_aggregate_context`. -/
def entryKey (key : Bytes) : Option (Bytes → PickedContext → PickedContext) :=
  if key = ascii "path" then some fun v cxt => { cxt with path := some v }
  else if key = ascii "displayName" then some fun v cxt => { cxt with displayName := some v }
  else if key = ascii "rotate" then
    some fun v cxt => { cxt with fRotate := strcasecmp v (ascii "true") }
  else if key = ascii "timestamp" then
    some fun v cxt => { cxt with fTimestamp := strcasecmp v (ascii "true") }
  else if key = ascii "mode" then some setMode
  else none

/-- The keys of `_pick_global`, `patterns` apart. `hostnameLookups` is compared by `strcmp`, for
which `True` is another text than `true`. -/
def globalKey (key : Bytes) : Option (Bytes → AppConfig → AppConfig) :=
  if key = ascii "logdir" then some fun v c => { c with serverLogdir := some v }
  else if key = ascii "port" then some fun v c => { c with serverPort := strtoulInt v }
  else if key = ascii "hostnameLookups" then
    some fun v c => { c with hostnameLookups := v = ascii "true" }
  else none

/-- No key but `patterns` sets the contexts. -/
theorem contexts_globalKey {key : Bytes} {set : Bytes → AppConfig → AppConfig}
    (h : globalKey key = some set) (value : Bytes) (c : AppConfig) :
    (set value c).aggregateContextList = c.aggregateContextList := by
  unfold globalKey at h
  split_ifs at h
  all_goals
    cases h
    rfl

/-- The list is put in the order of the file. -/
def loader : Loader PickedContext AppConfig where
  newEntry := ⟨none, none, true, false, true, true⟩
  entryKey := entryKey
  globalKey := globalKey
  patterns := aggregateContextList
  setPatterns li c := { c with aggregateContextList := li.reverse }
  once := true
  patterns_globalKey := contexts_globalKey
  isEmpty_setPatterns _ _ := List.isEmpty_reverse

end AppConfig

/-- `load_config_file`. -/
def loadConfigFile (fuel : Nat) (file : Option YamlParser) (c : AppConfig) :
    Except Trap (Int × AppConfig) := AppConfig.loader.loadConfigFile fuel file c

end Compostela.Aggregator
