import Compostela.Common.ConfigFile

/-!
# `Compostela.Follower.AppConfig`: the configuration of the follower

`follower/appconfig.c`. A pattern entry and the globals start from the values below, and every
key that the loader knows sets one of them. An entry without a `path` has a null pointer there.
-/

set_option autoImplicit false

namespace Compostela.Follower

open Compostela.Common
open Compostela.Memory

/-- `sc_config_pattern_entry`, as the loader fills it. -/
structure PatternEntry where
  path : Option Bytes
  displayName : Option Bytes
  rotate : Bool
  appendTimestamp : Bool
  deriving DecidableEq, Repr

/-- The globals that start with `g_config_`. -/
structure AppConfig where
  serverAddress : Option Bytes
  serverPort : Int
  waitingSeconds : Int
  controlPath : Option Bytes
  patterns : List PatternEntry
  deriving DecidableEq, Repr

namespace AppConfig

/-- The values that the globals are defined with. -/
def init : AppConfig where
  serverAddress := none
  serverPort := 0
  waitingSeconds := 1
  controlPath := none
  patterns := []

/-- The keys of `_pick_pattern_entry`. -/
def entryKey (key : Bytes) : Option (Bytes → PatternEntry → PatternEntry) :=
  if key = ascii "path" then some fun v entry => { entry with path := some v }
  else if key = ascii "displayName" then some fun v entry => { entry with displayName := some v }
  else if key = ascii "rotate" then
    some fun v entry => { entry with rotate := strcasecmp v (ascii "true") }
  else if key = ascii "timestamp" then
    some fun v entry => { entry with appendTimestamp := strcasecmp v (ascii "true") }
  else none

/-- The keys of `_pick_global`, `patterns` apart. -/
def globalKey (key : Bytes) : Option (Bytes → AppConfig → AppConfig) :=
  if key = ascii "server" then some fun v c => { c with serverAddress := some v }
  else if key = ascii "port" then some fun v c => { c with serverPort := strtoulInt v }
  else if key = ascii "controlPath" then some fun v c => { c with controlPath := some v }
  else if key = ascii "waitingSeconds" ∨ key = ascii "waiting" then
    some fun v c => { c with waitingSeconds := strtoulInt v }
  else none

/-- No key but `patterns` sets the patterns. -/
theorem patterns_globalKey {key : Bytes} {set : Bytes → AppConfig → AppConfig}
    (h : globalKey key = some set) (value : Bytes) (c : AppConfig) :
    (set value c).patterns = c.patterns := by
  unfold globalKey at h
  split_ifs at h
  all_goals
    cases h
    rfl

/-- The follower takes the list as `az_list_add` left it, in the place of an older one. -/
def loader : Loader PatternEntry AppConfig where
  newEntry := ⟨none, none, false, false⟩
  entryKey := entryKey
  globalKey := globalKey
  patterns := AppConfig.patterns
  setPatterns li c := { c with patterns := li }
  once := false
  patterns_globalKey := patterns_globalKey
  isEmpty_setPatterns _ _ := rfl

end AppConfig

/-- `load_config_file`. -/
def loadConfigFile (fuel : Nat) (file : Option YamlParser) (c : AppConfig) :
    Except Trap (Int × AppConfig) := AppConfig.loader.loadConfigFile fuel file c

end Compostela.Follower
