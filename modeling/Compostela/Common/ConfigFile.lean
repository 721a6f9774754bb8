import Compostela.Common.AzList
import Compostela.Common.Supports
import Compostela.Lib.Fuel

/-!
# `Compostela.Common.ConfigFile`: the loops of `load_config_file`

`follower/appconfig.c` and `aggregator/appconfig.c` read their files with the same four loops,
which hand the parser to one another. A `Loader` has what differs: the keys, and the values
that they set.

The parser delivers the events of the file. After the last one comes an error, when the file has
a fault there, and then nothing but empty events. `Loader.pickEntry`, `Loader.pickPatterns`,
`Loader.pickGlobal` and `Loader.loadLoop` ask it for events. Each of them has a budget, and a loop
that goes on forever is one that no budget is large enough for.
-/

set_option autoImplicit false

namespace Compostela.Common

open Compostela.Fuel
open Compostela.Memory

/-- `tolower`, in the C locale. -/
def toLower (b : UInt8) : UInt8 := if 65 ≤ b ∧ b ≤ 90 then b + 32 else b

/-- `strcasecmp`, as its result compared with zero. -/
def strcasecmp (s t : Bytes) : Bool := (cstr s).map toLower = (cstr t).map toLower

/-- `isspace`, in the C locale. -/
def isSpace (b : UInt8) : Bool := b = 32 ∨ 9 ≤ b ∧ b ≤ 13

/-- `isdigit`. -/
def isDigit (b : UInt8) : Bool := 48 ≤ b ∧ b ≤ 57

/-- The number that the digits at the front of `s` are. -/
def decimal (s : Bytes) : Nat := (s.takeWhile isDigit).foldl (fun n d => 10 * n + (d.toNat - 48)) 0

/-- `strtoul(s, NULL, 10)`. A number that does not fit becomes the largest one. -/
def strtoul (s : Bytes) : BitVec 64 :=
  let signed := (cstr s).dropWhile isSpace
  let digits := if signed.head? = some 45 ∨ signed.head? = some 43 then signed.drop 1 else signed
  if 2 ^ 64 ≤ decimal digits then BitVec.allOnes 64
  else if signed.head? = some 45 then -BitVec.ofNat 64 (decimal digits)
  else BitVec.ofNat 64 (decimal digits)

/-- `strtoul`, assigned to an `int`. -/
def strtoulInt (s : Bytes) : Int := ((strtoul s).setWidth 32).toInt

example : strtoulInt (ascii " +8021x") = 8021 := by decide

/-! ### The parser -/

/-- `yaml_event_type_t`. Only the text of a scalar is read from an event. -/
inductive YamlEvent
  | noEvent
  | streamStart
  | streamEnd
  | documentStart
  | documentEnd
  | aliased
  | scalar (value : Bytes)
  | sequenceStart
  | sequenceEnd
  | mappingStart
  | mappingEnd
  deriving DecidableEq, Repr

/-- `event.data.scalar.value`. In an event of another type a null or an invalid pointer stands
there. -/
def YamlEvent.scalarValue : YamlEvent → Except Trap Bytes
  | .scalar value => .ok (cstr value)
  | _ => .error .nullDeref

/-- What is left in the parser: the events to come, and whether an error comes after them. -/
structure YamlParser where
  events : List YamlEvent
  fails : Bool
  deriving DecidableEq, Repr

namespace YamlParser

/-- `yaml_parser_parse`: an event, or nothing for an error. -/
def parse : YamlParser → Option YamlEvent × YamlParser
  | ⟨event :: events, fails⟩ => (some event, ⟨events, fails⟩)
  | ⟨[], true⟩ => (none, ⟨[], false⟩)
  | ⟨[], false⟩ => (some .noEvent, ⟨[], false⟩)

/-- The parser gives the events in order. -/
@[simp] theorem parse_cons (event : YamlEvent) (events : List YamlEvent) (fails : Bool) :
    parse ⟨event :: events, fails⟩ = (some event, ⟨events, fails⟩) := rfl

/-- Where the text is broken the parser fails, once. -/
@[simp] theorem parse_failed : parse ⟨[], true⟩ = (none, ⟨[], false⟩) := rfl

/-- Behind the last event the parser gives `NO_EVENT`, again and again. -/
@[simp] theorem parse_finished : parse ⟨[], false⟩ = (some .noEvent, ⟨[], false⟩) := rfl

end YamlParser

/-! ### The loops -/

/-- `"patterns"`. -/
def PATTERNS : Bytes := ascii "patterns"

/-- What a program has of its own: the entries `ε` of its patterns and its globals `γ`, with the
keys of both. `once` says that the program asserts that no patterns are there yet. -/
structure Loader (ε γ : Type) where
  newEntry : ε
  entryKey : Bytes → Option (Bytes → ε → ε)
  globalKey : Bytes → Option (Bytes → γ → γ)
  patterns : γ → List ε
  setPatterns : List ε → γ → γ
  once : Bool
  patterns_globalKey : ∀ {key : Bytes} {set : Bytes → γ → γ}, globalKey key = some set →
    ∀ value c, patterns (set value c) = patterns c
  isEmpty_setPatterns : ∀ li c, (patterns (setPatterns li c)).isEmpty = li.isEmpty

namespace Loader

section
variable {ε γ : Type} (L : Loader ε γ)

/-- The loop of `_pick_pattern_entry` and `_pick_aggregate_context`. A scalar is a key, and the
next event its value, whatever the key is. -/
def pickEntry : Nat → YamlParser → ε → Except Trap (ε × YamlParser)
  | 0, _, _ => .error .hangs
  | fuel + 1, parser, entry =>
      match parser.parse with
      | (none, parser) => .ok (entry, parser)
      | (some (.scalar key), parser) =>
          match parser.parse with
          | (none, parser) => .ok (entry, parser)
          | (some value, parser) =>
              match L.entryKey (cstr key) with
              | some set => do
                  let text ← value.scalarValue
                  pickEntry fuel parser (set text entry)
              -- The value of an unknown key has been parsed, and is dropped.
              | none => pickEntry fuel parser entry
      | (some .mappingEnd, parser) => .ok (entry, parser)
      | (some _, parser) => pickEntry fuel parser entry

/-- The loop of `_pick_patterns`. Its result does not tell an error from the end of the
sequence. -/
def pickPatterns : Nat → YamlParser → List ε → Except Trap (List ε × YamlParser)
  | 0, _, _ => .error .hangs
  | fuel + 1, parser, li =>
      match parser.parse with
      | (none, parser) => .ok (li, parser)
      | (some .sequenceEnd, parser) => .ok (li, parser)
      | (some .mappingStart, parser) => do
          let (entry, parser) ← L.pickEntry fuel parser L.newEntry
          pickPatterns fuel parser (azListAdd li entry)
      | (some _, parser) => pickPatterns fuel parser li

/-- The loop of `_pick_global`. The value of an unknown key is not read here: it is the next
event. The result is always `-1`, and the caller does not look at it. -/
def pickGlobal : Nat → YamlParser → γ → Except Trap (γ × YamlParser)
  | 0, _, _ => .error .hangs
  | fuel + 1, parser, c =>
      match parser.parse with
      | (none, parser) => .ok (c, parser)
      | (some (.scalar key), parser) =>
          match L.globalKey (cstr key) with
          | some set =>
              match parser.parse with
              | (none, parser) => .ok (c, parser)
              | (some value, parser) => do
                  let text ← value.scalarValue
                  pickGlobal fuel parser (set text c)
          | none =>
              if cstr key = PATTERNS then
                if L.once = true ∧ L.patterns c ≠ [] then .error .assertFailed
                else do
                  let (li, parser) ← L.pickPatterns fuel parser []
                  pickGlobal fuel parser (L.setPatterns li c)
              -- Only the key is skipped, its value is the next event.
              else pickGlobal fuel parser c
      -- Any event that is not a scalar ends the loop.
      | (some _, parser) => .ok (c, parser)

/-- The loop of `load_config_file`. -/
def loadLoop : Nat → YamlParser → γ → Except Trap γ
  | 0, _, _ => .error .hangs
  | fuel + 1, parser, c =>
      match parser.parse with
      | (none, _) => .ok c
      | (some .streamEnd, _) => .ok c
      | (some .mappingStart, parser) => do
          let (c, parser) ← L.pickGlobal fuel parser c
          loadLoop fuel parser c
      | (some _, parser) => loadLoop fuel parser c

/-- `load_config_file`, for the file of a name, if there is one. -/
def loadConfigFile (fuel : Nat) (file : Option YamlParser) (c : γ) : Except Trap (Int × γ) :=
  match file with
  | none => .ok (-1, c)
  | some parser => do
      let c ← L.loadLoop fuel parser c
      .ok (0, c)

end

end Loader

end Compostela.Common
