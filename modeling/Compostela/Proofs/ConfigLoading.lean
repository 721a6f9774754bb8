import Compostela.Aggregator.AppConfig
import Compostela.Follower.AppConfig

/-!
# `Compostela.Proofs.ConfigLoading`: which files are loaded to the end

Four loops read the events of a configuration file. `Position` says which of them reads the next
event, and `Position.next` moves from one event to the next, without the values that are read.

Only the outermost loop ends at the end of the stream. An inner loop that reads this event ends or
goes on, and the outermost one then waits for it in vain. It is the same with an error: an inner
loop that sees it returns, and the loops around it do not hear of it. So a file is loaded to the
end exactly when the end of the stream, or the error, comes to the outermost loop
(`Loader.returns_iff`).

* `Task.Returns`: what is left to do in a position ends.
* `returnsOuter_iff` to `returnsEntry_iff`: one turn of each loop.
* `Task.not_returns_finished`: no position is left once the parser delivers only empty events.
* `Task.returns_iff`: the events that are left, by induction on them.
-/

set_option autoImplicit false

namespace Compostela.Common

open Compostela.Fuel
open Compostela.Memory

/-- The loop that reads the next event. `globalValue` and `entryValue` come after a key. `filled`
says that the program has patterns, and in `patterns` that the sequence has an entry. -/
inductive Position
  | outer (filled : Bool)
  | global (filled : Bool)
  | globalValue (filled : Bool)
  | patterns (filled : Bool)
  | entry
  | entryValue (known : Bool)
  | loaded
  | trapped
  deriving DecidableEq, Repr

namespace Loader

section
variable {ε γ : Type} (L : Loader ε γ)

/-- The position after an event. The value of a known key has to be a scalar. -/
def next : Position → YamlEvent → Position
  | .outer _, .streamEnd => .loaded
  | .outer filled, .mappingStart => .global filled
  | .outer filled, _ => .outer filled
  | .global filled, .scalar key =>
      if (L.globalKey (cstr key)).isSome then .globalValue filled
      else if cstr key = PATTERNS then
        if L.once = true ∧ filled = true then .trapped else .patterns false
      else .global filled
  -- Every other event ends the loop, so a key that holds a sequence does.
  | .global filled, _ => .outer filled
  | .globalValue filled, .scalar _ => .global filled
  | .globalValue _, _ => .trapped
  | .patterns filled, .sequenceEnd => .global filled
  | .patterns _, .mappingStart => .entry
  -- No other event ends the loop: a scalar behind `patterns` leaves it waiting.
  | .patterns filled, _ => .patterns filled
  | .entry, .scalar key => .entryValue (L.entryKey (cstr key)).isSome
  | .entry, .mappingEnd => .patterns true
  | .entry, _ => .entry
  | .entryValue _, .scalar _ => .entry
  -- The value of an unknown key is dropped, whatever it is.
  | .entryValue false, _ => .entry
  | .entryValue true, _ => .trapped
  | .loaded, _ => .loaded
  | .trapped, _ => .trapped

/-- The outermost loop has read the end of the stream, or reads the error next. -/
def Settled (fails : Bool) : Position → Prop
  | .loaded => True
  | .outer _ => fails = true
  | _ => False

/-- The end of the file comes to the outermost loop, when the program starts with the globals
`c`. -/
def EndsOutside (parser : YamlParser) (c : γ) : Prop :=
  Settled parser.fails (parser.events.foldl L.next (.outer (!(L.patterns c).isEmpty)))

/-! ### Larger budgets -/

/-- With more fuel `_pick_pattern_entry` does not come to another end. -/
theorem increasing_pickEntry (parser : YamlParser) (entry : ε) :
    Increasing fun n => L.pickEntry n parser entry := by
  intro n
  induction n generalizing parser entry with
  | zero => exact .error _ _
  | succ n ih =>
    -- Only the branches that go on see the budget.
    simp only [pickEntry]
    split
    · exact .refl _
    · split
      · exact .refl _
      · split
        · exact Extends.bind (.refl _) fun _ => ih _ _
        · exact ih _ _
    · exact .refl _
    · exact ih _ _

/-- With more fuel `_pick_patterns` does not come to another end. -/
theorem increasing_pickPatterns (parser : YamlParser) (li : List ε) :
    Increasing fun n => L.pickPatterns n parser li := by
  intro n
  induction n generalizing parser li with
  | zero => exact .error _ _
  | succ n ih =>
    simp only [pickPatterns]
    split
    · exact .refl _
    · exact .refl _
    · exact Extends.bind (L.increasing_pickEntry _ _ n) fun _ => ih _ _
    · exact ih _ _

/-- With more fuel `_pick_global` does not come to another end. -/
theorem increasing_pickGlobal (parser : YamlParser) (c : γ) :
    Increasing fun n => L.pickGlobal n parser c := by
  intro n
  induction n generalizing parser c with
  | zero => exact .error _ _
  | succ n ih =>
    simp only [pickGlobal]
    -- The cases are the branches of the loop, in their order.
    split
    · exact .refl _
    · split
      · split
        · exact .refl _
        · exact Extends.bind (.refl _) fun _ => ih _ _
      · split
        · split
          · exact .refl _
          · exact Extends.bind (L.increasing_pickPatterns _ _ n) fun _ => ih _ _
        · exact ih _ _
    · exact .refl _

/-- With more fuel the loop of `load_config_file` does not come to another end. -/
theorem increasing_loadLoop (parser : YamlParser) (c : γ) :
    Increasing fun n => L.loadLoop n parser c := by
  intro n
  induction n generalizing parser c with
  | zero => exact .error _ _
  | succ n ih =>
    simp only [loadLoop]
    split
    · exact .refl _
    · exact .refl _
    · exact Extends.bind (L.increasing_pickGlobal _ _ n) fun _ => ih _ _
    · exact ih _ _

/-! ### What is left to do -/

/-- The outermost loop ends. -/
def ReturnsOuter (parser : YamlParser) (c : γ) : Prop :=
  Ends (fun n => L.loadLoop n parser c) fun _ => True

/-- `_pick_global` returns, and then the outermost loop ends. -/
def ReturnsGlobal (parser : YamlParser) (c : γ) : Prop :=
  Ends (fun n => L.pickGlobal n parser c) fun q => L.ReturnsOuter q.2 q.1

/-- The loop of `_pick_global` is at the value of a key that it knows. -/
def ReturnsGlobalValue (set : Bytes → γ → γ) (parser : YamlParser) (c : γ) : Prop :=
  match parser.parse with
  | (some (.scalar text), parser) => L.ReturnsGlobal parser (set (cstr text) c)
  | (some _, _) => False
  | (none, parser) => L.ReturnsOuter parser c

/-- `_pick_patterns` returns, and then the loops around it end. -/
def ReturnsPatterns (parser : YamlParser) (li : List ε) (c : γ) : Prop :=
  Ends (fun n => L.pickPatterns n parser li) fun q => L.ReturnsGlobal q.2 (L.setPatterns q.1 c)

/-- The loop of an entry ends, and then the loops around it end. -/
def ReturnsEntry (parser : YamlParser) (entry : ε) (li : List ε) (c : γ) : Prop :=
  Ends (fun n => L.pickEntry n parser entry) fun q => L.ReturnsPatterns q.2 (azListAdd li q.1) c

/-- The loop of an entry is at the value of a key, which it knows or not. -/
def ReturnsEntryValue (set : Option (Bytes → ε → ε)) (parser : YamlParser) (entry : ε)
    (li : List ε) (c : γ) : Prop :=
  match parser.parse, set with
  | (some (.scalar text), parser), some set => L.ReturnsEntry parser (set (cstr text) entry) li c
  | (some _, _), some _ => False
  | (some _, parser), none => L.ReturnsEntry parser entry li c
  | (none, parser), _ => L.ReturnsPatterns parser (azListAdd li entry) c

/-! ### One turn of each loop -/

variable {parser parser' : YamlParser} {event : Option YamlEvent}

/-- One event of `load_config_file`: it returns at the end of the stream and when parsing fails, and
goes to `_pick_global` at a mapping. -/
theorem returnsOuter_iff (c : γ) : parser.parse = (event, parser') →
    (L.ReturnsOuter parser c ↔
      match event with
      | some .streamEnd => True
      | some .mappingStart => L.ReturnsGlobal parser' c
      | some _ => L.ReturnsOuter parser' c
      | none => True) := by
  intro hparse
  -- One unit of the budget is spent on this event, and the rest on what comes after it.
  rw [ReturnsOuter, ends_succ_iff (f := fun n => L.loadLoop n parser c) rfl]
  simp only [loadLoop, hparse]
  cases event with
  | none => simp
  | some event =>
    cases event with
    | streamEnd => simp
    | mappingStart =>
      exact ends_bind_iff (L.increasing_pickGlobal _ _) (fun q => L.increasing_loadLoop q.2 q.1) _
    | _ => exact Iff.rfl

/-- One event of `_pick_global`: a known key asks for its value, `patterns` for a sequence, an
unknown key for nothing, and what is no scalar ends the function. -/
theorem returnsGlobal_iff (c : γ) : parser.parse = (event, parser') →
    (L.ReturnsGlobal parser c ↔
      match event with
      | some (.scalar key) =>
          match L.globalKey (cstr key) with
          | some set => L.ReturnsGlobalValue set parser' c
          | none =>
              if cstr key = PATTERNS then
                ¬ (L.once = true ∧ L.patterns c ≠ []) ∧ L.ReturnsPatterns parser' [] c
              else L.ReturnsGlobal parser' c
      | _ => L.ReturnsOuter parser' c) := by
  intro hparse
  rw [ReturnsGlobal, ends_succ_iff (f := fun n => L.pickGlobal n parser c) rfl]
  simp only [pickGlobal, hparse]
  cases event with
  | none => simp
  | some event =>
    cases event with
    | scalar key =>
      simp only
      cases L.globalKey (cstr key) with
      | some set =>
        simp only [ReturnsGlobalValue]
        -- The value of the key is the next event. An error there returns to the outermost loop.
        obtain ⟨_ | value, parser''⟩ := parser'.parse
        · simp
        · cases value with
          | scalar text => exact Iff.rfl
          | _ => exact iff_of_false (not_ends_error _ _) id
      | none =>
        simp only
        -- `patterns` a second time, `patterns`, or an unknown key.
        split_ifs with hkey honce
        · exact iff_of_false (not_ends_error _ _) fun h => h.1 honce
        · rw [ends_bind_iff (L.increasing_pickPatterns _ _)
            (fun q => L.increasing_pickGlobal q.2 (L.setPatterns q.1 c))]
          exact (and_iff_right honce).symm
        · exact Iff.rfl
    | _ => exact ends_ok_iff _ _

/-- One event of `_pick_patterns`: a mapping is an entry, and the end of the sequence ends the
function. -/
theorem returnsPatterns_iff (li : List ε) (c : γ) : parser.parse = (event, parser') →
    (L.ReturnsPatterns parser li c ↔
      match event with
      | some .mappingStart => L.ReturnsEntry parser' L.newEntry li c
      | some .sequenceEnd => L.ReturnsGlobal parser' (L.setPatterns li c)
      | some _ => L.ReturnsPatterns parser' li c
      | none => L.ReturnsGlobal parser' (L.setPatterns li c)) := by
  intro hparse
  rw [ReturnsPatterns, ends_succ_iff (f := fun n => L.pickPatterns n parser li) rfl]
  simp only [pickPatterns, hparse]
  cases event with
  | none => exact ends_ok_iff _ _
  | some event =>
    cases event with
    | sequenceEnd => exact ends_ok_iff _ _
    | mappingStart =>
      exact ends_bind_iff (L.increasing_pickEntry _ _)
        (fun q => L.increasing_pickPatterns q.2 (azListAdd li q.1)) _
    | _ => exact Iff.rfl

/-- One event of `_pick_pattern_entry`: a scalar is a key, whose value comes next, and the end of
the mapping ends the function. -/
theorem returnsEntry_iff (entry : ε) (li : List ε) (c : γ) : parser.parse = (event, parser') →
    (L.ReturnsEntry parser entry li c ↔
      match event with
      | some (.scalar key) => L.ReturnsEntryValue (L.entryKey (cstr key)) parser' entry li c
      | some .mappingEnd => L.ReturnsPatterns parser' (azListAdd li entry) c
      | some _ => L.ReturnsEntry parser' entry li c
      | none => L.ReturnsPatterns parser' (azListAdd li entry) c) := by
  intro hparse
  rw [ReturnsEntry, ends_succ_iff (f := fun n => L.pickEntry n parser entry) rfl]
  simp only [pickEntry, hparse]
  cases event with
  | none => exact ends_ok_iff _ _
  | some event =>
    cases event with
    | mappingEnd => exact ends_ok_iff _ _
    | scalar key =>
      simp only [ReturnsEntryValue]
      -- The value is read before the key is looked up.
      obtain ⟨_ | value, parser''⟩ := parser'.parse
      · exact ends_ok_iff _ _
      · cases L.entryKey (cstr key) with
        | none => cases value <;> exact Iff.rfl
        | some set =>
          cases value with
          | scalar text => exact Iff.rfl
          | _ => exact iff_of_false (not_ends_error _ _) id
    | _ => exact Iff.rfl

/-! ### A parser that has only empty events left -/

/-- Behind the last event `load_config_file` goes on for ever. -/
theorem not_returnsOuter_finished (c : γ) : ¬ L.ReturnsOuter ⟨[], false⟩ c :=
  -- An empty event leads to the same state with a smaller budget.
  not_ends_of_loop (f := fun n => L.loadLoop n ⟨[], false⟩ c) rfl (fun _ => rfl) _

/-- Behind the last event `_pick_global` gets no scalar and returns to a loop that goes on for
ever. -/
theorem not_returnsGlobal_finished (c : γ) : ¬ L.ReturnsGlobal ⟨[], false⟩ c := by
  rw [L.returnsGlobal_iff c YamlParser.parse_finished]
  exact L.not_returnsOuter_finished c

/-- Behind the last event `_pick_patterns` goes on for ever. -/
theorem not_returnsPatterns_finished (li : List ε) (c : γ) :
    ¬ L.ReturnsPatterns ⟨[], false⟩ li c :=
  not_ends_of_loop (f := fun n => L.pickPatterns n ⟨[], false⟩ li) rfl (fun _ => rfl) _

/-- Behind the last event `_pick_pattern_entry` goes on for ever. -/
theorem not_returnsEntry_finished (entry : ε) (li : List ε) (c : γ) :
    ¬ L.ReturnsEntry ⟨[], false⟩ entry li c :=
  not_ends_of_loop (f := fun n => L.pickEntry n ⟨[], false⟩ entry) rfl (fun _ => rfl) _

/-! ### The tasks -/

/-- What is left to do, with the values that have been read. -/
inductive Task
  | outer (c : γ)
  | global (c : γ)
  | globalValue (key : Bytes) (set : Bytes → γ → γ) (known : L.globalKey key = some set) (c : γ)
  | patterns (li : List ε) (c : γ)
  | entry (picked : ε) (li : List ε) (c : γ)
  | entryValue (set : Option (Bytes → ε → ε)) (picked : ε) (li : List ε) (c : γ)

variable {L}

/-- The task, and what comes after it, ends. -/
def Task.Returns (parser : YamlParser) : L.Task → Prop
  | .outer c => L.ReturnsOuter parser c
  | .global c => L.ReturnsGlobal parser c
  | .globalValue _ set _ c => L.ReturnsGlobalValue set parser c
  | .patterns li c => L.ReturnsPatterns parser li c
  | .entry picked li c => L.ReturnsEntry parser picked li c
  | .entryValue set picked li c => L.ReturnsEntryValue set parser picked li c

/-- The task without the values. -/
def Task.position : L.Task → Position
  | .outer c => .outer (!(L.patterns c).isEmpty)
  | .global c => .global (!(L.patterns c).isEmpty)
  | .globalValue _ _ _ c => .globalValue (!(L.patterns c).isEmpty)
  | .patterns li _ => .patterns (!li.isEmpty)
  | .entry _ _ _ => .entry
  | .entryValue set _ _ _ => .entryValue set.isSome

/-- Nothing ends any more. -/
theorem Task.not_returns_finished (task : L.Task) : ¬ task.Returns ⟨[], false⟩ := by
  cases task with
  | outer c => exact L.not_returnsOuter_finished c
  | global c => exact L.not_returnsGlobal_finished c
  -- A known key needs a scalar, and an empty event is none.
  | globalValue key set known c => exact id
  | patterns li c => exact L.not_returnsPatterns_finished li c
  | entry picked li c => exact L.not_returnsEntry_finished picked li c
  | entryValue set picked li c =>
    cases set with
    | none => exact L.not_returnsEntry_finished picked li c
    | some set => exact id

/-- An error comes to the outermost loop, or the loops around the one that sees it go on. -/
theorem Task.returns_failed_iff (task : L.Task) :
    task.Returns ⟨[], true⟩ ↔ ∃ c, task = .outer c := by
  cases task with
  | outer c =>
    -- The error comes to the outermost loop.
    refine iff_of_true ?_ ⟨c, rfl⟩
    exact (L.returnsOuter_iff c YamlParser.parse_failed).mpr trivial
  | global c =>
    refine iff_of_false ?_ (by simp)
    show ¬ L.ReturnsGlobal _ c
    -- The inner loop takes the error, and the one around it reads empty events from then on.
    rw [L.returnsGlobal_iff c YamlParser.parse_failed]
    exact L.not_returnsOuter_finished c
  | globalValue key set known c => exact iff_of_false (L.not_returnsOuter_finished c) (by simp)
  | patterns li c =>
    refine iff_of_false ?_ (by simp)
    show ¬ L.ReturnsPatterns _ li c
    rw [L.returnsPatterns_iff li c YamlParser.parse_failed]
    exact L.not_returnsGlobal_finished _
  | entry picked li c =>
    refine iff_of_false ?_ (by simp)
    show ¬ L.ReturnsEntry _ picked li c
    rw [L.returnsEntry_iff picked li c YamlParser.parse_failed]
    exact L.not_returnsPatterns_finished _ c
  | entryValue set picked li c =>
    refine iff_of_false ?_ (by simp)
    exact L.not_returnsPatterns_finished _ c

/-! ### One event -/

/-- No event is read any more once the file is loaded. -/
theorem foldl_next_loaded (events : List YamlEvent) :
    events.foldl L.next .loaded = .loaded := by
  induction events with
  | nil => rfl
  | cons event events ih => exact ih

/-- No event is read any more after the assertion. -/
theorem foldl_next_trapped (events : List YamlEvent) :
    events.foldl L.next .trapped = .trapped := by
  induction events with
  | nil => rfl
  | cons event events ih => exact ih

/-- A task ends when the events that are left lead from its position to the end of the file in the
outermost loop. The induction is on these events, and takes the loops together. -/
theorem Task.returns_iff (events : List YamlEvent) (fails : Bool) (task : L.Task) :
    task.Returns ⟨events, fails⟩ ↔ Settled fails (events.foldl L.next task.position) := by
  induction events generalizing task with
  | nil =>
    -- No event is left: an error comes, or empty events.
    cases fails with
    | false =>
      refine iff_of_false task.not_returns_finished ?_
      cases task <;> simp [Settled, Task.position]
    | true =>
      rw [task.returns_failed_iff]
      cases task <;> simp [Settled, Task.position]
  | cons event events ih =>
    have hparse := YamlParser.parse_cons event events fails
    have hloaded : Settled fails (events.foldl L.next .loaded) := by
      rw [foldl_next_loaded]
      trivial
    have htrapped : ¬ Settled fails (events.foldl L.next .trapped) := by
      rw [foldl_next_trapped]
      exact id
    -- One event, in each of the positions.
    cases task with
    | outer c =>
      refine (L.returnsOuter_iff c hparse).trans ?_
      cases event with
      | streamEnd => exact iff_of_true trivial hloaded
      | mappingStart => exact ih (.global c)
      | _ => exact ih (.outer c)
    | global c =>
      refine (L.returnsGlobal_iff c hparse).trans ?_
      cases event with
      | scalar key =>
        simp only [List.foldl_cons, Task.position, next]
        cases hset : L.globalKey (cstr key) with
        | some set => exact ih (.globalValue _ set hset c)
        | none =>
          simp only [Option.isSome_none, Bool.false_eq_true, if_false]
          split_ifs with hkey honce
          · -- The assertion fails.
            refine iff_of_false ?_ htrapped
            simp_all
          · refine Iff.trans ?_ (ih (.patterns [] c))
            refine and_iff_right ?_
            simp_all
          · exact ih (.global c)
      | _ => exact ih (.outer c)
    | globalValue key set known c =>
      cases event with
      | scalar text =>
        -- A global is set, and the patterns stay.
        have hpatterns : L.patterns (set (cstr text) c) = L.patterns c :=
          L.patterns_globalKey known _ c
        have hnext := ih (.global (set (cstr text) c))
        rw [Task.position, hpatterns] at hnext
        exact hnext
      | _ => exact iff_of_false id htrapped
    | patterns li c =>
      refine (L.returnsPatterns_iff li c hparse).trans ?_
      cases event with
      | sequenceEnd =>
        have hnext := ih (.global (L.setPatterns li c))
        rw [Task.position, L.isEmpty_setPatterns] at hnext
        exact hnext
      | mappingStart => exact ih (.entry L.newEntry li c)
      | _ => exact ih (.patterns li c)
    | entry picked li c =>
      refine (L.returnsEntry_iff picked li c hparse).trans ?_
      cases event with
      | scalar key => exact ih (.entryValue (L.entryKey (cstr key)) picked li c)
      | mappingEnd => exact ih (.patterns (azListAdd li picked) c)
      | _ => exact ih (.entry picked li c)
    | entryValue set picked li c =>
      cases set with
      | some set =>
        cases event with
        | scalar text => exact ih (.entry (set (cstr text) picked) li c)
        | _ => exact iff_of_false id htrapped
      | none => cases event <;> exact ih (.entry picked li c)

variable (L)

/-- `load_config_file` returns when there is no file, and when the end of the file comes to its
outermost loop. -/
theorem returns_iff (file : Option YamlParser) (c : γ) :
    (∃ fuel result, L.loadConfigFile fuel file c = .ok result) ↔
      ∀ parser ∈ file, L.EndsOutside parser c := by
  cases file with
  | none => exact iff_of_true ⟨0, _, rfl⟩ nofun
  | some parser =>
    -- What comes after the outermost loop does not loop.
    have hends : (∃ fuel result, L.loadConfigFile fuel (some parser) c = .ok result) ↔
        L.ReturnsOuter parser c := by
      simp only [loadConfigFile, ReturnsOuter, Ends, bind_eq_ok]
      constructor
      · rintro ⟨n, result, c', hc', -⟩
        exact ⟨n, c', hc', trivial⟩
      · rintro ⟨n, c', hc', -⟩
        exact ⟨n, (0, c'), c', hc', rfl⟩
    rw [hends]
    simp only [Option.mem_some_iff, forall_eq']
    exact Task.returns_iff parser.events parser.fails (.outer c)

end

end Loader

end Compostela.Common

namespace Compostela.Proofs.ConfigLoading

open Compostela.Common

/-- Both programs return from `load_config_file` exactly when there is no file of the name, or when
the end of the file comes to the outermost loop. -/
theorem loadConfigFile_returns_iff (file : Option YamlParser) (c : Follower.AppConfig)
    (d : Aggregator.AppConfig) :
    ((∃ fuel result, Follower.loadConfigFile fuel file c = .ok result) ↔
      ∀ parser ∈ file, Follower.AppConfig.loader.EndsOutside parser c) ∧
    ((∃ fuel result, Aggregator.loadConfigFile fuel file d = .ok result) ↔
      ∀ parser ∈ file, Aggregator.AppConfig.loader.EndsOutside parser d) :=
  ⟨Follower.AppConfig.loader.returns_iff file c, Aggregator.AppConfig.loader.returns_iff file d⟩

/-- The events of a document: a mapping with the events `inside` it. -/
def document (inside : List YamlEvent) : List YamlEvent :=
  [.streamStart, .documentStart, .mappingStart] ++ inside ++
    [.mappingEnd, .documentEnd, .streamEnd]

-- A sequence of entries is what the loaders expect, and they come to the end of it.
example : (document [.scalar (ascii "patterns"), .sequenceStart, .mappingStart,
    .scalar (ascii "path"), .scalar (ascii "/var/log/syslog"), .mappingEnd,
    .sequenceEnd]).foldl Follower.AppConfig.loader.next (.outer false) = .loaded := by decide

/-- `patterns: x`. -/
def scalarPatterns : YamlParser := ⟨document [.scalar PATTERNS, .scalar (ascii "x")], false⟩

/-- A fault in the file behind `port: 1`. -/
def faultInside : YamlParser :=
  ⟨[.streamStart, .documentStart, .mappingStart, .scalar (ascii "port"), .scalar (ascii "1")],
    true⟩

/-- `_pick_patterns` waits for the end of a sequence that did not begin. The fault is seen by
`_pick_global`, and the outermost loop waits for the end of the stream. -/
theorem loadConfigFile_not_returns :
    (¬ ∃ fuel result, Follower.loadConfigFile fuel (some scalarPatterns) .init = .ok result) ∧
    (¬ ∃ fuel result, Follower.loadConfigFile fuel (some faultInside) .init = .ok result) ∧
    (¬ ∃ fuel result, Aggregator.loadConfigFile fuel (some scalarPatterns) .init = .ok result) ∧
    (¬ ∃ fuel result, Aggregator.loadConfigFile fuel (some faultInside) .init = .ok result) := by
  have hfollower := Follower.AppConfig.loader.returns_iff
  have haggregator := Aggregator.AppConfig.loader.returns_iff
  refine ⟨?_, ?_, ?_, ?_⟩
  · exact fun h => (hfollower _ _).mp h _ rfl
  · exact fun h => (hfollower _ _).mp h _ rfl
  · exact fun h => (haggregator _ _).mp h _ rfl
  · exact fun h => (haggregator _ _).mp h _ rfl

end Compostela.Proofs.ConfigLoading
