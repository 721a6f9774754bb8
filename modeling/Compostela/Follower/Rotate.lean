import Compostela.Common.AzList
import Compostela.Follower.Run

/-!
# `Compostela.Follower.Rotate`: `do_rotate` and the passes of the main loop

The context list of `follower/main.c`. `do_rotate` goes through the configured patterns. For
each it makes the file name and the display name of the moment, and looks for the first
context with this file name. When the context has another display name, its channel is
released and a new context goes to the front of the list. The old context stays in the list.

A pass of the main loop runs every context of the list. `Listed` gives each context a serial
number, which stands for its address. The control socket is in `Follower/Controller`.
-/

set_option autoImplicit false

namespace Compostela.Follower

open Compostela.Common
open Compostela.Memory

/-- `sc_config_pattern_entry`. -/
structure ScConfigPatternEntry where
  path : Bytes
  displayName : Option Bytes
  rotate : Bool
  appendTimestamp : Bool

/-- The local time of one call. `strftime fmt` is the string that `strftime` writes into a
buffer of `PATH_MAX` bytes, or nothing when it does not fit. -/
structure Clock where
  strftime : Bytes → Option Bytes
  strftime_fits : ∀ fmt s, strftime fmt = some s → 0 ∉ s ∧ s.length < PATH_MAX

/-- `'%'`. -/
def PERCENT : UInt8 := 37

/-- The string of a configured text: `strftime` when the entry rotates and the text has a
conversion in it, and `strncpy` otherwise. A buffer without a terminator is read past its
end by what follows. -/
def expand (clock : Clock) (rotate : Bool) (text : Bytes) : Except Trap Bytes :=
  if rotate = true ∧ PERCENT ∈ cstr text then
    match clock.strftime (cstr text) with
    | some s => .ok s
    | none => .error .oobRead
  else if (cstr text).length < PATH_MAX then .ok (cstr text)
  else .error .oobRead

/-- `basename` of `libgen.h`: the string as the call leaves it, and the result. Trailing
slashes are cut off in place. -/
def basename (fn : Bytes) : Bytes × Bytes :=
  if fn = [] then ([], [46])
  else if dropSlashes fn = [] then (fn, [SLASH])
  else (dropSlashes fn, ((dropSlashes fn).reverse.takeWhile (· ≠ SLASH)).reverse)

/-- The file name and the display name of an entry. -/
def entryNames (clock : Clock) (pe : ScConfigPatternEntry) : Except Trap (Bytes × Bytes) := do
  let fn ← expand clock pe.rotate pe.path
  match pe.displayName with
  | some name => do
      let dn ← expand clock pe.rotate name
      .ok (fn, dn)
  | none => .ok (basename fn)

/-- A context of the list. -/
structure Listed where
  serial : Nat
  cxt : ScFollowContext

section
variable {σ : Type} (net : Listed → Net σ)

/-- The body of the loop of `do_rotate`. The result of the close is not looked at. -/
def rotateEntry (clock : Clock) (heap : Heap) (pe : ScConfigPatternEntry)
    (contexts : List Listed) (conn : ScAggregatorConnection σ) :
    Except Trap (List Listed × ScAggregatorConnection σ) := do
  let (fn, dn) ← entryNames clock pe
  let new : Listed :=
    ⟨contexts.length, scFollowContextNew heap (some fn) dn pe.appendTimestamp BUFSIZE⟩
  -- Only the first context with this file name is looked at.
  match contexts.find? fun c => c.cxt.filename = some fn with
  | none => .ok (azListAdd contexts new, conn)
  | some c =>
      if c.cxt.displayName = dn then .ok (contexts, conn)
      else do
        let (_, conn) ← scFollowContextClose (net c) heap c.cxt conn
        .ok (azListAdd contexts new, conn)

/-- `do_rotate`. -/
def doRotate (clock : Clock) (heap : Nat → Heap) : List ScConfigPatternEntry → List Listed →
    ScAggregatorConnection σ → Except Trap (List Listed × ScAggregatorConnection σ)
  | [], contexts, conn => .ok (contexts, conn)
  | pe :: rest, contexts, conn => do
      let (contexts, conn) ← rotateEntry net clock (heap rest.length) pe contexts conn
      doRotate clock heap rest contexts conn

/-- The loop of `main` over the contexts. The first component is `rc`. A context whose run
returned -1 is deleted, and the loop goes on through the node that was freed. -/
def passLoop (md5 : Md5) (inputs : Nat → RunInput) : List Listed → ScAggregatorConnection σ →
    Except Trap (Bool × List Listed × ScAggregatorConnection σ)
  | [], conn => .ok (false, [], conn)
  | c :: rest, conn => do
      let (ret, cxt, conn) ← runFollowContext (net c) md5 (inputs c.serial) c.cxt conn
      if ret = -1 then .error .useAfterFree
      else do
        let (rc, rest, conn) ← passLoop md5 inputs rest conn
        .ok (rc || ret = ERR_MUST_RECONNECT, { c with cxt := cxt } :: rest, conn)

/-- The reset of every context. -/
def resetContexts (contexts : List Listed) : List Listed :=
  contexts.map fun c => { c with cxt := scFollowContextReset c.cxt }

/-- One pass of the main loop. `connected` is for `sc_aggregator_connection_open`, if it is
called. -/
def mainPass (md5 : Md5) (inputs : Nat → RunInput) (connected : Option (σ → σ))
    (contexts : List Listed) (conn : ScAggregatorConnection σ) :
    Except Trap (List Listed × ScAggregatorConnection σ) := do
  let (rc, contexts, conn) ← passLoop net md5 inputs contexts conn
  if rc then
    .ok (resetContexts contexts, (scAggregatorConnectionOpen connected conn).2)
  else .ok (contexts, conn)

end

/-! ### The names -/

/-- What `expand` gives is a string that fits its buffer. -/
theorem expand_eq_ok {clock : Clock} {rotate : Bool} {text s : Bytes}
    (h : expand clock rotate text = .ok s) : 0 ∉ s ∧ s.length < PATH_MAX := by
  unfold expand at h
  split at h
  · cases htime : clock.strftime (cstr text) with
    | none =>
      rw [htime] at h
      cases h
    | some s' =>
      rw [htime] at h
      cases h
      exact clock.strftime_fits _ _ htime
  · split at h
    · rename_i hshort
      cases h
      exact ⟨zero_notMem_cstr text, hshort⟩
    · cases h

/-- So is the display name of an entry. -/
theorem entryNames_eq_ok {clock : Clock} {pe : ScConfigPatternEntry} {fn dn : Bytes}
    (h : entryNames clock pe = .ok (fn, dn)) : 0 ∉ dn ∧ dn.length < PATH_MAX := by
  unfold entryNames at h
  obtain ⟨fn1, hfn, h⟩ := bind_eq_ok.mp h
  obtain ⟨hnul, hshort⟩ := expand_eq_ok hfn
  cases hname : pe.displayName with
  | some name =>
    rw [hname] at h
    obtain ⟨dn1, hdn, h⟩ := bind_eq_ok.mp h
    cases h
    exact expand_eq_ok hdn
  | none =>
    rw [hname] at h
    simp only [basename] at h
    split at h
    · cases h
      decide
    · split at h
      · cases h
        decide
      · cases h
        -- The last component is a part of the file name.
        have hsub : ((dropSlashes fn1).reverse.takeWhile (· ≠ SLASH)).reverse.Sublist fn1 := by
          have hpart := (List.takeWhile_sublist (fun b : UInt8 => b ≠ SLASH)
            (l := (dropSlashes fn1).reverse)).reverse
          rw [List.reverse_reverse] at hpart
          exact hpart.trans (dropSlashes_sublist fn1)
        exact ⟨fun hmem => hnul (hsub.subset hmem), Nat.lt_of_le_of_lt hsub.length_le hshort⟩

/-! ### The list -/

section
variable {σ : Type} {net : Listed → Net σ} {clock : Clock} {heap : Heap}
  {pe : ScConfigPatternEntry} {contexts contexts' : List Listed}
  {conn conn' : ScAggregatorConnection σ}

/-- An entry leaves everything as it is when the first context of its file has its display name.
Otherwise a new context goes to the front, and an old context of the file is closed. -/
theorem rotateEntry_cases
    (h : rotateEntry net clock heap pe contexts conn = .ok (contexts', conn')) :
    ∃ fn dn, entryNames clock pe = .ok (fn, dn) ∧
      ((∃ c, (contexts.find? fun c => c.cxt.filename = some fn) = some c ∧
          c.cxt.displayName = dn ∧ contexts' = contexts ∧ conn' = conn) ∨
        contexts' = ⟨contexts.length,
            scFollowContextNew heap (some fn) dn pe.appendTimestamp BUFSIZE⟩ :: contexts ∧
          (((contexts.find? fun c => c.cxt.filename = some fn) = none ∧ conn' = conn) ∨
            ∃ c ret, (contexts.find? fun c => c.cxt.filename = some fn) = some c ∧
              c.cxt.displayName ≠ dn ∧
              scFollowContextClose (net c) heap c.cxt conn = .ok (ret, conn'))) := by
  unfold rotateEntry at h
  obtain ⟨⟨fn, dn⟩, hnames, h⟩ := bind_eq_ok.mp h
  refine ⟨fn, dn, hnames, ?_⟩
  simp only at h
  -- No context has the file name yet, or one has it, perhaps with this display name already.
  cases hfind : contexts.find? fun c => c.cxt.filename = some fn with
  | none =>
    rw [hfind] at h
    cases h
    exact Or.inr ⟨rfl, Or.inl ⟨rfl, rfl⟩⟩
  | some c =>
    rw [hfind] at h
    simp only at h
    split at h
    · rename_i hsame
      cases h
      exact Or.inl ⟨c, rfl, hsame, rfl, rfl⟩
    · rename_i hother
      obtain ⟨⟨ret, conn1⟩, hclose, h⟩ := bind_eq_ok.mp h
      cases h
      exact Or.inr ⟨rfl, Or.inr ⟨c, ret, rfl, hother, hclose⟩⟩

/-- What an entry does to the list. -/
theorem rotateEntry_eq_ok
    (h : rotateEntry net clock heap pe contexts conn = .ok (contexts', conn')) :
    ∃ fn dn, entryNames clock pe = .ok (fn, dn) ∧
      ((∃ c, (contexts.find? fun c => c.cxt.filename = some fn) = some c ∧
          c.cxt.displayName = dn ∧ contexts' = contexts) ∨
        (∀ c, (contexts.find? fun c => c.cxt.filename = some fn) = some c →
            c.cxt.displayName ≠ dn) ∧
          ∃ new : Listed, contexts' = new :: contexts ∧ new.cxt.filename = some fn ∧
            new.cxt.displayName = dn ∧ new.cxt.buffer.Valid) := by
  have hvalid : (azBufferNew heap BUFSIZE).Valid := AzBuffer.valid_azBufferNew heap (by decide)
  obtain ⟨fn, dn, hnames, ⟨c, hfind, hsame, rfl, -⟩ | ⟨rfl, hclosed⟩⟩ := rotateEntry_cases h
  · exact ⟨fn, dn, hnames, Or.inl ⟨c, hfind, hsame, rfl⟩⟩
  · refine ⟨fn, dn, hnames, Or.inr ⟨?_, _, rfl, rfl, rfl, hvalid⟩⟩
    intro d hd
    rcases hclosed with ⟨hnone, -⟩ | ⟨c, -, hfind, hother, -⟩
    · rw [hnone] at hd
      cases hd
    · rw [hfind] at hd
      cases hd
      exact hother

/-- `do_rotate` only adds contexts, at the front of the list. -/
theorem doRotate_suffix {heap : Nat → Heap} {patterns : List ScConfigPatternEntry}
    (hrun : doRotate net clock heap patterns contexts conn = .ok (contexts', conn')) :
    contexts <:+ contexts' := by
  induction patterns generalizing contexts conn with
  | nil =>
    cases hrun
    exact List.suffix_rfl
  | cons pe rest ih =>
    obtain ⟨⟨contexts1, conn1⟩, hentry, hrun⟩ := bind_eq_ok.mp hrun
    have hrest : contexts1 <:+ contexts' := ih hrun
    obtain ⟨fn, dn, -, ⟨c, -, -, rfl⟩ | ⟨-, new, rfl, -⟩⟩ := rotateEntry_eq_ok hentry
    · exact hrest
    · exact (List.suffix_cons new contexts).trans hrest

end

end Compostela.Follower
