import Compostela.Common.Supports
import Compostela.Lib.Paths
import Mathlib.Data.List.GetD

/-!
# `Compostela.Common.PathNames`: where a path leads

A path is a text with components between slashes. `placeOf` resolves its `.` and `..` lexically,
and `Under dir path` says that the path leads to the directory `dir` or into it.

Here the path is most of the time a text behind `dir`. `under_append_iff` looks at this text alone:
how many levels it goes up at most, and through which names it goes down after that.

`pathcat_eq` says which text `pathcat` makes: the components with slashes between them, cut to the
bytes that fit in front of the terminator.
-/

set_option autoImplicit false

namespace Compostela.Common

open Compostela.Memory
open Compostela.Paths

/-- `'.'`. -/
def DOT : UInt8 := 46

/-- The step of a component: none for an empty one and for `.`, up for `..`. -/
def componentStep (c : Bytes) : Option (Option Bytes) :=
  if c = [] ∨ c = [DOT] then none else if c = [DOT, DOT] then some none else some (some c)

/-- The steps of a path. -/
def pathSteps (path : Bytes) : List (Option Bytes) :=
  (path.splitOn SLASH).filterMap componentStep

/-- An absolute path. -/
def rooted (path : Bytes) : Bool := path.head? = some SLASH

/-- Where a path leads. -/
def placeOf (path : Bytes) : Place Bytes := Place.start.walk (rooted path) (pathSteps path)

/-- Where a text leads, seen from the directory that it is appended to. -/
def wayOf (rest : Bytes) : Place Bytes := Place.start.walk false (pathSteps rest)

/-- `path` leads to `dir` or into it. -/
def Under (dir path : Bytes) : Prop :=
  rooted dir = rooted path ∧ (placeOf dir).Contains (placeOf path)

instance (dir path : Bytes) : Decidable (Under dir path) := inferInstanceAs (Decidable (_ ∧ _))

/-- A component of `dir` does not go on in `rest`. -/
def Joins (dir rest : Bytes) : Prop :=
  rest = [] ∨ rest.head? = some SLASH ∨ dir.getLast? = some SLASH

/-- The steps of a path are those in front of a slash and those behind it. -/
theorem pathSteps_slash (front back : Bytes) :
    pathSteps (front ++ SLASH :: back) = pathSteps front ++ pathSteps back := by
  rw [pathSteps, List.splitOn_append_cons_self, List.filterMap_append]
  rfl

/-- The steps of a joined path are those of its parts. -/
theorem pathSteps_append {dir rest : Bytes} (h : Joins dir rest) :
    pathSteps (dir ++ rest) = pathSteps dir ++ pathSteps rest := by
  have hnil : pathSteps [] = [] := rfl
  rcases h with rfl | hhead | hlast
  · rw [hnil, List.append_nil, List.append_nil]
  · obtain ⟨tail, rfl⟩ := List.head?_eq_some_iff.mp hhead
    -- The component between two slashes is empty, and an empty one is no step.
    have hrest : pathSteps (SLASH :: tail) = pathSteps tail := pathSteps_slash [] tail
    rw [pathSteps_slash, hrest]
  · obtain ⟨front, rfl⟩ := List.getLast?_eq_some_iff.mp hlast
    have hdir : pathSteps (front ++ [SLASH]) = pathSteps front := by
      rw [pathSteps_slash, hnil, List.append_nil]
    rw [List.append_assoc, List.singleton_append, pathSteps_slash, hdir]

/-- A path starts at the root when its directory does. -/
theorem rooted_append {dir : Bytes} (hdir : dir ≠ []) (rest : Bytes) :
    rooted (dir ++ rest) = rooted dir := by
  rw [rooted, List.head?_append_of_ne_nil _ hdir]
  rfl

/-- A text behind a directory starts from the place of the directory. -/
theorem placeOf_append {dir rest : Bytes} (hdir : dir ≠ []) (h : Joins dir rest) :
    placeOf (dir ++ rest) = (placeOf dir).go (rooted dir) (wayOf rest) := by
  -- The steps of the directory come first, and lead to its place.
  rw [placeOf, rooted_append hdir, pathSteps_append h, wayOf, ← Place.walk_eq_go]
  exact List.foldl_append

/-- A text behind a directory leads into it exactly when it comes back through the names that it
goes up. -/
theorem under_append_iff {dir rest : Bytes} (hdir : dir ≠ []) (h : Joins dir rest) :
    Under dir (dir ++ rest) ↔ (placeOf dir).ComesBack (rooted dir) (wayOf rest) := by
  rw [Under, placeOf_append hdir h, rooted_append hdir, Place.contains_go_iff]
  exact and_iff_right rfl

/-- It leads to a directory above exactly when it comes back through some of them only. -/
theorem append_under_iff {dir rest : Bytes} (hdir : dir ≠ []) (h : Joins dir rest) :
    Under (dir ++ rest) dir ↔ (placeOf dir).OnTheWay (rooted dir) (wayOf rest) := by
  rw [Under, placeOf_append hdir h, rooted_append hdir, Place.go_contains_iff]
  exact and_iff_right rfl

/-- A text behind a directory is cut in the text or in the directory. -/
theorem take_append_cases {dir rest : Bytes} (h : Joins dir rest) (n : Nat) :
    (∃ rest', (dir ++ rest).take n = dir ++ rest' ∧ Joins dir rest') ∨
      (dir ++ rest).take n <+: dir ∧ (dir ++ rest).take n ≠ dir := by
  by_cases hle : dir.length ≤ n
  · -- The cut is behind `dir`. What is left of `rest` starts as `rest` does, or is empty.
    refine Or.inl ⟨rest.take (n - dir.length), ?_, ?_⟩
    · rw [List.take_append, List.take_of_length_le hle]
    · rcases h with rfl | hhead | hlast
      · exact Or.inl List.take_nil
      · obtain ⟨tail, rfl⟩ := List.head?_eq_some_iff.mp hhead
        cases n - dir.length with
        | zero => exact Or.inl rfl
        | succ k => exact Or.inr (Or.inl rfl)
      · exact Or.inr (Or.inr hlast)
  · refine Or.inr ⟨?_, ?_⟩
    · rw [List.take_append_of_le_length (by omega)]
      exact List.take_prefix _ _
    · intro heq
      have hlen := congrArg List.length heq
      rw [List.length_take, List.length_append] at hlen
      omega

/-- A path that was cut from a text behind `dir` leads into `dir`. The text alone decides it,
unless the cut is in `dir`. -/
def LeadsInto (dir path : Bytes) : Prop :=
  if dir ≠ [] ∧ dir <+: path then
    (placeOf dir).ComesBack (rooted dir) (wayOf (path.drop dir.length))
  else Under dir path

/-- For a path that is joined to a directory, being under it is a matter of its steps. -/
theorem under_iff_leadsInto {dir rest : Bytes} (h : Joins dir rest) (n : Nat) :
    Under dir ((dir ++ rest).take n) ↔ LeadsInto dir ((dir ++ rest).take n) := by
  unfold LeadsInto
  split
  · rename_i hfront
    -- A cut that begins with `dir` is not inside it.
    rcases take_append_cases h n with ⟨rest', heq, hjoins⟩ | ⟨hinside, hne⟩
    · rw [heq, List.drop_left]
      exact under_append_iff hfront.1 hjoins
    · exact absurd (hinside.eq_of_length_le hfront.2.length_le) hne
  · rfl

/-! ### The text that `pathcat` makes -/

/-- The text with a slash at its end. -/
def withSlash (text : Bytes) : Bytes :=
  if text.getLast? = some SLASH then text else text ++ [SLASH]

/-- The components of a path behind `p`, with a slash in front of each of them. -/
def joined : Bytes → List Bytes → Bytes
  | p, [] => p
  | p, s :: rest => joined (withSlash p ++ s) rest

/-- A slash at the end leaves the text in front. -/
theorem prefix_withSlash (text : Bytes) : text <+: withSlash text := by
  unfold withSlash
  split
  · exact List.prefix_rfl
  · exact List.prefix_append _ _

/-- What components are joined to stays in front. -/
theorem prefix_joined (p : Bytes) (comps : List Bytes) : p <+: joined p comps := by
  induction comps generalizing p with
  | nil => exact List.prefix_rfl
  | cons s rest ih =>
    exact ((prefix_withSlash p).trans (List.prefix_append _ s)).trans (ih (withSlash p ++ s))

/-- After `withSlash` the last byte is a slash. -/
theorem getLast?_withSlash (text : Bytes) : (withSlash text).getLast? = some SLASH := by
  unfold withSlash
  split
  · assumption
  · exact List.getLast?_concat

/-- The components behind `p` start with a slash, or `p` ends with one. -/
theorem joined_eq_append (p : Bytes) (comps : List Bytes) :
    ∃ rest, joined p comps = p ++ rest ∧ Joins p rest := by
  cases comps with
  | nil => exact ⟨[], (List.append_nil p).symm, Or.inl rfl⟩
  | cons s comps =>
    obtain ⟨rest, hrest⟩ := prefix_joined (withSlash p ++ s) comps
    -- The slash is taken from the end of `p`, or put in front.
    by_cases hlast : p.getLast? = some SLASH
    · refine ⟨s ++ rest, ?_, Or.inr (Or.inr hlast)⟩
      rw [joined, ← hrest, withSlash, if_pos hlast, List.append_assoc]
    · refine ⟨SLASH :: (s ++ rest), ?_, Or.inr (Or.inl rfl)⟩
      rw [joined, ← hrest, withSlash, if_neg hlast]
      simp

/-- Joining strings brings in no zero. -/
theorem zero_notMem_joined {p : Bytes} {comps : List Bytes} (hp : 0 ∉ p)
    (hcomps : ∀ s ∈ comps, 0 ∉ s) : 0 ∉ joined p comps := by
  induction comps generalizing p with
  | nil => exact hp
  | cons s rest ih =>
    have hslash : 0 ∉ withSlash p := by
      have hne : (0 : UInt8) ≠ SLASH := by decide
      unfold withSlash
      split <;> simp [hp, hne]
    refine ih ?_ fun t ht => hcomps t (List.mem_cons_of_mem _ ht)
    exact List.not_mem_append hslash (hcomps s List.mem_cons_self)

/-- A buffer with a string in it. A string that leaves only the last byte free has a terminator
when this byte is zero. -/
structure HoldsPath (b : Block) (text : Bytes) : Prop where
  size : b.size = PATH_MAX
  length_le : text.length ≤ PATH_MAX - 1
  byte : ∀ i, i ≤ text.length → i < PATH_MAX - 1 → b.byte i = text.getD i 0

/-- More text with a terminator behind the string. -/
theorem HoldsPath.put {b : Block} {text : Bytes} (h : HoldsPath b text) {more : Bytes}
    (hfits : (text ++ more).length ≤ PATH_MAX - 1) :
    HoldsPath (b.put text.length (more ++ [0])) (text ++ more) := by
  refine ⟨h.size, hfits, ?_⟩
  intro i hi hlast
  rw [List.length_append] at hi
  simp only [Block.put, List.length_append, List.length_singleton]
  -- The bytes of the old text, of the new one, and the terminator.
  by_cases hold : i < text.length
  · rw [if_neg (by omega), h.byte i (by omega) hlast, List.getD_append _ _ _ _ hold]
  · rw [if_pos (by omega), List.getD_append_right text more 0 i (by omega)]
    by_cases hmore : i - text.length < more.length
    · rw [List.getD_append more [0] 0 _ hmore]
    · have hzero : i - text.length - more.length = 0 := by omega
      rw [List.getD_append_right more [0] 0 _ (by omega), hzero,
        List.getD_eq_default more 0 (by omega)]
      rfl

/-- The zero byte that `findNul` stops at. -/
theorem findNul_eq_some {b : Block} {fuel off i : Nat} (h : findNul b fuel off = some i) :
    off ≤ i ∧ i < off + fuel ∧ b.byte i = 0 ∧ ∀ j, off ≤ j → j < i → b.byte j ≠ 0 := by
  induction fuel generalizing off with
  | zero => cases h
  | succ fuel ih =>
    rw [findNul] at h
    split at h
    · rename_i hzero
      cases h
      exact ⟨by omega, by omega, hzero, fun j hle hlt => by omega⟩
    · rename_i hne
      obtain ⟨hle, hlt, hzero, hbefore⟩ := ih h
      refine ⟨by omega, by omega, hzero, ?_⟩
      intro j hj hji
      by_cases hoff : j = off
      · rwa [hoff]
      · exact hbefore j (by omega) hji

/-- The end of the string, as `findNul` finds it from a place in the string on. -/
theorem HoldsPath.findNul {b : Block} {text : Bytes} (h : HoldsPath b text) {off i : Nat}
    (hoff : off ≤ text.length) (htext : ∀ j, off ≤ j → j < text.length → text.getD j 0 ≠ 0)
    (hi : Common.findNul b (PATH_MAX - off) off = some i) : i = text.length := by
  have hlen := h.length_le
  obtain ⟨hle, hlt, hzero, hbefore⟩ := findNul_eq_some hi
  have hmax : PATH_MAX = 4096 := rfl
  -- No zero in the text, and one right behind it, unless the text fills the buffer.
  rcases Nat.lt_trichotomy i text.length with hshort | heq | hlong
  · exact absurd (h.byte i (by omega) (by omega) ▸ hzero) (htext i hle hshort)
  · exact heq
  · refine absurd ?_ (hbefore text.length hoff hlong)
    rw [h.byte text.length (by omega) (by omega), List.getD_eq_default _ _ (by omega)]

/-- The byte in front of the write pointer is the last one of the text. -/
theorem HoldsPath.getLast?_eq {b : Block} {text : Bytes} (h : HoldsPath b text) (hne : text ≠ []) :
    text.getLast? = some (b.byte (text.length - 1)) := by
  have hpos := List.length_pos_of_ne_nil hne
  have hlen := h.length_le
  rw [h.byte _ (by omega) (by omega), List.getLast?_eq_getElem?,
    List.getElem?_eq_getElem (by omega), List.getD_eq_getElem _ _ (by omega)]

/-- `add_slash` puts a slash behind the text, unless there is one. -/
theorem HoldsPath.addSlash {b b' : Block} {text : Bytes} (h : HoldsPath b text) {q' : Nat}
    (hne : text ≠ []) (hslash : Common.addSlash b text.length = .ok (b', q')) :
    HoldsPath b' (withSlash text) ∧ q' = (withSlash text).length := by
  have hlast := h.getLast?_eq hne
  -- `add_slash` looks at the last byte in the buffer, which is that of the text.
  unfold Common.addSlash at hslash
  unfold withSlash
  rw [hlast]
  split at hslash
  · rename_i hother
    obtain ⟨b1, hstore, heq⟩ := bind_eq_ok.mp hslash
    cases heq
    obtain ⟨hfits, rfl⟩ := Block.store_eq_ok.mp hstore
    rw [h.size] at hfits
    simp only [List.length_cons, List.length_nil] at hfits
    rw [if_neg (by simpa using hother)]
    have hput : HoldsPath (b.put text.length ([SLASH] ++ [0])) (text ++ [SLASH]) :=
      h.put (by rw [List.length_append, List.length_singleton]; omega)
    exact ⟨hput, by simp⟩
  · rename_i hsame
    cases hslash
    rw [if_pos (by simpa using hsame)]
    exact ⟨h, rfl⟩

/-- `strncat` appends what fits. -/
theorem HoldsPath.strncat {b b' : Block} {text s : Bytes} (h : HoldsPath b text)
    (hcat : Common.strncat b text.length s (PATH_MAX - text.length - 1) = .ok b') :
    HoldsPath b' ((text ++ s).take (PATH_MAX - 1)) := by
  have hlen := h.length_le
  unfold Common.strncat at hcat
  rw [h.size] at hcat
  cases hi : Common.findNul b (PATH_MAX - text.length) text.length with
  | none =>
    rw [hi] at hcat
    cases hcat
  | some i =>
    -- The terminator is right behind the text, where the write pointer stands.
    have heq : i = text.length := h.findNul le_rfl (fun j hle hlt => by omega) hi
    rw [hi, heq] at hcat
    obtain ⟨-, rfl⟩ := Block.store_eq_ok.mp hcat
    have hcut : (text ++ s).take (PATH_MAX - 1)
        = text ++ s.take (PATH_MAX - text.length - 1) := by
      rw [List.take_append, List.take_of_length_le hlen, Nat.sub_right_comm]
    rw [hcut]
    refine h.put ?_
    simp only [List.length_append, List.length_take]
    omega

/-- The string in the buffer after the loop. Once it does not fit, the rest of the components is
not looked at. -/
theorem HoldsPath.pathcatLoop {comps : List Bytes} {b b' : Block} {text : Bytes}
    (h : HoldsPath b text) (hloop : Common.pathcatLoop b text.length comps = .ok b') :
    HoldsPath b' ((joined text comps).take (PATH_MAX - 1)) := by
  have hmax : PATH_MAX = 4096 := rfl
  induction comps generalizing b text with
  | nil =>
    cases hloop
    rw [joined, List.take_of_length_le h.length_le]
    exact h
  | cons s rest ih =>
    have hlen := h.length_le
    unfold Common.pathcatLoop at hloop
    rw [if_neg (by omega)] at hloop
    split at hloop
    · cases hloop
    · rename_i hzero
      have hne : text ≠ [] := fun hnil => hzero (by rw [hnil]; rfl)
      obtain ⟨⟨b1, q1⟩, hslash, hloop⟩ := bind_eq_ok.mp hloop
      obtain ⟨b2, hcat, hloop⟩ := bind_eq_ok.mp hloop
      obtain ⟨h1, rfl⟩ := h.addSlash hne hslash
      have h2 := h1.strncat hcat
      rw [← List.length_append] at hloop
      -- As long as the text fits, the next component goes behind it.
      by_cases hfits : (withSlash text ++ s).length < PATH_MAX
      · rw [List.take_of_length_le (by omega)] at h2
        exact ih h2 hloop
      · -- The write pointer is past the buffer, and the loop ends.
        have hend : b2 = b' := by
          cases rest with
          | nil => exact Except.ok.inj hloop
          | cons t rest =>
            unfold Common.pathcatLoop at hloop
            rw [if_pos (by omega)] at hloop
            exact Except.ok.inj hloop
        obtain ⟨tail, htail⟩ := prefix_joined (withSlash text ++ s) rest
        rw [joined, ← htail, List.take_append_of_le_length (by omega), ← hend]
        exact h2

/-- The path that `pathcat` makes. -/
theorem pathcat_eq {heap : Heap} {p path : Bytes} {comps : List Bytes} (hp : 0 ∉ p)
    (hcomps : ∀ s ∈ comps, 0 ∉ s) (h : pathcat heap p comps = .ok path) :
    path = (joined p comps).take (PATH_MAX - 1) := by
  have hmax : PATH_MAX = 4096 := rfl
  obtain ⟨b, hloop, h⟩ := bind_eq_ok.mp h
  have hholds : HoldsPath b ((joined p comps).take (PATH_MAX - 1)) := by
    by_cases hfits : p.length < PATH_MAX
    · refine HoldsPath.pathcatLoop ⟨rfl, by omega, ?_⟩ hloop
      intro i hi hlast
      exact if_pos hlast
    · -- `strncpy` cuts the first component, and the loop ends at once.
      have hend :
          b = ⟨PATH_MAX, fun i => if i < PATH_MAX - 1 then p.getD i 0 else heap.stack i⟩ := by
        cases comps with
        | nil => exact (Except.ok.inj hloop).symm
        | cons s rest =>
          unfold pathcatLoop at hloop
          rw [if_pos (by omega)] at hloop
          exact (Except.ok.inj hloop).symm
      obtain ⟨tail, htail⟩ := prefix_joined p comps
      rw [← htail, List.take_append_of_le_length (by omega), hend]
      refine ⟨rfl, by simp, ?_⟩
      intro i hi hlast
      simp only [if_pos hlast]
      rw [List.getD_eq_getElem?_getD, List.getD_eq_getElem?_getD, List.getElem?_take_of_lt hlast]
  cases hi : findNul b b.size 0 with
  | none =>
    rw [hi] at h
    cases h
  | some n =>
    rw [hi] at h
    cases h
    rw [hholds.size] at hi
    have hzero := zero_notMem_joined hp hcomps
    -- The terminator that `strdup` stops at is the end of the text, which has no zero in it.
    have hn := hholds.findNul (Nat.zero_le _) (fun j _ hj hzj => by
      rw [List.getD_eq_getElem _ _ hj] at hzj
      exact hzero (List.mem_of_mem_take (hzj ▸ List.getElem_mem hj))) hi
    have hlen := hholds.length_le
    subst hn
    refine List.ext_getElem (by simp) ?_
    intro i hi1 hi2
    rw [Block.getElem_bytes, Nat.zero_add, hholds.byte i (by omega) (by omega),
      List.getD_eq_getElem _ _ hi2]

end Compostela.Common
