import Compostela.Common.PathNames

/-!
# `Compostela.Proofs.PathJoiners`: the two functions that join paths

`pathcat` joins any number of components in a local buffer, `strdup_pathcat` two of them in a block
of its own.

* `pathcat_join`: the join of components that fit.
* `pathcat_safe_iff`: the components for which `pathcat` stays inside its buffer. The write pointer
  must not come to the last byte when a separator goes there, and the first component must be
  terminated by `strncpy`.
* `strdup_pathcat_iff`: the separator of `strdup_pathcat` replaces the terminator, so the byte
  behind it has to be zero already.
-/

set_option autoImplicit false

namespace Compostela.Common

open Compostela.Memory

/-! ### `pathcat` -/

/-- The join, component by component. -/
theorem joined_eq_foldl (p : Bytes) (comps : List Bytes) :
    joined p comps = comps.foldl (fun path s => withSlash path ++ s) p := by
  induction comps generalizing p with
  | nil => rfl
  | cons s rest ih => exact ih (withSlash p ++ s)

/-- A buffer with a string and its terminator. -/
structure EndsPath (b : Block) (text : Bytes) : Prop extends HoldsPath b text where
  terminated : b.byte text.length = 0

/-- More text behind the string, with a terminator again. -/
theorem EndsPath.put {b : Block} {text : Bytes} (h : EndsPath b text) {more : Bytes}
    (hfits : (text ++ more).length ≤ PATH_MAX - 1) :
    EndsPath (b.put text.length (more ++ [0])) (text ++ more) := by
  refine ⟨h.toHoldsPath.put hfits, ?_⟩
  simp only [Block.put, List.length_append, List.length_singleton]
  rw [if_pos (by omega), List.getD_append_right more [0] 0 _ (by omega)]
  simp

/-- The end of the string, from a place on where no zero comes before it. -/
theorem findNul_of_zero {b : Block} {fuel off i : Nat} (hle : off ≤ i) (hlt : i < off + fuel)
    (hzero : b.byte i = 0) (hbefore : ∀ j, off ≤ j → j < i → b.byte j ≠ 0) :
    findNul b fuel off = some i := by
  induction fuel generalizing off with
  | zero => omega
  | succ fuel ih =>
    rw [findNul]
    by_cases heq : off = i
    · rw [heq, if_pos hzero]
    · rw [if_neg (hbefore off le_rfl (by omega))]
      exact ih (by omega) (by omega) fun j hj hji => hbefore j (by omega) hji

/-- Where no byte is zero, no end is found. -/
theorem findNul_eq_none {b : Block} {fuel off : Nat}
    (h : ∀ j, off ≤ j → j < off + fuel → b.byte j ≠ 0) : findNul b fuel off = none := by
  induction fuel generalizing off with
  | zero => rfl
  | succ fuel ih =>
    rw [findNul, if_neg (h off le_rfl (by omega))]
    exact ih fun j hj hlt => h j (by omega) (by omega)

/-- The write pointer stands behind the last byte but one, where a separator and its terminator do
not fit. -/
def Overruns (text : Bytes) : Prop :=
  text.length = PATH_MAX - 1 ∧ text.getLast? ≠ some SLASH

/-- The separator fits, or the string has one at its end. -/
theorem EndsPath.addSlash {b : Block} {text : Bytes} (h : EndsPath b text) (hne : text ≠ [])
    (hfits : ¬ Overruns text) :
    ∃ b', Common.addSlash b text.length = .ok (b', (withSlash text).length) ∧
      EndsPath b' (withSlash text) := by
  have hlen := h.length_le
  have hlast := h.getLast?_eq hne
  unfold Common.addSlash withSlash
  -- A separator is added only where there is none.
  by_cases hsame : b.byte (text.length - 1) = SLASH
  · rw [if_neg (not_not.mpr hsame), hlast, if_pos (by rw [hsame])]
    exact ⟨b, rfl, h⟩
  · have hother : text.getLast? ≠ some SLASH := by
      rw [hlast]
      intro heq
      exact hsame (Option.some.inj heq)
    have hshort : text.length < PATH_MAX - 1 := by
      refine Nat.lt_of_le_of_ne hlen ?_
      intro heq
      exact hfits ⟨heq, hother⟩
    have hstore : b.store text.length [SLASH, 0] = .ok (b.put text.length [SLASH, 0]) := by
      apply Block.store_of_le
      show text.length + 2 ≤ b.size
      rw [h.size]
      omega
    rw [if_pos hsame, if_neg hother, hstore]
    refine ⟨b.put text.length [SLASH, 0], by simp, ?_⟩
    have hput : EndsPath (b.put text.length ([SLASH] ++ [0])) (text ++ [SLASH]) :=
      h.put (by rw [List.length_append, List.length_singleton]; omega)
    exact hput

/-- The separator does not fit. -/
theorem EndsPath.addSlash_overruns {b : Block} {text : Bytes} (h : EndsPath b text)
    (hfull : Overruns text) : Common.addSlash b text.length = .error .oobWrite := by
  obtain ⟨hlen, hother⟩ := hfull
  have hmax : PATH_MAX = 4096 := rfl
  have hne : text ≠ [] := by
    intro hnil
    rw [hnil] at hlen
    cases hlen
  have hlast := h.getLast?_eq hne
  have hsame : b.byte (text.length - 1) ≠ SLASH := by
    intro heq
    rw [hlast, heq] at hother
    exact hother rfl
  have hstore : b.store text.length [SLASH, 0] = .error .oobWrite := by
    apply if_neg
    show ¬ text.length + 2 ≤ b.size
    rw [h.size]
    omega
  unfold Common.addSlash
  rw [if_pos hsame, hstore]
  rfl

/-- `strncat` finds the end at once and appends what fits. -/
theorem EndsPath.strncat {b : Block} {text : Bytes} (h : EndsPath b text) (s : Bytes) :
    ∃ b', Common.strncat b text.length s (PATH_MAX - text.length - 1) = .ok b' ∧
      EndsPath b' ((text ++ s).take (PATH_MAX - 1)) := by
  have hmax : PATH_MAX = 4096 := rfl
  have hlen := h.length_le
  have hend : Common.findNul b (PATH_MAX - text.length) text.length = some text.length :=
    findNul_of_zero le_rfl (by omega) h.terminated fun j hle hlt => by omega
  have hcut : (text ++ s).take (PATH_MAX - 1) = text ++ s.take (PATH_MAX - text.length - 1) := by
    rw [List.take_append, List.take_of_length_le hlen, Nat.sub_right_comm]
  have hfits : (text ++ s.take (PATH_MAX - text.length - 1)).length ≤ PATH_MAX - 1 := by
    rw [← hcut, List.length_take]
    omega
  have hstore : b.store text.length (s.take (PATH_MAX - text.length - 1) ++ [0])
      = .ok (b.put text.length (s.take (PATH_MAX - text.length - 1) ++ [0])) := by
    apply Block.store_of_le
    rw [h.size]
    simp only [List.length_append, List.length_singleton] at hfits ⊢
    omega
  unfold Common.strncat
  rw [h.size, hend, hcut]
  exact ⟨_, hstore, h.put hfits⟩

/-- No join on the way to the last component leaves the write pointer where a separator does not
fit. -/
def NoOverrun (p : Bytes) (comps : List Bytes) : Prop :=
  ∀ front s back, comps = front ++ s :: back → ¬ Overruns (joined p front)

/-- The first component must not overrun the block, and the others must not behind it. -/
theorem noOverrun_cons_iff {p s : Bytes} {rest : List Bytes} :
    NoOverrun p (s :: rest) ↔ ¬ Overruns p ∧ NoOverrun (withSlash p ++ s) rest := by
  constructor
  · intro h
    refine ⟨h [] s rest rfl, ?_⟩
    intro front t back hrest
    exact h (s :: front) t back (by rw [hrest]; rfl)
  · rintro ⟨hfirst, hlater⟩ front t back hcomps
    cases front with
    | nil => exact hfirst
    | cons u front =>
      obtain ⟨rfl, hrest⟩ := List.cons.inj hcomps
      exact hlater front t back hrest

/-- A text that is too long overruns nothing: the loop has ended. -/
theorem noOverrun_of_long {text : Bytes} (h : PATH_MAX ≤ text.length) (comps : List Bytes) :
    NoOverrun text comps := by
  rintro front s back - ⟨hlen, -⟩
  have hle := (prefix_joined text front).length_le
  have hmax : PATH_MAX = 4096 := rfl
  omega

/-- The loop stays inside the buffer exactly when no join overruns, and leaves a string there. By
induction on the components. -/
theorem EndsPath.pathcatLoop {comps : List Bytes} {b : Block} {text : Bytes} (h : EndsPath b text)
    (hne : comps ≠ [] → text ≠ []) :
    (NoOverrun text comps → ∃ b' text', Common.pathcatLoop b text.length comps = .ok b' ∧
        EndsPath b' text') ∧
      (¬ NoOverrun text comps → Common.pathcatLoop b text.length comps = .error .oobWrite) := by
  have hmax : PATH_MAX = 4096 := rfl
  induction comps generalizing b text with
  | nil =>
    refine ⟨fun _ => ⟨b, text, rfl, h⟩, fun hnot => absurd ?_ hnot⟩
    intro front s back hnil
    exact absurd hnil (by simp)
  | cons s rest ih =>
    have hlen := h.length_le
    have htext : text ≠ [] := hne (by simp)
    have hpos := List.length_pos_of_ne_nil htext
    rw [noOverrun_cons_iff]
    unfold Common.pathcatLoop
    rw [if_neg (by omega), if_neg (by omega)]
    -- The text fills the buffer but for the last byte, and the separator goes past it.
    by_cases hfull : Overruns text
    · rw [h.addSlash_overruns hfull]
      exact ⟨fun hno => absurd hfull hno.1, fun _ => rfl⟩
    · obtain ⟨b1, hslash, h1⟩ := h.addSlash htext hfull
      obtain ⟨b2, hcat, h2⟩ := h1.strncat s
      rw [hslash, ok_bind]
      simp only
      rw [hcat, ok_bind, ← List.length_append]
      by_cases hfits : (withSlash text ++ s).length < PATH_MAX
      · rw [List.take_of_length_le (by omega)] at h2
        have hsome : withSlash text ++ s ≠ [] := by
          obtain ⟨more, hmore⟩ := prefix_withSlash text
          rw [← hmore]
          simp [htext]
        obtain ⟨hok, herror⟩ := ih h2 fun _ => hsome
        refine ⟨fun hno => hok hno.2, fun hover => herror ?_⟩
        exact fun hno => hover ⟨hfull, hno⟩
      · -- The write pointer is past the buffer, and the rest is not looked at.
        have hend : Common.pathcatLoop b2 (withSlash text ++ s).length rest = .ok b2 := by
          cases rest with
          | nil => rfl
          | cons t rest =>
            unfold Common.pathcatLoop
            exact if_pos (by omega)
        have hno : NoOverrun (withSlash text ++ s) rest := noOverrun_of_long (by omega) rest
        exact ⟨fun _ => ⟨b2, _, hend, h2⟩, fun hover => absurd ⟨hfull, hno⟩ hover⟩

/-- The components that `pathcat` can join: `strncpy` terminates the first one, the first one is
empty only when it is alone, and no join overruns. -/
def Fits (p : Bytes) (comps : List Bytes) : Prop :=
  p.length ≤ PATH_MAX - 2 ∧ (p = [] → comps = []) ∧ NoOverrun p comps

/-- The buffer of `pathcat` after `strncpy`. -/
def pathBuffer (heap : Heap) (p : Bytes) : Block where
  size := PATH_MAX
  byte := fun i => if i < PATH_MAX - 1 then p.getD i 0 else heap.stack i

/-- A first component that `strncpy` terminates. -/
theorem endsPath_pathBuffer (heap : Heap) {p : Bytes} (h : p.length ≤ PATH_MAX - 2) :
    EndsPath (pathBuffer heap p) p := by
  have hmax : PATH_MAX = 4096 := rfl
  refine ⟨⟨rfl, by omega, ?_⟩, ?_⟩
  · intro i hi hlast
    exact if_pos hlast
  · show (if p.length < PATH_MAX - 1 then p.getD p.length 0 else heap.stack p.length) = 0
    rw [if_pos (by omega), List.getD_eq_default p 0 (by omega)]

/-- A buffer with a terminated string is a string for `strdup`. -/
theorem EndsPath.exists_findNul {b : Block} {text : Bytes} (h : EndsPath b text) :
    ∃ n, Common.findNul b b.size 0 = some n := by
  cases hi : Common.findNul b b.size 0 with
  | some n => exact ⟨n, rfl⟩
  | none =>
    have hlen := h.length_le
    have hmax : PATH_MAX = 4096 := rfl
    exfalso
    -- The first zero is at the end of the text, or in front of it.
    have hex : ∃ i, b.byte i = 0 := ⟨text.length, h.terminated⟩
    have hle : Nat.find hex ≤ text.length := Nat.find_min' hex h.terminated
    have hsome := findNul_of_zero (b := b) (Nat.zero_le (Nat.find hex))
      (by rw [h.size]; omega : Nat.find hex < 0 + b.size) (Nat.find_spec hex)
      fun j _ hj => Nat.find_min hex hj
    rw [hsome] at hi
    cases hi

/-- Components that fit are joined, whatever the memory holds. -/
theorem exists_pathcat {p : Bytes} {comps : List Bytes} (h : Fits p comps) (heap : Heap) :
    ∃ path, pathcat heap p comps = .ok path := by
  obtain ⟨hlen, hempty, hno⟩ := h
  have hne : comps ≠ [] → p ≠ [] := fun hcomps hp => hcomps (hempty hp)
  obtain ⟨b', text', hloop, hends⟩ := ((endsPath_pathBuffer heap hlen).pathcatLoop hne).1 hno
  obtain ⟨n, hn⟩ := hends.exists_findNul
  exact ⟨b'.bytes 0 n, bind_eq_ok.mpr ⟨b', hloop, by rw [hn]⟩⟩

/-- A memory whose local variables hold no zero. -/
def onesHeap : Heap := ⟨fun _ => true, fun _ => true, fun _ => 1, fun _ => 1⟩

/-- A first component that is too long leaves no terminator in such a memory. -/
theorem findNul_of_long {p : Bytes} (hp : 0 ∉ p) (h : PATH_MAX - 1 ≤ p.length) (off : Nat) :
    findNul (pathBuffer onesHeap p) ((pathBuffer onesHeap p).size - off) off = none := by
  apply findNul_eq_none
  intro j _ _
  show (if j < PATH_MAX - 1 then p.getD j 0 else 1) ≠ 0
  split
  · rename_i hj
    rw [List.getD_eq_getElem _ _ (by omega)]
    intro hzero
    exact hp (hzero ▸ List.getElem_mem _)
  · decide

/-- When the first component is too long, the loop leaves the buffer as it is or does not come to
its end. -/
theorem pathcatLoop_of_long {p : Bytes} (hp : 0 ∉ p) (h : PATH_MAX - 1 ≤ p.length)
    (comps : List Bytes) :
    pathcatLoop (pathBuffer onesHeap p) p.length comps = .ok (pathBuffer onesHeap p) ∨
      ∃ t, pathcatLoop (pathBuffer onesHeap p) p.length comps = .error t := by
  have hmax : PATH_MAX = 4096 := rfl
  cases comps with
  | nil => exact Or.inl rfl
  | cons s rest =>
    unfold pathcatLoop
    by_cases hover : PATH_MAX ≤ p.length
    · exact Or.inl (if_pos hover)
    · rw [if_neg hover, if_neg (by omega)]
      refine Or.inr ?_
      have hlen : p.length = PATH_MAX - 1 := by omega
      unfold addSlash
      split
      · -- The terminator behind the separator is out of the buffer.
        have hstore : (pathBuffer onesHeap p).store p.length [SLASH, 0] = .error .oobWrite := by
          apply if_neg
          show ¬ p.length + 2 ≤ PATH_MAX
          omega
        rw [hstore]
        exact ⟨_, rfl⟩
      · -- The string at the write pointer has no end.
        rw [ok_bind]
        simp only
        unfold strncat
        rw [findNul_of_long hp h]
        exact ⟨_, rfl⟩

/-- Components that do not fit leave the buffer, or the string without its end, in some memory. -/
theorem not_exists_pathcat {p : Bytes} {comps : List Bytes} (hp : 0 ∉ p) (h : ¬ Fits p comps) :
    ∃ heap, ¬ ∃ path, pathcat heap p comps = .ok path := by
  refine ⟨onesHeap, ?_⟩
  rintro ⟨path, hpath⟩
  obtain ⟨b, hbuffer, hend⟩ := bind_eq_ok.mp hpath
  have hloop : pathcatLoop (pathBuffer onesHeap p) p.length comps = .ok b := hbuffer
  by_cases hlong : PATH_MAX - 1 ≤ p.length
  · rcases pathcatLoop_of_long hp hlong comps with hok | ⟨t, herror⟩
    · rw [hok] at hloop
      cases hloop
      have hnone : findNul (pathBuffer onesHeap p) (pathBuffer onesHeap p).size 0 = none :=
        findNul_of_long hp hlong 0
      rw [hnone] at hend
      cases hend
    · rw [herror] at hloop
      cases hloop
  · have hshort : p.length ≤ PATH_MAX - 2 := by omega
    -- The path is short: a component overruns the buffer, or components follow an empty path.
    by_cases hempty : p = [] → comps = []
    · have hno : ¬ NoOverrun p comps := fun hno => h ⟨hshort, hempty, hno⟩
      have hne : comps ≠ [] → p ≠ [] := fun hcomps hnil => hcomps (hempty hnil)
      rw [((endsPath_pathBuffer onesHeap hshort).pathcatLoop hne).2 hno] at hloop
      cases hloop
    · -- The byte in front of the buffer is read.
      obtain ⟨rfl, hcomps⟩ := Classical.not_imp.mp hempty
      obtain ⟨s, rest, rfl⟩ := List.exists_cons_of_ne_nil hcomps
      unfold pathcatLoop at hloop
      rw [if_neg (by decide)] at hloop
      cases hloop

/-- A join of at most `PATH_MAX - 2` bytes fits. -/
theorem fits_of_length_le {p : Bytes} {comps : List Bytes} (hne : p ≠ [])
    (h : (joined p comps).length ≤ PATH_MAX - 2) : Fits p comps := by
  have hmax : PATH_MAX = 4096 := rfl
  refine ⟨(prefix_joined p comps).length_le.trans h, fun hnil => absurd hnil hne, ?_⟩
  rintro front s back rfl ⟨hlen, -⟩
  have hle : joined p front <+: joined p (front ++ s :: back) := by
    rw [joined_eq_foldl p (front ++ s :: back), List.foldl_append, ← joined_eq_foldl p front,
      ← joined_eq_foldl]
    exact prefix_joined _ _
  have := hle.length_le
  omega

/-- A join that fits is the whole path. -/
theorem pathcat_of_length_le {p : Bytes} {comps : List Bytes} (hne : p ≠ []) (hp : 0 ∉ p)
    (hcomps : ∀ s ∈ comps, 0 ∉ s) (h : (joined p comps).length ≤ PATH_MAX - 2) (heap : Heap) :
    pathcat heap p comps = .ok (joined p comps) := by
  obtain ⟨path, hpath⟩ := exists_pathcat (fits_of_length_le hne h) heap
  rw [hpath, pathcat_eq hp hcomps hpath, List.take_of_length_le (by omega)]

/-- `pathcat` gives the left fold that puts a slash behind the path so far, if there is none, and
then the component. -/
theorem pathcat_join (heap : Heap) (p : Bytes) (comps : List Bytes) (hne : p ≠ []) (hp : 0 ∉ p)
    (hcomps : ∀ s ∈ comps, 0 ∉ s)
    (hlen : (comps.foldl (fun path s => withSlash path ++ s) p).length ≤ PATH_MAX - 2) :
    pathcat heap p comps = .ok (comps.foldl (fun path s => withSlash path ++ s) p) := by
  rw [← joined_eq_foldl] at hlen ⊢
  exact pathcat_of_length_le hne hp hcomps hlen heap

/-- The components `b/`, an empty one and `/c` behind `a`. -/
theorem pathcat_join_small :
    pathcat onesHeap [97] [[98, SLASH], [], [SLASH, 99]] =
      .ok ([[98, SLASH], [], [SLASH, 99]].foldl (fun path s => withSlash path ++ s) [97]) :=
  pathcat_join onesHeap [97] [[98, SLASH], [], [SLASH, 99]] (by decide) (by decide) (by decide)
    (by decide)

/-- `pathcat` stays inside its buffer and leaves a terminated string there, whatever the memory
holds, exactly when the components fit. -/
theorem pathcat_safe_iff (p : Bytes) (comps : List Bytes) (hp : 0 ∉ p) :
    (∀ heap, ∃ path, pathcat heap p comps = .ok path) ↔ Fits p comps := by
  constructor
  · intro hall
    by_contra hnot
    obtain ⟨heap, hheap⟩ := not_exists_pathcat hp hnot
    exact hheap (hall heap)
  · intro hfits heap
    exact exists_pathcat hfits heap

/-- An empty first component in front of another one, and two components with 4095 bytes in front
of a third. -/
theorem pathcat_leaves_buffer :
    (∃ heap, ¬ ∃ path, pathcat heap [] [[97]] = .ok path) ∧
      ∃ heap, ¬ ∃ path, pathcat heap (List.replicate 4093 97) [[98], [99]] = .ok path := by
  constructor
  -- An empty path in front of a component.
  · refine not_exists_pathcat (by decide) ?_
    rintro ⟨-, hempty, -⟩
    exact absurd (hempty rfl) (by decide)
  -- A joined path of 4095 bytes without a separator at its end, and one more component.
  · refine not_exists_pathcat ?_ ?_
    · intro hzero
      exact absurd (List.eq_of_mem_replicate hzero) (by decide)
    · rintro ⟨-, -, hno⟩
      have hother : (List.replicate 4093 (97 : UInt8)).getLast? ≠ some SLASH := by
        rw [List.getLast?_replicate, if_neg (by decide)]
        decide
      have hjoined : joined (List.replicate 4093 97) [[98]] =
          List.replicate 4093 97 ++ [SLASH] ++ [98] := by
        show withSlash (List.replicate 4093 97) ++ [98] = _
        rw [withSlash, if_neg hother]
      refine hno [[98]] [99] [] rfl ⟨?_, ?_⟩
      · rw [hjoined, List.length_append, List.length_append, List.length_replicate]
        rfl
      · rw [hjoined, List.getLast?_concat]
        decide

/-- The path `a` with the component `b` and an empty one fits, so it is joined in every memory. -/
theorem pathcat_safe_iff_small :
    Fits [97] [[98], []] ∧
      ((∀ heap, ∃ path, pathcat heap [97] [[98], []] = .ok path) ↔ Fits [97] [[98], []]) :=
  ⟨fits_of_length_le (by decide) (by decide), pathcat_safe_iff [97] [[98], []] (by decide)⟩

/-! ### `strdup_pathcat` -/

/-- A block with a string at its front. -/
structure HoldsString (b : Block) (text : Bytes) : Prop where
  size : text.length + 1 ≤ b.size
  bytes : b.bytes 0 (text.length + 1) = text ++ [0]

/-- The text is at the front of the block. -/
theorem HoldsString.front {b : Block} {text : Bytes} (h : HoldsString b text) :
    b.bytes 0 text.length = text := by
  rw [← Block.take_bytes b 0 (Nat.le_succ _), h.bytes, List.take_left' rfl]

/-- The bytes of the text and the zero behind it, one by one. -/
theorem HoldsString.byte {b : Block} {text : Bytes} (h : HoldsString b text) {i : Nat}
    (hi : i < text.length + 1) : (text ++ [0])[i]? = some (b.byte i) := by
  rw [← h.bytes, List.getElem?_eq_getElem (by rwa [Block.length_bytes]), Block.getElem_bytes,
    Nat.zero_add]

/-- The first zero of the block is behind the text. -/
theorem HoldsString.findNul {b : Block} {text : Bytes} (h : HoldsString b text) (htext : 0 ∉ text) :
    Common.findNul b b.size 0 = some text.length := by
  have hsize := h.size
  apply findNul_of_zero (Nat.zero_le _) (by omega)
  · exact Option.some.inj ((h.byte (Nat.lt_succ_self _)).symm.trans List.getElem?_concat_length)
  · intro j _ hj hzero
    have hget := h.byte (i := j) (by omega)
    rw [hzero, List.getElem?_append_left hj] at hget
    exact htext (List.mem_of_getElem? hget)

/-- The string of the block is the text. -/
theorem HoldsString.stringOf {b : Block} {text : Bytes} (h : HoldsString b text)
    (htext : 0 ∉ text) : Common.stringOf b = .ok text := by
  unfold Common.stringOf
  rw [h.findNul htext]
  simp only [h.front]

/-- A string is copied to the front of a block, or behind what is there. -/
theorem HoldsString.store {b : Block} {front s : Bytes} (hfront : b.bytes 0 front.length = front)
    (hsize : front.length + s.length + 1 ≤ b.size) :
    ∃ b', b.store front.length (s ++ [0]) = .ok b' ∧ b'.size = b.size ∧
      HoldsString b' (front ++ s) := by
  have hlen : (front ++ s).length + 1 = front.length + (s ++ [0]).length := by
    simp only [List.length_append, List.length_singleton]
    omega
  have hstore : b.store front.length (s ++ [0]) = .ok (b.put front.length (s ++ [0])) := by
    apply Block.store_of_le
    simp only [List.length_append, List.length_singleton]
    omega
  refine ⟨_, hstore, rfl, ?_, ?_⟩
  · show (front ++ s).length + 1 ≤ b.size
    rw [List.length_append]
    exact hsize
  · rw [hlen, Block.bytes_append, Nat.zero_add, Block.bytes_put_self,
      Block.bytes_put_of_disjoint _ _ _ _ _ (Or.inl (by omega)), hfront, List.append_assoc]

/-- `strcpy` to the front of a block. -/
theorem HoldsString.strcpy {b : Block} {s : Bytes} (hsize : s.length + 1 ≤ b.size) :
    b.store 0 (s ++ [0]) = .ok (b.put 0 (s ++ [0])) ∧ HoldsString (b.put 0 (s ++ [0])) s := by
  obtain ⟨b', hstore, -, hholds⟩ := @HoldsString.store b [] s rfl (by simpa using hsize)
  have hput : b' = b.put 0 (s ++ [0]) := (Block.store_eq_ok.mp hstore).2
  rw [hput] at hstore hholds
  exact ⟨hstore, hholds⟩

/-- `strcat` appends to a string when the block has the size for it. -/
theorem HoldsString.strcat {b : Block} {text s : Bytes} (h : HoldsString b text)
    (htext : 0 ∉ text) (hs : 0 ∉ s) (hsize : text.length + s.length + 1 ≤ b.size) :
    (do
      let b ← Common.strcat b s
      Common.stringOf b) = .ok (text ++ s) := by
  obtain ⟨b', hstore, -, hholds⟩ := HoldsString.store h.front hsize
  unfold Common.strcat
  rw [h.findNul htext]
  simp only [hstore, ok_bind]
  exact hholds.stringOf (List.not_mem_append htext hs)

/-- The block of `strdup_pathcat`. -/
theorem strdupPathcat_eq {heap : Heap} {p0 : Bytes} (p1 : Bytes) (hne : p0 ≠ [])
    (hmem : heap.malloc ((withSlash p0 ++ p1).length + 1) = true) :
    strdupPathcat heap p0 p1 = (do
      let b ← Block.store ⟨(withSlash p0 ++ p1).length + 1, heap.fresh⟩ 0 (p0 ++ [0])
      let b ← putSeparator b p0
      let b ← strcat b p1
      stringOf b) := by
  have hna : (if p0.getLast? ≠ some SLASH then p0.length + p1.length + 1 + 1
      else p0.length + p1.length + 1) = (withSlash p0 ++ p1).length + 1 := by
    unfold withSlash
    by_cases hlast : p0.getLast? = some SLASH
    · rw [if_neg (not_not.mpr hlast), if_pos hlast, List.length_append]
    · rw [if_pos hlast, if_neg hlast]
      simp only [List.length_append, List.length_singleton]
      omega
  unfold strdupPathcat
  simp only [hna]
  rw [if_neg hne, if_neg (by rw [hmem]; decide)]

/-- Without a slash at the end of the first component the terminator is lost, and the byte behind
the separator decides. -/
theorem strdupPathcat_of_separator {heap : Heap} {p0 p1 : Bytes} (hne : p0 ≠ []) (hp0 : 0 ∉ p0)
    (hp1 : 0 ∉ p1) (hmem : heap.malloc ((withSlash p0 ++ p1).length + 1) = true)
    (hlast : p0.getLast? ≠ some SLASH) :
    (heap.fresh (p0.length + 1) = 0 → strdupPathcat heap p0 p1 = .ok (withSlash p0 ++ p1)) ∧
      (heap.fresh (p0.length + 1) ≠ 0 → ∃ t, strdupPathcat heap p0 p1 = .error t) := by
  have hslash : withSlash p0 = p0 ++ [SLASH] := if_neg hlast
  have hlen : (withSlash p0 ++ p1).length + 1 = p0.length + p1.length + 2 := by
    rw [hslash]
    simp only [List.length_append, List.length_singleton]
    omega
  rw [strdupPathcat_eq p1 hne hmem, hlen]
  -- The block after `strcpy`, and with the separator.
  obtain ⟨hstore1, hholds1⟩ :=
    @HoldsString.strcpy ⟨p0.length + p1.length + 2, heap.fresh⟩ p0 (by
      show p0.length + 1 ≤ p0.length + p1.length + 2
      omega)
  set b1 := Block.put ⟨p0.length + p1.length + 2, heap.fresh⟩ 0 (p0 ++ [0]) with hb1
  have hsize1 : b1.size = p0.length + p1.length + 2 := rfl
  have hstore2 : putSeparator b1 p0 = .ok (b1.put p0.length [SLASH]) := by
    apply (if_pos hlast).trans
    apply Block.store_of_le
    show p0.length + 1 ≤ b1.size
    omega
  have hfront : (b1.put p0.length [SLASH]).bytes 0 (p0.length + 1) = p0 ++ [SLASH] := by
    have hself := Block.bytes_put_self b1 p0.length [SLASH]
    rw [Block.bytes_append, Nat.zero_add, Block.bytes_put_of_disjoint _ _ _ _ _ (Or.inl (by omega)),
      hholds1.front]
    exact congrArg (p0 ++ ·) hself
  have hnext : (b1.put p0.length [SLASH]).byte (p0.length + 1) = heap.fresh (p0.length + 1) := by
    rw [hb1]
    simp [Block.put]
  have hother : 0 ∉ p0 ++ [SLASH] := List.not_mem_append hp0 (by decide)
  rw [hstore1, ok_bind, hstore2, ok_bind]
  constructor
  · intro hzero
    have hholds : HoldsString (b1.put p0.length [SLASH]) (p0 ++ [SLASH]) := by
      refine ⟨?_, ?_⟩
      · show (p0 ++ [SLASH]).length + 1 ≤ b1.size
        rw [List.length_append, List.length_singleton]
        omega
      · rw [Block.bytes_append, List.length_append, List.length_singleton, hfront, Nat.zero_add]
        show _ ++ [(b1.put p0.length [SLASH]).byte (p0.length + 1 + 0)] = _
        rw [Nat.add_zero, hnext, hzero]
    rw [hslash]
    apply hholds.strcat hother hp1
    rw [List.length_append, List.length_singleton]
    show p0.length + 1 + p1.length + 1 ≤ b1.size
    omega
  · intro hjunk
    unfold strcat
    cases hi : findNul (b1.put p0.length [SLASH]) (b1.put p0.length [SLASH]).size 0 with
    | none => exact ⟨_, rfl⟩
    | some i =>
      -- The end that `strcat` finds is behind that byte, and too far for the second component.
      obtain ⟨-, -, hzero, -⟩ := findNul_eq_some hi
      have hbehind : p0.length + 1 < i := by
        by_contra hle
        have hlt : i < p0.length + 1 ∨ i = p0.length + 1 := by omega
        rcases hlt with hlt | heq
        · have hget : (p0 ++ [SLASH])[i]? = some ((b1.put p0.length [SLASH]).byte i) := by
            rw [← hfront, List.getElem?_eq_getElem (by rwa [Block.length_bytes]),
              Block.getElem_bytes, Nat.zero_add]
          rw [hzero] at hget
          exact hother (List.mem_of_getElem? hget)
        · rw [heq, hnext] at hzero
          exact hjunk hzero
      have hstore : (b1.put p0.length [SLASH]).store i (p1 ++ [0]) = .error .oobWrite := by
        apply if_neg
        show ¬ i + (p1 ++ [0]).length ≤ b1.size
        rw [List.length_append, List.length_singleton]
        omega
      simp only [hstore]
      exact ⟨_, rfl⟩

/-- With a slash at the end of the first component there is no separator. -/
theorem strdupPathcat_of_slash {heap : Heap} {p0 p1 : Bytes} (hne : p0 ≠ []) (hp0 : 0 ∉ p0)
    (hp1 : 0 ∉ p1) (hmem : heap.malloc ((withSlash p0 ++ p1).length + 1) = true)
    (hlast : p0.getLast? = some SLASH) :
    strdupPathcat heap p0 p1 = .ok (withSlash p0 ++ p1) := by
  have hslash : withSlash p0 = p0 := if_pos hlast
  rw [strdupPathcat_eq p1 hne hmem, hslash]
  obtain ⟨hstore1, hholds1⟩ := @HoldsString.strcpy ⟨(p0 ++ p1).length + 1, heap.fresh⟩ p0 (by
    show p0.length + 1 ≤ (p0 ++ p1).length + 1
    rw [List.length_append]
    omega)
  have hnone : ∀ b, putSeparator b p0 = .ok b := fun b => if_neg (not_not.mpr hlast)
  rw [hstore1, ok_bind, hnone, ok_bind]
  apply hholds1.strcat hp0 hp1
  show p0.length + p1.length + 1 ≤ (p0 ++ p1).length + 1
  rw [List.length_append]

/-- `strdup_pathcat` writes inside its block and agrees with `pathcat` on the join exactly when the
first component ends with a slash, or the byte of the fresh block behind the separator is zero. -/
theorem strdup_pathcat_iff (heap : Heap) (p0 p1 : Bytes) (hne : p0 ≠ []) (hp0 : 0 ∉ p0)
    (hp1 : 0 ∉ p1) (hlen : (withSlash p0 ++ p1).length ≤ PATH_MAX - 2)
    (hmem : heap.malloc ((withSlash p0 ++ p1).length + 1) = true) :
    (strdupPathcat heap p0 p1 = .ok (withSlash p0 ++ p1) ∧
        pathcat heap p0 [p1] = .ok (withSlash p0 ++ p1)) ↔
      p0.getLast? = some SLASH ∨ heap.fresh (p0.length + 1) = 0 := by
  have hfits : (joined p0 [p1]).length ≤ PATH_MAX - 2 := hlen
  have hjoin : pathcat heap p0 [p1] = .ok (joined p0 [p1]) :=
    pathcat_of_length_le hne hp0 (by simpa using hp1) hfits heap
  by_cases hlast : p0.getLast? = some SLASH
  · exact ⟨fun _ => Or.inl hlast, fun _ => ⟨strdupPathcat_of_slash hne hp0 hp1 hmem hlast, hjoin⟩⟩
  · obtain ⟨hzero, hjunk⟩ := strdupPathcat_of_separator hne hp0 hp1 hmem hlast
    constructor
    · rintro ⟨hok, -⟩
      refine Or.inr ?_
      by_contra hne0
      obtain ⟨t, herror⟩ := hjunk hne0
      rw [herror] at hok
      cases hok
    · rintro (hslash | hfresh)
      · exact absurd hslash hlast
      · exact ⟨hzero hfresh, hjoin⟩

/-- `aaa` and `bbb` in memory that holds no zero. -/
theorem strdup_pathcat_overruns :
    strdupPathcat onesHeap [97, 97, 97] [98, 98, 98] = .error .oobRead ∧
      pathcat onesHeap [97, 97, 97] [[98, 98, 98]] = .ok [97, 97, 97, SLASH, 98, 98, 98] := by
  refine ⟨rfl, ?_⟩
  exact pathcat_of_length_le (by decide) (by decide) (by decide) (by decide) onesHeap

/-- With a slash at the end of the directory both functions join alike, in a memory of ones. -/
theorem strdup_pathcat_iff_slash :
    strdupPathcat onesHeap [97, SLASH] [98] = .ok (withSlash [97, SLASH] ++ [98]) ∧
      pathcat onesHeap [97, SLASH] [[98]] = .ok (withSlash [97, SLASH] ++ [98]) :=
  (strdup_pathcat_iff onesHeap [97, SLASH] [98] (by decide) (by decide) (by decide) (by decide)
    rfl).mpr (Or.inl rfl)

end Compostela.Common
