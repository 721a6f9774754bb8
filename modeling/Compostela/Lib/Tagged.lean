import Mathlib.Data.List.Forall2

/-!
# `Compostela.Lib.Tagged`: streams that say who wrote them

Several writers put messages on one stream. In a tagged stream each element carries the number
of the message that it is part of. `joined` is the stream of messages that are written one
after the other, and a stream is `Contiguous` when it is like this and each message got out up
to some point.

`Contiguous.concat` is the step for one more message, and `Contiguous.sorted` a test: the
numbers on a contiguous stream never go down.
-/

set_option autoImplicit false

namespace Compostela.Tagged

section
variable {α : Type}

/-- A message, or a part of it, under its number. -/
def tag (t : Nat) (bs : List α) : List (Nat × α) := bs.map fun b => (t, b)

/-- No elements have no tags. -/
@[simp] theorem tag_nil (t : Nat) : tag t ([] : List α) = [] := rfl

/-- Two parts with one tag. -/
@[simp] theorem tag_append (t : Nat) (bs cs : List α) : tag t (bs ++ cs) = tag t bs ++ tag t cs :=
  List.map_append

/-- The front of tagged elements has the same tag. -/
@[simp] theorem tag_take (t n : Nat) (bs : List α) : (tag t bs).take n = tag t (bs.take n) :=
  List.map_take.symm

/-- The rest of tagged elements has the same tag. -/
@[simp] theorem tag_drop (t n : Nat) (bs : List α) : (tag t bs).drop n = tag t (bs.drop n) :=
  List.map_drop.symm

/-- Tags make no elements. -/
@[simp] theorem tag_eq_nil_iff {t : Nat} {bs : List α} : tag t bs = [] ↔ bs = [] :=
  List.map_eq_nil_iff

/-- Without their tags the elements are what they were. -/
@[simp] theorem map_snd_tag (t : Nat) (bs : List α) : (tag t bs).map Prod.snd = bs := by
  simp [tag, Function.comp_def]

/-- Every element has the tag that it was given. -/
theorem eq_of_mem_tag {t : Nat} {bs : List α} {x : Nat × α} (h : x ∈ tag t bs) : x.1 = t := by
  obtain ⟨b, -, rfl⟩ := List.mem_map.mp h
  rfl

/-- The stream of messages that are written one after the other. -/
def joined (parts : List (List α)) : List (Nat × α) :=
  parts.zipIdx.flatMap fun p => tag p.2 p.1

/-- One more part gets the next number as its tag. -/
theorem joined_concat (parts : List (List α)) (p : List α) :
    joined (parts ++ [p]) = joined parts ++ tag parts.length p := by
  simp [joined, List.zipIdx_append]

/-- The numbers on the stream never go down, from whatever number the count starts. -/
theorem sorted_zipIdx (parts : List (List α)) (k : Nat) :
    (((parts.zipIdx k).flatMap fun p => tag p.2 p.1).map Prod.fst).Pairwise (· ≤ ·) := by
  induction parts generalizing k with
  | nil => exact List.Pairwise.nil
  | cons p parts ih =>
    rw [List.zipIdx_cons, List.flatMap_cons, List.map_append, List.pairwise_append]
    refine ⟨?_, ih (k + 1), ?_⟩
    · -- The first message has one number only.
      have hmap : (tag k p).map Prod.fst = List.replicate p.length k := by
        rw [tag, List.map_map]
        exact List.map_const'
      show ((tag k p).map Prod.fst).Pairwise (· ≤ ·)
      rw [hmap, List.pairwise_replicate]
      exact Or.inr (Nat.le_refl k)
    · intro i hi j hj
      obtain ⟨x, hx, rfl⟩ := List.mem_map.mp hi
      obtain ⟨y, hy, rfl⟩ := List.mem_map.mp hj
      obtain ⟨⟨q, m⟩, hq, hy⟩ := List.mem_flatMap.mp hy
      have hle : k + 1 ≤ m := List.le_snd_of_mem_zipIdx hq
      rw [eq_of_mem_tag hx, eq_of_mem_tag hy]
      show k ≤ m
      omega

/-- The numbers on the stream never go down. -/
theorem joined_sorted (parts : List (List α)) :
    ((joined parts).map Prod.fst).Pairwise (· ≤ ·) := sorted_zipIdx parts 0

/-- The stream consists of the messages one after the other, each up to some point. -/
def Contiguous (messages : List (List α)) (stream : List (Nat × α)) : Prop :=
  ∃ parts, List.Forall₂ (· <+: ·) parts messages ∧ stream = joined parts

/-- The empty stream mixes nothing. -/
theorem contiguous_nil : Contiguous ([] : List (List α)) [] := ⟨[], .nil, rfl⟩

/-- One more message is written, up to some point. -/
theorem Contiguous.concat {messages : List (List α)} {stream : List (Nat × α)}
    (h : Contiguous messages stream) {p m : List α} (hp : p <+: m) :
    Contiguous (messages ++ [m]) (stream ++ tag messages.length p) := by
  obtain ⟨parts, hparts, rfl⟩ := h
  refine ⟨parts ++ [p], List.rel_append hparts (.cons hp .nil), ?_⟩
  rw [joined_concat, hparts.length_eq]

/-- In a contiguous stream the tags never go back. -/
theorem Contiguous.sorted {messages : List (List α)} {stream : List (Nat × α)}
    (h : Contiguous messages stream) : (stream.map Prod.fst).Pairwise (· ≤ ·) := by
  obtain ⟨parts, -, rfl⟩ := h
  exact joined_sorted parts

end

end Compostela.Tagged
