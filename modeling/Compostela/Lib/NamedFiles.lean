import Mathlib.Data.List.Basic
import Mathlib.Data.List.Infix
import Mathlib.Data.List.Nodup
import Mathlib.Logic.Function.Basic

/-!
# `Compostela.Lib.NamedFiles`: pieces that are written to named files

A writer puts pieces into files, one after the other, and a name says for each of them which file it
goes to. A piece is put behind what the file holds, or over the start of it.

* `origin_overlay`, `origin_append`: where an element of a file comes from.
* `prefix_of_last`: over the start, the last piece of a name is there.
* `infix_append`, `store_append_of_const`: behind what is there, nothing gets lost.
* `flatten_chunks`: a list in chunks of a bounded length.
-/

set_option autoImplicit false

namespace Compostela.NamedFiles

section
variable {α κ : Type} [DecidableEq κ]

/-- A piece over the start of what is there. -/
def overlay (content piece : List α) : List α := piece ++ content.drop piece.length

/-- The files after the pieces, the `i`-th of which goes to `name (k + i)`. -/
def store (put : List α → List α → List α) (name : Nat → κ) :
    Nat → List (List α) → (κ → Option (List α)) → κ → Option (List α)
  | _, [], files => files
  | k, p :: ps, files =>
      store put name (k + 1) ps
        (Function.update files (name k) (some (put ((files (name k)).getD []) p)))

variable {put : List α → List α → List α} {name : Nat → κ} {k : Nat} {ps : List (List α)}
  {files : κ → Option (List α)} {f : κ}

/-- Pieces that are stored one after the other, in two groups. -/
theorem store_append (put : List α → List α → List α) (name : Nat → κ) (k : Nat)
    (ps qs : List (List α)) (files : κ → Option (List α)) :
    store put name k (ps ++ qs) files =
      store put name (k + ps.length) qs (store put name k ps files) := by
  induction ps generalizing k files with
  | nil => rfl
  | cons p ps ih =>
    rw [List.cons_append, store, ih, List.length_cons, store]
    congr 1
    omega

/-- A file that no piece goes to stays as it is. -/
theorem store_of_ne (h : ∀ i, i < ps.length → name (k + i) ≠ f) :
    store put name k ps files f = files f := by
  induction ps generalizing k files with
  | nil => rfl
  | cons p ps ih =>
    have hfirst : name k ≠ f := h 0 (by simp)
    rw [store, ih, Function.update_of_ne hfirst.symm]
    intro i hi
    have hnext := h (i + 1) (by simpa using hi)
    rwa [show k + (i + 1) = k + 1 + i by omega] at hnext

/-! ### Over the start -/

/-- What stands at a place of a file was put there by a piece that has it at that place, or was
there before. -/
theorem origin_overlay {cs : List α} {i : Nat} {x : α}
    (hc : store overlay name k ps files f = some cs) (hx : cs[i]? = some x) :
    (∃ j p, ps[j]? = some p ∧ name (k + j) = f ∧ p[i]? = some x) ∨
      ∃ c0, files f = some c0 ∧ c0[i]? = some x := by
  induction ps generalizing k files with
  | nil => exact .inr ⟨cs, hc, hx⟩
  | cons p ps ih =>
    rcases ih hc with ⟨j, q, hq, hname, hat⟩ | ⟨c0, hc0, hat⟩
    · refine .inl ⟨j + 1, q, by simpa using hq, ?_, hat⟩
      rw [← hname]
      congr 1
      omega
    · by_cases hf : f = name k
      · subst hf
        rw [Function.update_self] at hc0
        cases hc0
        rw [overlay] at hat
        by_cases hin : i < p.length
        · rw [List.getElem?_append_left hin] at hat
          exact .inl ⟨0, p, rfl, rfl, hat⟩
        · rw [List.getElem?_append_right (by omega), List.getElem?_drop,
            show p.length + (i - p.length) = i by omega] at hat
          -- Behind the piece the file is as before.
          cases hbefore : files (name k) with
          | none =>
            rw [hbefore] at hat
            cases hat
          | some c0 =>
            rw [hbefore] at hat
            exact .inr ⟨c0, rfl, hat⟩
      · rw [Function.update_of_ne hf] at hc0
        exact .inr ⟨c0, hc0, hat⟩

/-- The last piece of a name is at the start of its file. -/
theorem prefix_of_last (name : Nat → κ) (files : κ → Option (List α)) {j : Nat} {p : List α}
    (hp : ps[j]? = some p)
    (hlast : ∀ i, j < i → i < ps.length → name (k + i) ≠ name (k + j)) :
    ∃ c, store overlay name k ps files (name (k + j)) = some c ∧ p <+: c := by
  obtain ⟨hj, rfl⟩ := List.getElem?_eq_some_iff.mp hp
  have hsplit : ps = ps.take j ++ ps[j] :: ps.drop (j + 1) := by
    rw [← List.drop_eq_getElem_cons hj, List.take_append_drop]
  have hlen : (ps.take j).length = j := by
    rw [List.length_take]
    omega
  -- The pieces behind it go elsewhere.
  have hkeeps : ∀ files' : κ → Option (List α),
      store overlay name (k + j + 1) (ps.drop (j + 1)) files' (name (k + j)) =
        files' (name (k + j)) := by
    intro files'
    apply store_of_ne
    intro i hi
    rw [List.length_drop] at hi
    have hne := hlast (j + 1 + i) (by omega) (by omega)
    rwa [show k + (j + 1 + i) = k + j + 1 + i by omega] at hne
  generalize ps[j] = p at hsplit
  generalize hbefore : store overlay name k (ps.take j) files = before
  refine ⟨overlay ((before (name (k + j))).getD []) p, ?_, List.prefix_append _ _⟩
  rw [hsplit, store_append, hlen, store, hbefore, hkeeps, Function.update_self]

/-! ### Behind what is there -/

/-- An element of a file was put there by a piece that has it, or was there before. -/
theorem origin_append {c : List α} {x : α}
    (hc : store (· ++ ·) name k ps files f = some c) (hx : x ∈ c) :
    (∃ j p, ps[j]? = some p ∧ name (k + j) = f ∧ x ∈ p) ∨ ∃ c0, files f = some c0 ∧ x ∈ c0 := by
  induction ps generalizing k files with
  | nil => exact .inr ⟨c, hc, hx⟩
  | cons p ps ih =>
    rcases ih hc with ⟨j, q, hq, hname, hmem⟩ | ⟨c0, hc0, hmem⟩
    · refine .inl ⟨j + 1, q, by simpa using hq, ?_, hmem⟩
      rw [← hname]
      congr 1
      omega
    -- The first message may have gone to this file, and the others come behind it.
    · by_cases hf : f = name k
      · subst hf
        rw [Function.update_self] at hc0
        cases hc0
        rcases List.mem_append.mp hmem with hmem | hmem
        · cases hbefore : files (name k) with
          | none =>
            rw [hbefore] at hmem
            cases hmem
          | some c0 =>
            rw [hbefore] at hmem
            exact .inr ⟨c0, rfl, hmem⟩
        · exact .inl ⟨0, p, rfl, rfl, hmem⟩
      · rw [Function.update_of_ne hf] at hc0
        exact .inr ⟨c0, hc0, hmem⟩

/-- What is in a file stays there. -/
theorem infix_append {c l : List α} (hc : files f = some c) (hl : l <:+: c) :
    ∃ c', store (· ++ ·) name k ps files f = some c' ∧ l <:+: c' := by
  induction ps generalizing k files c with
  | nil => exact ⟨c, hc, hl⟩
  | cons p ps ih =>
    by_cases hf : f = name k
    · subst hf
      exact ih (by rw [Function.update_self, hc]; rfl) (hl.trans (List.infix_append' [] c p))
    · exact ih (by rw [Function.update_of_ne hf, hc]) hl

/-- Pieces of one name stand one behind the other. -/
theorem store_append_of_const (files : κ → Option (List α)) (hne : ps ≠ [])
    (h : ∀ i, i < ps.length → name (k + i) = f) :
    store (· ++ ·) name k ps files f = some ((files f).getD [] ++ ps.flatten) := by
  induction ps generalizing k files with
  | nil => exact absurd rfl hne
  | cons p ps ih =>
    have hfirst : name k = f := h 0 (by simp)
    rw [store, hfirst]
    cases ps with
    | nil => simp [store]
    | cons q ps =>
      rw [ih _ (by simp)]
      · simp
      · intro i hi
        have hnext := h (i + 1) (by simpa using hi)
        rwa [show k + (i + 1) = k + 1 + i by omega] at hnext

end

/-! ### Chunks -/

section
variable {α : Type}

/-- Where all elements differ, an element has one place. -/
theorem place_unique {ps : List (List α)} (h : ps.flatten.Nodup) {j j' i i' : Nat} {p p' : List α}
    {x : α} (hp : ps[j]? = some p) (hp' : ps[j']? = some p') (hx : p[i]? = some x)
    (hx' : p'[i']? = some x) : j = j' ∧ i = i' := by
  obtain ⟨hnodup, hdisjoint⟩ := List.nodup_flatten.mp h
  have hsame : j = j' := by
    obtain ⟨hj, rfl⟩ := List.getElem?_eq_some_iff.mp hp
    obtain ⟨hj', rfl⟩ := List.getElem?_eq_some_iff.mp hp'
    have hpair := List.pairwise_iff_getElem.mp hdisjoint
    rcases Nat.lt_trichotomy j j' with hlt | heq | hlt
    · exact absurd (List.mem_of_getElem? hx') (hpair j j' hj hj' hlt (List.mem_of_getElem? hx))
    · exact heq
    · exact absurd (List.mem_of_getElem? hx) (hpair j' j hj' hj hlt (List.mem_of_getElem? hx'))
  subst hsame
  rw [hp] at hp'
  cases hp'
  obtain ⟨hi, hget⟩ := List.getElem?_eq_some_iff.mp hx
  obtain ⟨hi', hget'⟩ := List.getElem?_eq_some_iff.mp hx'
  exact ⟨rfl, (hnodup p (List.mem_of_getElem? hp)).getElem_inj_iff.mp (hget.trans hget'.symm)⟩

/-- A list in chunks of at most `n` elements. -/
def chunks (n : Nat) (l : List α) : List (List α) :=
  if l.length ≤ n ∨ n = 0 then (if l = [] then [] else [l]) else l.take n :: chunks n (l.drop n)
termination_by l.length
decreasing_by
  rw [List.length_drop]
  omega

/-- A list that is no longer than a chunk is one chunk. -/
theorem chunks_of_le {n : Nat} {l : List α} (hle : l.length ≤ n) (hne : l ≠ []) :
    chunks n l = [l] := by
  rw [chunks, if_pos (.inl hle), if_neg hne]

/-- A longer list starts with a full chunk. -/
theorem chunks_of_lt {n : Nat} {l : List α} (hn : 0 < n) (hlt : n < l.length) :
    chunks n l = l.take n :: chunks n (l.drop n) := by
  rw [chunks, if_neg (by omega)]

/-- Nothing has no chunk. -/
@[simp] theorem chunks_nil (n : Nat) : chunks n ([] : List α) = [] := by
  rw [chunks, if_pos (.inl (Nat.zero_le n)), if_pos rfl]

/-- The first chunk starts where the list does. -/
theorem chunks_eq_cons {n : Nat} {l : List α} (hn : 0 < n) (hne : l ≠ []) :
    ∃ rest, chunks n l = l.take n :: rest := by
  rcases Nat.lt_or_ge n l.length with hlt | hge
  · exact ⟨_, chunks_of_lt hn hlt⟩
  · exact ⟨[], by rw [chunks_of_le hge hne, List.take_of_length_le hge]⟩

/-- A map does not change how a list is cut. -/
theorem chunks_map {β : Type} (f : α → β) (n : Nat) (l : List α) :
    chunks n (l.map f) = (chunks n l).map (List.map f) := by
  induction l using chunks.induct n with
  | case1 => rw [List.map_nil, chunks_nil, chunks_nil, List.map_nil]
  | case2 l hle hne =>
    rw [chunks, if_pos (by simpa using hle), if_neg (by simpa using hne), chunks, if_pos hle,
      if_neg hne]
    rfl
  | case3 l hle ih =>
    rw [chunks, if_neg (by simpa using hle), ← List.map_take, ← List.map_drop, ih]
    conv_rhs => rw [chunks, if_neg hle]
    rfl

/-- The chunks of a list are together the list. -/
theorem flatten_chunks (n : Nat) (l : List α) : (chunks n l).flatten = l := by
  induction l using chunks.induct n with
  | case1 => rw [chunks_nil, List.flatten_nil]
  | case2 l hle hne =>
    rw [chunks, if_pos hle, if_neg hne, List.flatten_cons, List.flatten_nil, List.append_nil]
  | case3 l hle ih => rw [chunks, if_neg hle, List.flatten_cons, ih, List.take_append_drop]

/-- No chunk is empty. -/
theorem ne_nil_of_mem_chunks {n : Nat} {l p : List α} (h : p ∈ chunks n l) : p ≠ [] := by
  induction l using chunks.induct n with
  | case1 =>
    rw [chunks_nil] at h
    cases h
  | case2 l hle hne =>
    rw [chunks, if_pos hle, if_neg hne, List.mem_singleton] at h
    rwa [h]
  | case3 l hle ih =>
    rw [chunks, if_neg hle] at h
    rcases List.mem_cons.mp h with rfl | h
    · intro hnil
      have hlen := congrArg List.length hnil
      rw [List.length_take, List.length_nil] at hlen
      omega
    · exact ih h

end

end Compostela.NamedFiles
