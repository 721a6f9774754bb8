import Mathlib.Data.List.Basic
import Mathlib.Data.List.TakeWhile

/-!
# `Compostela.Lib.Lines`: the lines of a stream

A line ends with a terminator, and what is behind the last terminator of a stream is no line.
`linesOf` cuts a stream into its lines. The open line is the argument of its scan.

* `linesOf_append_of_lines`: lines at the front of a stream are its first lines.
* `flatten_linesOf`: the lines and what is behind them are the stream.
* `flatten_append_remainder`: what is behind them is the `remainder`.
* `linesOf_append`: the remainder is where the next line of a longer stream begins.
* `flatten_shortLines`: the same for the lines in front of the first one that is too long.
-/

set_option autoImplicit false

namespace Compostela.Lines

variable {α : Type} [DecidableEq α]

/-- The list is a line: its only terminator is at its end. -/
def IsLine (sep : α) (l : List α) : Prop := ∃ init, l = init ++ [sep] ∧ sep ∉ init

/-- The scan for lines, with the open line so far. -/
def linesFrom (sep : α) : List α → List α → List (List α)
  | _, [] => []
  | line, a :: as =>
      if a = sep then (line ++ [a]) :: linesFrom sep [] as else linesFrom sep (line ++ [a]) as

/-- The lines of a stream. -/
def linesOf (sep : α) (l : List α) : List (List α) := linesFrom sep [] l

variable {sep : α}

/-- No elements make no line. -/
@[simp] theorem linesOf_nil : linesOf sep [] = [] := rfl

/-- Without a terminator the open line gets longer. -/
theorem linesFrom_append_of_notMem (line : List α) {l : List α} (rest : List α) (h : sep ∉ l) :
    linesFrom sep line (l ++ rest) = linesFrom sep (line ++ l) rest := by
  induction l generalizing line with
  | nil => simp
  | cons a l ih =>
    rw [List.mem_cons, not_or] at h
    rw [List.cons_append, linesFrom, if_neg (Ne.symm h.1), ih _ h.2, List.append_assoc]
    rfl

/-- A line at the front is the first line. -/
theorem linesOf_append_of_line {l : List α} (rest : List α) (h : IsLine sep l) :
    linesOf sep (l ++ rest) = l :: linesOf sep rest := by
  obtain ⟨init, rfl, hinit⟩ := h
  rw [linesOf, List.append_assoc, linesFrom_append_of_notMem _ _ hinit, List.singleton_append,
    linesFrom, if_pos rfl, List.nil_append]
  rfl

/-- Lines at the front are the first lines. -/
theorem linesOf_append_of_lines {ls : List (List α)} (rest : List α) (h : ∀ l ∈ ls, IsLine sep l) :
    linesOf sep (ls.flatten ++ rest) = ls ++ linesOf sep rest := by
  induction ls with
  | nil => rfl
  | cons l ls ih =>
    rw [List.flatten_cons, List.append_assoc, linesOf_append_of_line _ (h l List.mem_cons_self),
      ih fun l' hl' => h l' (List.mem_cons_of_mem l hl'), List.cons_append]

/-- The lines of a stream, and what is behind the last of them. -/
theorem flatten_linesOf (sep : α) (l : List α) :
    ∃ rest, l = (linesOf sep l).flatten ++ rest ∧ sep ∉ rest ∧
      ∀ line ∈ linesOf sep l, IsLine sep line := by
  -- The scan, with a piece of a line before it.
  have hscan : ∀ line : List α, sep ∉ line → ∃ rest,
      line ++ l = (linesFrom sep line l).flatten ++ rest ∧ sep ∉ rest ∧
        ∀ line' ∈ linesFrom sep line l, IsLine sep line' := by
    induction l with
    | nil =>
      intro line hline
      exact ⟨line, by simp [linesFrom], hline, by simp [linesFrom]⟩
    | cons a l ih =>
      intro line hline
      by_cases ha : a = sep
      · obtain ⟨rest, hrest, hsep, hall⟩ := ih [] List.not_mem_nil
        refine ⟨rest, ?_, hsep, ?_⟩
        · rw [linesFrom, if_pos ha, List.flatten_cons, List.append_assoc, ← hrest]
          simp
        · intro line' hline'
          rw [linesFrom, if_pos ha] at hline'
          rcases List.mem_cons.mp hline' with rfl | hline'
          · exact ⟨line, by rw [ha], hline⟩
          · exact hall line' hline'
      · obtain ⟨rest, hrest, hsep, hall⟩ := ih (line ++ [a])
          (by simp [hline, Ne.symm ha])
        refine ⟨rest, ?_, hsep, ?_⟩
        · rw [linesFrom, if_neg ha, ← hrest]
          simp
        · rw [linesFrom, if_neg ha]
          exact hall
  exact hscan [] List.not_mem_nil

/-! ### What is behind the lines -/

/-- What is behind the last line of a stream. -/
def remainder (sep : α) (l : List α) : List α := l.drop (linesOf sep l).flatten.length

/-- The lines and the remainder are the stream. -/
theorem flatten_append_remainder (sep : α) (l : List α) :
    (linesOf sep l).flatten ++ remainder sep l = l := by
  obtain ⟨rest, hrest, -, -⟩ := flatten_linesOf sep l
  have hdrop : l.drop (linesOf sep l).flatten.length = rest := by
    generalize (linesOf sep l).flatten = front at hrest ⊢
    rw [hrest, List.drop_left]
  rw [remainder, hdrop]
  exact hrest.symm

/-- What is left behind the last line has no separator. -/
theorem notMem_remainder (sep : α) (l : List α) : sep ∉ remainder sep l := by
  obtain ⟨rest, hrest, hsep, -⟩ := flatten_linesOf sep l
  have hsplit := flatten_append_remainder sep l
  rw [List.append_cancel_left (hsplit.trans hrest)]
  exact hsep

/-- Each of the lines has its separator at the end, and there alone. -/
theorem isLine_of_mem {l line : List α} (h : line ∈ linesOf sep l) : IsLine sep line := by
  obtain ⟨rest, -, -, hall⟩ := flatten_linesOf sep l
  exact hall line h

/-- Without a separator there is no line. -/
theorem linesOf_of_notMem {l : List α} (h : sep ∉ l) : linesOf sep l = [] := by
  have hscan := linesFrom_append_of_notMem [] [] h
  rw [List.append_nil, List.nil_append] at hscan
  exact hscan

/-- Without a separator everything is left. -/
theorem remainder_of_notMem {l : List α} (h : sep ∉ l) : remainder sep l = l := by
  rw [remainder, linesOf_of_notMem h]
  rfl

/-- Lines at the front do not change the remainder. -/
theorem remainder_append_of_lines {ls : List (List α)} (rest : List α)
    (h : ∀ l ∈ ls, IsLine sep l) : remainder sep (ls.flatten ++ rest) = remainder sep rest := by
  rw [remainder, linesOf_append_of_lines _ h, List.flatten_append, List.length_append,
    ← List.drop_drop, List.drop_left, remainder]

/-- The lines at the front of a stream come first, and what is behind them opens the next one. -/
theorem linesOf_append (sep : α) (l more : List α) :
    linesOf sep (l ++ more) = linesOf sep l ++ linesOf sep (remainder sep l ++ more) := by
  conv_lhs => rw [← flatten_append_remainder sep l, List.append_assoc]
  exact linesOf_append_of_lines _ fun _ => isLine_of_mem

/-- What is left behind more elements depends on what was left before them. -/
theorem remainder_append (sep : α) (l more : List α) :
    remainder sep (l ++ more) = remainder sep (remainder sep l ++ more) := by
  conv_lhs => rw [← flatten_append_remainder sep l, List.append_assoc]
  exact remainder_append_of_lines _ fun _ => isLine_of_mem

/-- The lines and what is left have all elements between them. -/
theorem length_flatten_add_remainder (sep : α) (l : List α) :
    (linesOf sep l).flatten.length + (remainder sep l).length = l.length := by
  rw [← List.length_append, flatten_append_remainder]

/-- Each line has an element. -/
theorem length_linesOf_add_remainder_le (sep : α) (l : List α) :
    (linesOf sep l).length + (remainder sep l).length ≤ l.length := by
  have hflat : ∀ ls : List (List α), (∀ l ∈ ls, IsLine sep l) →
      ls.length ≤ ls.flatten.length := by
    intro ls hls
    induction ls with
    | nil => exact Nat.le_refl 0
    | cons l ls ih =>
      obtain ⟨init, rfl, -⟩ := hls l List.mem_cons_self
      have hle := ih fun l' hl' => hls l' (List.mem_cons_of_mem _ hl')
      rw [List.length_cons, List.flatten_cons, List.length_append, List.length_append,
        List.length_singleton]
      omega
  have hle := hflat (linesOf sep l) fun _ => isLine_of_mem
  have hsplit := length_flatten_add_remainder sep l
  omega

/-! ### Short lines -/

/-- The lines in front of the first one with more than `n` elements. -/
def shortLines (sep : α) (n : Nat) (l : List α) : List (List α) :=
  (linesOf sep l).takeWhile (·.length ≤ n)

/-- A short line at the front is the first short line. -/
theorem shortLines_append_of_line {line : List α} {n : Nat} (rest : List α) (h : IsLine sep line)
    (hle : line.length ≤ n) :
    shortLines sep n (line ++ rest) = line :: shortLines sep n rest := by
  rw [shortLines, linesOf_append_of_line _ h, List.takeWhile_cons_of_pos (by simpa using hle)]
  rfl

omit [DecidableEq α] in
/-- A line has its terminator among its first elements only when it is short. -/
theorem IsLine.notMem_take {line : List α} {n : Nat} (h : IsLine sep line) (hlt : n < line.length) :
    sep ∉ line.take n := by
  obtain ⟨init, rfl, hinit⟩ := h
  rw [List.length_append, List.length_singleton] at hlt
  rw [List.take_append_of_le_length (by omega)]
  exact fun hmem => hinit (List.mem_of_mem_take hmem)

/-- The short lines, and what is behind the last of them. -/
theorem flatten_shortLines (sep : α) (n : Nat) (l : List α) :
    ∃ rest, l = (shortLines sep n l).flatten ++ rest ∧ sep ∉ rest.take n ∧
      ∀ line ∈ shortLines sep n l, IsLine sep line := by
  obtain ⟨rest, hrest, hsep, hall⟩ := flatten_linesOf sep l
  have hsplit : shortLines sep n l ++ (linesOf sep l).dropWhile (·.length ≤ n) = linesOf sep l :=
    List.takeWhile_append_dropWhile
  -- What is left out starts with the first line that is too long.
  refine ⟨((linesOf sep l).dropWhile (·.length ≤ n)).flatten ++ rest, ?_, ?_, ?_⟩
  · rw [← List.append_assoc, ← List.flatten_append, hsplit]
    exact hrest
  · -- The first line that is too long has no terminator among its first elements.
    cases hlong : (linesOf sep l).dropWhile (·.length ≤ n) with
    | nil => exact fun hmem => hsep (List.mem_of_mem_take hmem)
    | cons line others =>
      have hmem : line ∈ linesOf sep l :=
        (List.dropWhile_sublist _).subset (hlong ▸ List.mem_cons_self)
      have hlt : n < line.length := by
        have hhead := List.head_dropWhile_not (fun m : List α => decide (m.length ≤ n))
          (l := linesOf sep l) (by rw [hlong]; exact List.cons_ne_nil _ _)
        simpa [hlong] using hhead
      rw [List.flatten_cons, List.append_assoc, List.take_append_of_le_length (Nat.le_of_lt hlt)]
      exact (hall line hmem).notMem_take hlt
  · exact fun line hline => hall line (List.takeWhile_subset _ hline)

/-- Without a terminator among the first elements no line is short. -/
theorem shortLines_of_notMem {n : Nat} {l : List α} (h : sep ∉ l.take n) :
    shortLines sep n l = [] := by
  obtain ⟨rest, hrest, -, hall⟩ := flatten_shortLines sep n l
  cases hlines : shortLines sep n l with
  | nil => rfl
  | cons line others =>
    have hmem : line ∈ shortLines sep n l := by rw [hlines]; exact List.mem_cons_self
    have hle : line.length ≤ n := by
      simpa using List.mem_takeWhile_imp hmem
    obtain ⟨init, hline, -⟩ := hall line hmem
    refine absurd ?_ h
    rw [hrest, hlines, List.flatten_cons, List.append_assoc, List.take_append, hline]
    rw [hline] at hle
    rw [List.take_of_length_le hle]
    simp

/-- The short lines of the front of a stream are its first lines. -/
theorem shortLines_prefix (n : Nat) (l more : List α) :
    shortLines sep n l <+: linesOf sep (l ++ more) := by
  rw [linesOf_append]
  exact (List.takeWhile_prefix _).trans (List.prefix_append _ _)

end Compostela.Lines
