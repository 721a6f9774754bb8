import Compostela.Logger.Process

/-!
# `Compostela.Proofs.LoggedLines`: the lines that comlogger keeps

A line is kept when a file that `__process` opened holds its bytes, one behind the other. To tell
the bytes of a line from other bytes of the same value, each byte of the input gets its line and its
place as a mark, and the bytes that files held before get none.

In `follower/logger.c` the lines of one second go over each other, and a long line goes over itself.
In `logger/main.c` they go behind each other, but a long line is read in chunks, and the name may
change in the middle of it. Both lose what is behind a zero in a chunk.

* `overlay_keeps_iff`, `append_keeps_iff`: the two ways to write.
* `logged_lines_iff`: when each program keeps all lines.
-/

set_option autoImplicit false

namespace Compostela.Logger

open Compostela.Common
open Compostela.Memory
open Compostela.NamedFiles

section
variable {α : Type} {val : α → UInt8}

/-- The bytes of the line are in a file that was opened, unmodified. -/
def Disk.Keeps (disk : Disk α) (line : List α) : Prop :=
  ∃ name ∈ disk.opened, ∃ content, disk.file name = some content ∧ line <:+: content

/-- The program processes all lines, and keeps each of them. -/
def KeepsLines (program : List α → Disk α → Except Trap (Disk α))
    (files : Bytes → Option (List α)) (lines : List (List α)) : Prop :=
  ∃ disk, program lines.flatten ⟨files, [], []⟩ = .ok disk ∧ ∀ line ∈ lines, disk.Keeps line

/-- The number of passes for a line. -/
def passCount (n : Nat) (line : List α) : Nat := (chunks n line).length

/-- The number of passes for the lines in front of the `i`-th. -/
def firstPass (n : Nat) (lines : List (List α)) (i : Nat) : Nat :=
  ((lines.take i).map (passCount n)).sum

/-! ### Pieces of lines -/

/-- Bytes without a zero are all in the C string. -/
theorem cut_eq_self {buf : List α} (h : ∀ a ∈ buf, val a ≠ 0) : cut val buf = buf := by
  rw [cut, List.takeWhile_eq_self_iff]
  intro a ha
  simpa using h a ha

/-- No byte of a C string is zero. -/
theorem ne_zero_of_mem_cut {buf : List α} {a : α} (h : a ∈ cut val buf) : val a ≠ 0 := by
  simpa using List.mem_takeWhile_imp h

/-- No line of an input is empty: it has at least its newline. -/
theorem Input.ne_nil_of_mem {lines : List (List α)} (h : Input val lines) {line : List α}
    (hmem : line ∈ lines) : line ≠ [] := by
  induction h with
  | nil => cases hmem
  | last hne _ =>
    rw [List.mem_singleton] at hmem
    rwa [hmem]
  | cons _ _ _ ih =>
    rcases List.mem_cons.mp hmem with rfl | hmem
    · simp
    · exact ih hmem

/-- The chunks of all lines are together the lines. -/
theorem flatten_flatMap_chunks (n : Nat) (lines : List (List α)) :
    (lines.flatMap (chunks n)).flatten = lines.flatten := by
  induction lines with
  | nil => rfl
  | cons line lines ih =>
    rw [List.flatMap_cons, List.flatten_append, flatten_chunks, ih, List.flatten_cons]

/-- Every chunk is one pass. -/
theorem length_flatMap_chunks (n : Nat) (lines : List (List α)) :
    (lines.flatMap (chunks n)).length = (lines.map (passCount n)).sum := by
  rw [List.length_flatMap]
  rfl

/-- A piece is the front of a chunk. -/
theorem chunk_of_piece {n j : Nat} {lines : List (List α)} {p : List α}
    (h : (pieces val n lines)[j]? = some p) :
    ∃ q, (lines.flatMap (chunks n))[j]? = some q ∧ p = cut val q ∧ p <+: q := by
  rw [pieces, List.getElem?_map, Option.map_eq_some_iff] at h
  obtain ⟨q, hq, rfl⟩ := h
  exact ⟨q, hq, rfl, List.takeWhile_prefix _⟩

/-- What reaches `__process` has no zero in it. -/
theorem ne_zero_of_mem_piece {n j : Nat} {lines : List (List α)} {p : List α} {a : α}
    (h : (pieces val n lines)[j]? = some p) (ha : a ∈ p) : val a ≠ 0 := by
  obtain ⟨q, -, rfl, -⟩ := chunk_of_piece h
  exact ne_zero_of_mem_cut ha

/-- Lines without a zero reach `__process` as they are. -/
theorem pieces_of_ne_zero {lines : List (List α)} (h : ∀ line ∈ lines, ∀ a ∈ line, val a ≠ 0)
    (n : Nat) : pieces val n lines = lines.flatMap (chunks n) := by
  rw [pieces]
  conv_rhs => rw [← List.map_id (lines.flatMap (chunks n))]
  apply List.map_congr_left
  intro q hq
  obtain ⟨line, hline, hchunk⟩ := List.mem_flatMap.mp hq
  refine cut_eq_self fun a ha => h line hline a ?_
  rw [← flatten_chunks n line]
  exact List.mem_flatten_of_mem hchunk ha

/-- Each line that fits the buffer is one chunk. -/
theorem flatMap_chunks_of_le {lines : List (List α)} (hin : Input val lines) {n : Nat}
    (h : ∀ line ∈ lines, line.length ≤ n) : lines.flatMap (chunks n) = lines := by
  induction lines with
  | nil => rfl
  | cons line lines ih =>
    rw [List.flatMap_cons, chunks_of_le (h line List.mem_cons_self) hin.ne_nil,
      ih hin.tail fun l hl => h l (List.mem_cons_of_mem line hl), List.singleton_append]

/-- The first byte of a line is the first of a chunk. -/
theorem chunk_of_first {n : Nat} (hn : 0 < n) {lines : List (List α)} {text : List α}
    (hline : text ∈ lines) {a : α} (ha : text[0]? = some a) :
    ∃ (j : Nat) (q : List α), (lines.flatMap (chunks n))[j]? = some q ∧ q[0]? = some a := by
  have hne : text ≠ [] := by
    rintro rfl
    cases ha
  obtain ⟨rest, hchunks⟩ := chunks_eq_cons hn hne
  have hmem : text.take n ∈ lines.flatMap (chunks n) :=
    List.mem_flatMap.mpr ⟨text, hline, by rw [hchunks]; exact List.mem_cons_self⟩
  obtain ⟨j, hj⟩ := List.getElem?_of_mem hmem
  exact ⟨j, _, hj, by rwa [List.getElem?_take_of_lt hn]⟩

/-- So is the byte behind the first chunk. -/
theorem chunk_of_next {n : Nat} (hn : 0 < n) {lines : List (List α)} {text : List α}
    (hline : text ∈ lines) {a : α} (ha : text[n]? = some a) :
    ∃ (j : Nat) (q : List α), (lines.flatMap (chunks n))[j]? = some q ∧ q[0]? = some a := by
  obtain ⟨hlt, -⟩ := List.getElem?_eq_some_iff.mp ha
  have hne : text.drop n ≠ [] := by
    intro hnil
    rw [List.drop_eq_nil_iff] at hnil
    omega
  obtain ⟨rest, hchunks⟩ := chunks_eq_cons hn hne
  have hmem : (text.drop n).take n ∈ lines.flatMap (chunks n) := by
    refine List.mem_flatMap.mpr ⟨text, hline, ?_⟩
    rw [chunks_of_lt hn hlt, hchunks]
    exact List.mem_cons_of_mem _ List.mem_cons_self
  obtain ⟨j, hj⟩ := List.getElem?_of_mem hmem
  refine ⟨j, _, hj, ?_⟩
  rwa [List.getElem?_take_of_lt hn, List.getElem?_drop, Nat.add_zero]

/-! ### Over the start of the file -/

section
variable {n : Nat} {lines : List (List α)} {name : Nat → Bytes} {files : Bytes → Option (List α)}

/-- A byte of the input stands in a file where it stands in its chunk, and it is not a zero. -/
theorem place_overlay (hfresh : ∀ f c, files f = some c → ∀ a ∈ c, a ∉ lines.flatten) {f : Bytes}
    {cs : List α} (hc : store overlay name 0 (pieces val n lines) files f = some cs) {i : Nat}
    {a : α}
    (ha : cs[i]? = some a) (hin : a ∈ lines.flatten) :
    val a ≠ 0 ∧ ∃ j q, (lines.flatMap (chunks n))[j]? = some q ∧ q[i]? = some a ∧ name j = f := by
  rcases origin_overlay hc ha with ⟨j, p, hp, hname, hat⟩ | ⟨c0, hc0, hat⟩
  · obtain ⟨q, hq, -, ⟨more, rfl⟩⟩ := chunk_of_piece hp
    rw [Nat.zero_add] at hname
    refine ⟨ne_zero_of_mem_piece hp (List.mem_of_getElem? hat), j, _, hq, ?_, hname⟩
    obtain ⟨hi, -⟩ := List.getElem?_eq_some_iff.mp hat
    rw [List.getElem?_append_left hi, hat]
  · exact absurd hin (hfresh f c0 hc0 a (List.mem_of_getElem? hat))

/-- A line that is in a file is at its start, fits the buffer, and has no zero. -/
theorem prefix_of_inside (hn : 0 < n) (hin : Input val lines) (hnodup : lines.flatten.Nodup)
    (hfresh : ∀ f c, files f = some c → ∀ a ∈ c, a ∉ lines.flatten) {f : Bytes} {c : List α}
    (hc : store overlay name 0 (pieces val n lines) files f = some c) {text : List α}
    (hline : text ∈ lines) (hinside : text <:+: c) :
    text <+: c ∧ text.length ≤ n ∧ ∀ a ∈ text, val a ≠ 0 := by
  obtain ⟨before, after, rfl⟩ := hinside
  have hchunks : (lines.flatMap (chunks n)).flatten.Nodup := by rwa [flatten_flatMap_chunks]
  -- Each byte of the line stands behind `before`.
  have hat : ∀ (i : Nat) (a : α), text[i]? = some a →
      (before ++ text ++ after)[before.length + i]? = some a ∧ a ∈ lines.flatten := by
    intro i a ha
    obtain ⟨hi, -⟩ := List.getElem?_eq_some_iff.mp ha
    refine ⟨?_, List.mem_flatten_of_mem hline (List.mem_of_getElem? ha)⟩
    rw [List.getElem?_append_left (by simp; omega), List.getElem?_append_right (by omega),
      Nat.add_sub_cancel_left, ha]
  -- The first byte of a chunk is at the start.
  have hstart : ∀ (i : Nat) (a : α), text[i]? = some a →
      (∃ (j : Nat) (q : List α), (lines.flatMap (chunks n))[j]? = some q ∧ q[0]? = some a) →
      before.length + i = 0 := by
    rintro i a ha ⟨j, q, hq, hfirst⟩
    obtain ⟨hplace, hmem⟩ := hat i a ha
    obtain ⟨-, j', q', hq', hsame, -⟩ := place_overlay hfresh hc hplace hmem
    exact (place_unique hchunks hq hq' hfirst hsame).2.symm
  obtain ⟨a, ha⟩ : ∃ a, text[0]? = some a :=
    ⟨_, List.getElem?_eq_getElem (List.length_pos_of_ne_nil (hin.ne_nil_of_mem hline))⟩
  have hzero := hstart 0 a ha (chunk_of_first hn hline ha)
  obtain rfl : before = [] := List.eq_nil_of_length_eq_zero (by omega)
  refine ⟨⟨after, rfl⟩, ?_, ?_⟩
  · by_contra hlong
    have hnext := List.getElem?_eq_getElem (show n < text.length by omega)
    have hzero' := hstart n _ hnext (chunk_of_next hn hline hnext)
    rw [List.length_nil] at hzero'
    omega
  · intro a ha
    obtain ⟨i, hi⟩ := List.getElem?_of_mem ha
    obtain ⟨hplace, hmem⟩ := hat i a hi
    exact (place_overlay hfresh hc hplace hmem).1

/-- Lines that fit the buffer, have no zero and have names of their own are all kept. -/
theorem overlay_keeps (hin : Input val lines)
    (hlines : ∀ line ∈ lines, line.length ≤ n ∧ ∀ a ∈ line, val a ≠ 0)
    (hnames : ∀ i j, i < j → j < lines.length → name i ≠ name j)
    (files : Bytes → Option (List α)) :
    ∀ line ∈ lines, ∃ j, j < (pieces val n lines).length ∧ ∃ c,
      store overlay name 0 (pieces val n lines) files (name j) = some c ∧ line <:+: c := by
  have hpieces : pieces val n lines = lines := by
    rw [pieces_of_ne_zero fun line hline => (hlines line hline).2,
      flatMap_chunks_of_le hin fun line hline => (hlines line hline).1]
  rw [hpieces]
  intro line hline
  obtain ⟨j, hj⟩ := List.getElem?_of_mem hline
  obtain ⟨hlt, -⟩ := List.getElem?_eq_some_iff.mp hj
  obtain ⟨c, hc, hprefix⟩ := prefix_of_last (k := 0) name files hj (by
    intro i hji hi
    rw [Nat.zero_add, Nat.zero_add]
    exact (hnames j i hji hi).symm)
  rw [Nat.zero_add] at hc
  exact ⟨j, hlt, c, hc, hprefix.isInfix⟩

/-- Bytes that can be told apart: all lines are kept exactly when they fit the buffer, have no zero,
and no two have the same name. -/
theorem overlay_keeps_iff (hn : 0 < n) (hin : Input val lines) (hnodup : lines.flatten.Nodup)
    (hfresh : ∀ f c, files f = some c → ∀ a ∈ c, a ∉ lines.flatten) :
    (∀ line ∈ lines, ∃ f c, store overlay name 0 (pieces val n lines) files f = some c ∧
      line <:+: c) ↔
    (∀ line ∈ lines, line.length ≤ n ∧ ∀ a ∈ line, val a ≠ 0) ∧
      ∀ i j, i < j → j < lines.length → name i ≠ name j := by
  constructor
  · intro hall
    have hlines : ∀ line ∈ lines, line.length ≤ n ∧ ∀ a ∈ line, val a ≠ 0 := by
      intro line hline
      obtain ⟨f, c, hc, hinside⟩ := hall line hline
      exact (prefix_of_inside hn hin hnodup hfresh hc hline hinside).2
    refine ⟨hlines, ?_⟩
    intro i j hij hj hname
    have hchunks := flatMap_chunks_of_le hin fun line hline => (hlines line hline).1
    -- The first byte of each line is the first of the file with its name.
    have hfirst : ∀ k (hk : k < lines.length), ∃ a cs, lines[k][0]? = some a ∧
        store overlay name 0 (pieces val n lines) files (name k) = some cs ∧ cs[0]? = some a := by
      intro k hk
      have hline := List.getElem_mem hk
      obtain ⟨f, c, hc, hinside⟩ := hall lines[k] hline
      obtain ⟨⟨after, rfl⟩, -⟩ := prefix_of_inside hn hin hnodup hfresh hc hline hinside
      have hpos := List.length_pos_of_ne_nil (hin.ne_nil_of_mem hline)
      have hat := List.getElem?_eq_getElem hpos
      have hplace : (lines[k] ++ after)[0]? = some lines[k][0] := by
        rw [List.getElem?_append_left hpos, hat]
      obtain ⟨-, m, q, hq, hsame, rfl⟩ := place_overlay hfresh hc hplace
        (List.mem_flatten_of_mem hline (List.getElem_mem hpos))
      rw [hchunks] at hq
      obtain ⟨rfl, -⟩ := place_unique hnodup hq (List.getElem?_eq_getElem hk) hsame hat
      exact ⟨_, _, hat, hc, hplace⟩
    obtain ⟨a, c, hat, hc, ha⟩ := hfirst i (by omega)
    obtain ⟨b, c', hbt, hc', hb⟩ := hfirst j hj
    rw [hname, hc'] at hc
    cases hc
    rw [ha] at hb
    cases hb
    have hsame := place_unique hnodup (List.getElem?_eq_getElem (show i < lines.length by omega))
      (List.getElem?_eq_getElem hj) hat hbt
    omega
  · rintro ⟨hlines, hnames⟩ line hline
    obtain ⟨j, -, c, hc, hinside⟩ := overlay_keeps hin hlines hnames files line hline
    exact ⟨name j, c, hc, hinside⟩

/-! ### Behind what the file holds -/

/-- All chunks of a line have the same name. -/
def OneName (n : Nat) (lines : List (List α)) (name : Nat → Bytes) : Prop :=
  ∀ i, i < lines.length → ∀ k, firstPass n lines i ≤ k → k < firstPass n lines (i + 1) →
    name k = name (firstPass n lines i)

/-- The passes for a line come behind those for the lines in front of it. -/
theorem firstPass_succ {i : Nat} {line : List α} (h : lines[i]? = some line) :
    firstPass n lines (i + 1) = firstPass n lines i + passCount n line := by
  rw [firstPass, List.take_add_one, h, List.map_append, List.sum_append]
  simp [firstPass]

/-- The chunks of one line among those of all lines. -/
theorem flatMap_chunks_eq {i : Nat} {line : List α} (h : lines[i]? = some line) :
    lines.flatMap (chunks n) =
      (lines.take i).flatMap (chunks n) ++
        (chunks n line ++ (lines.drop (i + 1)).flatMap (chunks n)) := by
  obtain ⟨hi, rfl⟩ := List.getElem?_eq_some_iff.mp h
  conv_lhs => rw [← List.take_append_drop i lines, List.drop_eq_getElem_cons hi]
  rw [List.flatMap_append, List.flatMap_cons]

/-- The chunk of a pass. -/
theorem chunk_at {i t : Nat} {line : List α} (h : lines[i]? = some line)
    (ht : t < passCount n line) :
    ∃ q ∈ chunks n line, (lines.flatMap (chunks n))[firstPass n lines i + t]? = some q := by
  refine ⟨(chunks n line)[t], List.getElem_mem ht, ?_⟩
  have hlen : ((lines.take i).flatMap (chunks n)).length = firstPass n lines i :=
    length_flatMap_chunks n _
  rw [flatMap_chunks_eq h, ← hlen, List.getElem?_append_right (Nat.le_add_right _ _),
    Nat.add_sub_cancel_left, List.getElem?_append_left ht, List.getElem?_eq_getElem ht]

/-- A byte of the input is in the file of its chunk, and it is not a zero. -/
theorem place_append (hfresh : ∀ f c, files f = some c → ∀ a ∈ c, a ∉ lines.flatten) {f : Bytes}
    {c : List α} (hc : store (· ++ ·) name 0 (pieces val n lines) files f = some c) {a : α}
    (ha : a ∈ c) (hin : a ∈ lines.flatten) :
    val a ≠ 0 ∧ ∃ (j : Nat) (q : List α), (lines.flatMap (chunks n))[j]? = some q ∧ a ∈ q ∧
      name j = f := by
  rcases origin_append hc ha with ⟨j, p, hp, hname, hmem⟩ | ⟨c0, hc0, hmem⟩
  · obtain ⟨q, hq, -, hprefix⟩ := chunk_of_piece hp
    rw [Nat.zero_add] at hname
    exact ⟨ne_zero_of_mem_piece hp hmem, j, q, hq, hprefix.subset hmem, hname⟩
  · exact absurd hin (hfresh f c0 hc0 a hmem)

/-- Lines without a zero whose chunks have one name are all kept. -/
theorem append_keeps (hin : Input val lines) (hlines : ∀ line ∈ lines, ∀ a ∈ line, val a ≠ 0)
    (hnames : OneName n lines name) (files : Bytes → Option (List α)) :
    ∀ line ∈ lines, ∃ j, j < (pieces val n lines).length ∧ ∃ c,
      store (· ++ ·) name 0 (pieces val n lines) files (name j) = some c ∧ line <:+: c := by
  rw [pieces_of_ne_zero hlines]
  intro line hline
  obtain ⟨i, hi⟩ := List.getElem?_of_mem hline
  obtain ⟨hlt, -⟩ := List.getElem?_eq_some_iff.mp hi
  have hlen : ((lines.take i).flatMap (chunks n)).length = firstPass n lines i :=
    length_flatMap_chunks n _
  have hne : chunks n line ≠ [] := by
    intro hnil
    have hflat := flatten_chunks n line
    rw [hnil, List.flatten_nil] at hflat
    exact hin.ne_nil_of_mem hline hflat.symm
  refine ⟨firstPass n lines i, ?_, ?_⟩
  · rw [flatMap_chunks_eq hi, List.length_append, hlen, List.length_append]
    have hpos := List.length_pos_of_ne_nil hne
    omega
  · rw [flatMap_chunks_eq hi, store_append, store_append, hlen, Nat.zero_add]
    -- The pieces of the line go one behind the other into the file that the names give.
    have hconst := store_append_of_const (k := firstPass n lines i)
      (f := name (firstPass n lines i))
      (store (· ++ ·) name 0 ((lines.take i).flatMap (chunks n)) files) hne (by
        intro t ht
        refine hnames i hlt _ (Nat.le_add_right _ _) ?_
        rw [firstPass_succ hi]
        exact Nat.add_lt_add_left ht _)
    rw [flatten_chunks] at hconst
    exact infix_append hconst (List.suffix_append _ _).isInfix

/-- Bytes that can be told apart: all lines are kept exactly when they have no zero, and the chunks
of each have one name. -/
theorem append_keeps_iff (hin : Input val lines) (hnodup : lines.flatten.Nodup)
    (hfresh : ∀ f c, files f = some c → ∀ a ∈ c, a ∉ lines.flatten) :
    (∀ line ∈ lines, ∃ f c, store (· ++ ·) name 0 (pieces val n lines) files f = some c ∧
      line <:+: c) ↔
    (∀ line ∈ lines, ∀ a ∈ line, val a ≠ 0) ∧ OneName n lines name := by
  constructor
  · intro hall
    have hchunks : (lines.flatMap (chunks n)).flatten.Nodup := by rwa [flatten_flatMap_chunks]
    refine ⟨?_, ?_⟩
    · intro line hline a ha
      obtain ⟨f, c, hc, hinside⟩ := hall line hline
      exact (place_append hfresh hc (hinside.subset ha) (List.mem_flatten_of_mem hline ha)).1
    · intro i hi
      have hline : lines[i]? = some lines[i] := List.getElem?_eq_getElem hi
      obtain ⟨f, c, hc, hinside⟩ := hall lines[i] (List.getElem_mem hi)
      -- Every chunk of the line went to `f`.
      have hname : ∀ t, t < passCount n lines[i] → name (firstPass n lines i + t) = f := by
        intro t ht
        obtain ⟨q, hq, hat⟩ := chunk_at hline ht
        obtain ⟨a, ha⟩ := List.exists_mem_of_ne_nil q (ne_nil_of_mem_chunks hq)
        have hmem : a ∈ lines[i] := by
          rw [← flatten_chunks n lines[i]]
          exact List.mem_flatten_of_mem hq ha
        obtain ⟨-, j, q', hq', ha', rfl⟩ := place_append hfresh hc (hinside.subset hmem)
          (List.mem_flatten_of_mem (List.getElem_mem hi) hmem)
        obtain ⟨m, hm⟩ := List.getElem?_of_mem ha
        obtain ⟨m', hm'⟩ := List.getElem?_of_mem ha'
        rw [(place_unique hchunks hat hq' hm hm').1]
      intro k hfirst hlast
      rw [firstPass_succ hline] at hlast
      have hk := hname (k - firstPass n lines i) (by omega)
      rw [Nat.add_sub_cancel' hfirst] at hk
      rw [hk]
      exact (hname 0 (by omega)).symm
  · rintro ⟨hlines, hnames⟩ line hline
    obtain ⟨j, -, c, hc, hinside⟩ := append_keeps hin hlines hnames files line hline
    exact ⟨name j, c, hc, hinside⟩

end

/-! ### The programs -/

section
variable {pass : Nat → List α → Disk α → Except Trap (Disk α)} {append : Bool} {name : Nat → Bytes}
  {commands : Nat → List Bytes} {Good : Nat → Prop}

/-- Passes that are good write their pieces. -/
theorem passes_of_good
    (hpass : ∀ k piece disk disk', pass k piece disk = .ok disk' ↔
      Good k ∧ disk' = disk.written append (name k) piece (commands k))
    {ps : List (List α)} {k : Nat} (hgood : ∀ i, i < ps.length → Good (k + i)) (disk : Disk α) :
    ∃ disk', passes pass k ps disk = .ok disk' ∧
      disk'.file = store (putWith append) name k ps disk.file ∧
      disk'.opened = disk.opened ++ (List.range ps.length).map fun i => name (k + i) := by
  induction ps generalizing k disk with
  | nil => exact ⟨disk, rfl, rfl, by simp⟩
  | cons p ps ih =>
    obtain ⟨disk', hrun, hfile, hopened⟩ := ih (k := k + 1) (by
      intro i hi
      have hnext := hgood (i + 1) (by simpa using hi)
      rwa [show k + (i + 1) = k + 1 + i by omega] at hnext)
      (disk.written append (name k) p (commands k))
    have hfirst := (hpass k p disk _).mpr ⟨hgood 0 (by simp), rfl⟩
    refine ⟨disk', ?_, hfile, ?_⟩
    · rw [passes, hfirst, ok_bind, hrun]
    · rw [hopened, List.length_cons, List.range_succ_eq_map, List.map_cons, List.map_map]
      simp [Disk.written, Function.comp_def, Nat.add_comm 1, Nat.add_assoc]

/-- All passes of a run are good. -/
theorem good_of_passes
    (hpass : ∀ k piece disk disk', pass k piece disk = .ok disk' ↔
      Good k ∧ disk' = disk.written append (name k) piece (commands k))
    {ps : List (List α)} {k : Nat} {disk disk' : Disk α} (h : passes pass k ps disk = .ok disk') :
    ∀ i, i < ps.length → Good (k + i) := by
  induction ps generalizing k disk with
  | nil => simp
  | cons p ps ih =>
    obtain ⟨disk1, hfirst, hrest⟩ := bind_eq_ok.mp h
    intro i hi
    cases i with
    | zero => exact ((hpass k p disk disk1).mp hfirst).1
    | succ i =>
      have hnext := ih hrest i (by simpa using hi)
      rwa [show k + 1 + i = k + (i + 1) by omega] at hnext

/-- What a program keeps is what its passes store. -/
theorem keepsLines_iff
    (hpass : ∀ k piece disk disk', pass k piece disk = .ok disk' ↔
      Good k ∧ disk' = disk.written append (name k) piece (commands k))
    {lines : List (List α)} (hin : Input val lines) {n : Nat} (hn : 0 < n)
    (files : Bytes → Option (List α)) :
    KeepsLines (mainWith val (n + 1) pass none) files lines ↔
      (∀ k, k < (pieces val n lines).length → Good k) ∧
      ∀ line ∈ lines, ∃ j, j < (pieces val n lines).length ∧ ∃ c,
        store (putWith append) name 0 (pieces val n lines) files (name j) = some c ∧
          line <:+: c := by
  have hmain : mainWith val (n + 1) pass none lines.flatten ⟨files, [], []⟩ =
      passes pass 0 (pieces val n lines) ⟨files, [], []⟩ :=
    mainLoop_lines hin hn pass (Nat.lt_succ_self _) 0 _
  have hopen : ∀ {disk : Disk α} {f : Bytes},
      disk.opened = [] ++ (List.range (pieces val n lines).length).map (fun i => name (0 + i)) →
      (f ∈ disk.opened ↔ ∃ j, j < (pieces val n lines).length ∧ name j = f) := by
    intro disk f hopened
    rw [hopened, List.nil_append, List.mem_map]
    simp
  constructor
  · rintro ⟨disk, hrun, hkeeps⟩
    rw [hmain] at hrun
    -- The run is not trapped, so every pass of it was good.
    have hgood := good_of_passes hpass hrun
    obtain ⟨disk', hrun', hfile, hopened⟩ := passes_of_good hpass hgood ⟨files, [], []⟩
    rw [hrun] at hrun'
    cases hrun'
    refine ⟨fun k hk => by simpa using hgood k hk, ?_⟩
    intro line hline
    obtain ⟨f, hf, c, hc, hinside⟩ := hkeeps line hline
    obtain ⟨j, hj, rfl⟩ := (hopen hopened).mp hf
    exact ⟨j, hj, c, by rwa [hfile] at hc, hinside⟩
  · rintro ⟨hgood, hkeeps⟩
    obtain ⟨disk, hrun, hfile, hopened⟩ := passes_of_good hpass (k := 0)
      (fun i hi => by simpa using hgood i hi) ⟨files, [], []⟩
    refine ⟨disk, hmain.trans hrun, ?_⟩
    intro line hline
    obtain ⟨j, hj, c, hc, hinside⟩ := hkeeps line hline
    exact ⟨name j, (hopen hopened).mpr ⟨j, hj, rfl⟩, c, by rw [hfile]; exact hc, hinside⟩

end

/-- A pass of `follower/logger.c` with successful calls. -/
theorem FollowerLogger.pass_eq_ok {turns : Nat → Turn} (h : ∀ k, (turns k).Successful)
    (dir tag : Bytes) (k : Nat) (piece : List α) (disk disk' : Disk α) :
    FollowerLogger.pass dir tag turns k piece disk = .ok disk' ↔
      True ∧ disk' = disk.written false (dir ++ [SLASH] ++ hex16 (turns k).time) piece
        [makeCommand tag (dir ++ [SLASH] ++ hex16 (turns k).time)] := by
  rw [FollowerLogger.pass, setupTempfile_eq (h k).mallocs, ok_bind, bind_eq_ok]
  have hprocess := processWith_eq_ok (h k) false true (some tag)
    (dir ++ [SLASH] ++ hex16 (turns k).time) piece disk disk'
  simp only [ne_eq, reduceCtorEq, not_false_eq_true, implies_true, if_true] at hprocess
  refine Iff.trans ?_ hprocess
  constructor
  · rintro ⟨⟨ok, done⟩, hrun, hdone⟩
    cases hdone
    exact ⟨ok, hrun⟩
  · rintro ⟨ok, hrun⟩
    exact ⟨(ok, disk'), hrun, rfl⟩

/-- A pass of `logger/main.c` with successful calls. It needs a name, and a tag for the socket. -/
theorem LoggerMain.pass_eq_ok {turns : Nat → Turn} (h : ∀ k, (turns k).Successful)
    (strftime : BitVec 64 → Bytes) (fd : Bool) (tag : Option Bytes) (k : Nat) (piece : List α)
    (disk disk' : Disk α) :
    LoggerMain.pass strftime fd tag turns k piece disk = .ok disk' ↔
      (strftime (turns k).time ≠ [] ∧ (fd = true → tag ≠ none)) ∧
      disk' = disk.written true (strftime (turns k).time) piece
        (if fd then (tag.map (makeCommand · (strftime (turns k).time))).toList else []) := by
  rw [LoggerMain.pass, setupTempfile]
  by_cases hname : strftime (turns k).time = []
  · rw [if_pos hname, error_bind]
    exact iff_of_false nofun (fun hall => hall.1.1 hname)
  · rw [if_neg hname, ok_bind, bind_eq_ok, and_assoc]
    have hprocess := processWith_eq_ok (h k) true fd tag (strftime (turns k).time) piece disk disk'
    rw [← LoggerMain.process] at hprocess
    rw [← hprocess]
    constructor
    · rintro ⟨⟨ok, done⟩, hrun, hdone⟩
      cases hdone
      exact ⟨hname, ok, hrun⟩
    · rintro ⟨-, ok, hrun⟩
      exact ⟨(ok, disk'), hrun, rfl⟩

/-- Each line fits the buffer of `fgets` and has no zero, and no two are read in the same second. -/
def FollowerLogger.Separate (turns : Nat → Turn) (val : α → UInt8) (lines : List (List α)) :
    Prop :=
  (∀ line ∈ lines, line.length ≤ 8191 ∧ ∀ a ∈ line, val a ≠ 0) ∧
    ∀ i j, i < j → j < lines.length → (turns i).time ≠ (turns j).time

/-- No line has a zero, the chunks of each have one name, and no name is empty. A socket needs a
tag. -/
def LoggerMain.Whole (strftime : BitVec 64 → Bytes) (fd : Bool) (tag : Option Bytes)
    (turns : Nat → Turn) (val : α → UInt8) (lines : List (List α)) : Prop :=
  ((∀ line ∈ lines, ∀ a ∈ line, val a ≠ 0) ∧
    OneName 2047 lines fun k => strftime (turns k).time) ∧
    ∀ k, k < firstPass 2047 lines lines.length →
      strftime (turns k).time ≠ [] ∧ (fd = true → tag ≠ none)

/-- There are as many pieces as passes. -/
theorem length_pieces (n : Nat) (lines : List (List α)) :
    (pieces val n lines).length = firstPass n lines lines.length := by
  rw [pieces, List.length_map, length_flatMap_chunks, firstPass, List.take_length]

variable {turns : Nat → Turn} {lines : List (List α)} {files : Bytes → Option (List α)}

/-- The names that the follower makes differ when the times differ. -/
theorem followerName_ne_iff (dir : Bytes) :
    (∀ i j, i < j → j < lines.length →
      dir ++ [SLASH] ++ hex16 (turns i).time ≠ dir ++ [SLASH] ++ hex16 (turns j).time) ↔
    ∀ i j, i < j → j < lines.length → (turns i).time ≠ (turns j).time := by
  have hname : ∀ t t' : BitVec 64,
      dir ++ [SLASH] ++ hex16 t = dir ++ [SLASH] ++ hex16 t' ↔ t = t' := by
    intro t t'
    rw [List.append_right_inj]
    exact ⟨hex16_inj, congrArg hex16⟩
  simp only [ne_eq, hname]

/-- `follower/logger.c` keeps lines that are separate. -/
theorem FollowerLogger.keeps_of_separate (hturns : ∀ k, (turns k).Successful)
    (hin : Input val lines) (dir tag : Bytes) (h : Separate turns val lines) :
    KeepsLines (FollowerLogger.main val dir tag turns none) files lines :=
  (keepsLines_iff (FollowerLogger.pass_eq_ok hturns dir tag) hin (by norm_num) files).mpr
    ⟨fun _ _ => trivial, overlay_keeps hin h.1 ((followerName_ne_iff dir).mpr h.2) files⟩

/-- With bytes that can be told apart it keeps no others. -/
theorem FollowerLogger.keeps_iff (hturns : ∀ k, (turns k).Successful) (hin : Input val lines)
    (hnodup : lines.flatten.Nodup)
    (hfresh : ∀ f c, files f = some c → ∀ a ∈ c, a ∉ lines.flatten) (dir tag : Bytes) :
    KeepsLines (FollowerLogger.main val dir tag turns none) files lines ↔
      Separate turns val lines := by
  refine ⟨?_, keeps_of_separate hturns hin dir tag⟩
  intro h
  obtain ⟨-, hkeeps⟩ :=
    (keepsLines_iff (FollowerLogger.pass_eq_ok hturns dir tag) hin (by norm_num) files).mp h
  rw [Separate, ← followerName_ne_iff dir]
  refine (overlay_keeps_iff (by norm_num) hin hnodup hfresh).mp fun line hline => ?_
  obtain ⟨j, -, c, hc, hinside⟩ := hkeeps line hline
  exact ⟨_, c, hc, hinside⟩

/-- `logger/main.c` keeps lines that are whole. -/
theorem LoggerMain.keeps_of_whole (hturns : ∀ k, (turns k).Successful) (hin : Input val lines)
    {strftime : BitVec 64 → Bytes} {fd : Bool} {tag : Option Bytes}
    (h : Whole strftime fd tag turns val lines) :
    KeepsLines (LoggerMain.main val strftime fd tag turns none) files lines :=
  (keepsLines_iff (LoggerMain.pass_eq_ok hturns strftime fd tag) hin (by norm_num) files).mpr
    ⟨by rw [length_pieces]; exact h.2, append_keeps hin h.1.1 h.1.2 files⟩

/-- With bytes that can be told apart it keeps no others. -/
theorem LoggerMain.keeps_iff (hturns : ∀ k, (turns k).Successful) (hin : Input val lines)
    (hnodup : lines.flatten.Nodup)
    (hfresh : ∀ f c, files f = some c → ∀ a ∈ c, a ∉ lines.flatten)
    (strftime : BitVec 64 → Bytes) (fd : Bool) (tag : Option Bytes) :
    KeepsLines (LoggerMain.main val strftime fd tag turns none) files lines ↔
      Whole strftime fd tag turns val lines := by
  refine ⟨?_, keeps_of_whole hturns hin⟩
  intro h
  obtain ⟨hgood, hkeeps⟩ :=
    (keepsLines_iff (LoggerMain.pass_eq_ok hturns strftime fd tag) hin (by norm_num) files).mp h
  rw [length_pieces] at hgood
  refine ⟨(append_keeps_iff hin hnodup hfresh).mp fun line hline => ?_, hgood⟩
  obtain ⟨j, -, c, hc, hinside⟩ := hkeeps line hline
  exact ⟨_, c, hc, hinside⟩

end

/-! ### Marks -/

/-- A byte with the line that it is from, and its place there. -/
abbrev Marked := UInt8 × Option (Nat × Nat)

/-- The lines of an input, with their marks. -/
def marked (lines : List Bytes) : List (List Marked) :=
  lines.zipIdx.map fun l => l.1.zipIdx.map fun b => (b.1, some (l.2, b.2))

/-- The files before, whose bytes have no marks. -/
def unmarked (files : Bytes → Option Bytes) : Bytes → Option (List Marked) :=
  fun f => (files f).map fun c => c.map fun b => (b, none)

/-- Without their marks the lines are what they were. -/
theorem map_fst_marked (lines : List Bytes) : (marked lines).map (List.map Prod.fst) = lines := by
  have hline : ∀ l : Bytes × Nat,
      (l.1.zipIdx.map fun b => ((b.1, some (l.2, b.2)) : Marked)).map Prod.fst = l.1 := by
    intro l
    rw [List.map_map]
    exact List.zipIdx_map_fst 0 l.1
  rw [marked, List.map_map]
  calc
    _ = lines.zipIdx.map Prod.fst := List.map_congr_left fun l _ => hline l
    _ = lines := List.zipIdx_map_fst 0 lines

/-- The mark of a byte says which line it is from. -/
theorem mark_of_mem {lines : List Bytes} {i : Nat} {line : List Marked} {a : Marked}
    (h : (marked lines)[i]? = some line) (ha : a ∈ line) : ∃ k, a.2 = some (i, k) := by
  rw [marked, List.getElem?_map, Option.map_eq_some_iff] at h
  obtain ⟨⟨bs, m⟩, hat, rfl⟩ := h
  rw [List.getElem?_zipIdx, Option.map_eq_some_iff] at hat
  obtain ⟨bs', -, heq⟩ := hat
  cases heq
  obtain ⟨⟨b, k⟩, -, rfl⟩ := List.mem_map.mp ha
  exact ⟨k, by simp⟩

/-- No two bytes of the lines have the same mark. -/
theorem nodup_flatten_marked (lines : List Bytes) : (marked lines).flatten.Nodup := by
  rw [List.nodup_flatten]
  constructor
  · intro line hline
    obtain ⟨⟨bs, i⟩, -, rfl⟩ := List.mem_map.mp hline
    -- The places are the numbers from zero on.
    have hplaces : (bs.zipIdx.map Prod.snd).Nodup := by
      rw [List.zipIdx_map_snd]
      exact List.nodup_range'
    refine List.Nodup.map ?_ hplaces.of_map
    rintro ⟨b, k⟩ ⟨b', k'⟩ heq
    simp only [Prod.mk.injEq, Option.some.injEq, true_and] at heq
    rw [heq.1, heq.2]
  · rw [List.pairwise_iff_getElem]
    intro i j hi hj hij a ha hb
    obtain ⟨k, hk⟩ := mark_of_mem (List.getElem?_eq_getElem hi) ha
    obtain ⟨k', hk'⟩ := mark_of_mem (List.getElem?_eq_getElem hj) hb
    rw [hk] at hk'
    simp only [Option.some.injEq, Prod.mk.injEq] at hk'
    omega

/-- No byte that was in a file is one of the input. -/
theorem unmarked_fresh {files : Bytes → Option Bytes} {lines : List Bytes} {f : Bytes}
    {c : List Marked} (hc : unmarked files f = some c) {a : Marked} (ha : a ∈ c) :
    a ∉ (marked lines).flatten := by
  intro hmem
  obtain ⟨line, hline, hat⟩ := List.mem_flatten.mp hmem
  obtain ⟨i, hi⟩ := List.getElem?_of_mem hline
  obtain ⟨k, hk⟩ := mark_of_mem hi hat
  obtain ⟨c0, -, rfl⟩ := Option.map_eq_some_iff.mp hc
  obtain ⟨b, -, rfl⟩ := List.mem_map.mp ha
  cases hk

section
variable {α : Type} {f : α → UInt8} {lines : List (List α)}

/-- Marks do not make an input of lines that are none. -/
theorem Input.of_map (h : Input id (lines.map (List.map f))) : Input f lines := by
  induction lines with
  | nil => exact .nil
  | cons line lines ih =>
    rw [List.map_cons] at h
    -- The cases of the input need the mapped lists as variables.
    generalize hline : line.map f = bytes at h
    generalize hlines : lines.map (List.map f) = more at h
    cases h with
    | last hne hall =>
      obtain rfl := List.map_eq_nil_iff.mp hlines
      refine .last ?_ fun a ha => hall (f a) ?_
      · rintro rfl
        exact hne hline.symm
      · rw [← hline]
        exact List.mem_map_of_mem ha
    | cons hinit ha hrest =>
      obtain ⟨init, last, rfl, hfront, hback⟩ := List.map_eq_append_iff.mp hline
      obtain ⟨a, rfl⟩ : ∃ a, last = [a] := by
        rw [← List.length_eq_one_iff, ← List.length_map (f := f), hback]
        rfl
      subst hfront
      subst hlines
      refine .cons (fun b hb => hinit (f b) (List.mem_map_of_mem hb)) ?_ (ih hrest)
      rw [List.map_singleton, List.singleton_inj] at hback
      rw [hback]
      exact ha

/-- Marks do not change the number of passes. -/
theorem firstPass_map (n : Nat) (lines : List (List α)) (i : Nat) :
    firstPass n (lines.map (List.map f)) i = firstPass n lines i := by
  rw [firstPass, firstPass, ← List.map_take, List.map_map]
  congr 1
  apply List.map_congr_left
  intro line _
  rw [Function.comp_apply, passCount, passCount, chunks_map, List.length_map]

/-- The condition is one on the values of the bytes. -/
theorem FollowerLogger.separate_map {turns : Nat → Turn} :
    Separate turns id (lines.map (List.map f)) ↔ Separate turns f lines := by
  simp [Separate]

/-- Marks do not change which lines are kept whole. -/
theorem LoggerMain.whole_map {strftime : BitVec 64 → Bytes} {fd : Bool} {tag : Option Bytes}
    {turns : Nat → Turn} :
    Whole strftime fd tag turns id (lines.map (List.map f)) ↔
      Whole strftime fd tag turns f lines := by
  simp [Whole, OneName, firstPass_map]

end

/-- Both programs, for every input, every clock and every file that was there before, with
successful calls: every line is kept exactly when the lines are separate, or whole. Then it is kept
also as what it is without the marks. -/
theorem logged_lines_iff (turns : Nat → Turn) (hturns : ∀ k, (turns k).Successful)
    {lines : List Bytes} (hin : Input id lines) (files : Bytes → Option Bytes) :
    (∀ dir tag : Bytes,
      (KeepsLines (FollowerLogger.main Prod.fst dir tag turns none) (unmarked files)
          (marked lines) ↔ FollowerLogger.Separate turns id lines) ∧
      (FollowerLogger.Separate turns id lines →
        KeepsLines (FollowerLogger.main id dir tag turns none) files lines)) ∧
    ∀ (strftime : BitVec 64 → Bytes) (fd : Bool) (tag : Option Bytes),
      (KeepsLines (LoggerMain.main Prod.fst strftime fd tag turns none) (unmarked files)
          (marked lines) ↔ LoggerMain.Whole strftime fd tag turns id lines) ∧
      (LoggerMain.Whole strftime fd tag turns id lines →
        KeepsLines (LoggerMain.main id strftime fd tag turns none) files lines) := by
  have hmarked : Input Prod.fst (marked lines) := Input.of_map (by rwa [map_fst_marked])
  -- The marked characters are in no file before the run.
  have hfresh : ∀ f c, unmarked files f = some c → ∀ a ∈ c, a ∉ (marked lines).flatten :=
    fun f c hc a ha => unmarked_fresh hc ha
  constructor
  · intro dir tag
    refine ⟨?_, FollowerLogger.keeps_of_separate hturns hin dir tag⟩
    rw [FollowerLogger.keeps_iff hturns hmarked (nodup_flatten_marked lines) hfresh,
      ← FollowerLogger.separate_map, map_fst_marked]
  · intro strftime fd tag
    refine ⟨?_, LoggerMain.keeps_of_whole hturns hin⟩
    rw [LoggerMain.keeps_iff hturns hmarked (nodup_flatten_marked lines) hfresh,
      ← LoggerMain.whole_map, map_fst_marked]

/-- A pass at the given time, with successful calls. -/
def turnAt (t : BitVec 64) : Turn := ⟨t, true, true, [], OK_CRLF⟩

/-- In a turn of `turnAt` every call succeeds. -/
theorem turnAt_successful (t : BitVec 64) : (turnAt t).Successful :=
  ⟨rfl, rfl, by simp [turnAt], by simp [turnAt, OK_CRLF]⟩

/-- The lines `a` and `b`. -/
def twoLines : List Bytes := [[97, LF], [98, LF]]

/-- The two lines are an input. -/
theorem twoLines_input : Input id twoLines :=
  @Input.cons _ id [97] LF _ (List.forall_mem_singleton.mpr (by decide)) rfl
    (@Input.cons _ id [98] LF _ (List.forall_mem_singleton.mpr (by decide)) rfl .nil)

/-- Two lines, a second apart. -/
theorem logged_lines_iff_two :
    KeepsLines (FollowerLogger.main id [] [] (fun k => turnAt (.ofNat 64 k)) none) (fun _ => none)
      twoLines :=
  ((logged_lines_iff (fun k => turnAt (.ofNat 64 k)) (fun _ => turnAt_successful _)
    twoLines_input fun _ => none).1 [] []).2 (by
      refine ⟨by simp [twoLines, LF], ?_⟩
      intro i j hij hj
      have hj : j < 2 := hj
      obtain ⟨rfl, rfl⟩ : i = 0 ∧ j = 1 := by omega
      decide)

/-- Two lines in the same second. The second one goes over the first, and the file holds the second
one only. -/
theorem follower_logger_loses_line :
    ¬ KeepsLines (FollowerLogger.main id [] [] (fun _ => turnAt 0) none)
      (fun _ => none) twoLines := by
  rintro ⟨disk, hrun, hkeeps⟩
  obtain ⟨name, hname, content, hcontent, hinside⟩ := hkeeps [97, LF] (by decide)
  obtain rfl := Except.ok.inj hrun
  have hname : name = [SLASH] ++ hex16 0 := by
    rcases List.mem_cons.mp hname with rfl | hname
    · rfl
    · exact List.mem_singleton.mp hname
  subst hname
  have hcontent : some [98, LF] = some content := hcontent
  cases hcontent
  exact absurd hinside (by decide)

end Compostela.Logger
