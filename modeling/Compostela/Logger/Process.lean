import Compostela.Lib.NamedFiles
import Compostela.Logger.Command

/-!
# `Compostela.Logger.Process`: what comlogger writes

There are two versions of the program, `follower/logger.c` and `logger/main.c`. Both read their
standard input with `fgets`, make a file name out of the clock for what each call delivers, and
write it to that file in `__process`. The one writes with `O_APPEND`, the other without, so that its
writes start at the start of the file.

The programs copy bytes and compare them with the newline and with zero. The model is about any type
of bytes with these values, so that bytes can be told apart that have the same value.

* `processWith_eq_ok`: a pass with successful calls.
* `mainLoop_lines`: the loop cuts each line into chunks.
-/

set_option autoImplicit false

namespace Compostela.Logger

open Compostela.Common
open Compostela.Memory
open Compostela.NamedFiles

/-- The files by their names, the names that `__process` opened, and the commands that it sent. -/
structure Disk (α : Type) where
  file : Bytes → Option (List α)
  opened : List Bytes
  commands : List Bytes

/-- What the calls of one pass give: the clock, whether `malloc` gives memory and `open` a file, how
many bytes each `write` takes at most (zero when it fails, and everything past the end of the list),
and what `recv` delivers. -/
structure Turn where
  time : BitVec 64
  mallocs : Bool
  opens : Bool
  takes : List Nat
  reply : Bytes

/-- All of them are successful. -/
structure Turn.Successful (turn : Turn) : Prop where
  mallocs : turn.mallocs = true
  opens : turn.opens = true
  takes : ∀ n ∈ turn.takes, 0 < n
  reply : turn.reply ≠ []

section
variable {α : Type} (val : α → UInt8)

/-- A `write` of the bytes at an offset of the file. -/
def writeAt (content : List α) (offset : Nat) (data : List α) : List α :=
  content.take offset ++ data ++ content.drop (offset + data.length)

/-- `writeall`, with the number of bytes that it wrote. With `O_APPEND` each `write` goes to the end
of the file. -/
def writeall (append : Bool) : List Nat → List α → Nat → List α → List α × Nat
  | _, content, _, [] => (content, 0)
  | [], content, offset, data =>
      (writeAt content (if append then content.length else offset) data, data.length)
  | n :: takes, content, offset, data =>
      if n = 0 then (content, 0)
      else
        let done := data.take n
        let written := writeAt content (if append then content.length else offset) done
        let (content', m) := writeall append takes written (offset + done.length) (data.drop n)
        (content', done.length + m)

/-- `"OK\r\n"`. -/
def OK_CRLF : Bytes := [79, 75, 13, LF]

/-- `__process`, and whether the answer is the one it expects. The two versions differ in the flags
of `open`, and in whether there may be no socket. -/
def processWith (append fd : Bool) (tag : Option Bytes) (ftemp : Bytes) (data : List α)
    (turn : Turn) (disk : Disk α) : Except Trap (Bool × Disk α) :=
  if turn.opens = false then .error .exited
  else
    let (content, n) := writeall append turn.takes ((disk.file ftemp).getD []) 0 data
    let disk := { disk with
      file := Function.update disk.file ftemp (some content)
      opened := disk.opened ++ [ftemp] }
    if n ≠ data.length then .error .exited
    else if fd then
      match tag with
      | none => .error .nullDeref
      | some tag =>
          if turn.mallocs = false then .error .exited
          else if turn.reply = [] then .error .exited
          else
            .ok (turn.reply = OK_CRLF,
              { disk with commands := disk.commands ++ [makeCommand tag ftemp] })
    else .ok (true, disk)

/-- What `fgets` reads of at most `n` bytes: up to a newline. -/
def fgetsBytes : Nat → List α → List α × List α
  | 0, stream => ([], stream)
  | _, [] => ([], [])
  | n + 1, a :: stream =>
      if val a = LF then ([a], stream)
      else
        let (line, rest) := fgetsBytes n stream
        (a :: line, rest)

/-- `fgets` into a buffer, which needs one byte for the terminator. -/
def fgets (size : Nat) : List α → Option (List α × List α)
  | [] => none
  | stream => some (fgetsBytes val (size - 1) stream)

/-- The bytes in front of the first zero, as `strlen` counts them. -/
def cut (buf : List α) : List α := buf.takeWhile fun a => val a ≠ 0

/-- The loop of `main` over the lines, with the number of the pass. -/
def mainLoop (size : Nat) (pass : Nat → List α → Disk α → Except Trap (Disk α)) :
    Nat → Nat → List α → Disk α → Except Trap (Disk α)
  | 0, _, _, _ => .error .hangs
  | fuel + 1, k, stream, disk =>
      match fgets val size stream with
      | none => .ok disk
      | some (buf, rest) => do
          let disk ← pass k (cut val buf) disk
          mainLoop size pass fuel (k + 1) rest disk

/-- `main` behind its options: one pass for a message from the command line, with the CR and the LF
that come behind it, or the loop. Each `fgets` reads a byte or ends the loop. -/
def mainWith (size : Nat) (pass : Nat → List α → Disk α → Except Trap (Disk α))
    (msg : Option (List α)) (stdin : List α) (disk : Disk α) : Except Trap (Disk α) :=
  match msg with
  | some text => pass 0 (cut val text) disk
  | none => mainLoop val size pass (stdin.length + 1) 0 stdin disk

end

/-! ### The two programs -/

/-- A digit of `%lx`. -/
def hexDigit (d : Nat) : UInt8 := if d < 10 then .ofNat (48 + d) else .ofNat (87 + d)

/-- `%016lx`. -/
def hex16 (t : BitVec 64) : Bytes :=
  (List.range 16).map fun i => hexDigit (t.toNat / 16 ^ (15 - i) % 16)

namespace FollowerLogger

variable {α : Type}

/-- `__setup_tempfile` of `follower/logger.c`, and the test of its result. -/
def setupTempfile (dir : Bytes) (turn : Turn) : Except Trap Bytes :=
  if turn.mallocs = false then .error .exited
  else .ok (snprintf (dir.length + 18) (dir ++ [SLASH] ++ hex16 turn.time))

/-- `__process` of `follower/logger.c`. -/
def process (tag ftemp : Bytes) (data : List α) (turn : Turn) (disk : Disk α) :
    Except Trap (Bool × Disk α) := processWith false true (some tag) ftemp data turn disk

/-- One pass of the loop. Nothing is done with the answer. -/
def pass (dir tag : Bytes) (turns : Nat → Turn) (k : Nat) (data : List α) (disk : Disk α) :
    Except Trap (Disk α) := do
  let ftemp ← setupTempfile dir (turns k)
  let (_, disk) ← process tag ftemp data (turns k) disk
  .ok disk

/-- `main` of `follower/logger.c`, in the directory that `mkdtemp` made. -/
def main (val : α → UInt8) (dir tag : Bytes) (turns : Nat → Turn) (msg : Option (List α))
    (stdin : List α) (disk : Disk α) : Except Trap (Disk α) :=
  mainWith val 8192 (pass dir tag turns) msg stdin disk

end FollowerLogger

namespace LoggerMain

variable {α : Type}

/-- `__setup_tempfile` of `logger/main.c`, and the test of its result. `strftime` is the name that
the format makes of the local time. -/
def setupTempfile (strftime : BitVec 64 → Bytes) (turn : Turn) : Except Trap Bytes :=
  if strftime turn.time = [] then .error .exited else .ok (strftime turn.time)

/-- `__process` of `logger/main.c`. -/
def process (fd : Bool) (tag : Option Bytes) (ftemp : Bytes) (data : List α) (turn : Turn)
    (disk : Disk α) : Except Trap (Bool × Disk α) := processWith true fd tag ftemp data turn disk

/-- One pass of the loop. Nothing is done with the answer. -/
def pass (strftime : BitVec 64 → Bytes) (fd : Bool) (tag : Option Bytes) (turns : Nat → Turn)
    (k : Nat) (data : List α) (disk : Disk α) : Except Trap (Disk α) := do
  let ftemp ← setupTempfile strftime (turns k)
  let (_, disk) ← process fd tag ftemp data (turns k) disk
  .ok disk

/-- `main` of `logger/main.c`. The socket and the tag are optional. -/
def main (val : α → UInt8) (strftime : BitVec 64 → Bytes) (fd : Bool) (tag : Option Bytes)
    (turns : Nat → Turn) (msg : Option (List α)) (stdin : List α) (disk : Disk α) :
    Except Trap (Disk α) :=
  mainWith val 2048 (pass strftime fd tag turns) msg stdin disk

end LoggerMain

/-- Two digits that look the same are the same. -/
theorem hexDigit_inj {c d : Nat} (hc : c < 16) (hd : d < 16) (h : hexDigit c = hexDigit d) :
    c = d := by
  have hall : ∀ c < 16, ∀ d < 16, hexDigit c = hexDigit d → c = d := by decide
  exact hall c hc d hd h

/-- A number is known by its hexadecimal digits. -/
theorem eq_of_hexDigits {n a b : Nat} (ha : a < 16 ^ n) (hb : b < 16 ^ n)
    (h : ∀ j < n, a / 16 ^ j % 16 = b / 16 ^ j % 16) : a = b := by
  induction n generalizing a b with
  | zero => omega
  | succ n ih =>
    have hlow : a % 16 = b % 16 := by simpa using h 0 (Nat.succ_pos n)
    have hhigh : a / 16 = b / 16 := by
      rw [Nat.pow_succ] at ha hb
      refine ih (Nat.div_lt_of_lt_mul (by omega)) (Nat.div_lt_of_lt_mul (by omega)) ?_
      intro j hj
      have hnext := h (j + 1) (by omega)
      rwa [Nat.pow_succ', ← Nat.div_div_eq_div_mul, ← Nat.div_div_eq_div_mul] at hnext
    omega

/-- Each second has its own name. -/
theorem hex16_inj {t t' : BitVec 64} (h : hex16 t = hex16 t') : t = t' := by
  apply BitVec.eq_of_toNat_eq
  refine eq_of_hexDigits (n := 16) t.isLt t'.isLt ?_
  intro j hj
  have hat := List.map_inj_left.mp h (15 - j) (List.mem_range.mpr (by omega))
  rw [show 15 - (15 - j) = j by omega] at hat
  exact hexDigit_inj (Nat.mod_lt _ (by norm_num)) (Nat.mod_lt _ (by norm_num)) hat

/-- The buffer of `__setup_tempfile` is large enough. -/
theorem FollowerLogger.setupTempfile_eq {turn : Turn} (h : turn.mallocs = true) (dir : Bytes) :
    setupTempfile dir turn = .ok (dir ++ [SLASH] ++ hex16 turn.time) := by
  rw [setupTempfile, if_neg (by simp [h]), snprintf, List.take_of_length_le]
  simp [hex16]

/-! ### Successful passes -/

section
variable {α : Type}

/-- How a piece gets into a file. -/
def putWith (append : Bool) : List α → List α → List α := if append then (· ++ ·) else overlay

/-- A write at the end of a file appends. -/
theorem writeAt_length (content data : List α) :
    writeAt content content.length data = content ++ data := by
  rw [writeAt, List.take_length, List.drop_eq_nil_of_le (by omega), List.append_nil]

/-- Two writes, the second behind the first. -/
theorem writeAt_writeAt {content : List α} {offset : Nat} (h : offset ≤ content.length)
    (first second : List α) :
    writeAt (writeAt content offset first) (offset + first.length) second =
      writeAt content offset (first ++ second) := by
  have hlen : (content.take offset ++ first).length = offset + first.length := by
    rw [List.length_append, List.length_take, Nat.min_eq_left h]
  rw [writeAt, writeAt, writeAt, List.take_left' hlen, List.length_append, ← Nat.add_assoc,
    ← List.drop_drop (i := second.length), List.drop_left' hlen, List.drop_drop, List.append_assoc]
  simp

/-- A file reaches at least to the end of what was written. -/
theorem length_writeAt {content : List α} {offset : Nat} (h : offset ≤ content.length)
    (data : List α) : offset + data.length ≤ (writeAt content offset data).length := by
  rw [writeAt, List.length_append, List.length_append, List.length_take, Nat.min_eq_left h]
  omega

/-- `writeall` to a file opened for appending appends all of the data, in as many writes as it
takes. -/
theorem writeall_append {takes : List Nat} (h : ∀ n ∈ takes, 0 < n) (content : List α)
    (offset : Nat) (data : List α) :
    writeall true takes content offset data = (content ++ data, data.length) := by
  induction takes generalizing content offset data with
  | nil =>
    cases data with
    | nil => simp [writeall]
    | cons a data => simp only [writeall, if_true, writeAt_length]
  | cons n takes ih =>
    cases data with
    | nil => simp [writeall]
    | cons a data =>
      have hn : n ≠ 0 := Nat.ne_of_gt (h n List.mem_cons_self)
      simp only [writeall, if_neg hn, if_true, writeAt_length]
      rw [ih fun m hm => h m (List.mem_cons_of_mem n hm)]
      rw [List.append_assoc, List.take_append_drop, ← List.length_append, List.take_append_drop]

/-- `writeall` at an offset writes all of the data over what is there. -/
theorem writeall_overlay {takes : List Nat} (h : ∀ n ∈ takes, 0 < n) {content : List α}
    {offset : Nat}
    (hoff : offset ≤ content.length) (data : List α) :
    writeall false takes content offset data = (writeAt content offset data, data.length) := by
  induction takes generalizing content offset data with
  | nil =>
    cases data with
    | nil => simp [writeall, writeAt]
    | cons a data => simp [writeall]
  | cons n takes ih =>
    cases data with
    | nil => simp [writeall, writeAt]
    | cons a data =>
      have hn : n ≠ 0 := Nat.ne_of_gt (h n List.mem_cons_self)
      simp only [writeall, if_neg hn, Bool.false_eq_true, if_false]
      rw [ih (fun m hm => h m (List.mem_cons_of_mem n hm)) (length_writeAt hoff _),
        writeAt_writeAt hoff, List.take_append_drop, ← List.length_append, List.take_append_drop]

/-- With successful calls everything is written. -/
theorem writeall_eq {takes : List Nat} (h : ∀ n ∈ takes, 0 < n) (append : Bool)
    (content data : List α) :
    writeall append takes content 0 data = (putWith append content data, data.length) := by
  cases append with
  | true => exact writeall_append h content 0 data
  | false =>
    rw [writeall_overlay h (Nat.zero_le _), writeAt, List.take_zero, List.nil_append, Nat.zero_add]
    rfl

/-- What a pass leaves behind. -/
def Disk.written (disk : Disk α) (append : Bool) (ftemp : Bytes) (data : List α)
    (commands : List Bytes) : Disk α where
  file := Function.update disk.file ftemp (some (putWith append ((disk.file ftemp).getD []) data))
  opened := disk.opened ++ [ftemp]
  commands := disk.commands ++ commands

/-- With successful calls a pass fails only for want of a tag. -/
theorem processWith_eq_ok {turn : Turn} (h : turn.Successful) (append fd : Bool)
    (tag : Option Bytes) (ftemp : Bytes) (data : List α) (disk disk' : Disk α) :
    (∃ ok, processWith append fd tag ftemp data turn disk = .ok (ok, disk')) ↔
      (fd = true → tag ≠ none) ∧ disk' = disk.written append ftemp data
        (if fd then (tag.map (makeCommand · ftemp)).toList else []) := by
  rw [processWith, if_neg (by simp [h.opens])]
  simp only [writeall_eq h.takes, ne_eq, not_true_eq_false, if_false]
  cases fd with
  | false =>
    simp only [Bool.false_eq_true, if_false, false_implies, true_and, Except.ok.injEq,
      Prod.mk.injEq, exists_and_right, exists_eq', true_and, Disk.written, List.append_nil]
    exact eq_comm
  | true =>
    cases tag with
    | none => simp
    | some tag =>
      simp only [if_true, if_neg h.reply, h.mallocs, Bool.true_eq_false, if_false, Except.ok.injEq,
        Prod.mk.injEq, exists_and_right, exists_eq', true_and, reduceCtorEq, not_false_eq_true,
        implies_true, Disk.written, Option.map_some, Option.toList_some]
      exact eq_comm

/-! ### Lines

Each `fgets` delivers the next chunk of the line that is read. -/

variable (val : α → UInt8)

/-- The lines of an input. Only the last one may be without its newline. -/
inductive Input : List (List α) → Prop
  | nil : Input []
  | last {line : List α} : line ≠ [] → (∀ a ∈ line, val a ≠ LF) → Input [line]
  | cons {init : List α} {a : α} {lines : List (List α)} :
      (∀ b ∈ init, val b ≠ LF) → val a = LF → Input lines → Input ((init ++ [a]) :: lines)

variable {val}

/-- `fgets` stops when its buffer is full and no newline has come. -/
theorem fgetsBytes_of_ne {n : Nat} {line : List α} (h : ∀ a ∈ line.take n, val a ≠ LF)
    (hle : n ≤ line.length) (rest : List α) :
    fgetsBytes val n (line ++ rest) = (line.take n, line.drop n ++ rest) := by
  induction n generalizing line with
  | zero => simp [fgetsBytes]
  | succ n ih =>
    cases line with
    | nil => simp at hle
    | cons a line =>
      have ha : val a ≠ LF := h a (by simp)
      rw [List.cons_append, fgetsBytes, if_neg ha, ih (fun b hb => h b (by simp [hb]))
        (by simpa using hle)]
      rfl

/-- `fgets` stops behind a newline. -/
theorem fgetsBytes_of_newline {n : Nat} {init : List α} {a : α} (h : ∀ b ∈ init, val b ≠ LF)
    (ha : val a = LF) (hlt : init.length < n) (rest : List α) :
    fgetsBytes val n (init ++ [a] ++ rest) = (init ++ [a], rest) := by
  induction init generalizing n with
  | nil =>
    obtain ⟨m, rfl⟩ := Nat.exists_eq_add_of_lt hlt
    simp [fgetsBytes, ha]
  | cons b init ih =>
    cases n with
    | zero => simp at hlt
    | succ n =>
      have hb : val b ≠ LF := h b List.mem_cons_self
      rw [List.cons_append, List.cons_append, fgetsBytes, if_neg hb,
        ih (fun c hc => h c (List.mem_cons_of_mem b hc)) (by simpa using hlt)]

/-- `fgets` stops at the end of the input. -/
theorem fgetsBytes_of_end {n : Nat} {line : List α} (h : ∀ a ∈ line, val a ≠ LF)
    (hle : line.length ≤ n) : fgetsBytes val n line = (line, []) := by
  induction line generalizing n with
  | nil => cases n <;> rfl
  | cons a line ih =>
    cases n with
    | zero => simp at hle
    | succ n =>
      have ha : val a ≠ LF := h a List.mem_cons_self
      rw [fgetsBytes, if_neg ha, ih (fun b hb => h b (List.mem_cons_of_mem a hb))
        (by simpa using hle)]

/-- The first line of an input is not empty. -/
theorem Input.ne_nil {line : List α} {lines : List (List α)} (h : Input val (line :: lines)) :
    line ≠ [] := by
  cases h with
  | last hne _ => exact hne
  | cons _ _ _ => simp

/-- An input without its first line is an input. -/
theorem Input.tail {line : List α} {lines : List (List α)} (h : Input val (line :: lines)) :
    Input val lines := by
  cases h with
  | last _ _ => exact .nil
  | cons _ _ hlines => exact hlines

/-- The next chunk of the line is what `fgets` delivers. -/
theorem Input.fgets {line : List α} {lines : List (List α)} (h : Input val (line :: lines))
    (n : Nat) :
    fgets val (n + 1) (line :: lines).flatten =
      some (line.take n, line.drop n ++ lines.flatten) := by
  have hbytes : fgetsBytes val n (line :: lines).flatten =
      (line.take n, line.drop n ++ lines.flatten) := by
    rw [List.flatten_cons]
    rcases Nat.lt_or_ge n line.length with hlt | hge
    · refine fgetsBytes_of_ne ?_ hlt.le _
      -- The newline, if there is one, is behind the chunk.
      cases h with
      | last _ hall => exact fun a ha => hall a (List.mem_of_mem_take ha)
      | cons hinit _ _ =>
        rw [List.length_append, List.length_singleton] at hlt
        rw [List.take_append_of_le_length (by omega)]
        exact fun b hb => hinit b (List.mem_of_mem_take hb)
    · rw [List.take_of_length_le hge, List.drop_eq_nil_of_le hge, List.nil_append]
      cases h with
      | last _ hall => rw [List.flatten_nil, List.append_nil, fgetsBytes_of_end hall hge]
      | cons hinit ha _ =>
        rw [List.length_append, List.length_singleton] at hge
        exact fgetsBytes_of_newline hinit ha (by omega) _
  have hne : (line :: lines).flatten ≠ [] := by
    rw [List.flatten_cons]
    exact List.append_ne_nil_of_left_ne_nil h.ne_nil _
  cases hstream : (line :: lines).flatten with
  | nil => exact absurd hstream hne
  | cons a stream =>
    rw [hstream] at hbytes
    rw [Logger.fgets, Nat.add_sub_cancel, hbytes]
    exact List.cons_ne_nil a stream

/-- What is behind a chunk is a line. -/
theorem Input.drop {line : List α} {lines : List (List α)} (h : Input val (line :: lines)) {n : Nat}
    (hlt : n < line.length) : Input val (line.drop n :: lines) := by
  cases h with
  | last _ hall =>
    refine .last ?_ fun a ha => hall a (List.mem_of_mem_drop ha)
    intro hnil
    have hlen := List.length_drop (i := n) (l := line)
    rw [hnil, List.length_nil] at hlen
    omega
  | cons hinit ha hlines =>
    rw [List.length_append, List.length_singleton] at hlt
    rw [List.drop_append_of_le_length (by omega)]
    exact .cons (fun b hb => hinit b (List.mem_of_mem_drop hb)) ha hlines

/-- The passes, one for each chunk. -/
def passes (pass : Nat → List α → Disk α → Except Trap (Disk α)) :
    Nat → List (List α) → Disk α → Except Trap (Disk α)
  | _, [], disk => .ok disk
  | k, piece :: pieces, disk => do
      let disk ← pass k piece disk
      passes pass (k + 1) pieces disk

/-- The pieces of the lines that reach `__process`, which counts their bytes with `strlen`. -/
def pieces (val : α → UInt8) (n : Nat) (lines : List (List α)) : List (List α) :=
  (lines.flatMap (chunks n)).map (cut val)

/-- The loop cuts each line into chunks. -/
theorem mainLoop_lines {lines : List (List α)} (h : Input val lines) {n : Nat} (hn : 0 < n)
    (pass : Nat → List α → Disk α → Except Trap (Disk α)) {fuel : Nat}
    (hfuel : lines.flatten.length < fuel) (k : Nat) (disk : Disk α) :
    mainLoop val (n + 1) pass fuel k lines.flatten disk =
      passes pass k (pieces val n lines) disk := by
  induction fuel generalizing lines k disk with
  | zero => omega
  | succ fuel ih =>
    cases lines with
    | nil => rfl
    | cons line lines =>
      have hpos : 0 < line.length := List.length_pos_of_ne_nil h.ne_nil
      rw [List.flatten_cons, List.length_append] at hfuel
      rw [mainLoop, h.fgets n]
      -- `fgets` takes a whole line that fits, and the first `n` characters of one that does not.
      by_cases hle : line.length ≤ n
      · -- The rest of the line, and the other lines.
        have hpieces : pieces val n (line :: lines) = cut val line :: pieces val n lines := by
          rw [pieces, List.flatMap_cons, chunks_of_le hle h.ne_nil]
          rfl
        rw [hpieces, passes, List.take_of_length_le hle, List.drop_eq_nil_of_le hle,
          List.nil_append]
        refine congrArg (pass k (cut val line) disk >>= ·) (funext fun disk' => ?_)
        exact ih h.tail (by omega) (k + 1) disk'
      · have hlt : n < line.length := Nat.lt_of_not_le hle
        have hpieces : pieces val n (line :: lines) =
            cut val (line.take n) :: pieces val n (line.drop n :: lines) := by
          rw [pieces, List.flatMap_cons, chunks_of_lt hn hlt, pieces, List.flatMap_cons]
          rfl
        rw [hpieces, passes]
        refine congrArg (pass k (cut val (line.take n)) disk >>= ·) (funext fun disk' => ?_)
        rw [← List.flatten_cons]
        -- The rest of the long line is the first line of the next call.
        refine ih (h.drop hlt) ?_ (k + 1) disk'
        rw [List.flatten_cons, List.length_append, List.length_drop]
        omega

end

end Compostela.Logger
