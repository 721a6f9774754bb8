import Compostela.Follower.Controller

/-!
# `Compostela.Logger.Command`: the control command

`__make_command` of `logger/main.c`, of which `follower/logger.c` has a copy. The text of the
command is eleven bytes longer than the tag and the path. The buffer has just that many bytes,
and `snprintf` needs one of them for the terminator. So the last byte of the text, the newline,
is cut off.

* `makeCommand_eq`: the command that is sent.
* `readControl_makeCommand`: the follower finds no line in it.
* `not_roundTrips`: no command opens its file.
-/

set_option autoImplicit false

namespace Compostela.Logger

open Compostela.Common
open Compostela.Follower
open Compostela.Memory

/-- `"OPEN -d "`. -/
def OPEN_DIRECT : Bytes := OPEN ++ [DASH, 100, 32]

/-- What `snprintf(p, n, ...)` leaves in `p`: the text, without what does not fit in front of the
terminator. -/
def snprintf (n : Nat) (text : Bytes) : Bytes := text.take (n - 1)

/-- `__make_command`, as the bytes in front of the terminator, which are the ones sent. -/
def makeCommand (tag path : Bytes) : Bytes :=
  snprintf (tag.length + path.length + 11) (OPEN_DIRECT ++ tag ++ [32] ++ path ++ [13, LF])

/-- A string that is not empty and has no space, tab, CR or LF. The zero byte ends a string. -/
def IsWord (w : Bytes) : Prop := w ≠ [] ∧ ∀ b ∈ w, b ≠ 0 ∧ b ≠ 32 ∧ b ≠ 9 ∧ b ≠ 13 ∧ b ≠ LF

/-- A word has no newline in it. -/
theorem IsWord.lf_notMem {w : Bytes} (h : IsWord w) : LF ∉ w :=
  fun hmem => (h.2 LF hmem).2.2.2.2 rfl

/-- The newline does not fit. -/
theorem makeCommand_eq (tag path : Bytes) :
    makeCommand tag path = OPEN_DIRECT ++ tag ++ [32] ++ path ++ [13] := by
  have hlen : (OPEN_DIRECT ++ tag ++ [32] ++ path ++ [13]).length
      = tag.length + path.length + 11 - 1 := by
    have hopen : OPEN_DIRECT.length = 8 := rfl
    simp only [List.length_append, List.length_singleton, hopen]
    omega
  have hsplit : OPEN_DIRECT ++ tag ++ [32] ++ path ++ [13, LF]
      = (OPEN_DIRECT ++ tag ++ [32] ++ path ++ [13]) ++ [LF] := by
    rw [List.append_assoc _ [13] [LF]]
    rfl
  rw [makeCommand, snprintf, hsplit, List.take_left' hlen]

/-- The words bring no newline either. -/
theorem lf_notMem_makeCommand {tag path : Bytes} (htag : LF ∉ tag) (hpath : LF ∉ path) :
    LF ∉ makeCommand tag path := by
  have hopen : LF ∉ OPEN_DIRECT := by decide
  rw [makeCommand_eq]
  intro hmem
  simp only [List.mem_append, List.mem_singleton] at hmem
  rcases hmem with (((h | h) | h) | h) | h
  · exact hopen h
  · exact htag h
  · exact absurd h (by decide)
  · exact hpath h
  · exact absurd h (by decide)

/-- No line is found in a command. -/
theorem readControl_makeCommand {heap : Heap} {tag path : Bytes} {lines : List Bytes}
    (htag : LF ∉ tag) (hpath : LF ∉ path)
    (h : readControl heap (makeCommand tag path) = .ok lines) : lines = [] := by
  obtain ⟨rest, hrest, -, hlines⟩ := readControl_eq_ok h
  cases lines with
  | nil => rfl
  | cons line others =>
    obtain ⟨init, hline, -⟩ := hlines line List.mem_cons_self
    refine absurd ?_ (lf_notMem_makeCommand htag hpath)
    rw [hrest, hline]
    simp

/-- A command that is received in one piece does what it is for. It is one line, the answer to it
is one `OK`, and it adds one context, for the path and under the tag. -/
def RoundTrips (heap : Heap) (heaps : Nat → Heap) (contexts : List Listed) (tag path : Bytes) :
    Prop :=
  ∃ lines new, readControl heap (makeCommand tag path) = .ok lines ∧
    commands lines = [makeCommand tag path] ∧ controlReplies lines = [CONTROL_OK] ∧
    doReceiveData0 heap heaps (makeCommand tag path) contexts = .ok (new :: contexts) ∧
    new.cxt.filename = some path ∧ new.cxt.displayName = tag

/-- No tag and no path without a newline makes a command that is executed. -/
theorem not_roundTrips_of_lf_notMem {tag path : Bytes} (htag : LF ∉ tag) (hpath : LF ∉ path)
    (heap : Heap) (heaps : Nat → Heap) (contexts : List Listed) :
    ¬ RoundTrips heap heaps contexts tag path := by
  rintro ⟨lines, new, hread, hcommand, -⟩
  rw [readControl_makeCommand htag hpath hread] at hcommand
  cases hcommand

/-- No command of the logger does what it is for. -/
theorem not_roundTrips (heap : Heap) (heaps : Nat → Heap) (contexts : List Listed)
    (tag path : Bytes) (htag : IsWord tag) (hpath : IsWord path) :
    ¬ RoundTrips heap heaps contexts tag path :=
  not_roundTrips_of_lf_notMem htag.lf_notMem hpath.lf_notMem heap heaps contexts

/-- `app` and `/tmp/x` are words. -/
theorem isWord_app : IsWord [97, 112, 112] := by simp [IsWord, LF]

/-- `/tmp/x` is a word. -/
theorem isWord_tmp_x : IsWord [47, 116, 109, 112, 47, 120] := by simp [IsWord, LF]

/-- The tag `app` and the path `/tmp/x` are words, and their command is not executed. -/
theorem not_roundTrips_app :
    (IsWord [97, 112, 112] ∧ IsWord [47, 116, 109, 112, 47, 120]) ∧
      ¬ RoundTrips zeroHeap (fun _ => zeroHeap) [] [97, 112, 112] [47, 116, 109, 112, 47, 120] :=
  ⟨⟨isWord_app, isWord_tmp_x⟩,
    not_roundTrips zeroHeap (fun _ => zeroHeap) [] _ _ isWord_app isWord_tmp_x⟩

/-- The follower finds no line in the command for the tag `app` and the path `/tmp/x`. -/
theorem command_lost :
    IsWord [97, 112, 112] ∧ IsWord [47, 116, 109, 112, 47, 120] ∧
      readControl zeroHeap (makeCommand [97, 112, 112] [47, 116, 109, 112, 47, 120]) = .ok [] ∧
      ¬ RoundTrips zeroHeap (fun _ => zeroHeap) [] [97, 112, 112] [47, 116, 109, 112, 47, 120] :=
  ⟨isWord_app, isWord_tmp_x, rfl,
    not_roundTrips_of_lf_notMem isWord_app.lf_notMem isWord_tmp_x.lf_notMem _ _ _⟩

end Compostela.Logger
