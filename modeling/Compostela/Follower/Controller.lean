import Compostela.Common.GrowAppend
import Compostela.Follower.Rotate
import Compostela.Lib.Lines

/-!
# `Compostela.Follower.Controller`: the control socket

`do_server_socket` of `follower/main.c` accepts a connection on the control socket and reads
from it once. Every complete line that starts with `OPEN ` is a command.
`_do_controller_direct_open_with_line` splits it at spaces and tabs. The command word is in the
table too, so it becomes the display name, and the argument behind it is the file name. The
newline belongs to the last argument.

A new context goes to the front of the list. The list is not searched.
-/

set_option autoImplicit false

namespace Compostela.Follower

open Compostela.Common
open Compostela.Lines
open Compostela.Memory

def CONTROLLER_BUFFER_SIZE : Nat := 2048

/-- `"OPEN "`. -/
def OPEN : Bytes := [79, 80, 69, 78, 32]

/-- `'-'`. -/
def DASH : UInt8 := 45

/-- The delimiters that `strsep` is given. -/
def isBlank (b : UInt8) : Bool := b = 32 ∨ b = 9

/-- The table that the command loop fills from the fields that `strsep` returns one by one.
Empty fields are skipped. After an empty last field the inner loop leaves with a null. -/
def argTable : List Bytes → List (Option Bytes)
  | [] => [none]
  | [last] => if last = [] then [none] else [some last]
  | field :: rest => if field = [] then argTable rest else some field :: argTable rest

/-- The table of a command line, without the null that is put after it. -/
def atbl (line : Bytes) : List (Option Bytes) := argTable ((cstr line).splitOnP isBlank)

/-- `_do_controller_direct_open_with_line`. The table has 51 places, and the last one that is
used holds a null. A first argument with a dash at its front is never left behind. -/
def doControllerDirectOpenWithLine (heap : Heap) (line : Bytes) (contexts : List Listed) :
    Except Trap (List Listed) :=
  if 51 ≤ (atbl line).length then .error .oobWrite
  else
    match atbl line with
    | some displayName :: args =>
        if displayName.head? = some DASH then .error .hangs
        else
          let new : Listed :=
            ⟨contexts.length, scFollowContextNew heap args.head?.join displayName true BUFSIZE⟩
          .ok (azListAdd contexts new)
    | _ => .error .nullDeref

/-- The lines that the loop of `_do_receive_data_0` reads. It ends when no newline is among the
bytes that fit into `line`. The terminator goes behind the line. -/
def controlLines : Nat → AzBuffer → Except Trap (List Bytes)
  | 0, _ => .ok []
  | fuel + 1, buffer => do
      let (n, line, buffer) ← azBufferReadLine buffer CONTROLLER_BUFFER_SIZE
      if n ≤ 0 then .ok []
      else if CONTROLLER_BUFFER_SIZE ≤ line.length then .error .oobWrite
      else do
        let lines ← controlLines fuel buffer
        .ok (line :: lines)

/-- The buffer of a new controller with the received data in it. -/
def controlBuffer (heap : Heap) (data : Bytes) : Except Trap AzBuffer := do
  let buffer := azBufferReset (azBufferNew heap CONTROLLER_BUFFER_SIZE)
  let buffer :=
    if toSize (azBufferUnusedBytes buffer) < data.length then
      (azBufferResize heap buffer (data.length + buffer.size)).2
    else buffer
  if toSize (azBufferUnusedBytes buffer) < data.length then .error .assertFailed
  else do
    let (_, buffer) ← azBufferFetchBytes buffer data
    .ok buffer

/-- The commands among the lines. -/
def openLines (heap : Nat → Heap) : List Bytes → List Listed → Except Trap (List Listed)
  | [], contexts => .ok contexts
  | line :: rest, contexts =>
      if line.take OPEN.length = OPEN then do
        let contexts ← doControllerDirectOpenWithLine (heap rest.length) line contexts
        openLines heap rest contexts
      else openLines heap rest contexts

/-- The lines of the received data. -/
def readControl (heap : Heap) (data : Bytes) : Except Trap (List Bytes) := do
  let buffer ← controlBuffer heap data
  controlLines (data.length + 1) buffer

/-- `_do_receive_data_0`, for a controller that `do_server_socket` has made. All lines are read
here before the first command runs. A command does not use the buffer. -/
def doReceiveData0 (heap : Heap) (heaps : Nat → Heap) (data : Bytes) (contexts : List Listed) :
    Except Trap (List Listed) := do
  let lines ← readControl heap data
  openLines heaps lines contexts

/-- The lines that are commands. -/
def commands (lines : List Bytes) : List Bytes :=
  lines.filter fun line => line.take OPEN.length = OPEN

/-- `"OK\r\n"`. -/
def CONTROL_OK : Bytes := [79, 75, 13, 10]

/-- What `_do_receive_data_0` sends back while it runs the commands among the lines. -/
def controlReplies (lines : List Bytes) : List Bytes := (commands lines).map fun _ => CONTROL_OK

/-! ### The lines -/

/-- A line takes at least one byte, and one unit of fuel is enough for it. -/
theorem length_behind_line {bytes line rest : Bytes} {fuel : Nat} (hsplit : bytes = line ++ rest)
    (hne : line ≠ []) (hfuel : bytes.length < fuel + 1) : rest.length < fuel := by
  have hlen := congrArg List.length hsplit
  have hpos := List.length_pos_of_ne_nil hne
  rw [List.length_append] at hlen
  omega

/-- The loop reads the lines that fit into `line`, up to the first one that does not. For a line
that fills `line` there is no room left for the terminator. The fuel is enough when it exceeds the
number of bytes. -/
theorem controlLines_eq {fuel : Nat} {buffer : AzBuffer} (hv : buffer.Valid)
    (hfuel : buffer.unread.length < fuel) :
    controlLines fuel buffer =
      if ∃ line ∈ shortLines LF CONTROLLER_BUFFER_SIZE buffer.unread,
          line.length = CONTROLLER_BUFFER_SIZE then
        .error .oobWrite
      else .ok (shortLines LF CONTROLLER_BUFFER_SIZE buffer.unread) := by
  induction fuel generalizing buffer with
  | zero => exact absurd hfuel (Nat.not_lt_zero _)
  | succ fuel ih =>
    have hroom : 0 < CONTROLLER_BUFFER_SIZE := by decide
    unfold controlLines
    rcases AzBuffer.azBufferReadLine_cases hv hroom with
      ⟨hempty, heq⟩ | ⟨line, buffer', hsplit, hv', -, hne, hle, hcase⟩
    · -- Nothing is left.
      rw [heq, hempty, shortLines_of_notMem List.not_mem_nil, if_neg (by simp)]
      rfl
    rcases hcase with ⟨heq, hline⟩ | ⟨heq, hnone⟩
    · have hshort := length_behind_line hsplit hne hfuel
      rw [heq, hsplit, shortLines_append_of_line _ hline hle, ok_bind]
      simp only [List.mem_cons, exists_eq_or_imp, ih hv' hshort]
      by_cases hfull : line.length = CONTROLLER_BUFFER_SIZE
      · simp [hfull]
      · have hlt : ¬ CONTROLLER_BUFFER_SIZE ≤ line.length := by omega
        -- The first line is fine, so it is up to those behind it.
        by_cases hrest : ∃ line ∈ shortLines LF CONTROLLER_BUFFER_SIZE buffer'.unread,
            line.length = CONTROLLER_BUFFER_SIZE
        · rw [if_neg (by decide), if_neg hlt, if_pos hrest, if_pos (Or.inr hrest)]
          rfl
        · rw [if_neg (by decide), if_neg hlt, if_neg hrest, if_neg (not_or.mpr ⟨hfull, hrest⟩)]
          rfl
    · -- No newline is among the bytes that fit.
      have hnot := AzBuffer.notMem_of_azBufferReadLine hv heq
      rw [heq, shortLines_of_notMem hnot, if_neg (by simp)]
      rfl

/-- The buffer of a new controller has room for the data, or it can be made larger. -/
def HasRoom (heap : Heap) (data : Bytes) : Prop :=
  CONTROLLER_BUFFER_SIZE < data.length →
    data.length + CONTROLLER_BUFFER_SIZE ≤ PTRDIFF_MAX ∧
      heap.realloc (data.length + CONTROLLER_BUFFER_SIZE) = true

/-- The buffer is grown and filled like every other, as long as the new size does not wrap
around. -/
theorem controlBuffer_eq_growAppend (heap : Heap) {data : Bytes}
    (h : data.length + CONTROLLER_BUFFER_SIZE < 2 ^ 64) :
    controlBuffer heap data =
      growAppend heap (azBufferReset (azBufferNew heap CONTROLLER_BUFFER_SIZE)) data := by
  have hsum : toSize (data.length + CONTROLLER_BUFFER_SIZE) =
      data.length + CONTROLLER_BUFFER_SIZE := by
    rw [toSize_of_lt (by omega) (by omega)]
    rfl
  have hnew : (azBufferReset (azBufferNew heap CONTROLLER_BUFFER_SIZE)).size =
      CONTROLLER_BUFFER_SIZE := rfl
  unfold growAppend growFor controlBuffer
  simp only [hnew, hsum]

/-- With room the buffer holds the received data. -/
theorem controlBuffer_of_hasRoom {heap : Heap} {data : Bytes} (h : HasRoom heap data) :
    ∃ buffer, controlBuffer heap data = .ok buffer ∧ buffer.Valid ∧ buffer.unread = data := by
  have hv0 : (azBufferReset (azBufferNew heap CONTROLLER_BUFFER_SIZE)).Valid :=
    (AzBuffer.valid_azBufferNew heap (by decide)).reset
  have hsum : data.length + CONTROLLER_BUFFER_SIZE < 2 ^ 64 := by
    by_cases hlong : CONTROLLER_BUFFER_SIZE < data.length
    · have hmax := (h hlong).1
      unfold PTRDIFF_MAX at hmax
      omega
    · unfold CONTROLLER_BUFFER_SIZE at hlong ⊢
      omega
  rw [controlBuffer_eq_growAppend heap hsum]
  exact AzBuffer.growAppend_of_room hv0 h

/-- Without room the block is null, and the assertion fails. -/
theorem controlBuffer_of_not_hasRoom {heap : Heap} {data : Bytes} (h : ¬ HasRoom heap data) :
    controlBuffer heap data = .error .assertFailed := by
  obtain ⟨hlong, hmem⟩ := Classical.not_imp.mp h
  have hv0 : (azBufferReset (azBufferNew heap CONTROLLER_BUFFER_SIZE)).Valid :=
    (AzBuffer.valid_azBufferNew heap (by decide)).reset
  have hunused : toSize (azBufferUnusedBytes (azBufferReset
      (azBufferNew heap CONTROLLER_BUFFER_SIZE))) = CONTROLLER_BUFFER_SIZE := hv0.toSize_unused
  have hnull : azBufferResize heap (azBufferReset (azBufferNew heap CONTROLLER_BUFFER_SIZE))
      (data.length + (azBufferReset (azBufferNew heap CONTROLLER_BUFFER_SIZE)).size) =
        (-1, ⟨⟨0, heap.fresh⟩, 0, 0, 0⟩) := by
    unfold azBufferResize
    exact (if_neg (Nat.not_lt_zero _)).trans (if_neg hmem)
  have hpos : 0 < data.length := Nat.lt_of_le_of_lt (Nat.zero_le _) hlong
  unfold controlBuffer
  simp only [hunused, if_pos hlong, hnull]
  exact if_pos (by simpa [azBufferUnusedBytes, toSize] using hpos)

/-- The lines of a command connection are the lines at the front of its data that fit. Each of
them has to leave room for its terminator. -/
theorem readControl_eq_ok_iff {heap : Heap} {data : Bytes} {lines : List Bytes} :
    readControl heap data = .ok lines ↔
      HasRoom heap data ∧ lines = shortLines LF CONTROLLER_BUFFER_SIZE data ∧
        ∀ line ∈ lines, line.length ≠ CONTROLLER_BUFFER_SIZE := by
  unfold readControl
  by_cases hroom : HasRoom heap data
  · obtain ⟨buffer, hbuffer, hv, hunread⟩ := controlBuffer_of_hasRoom hroom
    have hfuel : buffer.unread.length < data.length + 1 := by
      rw [hunread]
      exact Nat.lt_succ_self _
    rw [hbuffer, ok_bind, controlLines_eq hv hfuel, hunread]
    -- A line as long as the buffer is written past its end.
    by_cases hfull : ∃ line ∈ shortLines LF CONTROLLER_BUFFER_SIZE data,
        line.length = CONTROLLER_BUFFER_SIZE
    · rw [if_pos hfull]
      obtain ⟨line, hline, hlen⟩ := hfull
      refine ⟨nofun, ?_⟩
      rintro ⟨-, rfl, hshort⟩
      exact absurd hlen (hshort line hline)
    · rw [if_neg hfull]
      constructor
      · intro h
        cases h
        exact ⟨hroom, rfl, fun line hline hlen => hfull ⟨line, hline, hlen⟩⟩
      · rintro ⟨-, rfl, -⟩
        rfl
  · rw [controlBuffer_of_not_hasRoom hroom]
    exact ⟨nofun, fun h => absurd h.1 hroom⟩

/-- The lines are the complete lines at the front of the data. -/
theorem readControl_eq_ok {heap : Heap} {data : Bytes} {lines : List Bytes}
    (h : readControl heap data = .ok lines) :
    ∃ rest, data = lines.flatten ++ rest ∧ LF ∉ rest.take CONTROLLER_BUFFER_SIZE ∧
      ∀ line ∈ lines, IsLine LF line := by
  rw [(readControl_eq_ok_iff.mp h).2.1]
  exact flatten_shortLines LF CONTROLLER_BUFFER_SIZE data

/-! ### The commands -/

/-- The table of a command starts with the command word, so the loop over the options ends at
once. -/
theorem atbl_of_open {line : Bytes} (h : line.take OPEN.length = OPEN) :
    ∃ args, atbl line = some [79, 80, 69, 78] :: args := by
  have hline : line = [79, 80, 69, 78] ++ 32 :: line.drop OPEN.length := by
    conv_lhs => rw [← List.take_append_drop OPEN.length line, h]
    rfl
  have hcstr : cstr line = [79, 80, 69, 78] ++ 32 :: cstr (line.drop OPEN.length) := by
    conv_lhs => rw [hline]
    rfl
  have hne : (cstr (line.drop OPEN.length)).splitOnP isBlank ≠ [] := List.splitOnP_ne_nil _ _
  have hword : ∀ b ∈ ([79, 80, 69, 78] : Bytes), isBlank b = false := by simp [isBlank]
  rw [atbl, hcstr, List.splitOnP_append_cons_of_forall_mem hword 32 rfl]
  cases hfields : (cstr (line.drop OPEN.length)).splitOnP isBlank with
  | nil => exact absurd hfields hne
  | cons field rest => exact ⟨argTable (field :: rest), rfl⟩

/-- The file that a command names: its first argument, if it has one. -/
def openedFile (line : Bytes) : Option Bytes := (atbl line).tail.head?.join

/-- The files that the commands among the lines name. -/
def openedFiles (lines : List Bytes) : List Bytes :=
  (lines.filter fun line => line.take OPEN.length = OPEN).filterMap openedFile

/-- A command puts a context for its file to the front. -/
theorem doControllerDirectOpenWithLine_eq_ok {heap : Heap} {line : Bytes}
    {contexts contexts' : List Listed} (hopen : line.take OPEN.length = OPEN)
    (h : doControllerDirectOpenWithLine heap line contexts = .ok contexts') :
    ∃ new, contexts' = new :: contexts ∧ new.cxt.filename = openedFile line ∧
      new.cxt.buffer.Valid := by
  obtain ⟨args, hargs⟩ := atbl_of_open hopen
  unfold doControllerDirectOpenWithLine at h
  split at h
  · cases h
  rw [hargs] at h
  simp only at h
  rw [if_neg (by decide)] at h
  cases h
  refine ⟨_, rfl, ?_, AzBuffer.valid_azBufferNew heap (by decide)⟩
  rw [openedFile, hargs]
  rfl

/-- A command runs when the table has a place for the null behind its fields. -/
theorem exists_doControllerDirectOpenWithLine (heap : Heap) (contexts : List Listed) {line : Bytes}
    (hopen : line.take OPEN.length = OPEN) :
    (∃ contexts', doControllerDirectOpenWithLine heap line contexts = .ok contexts') ↔
      (atbl line).length < 51 := by
  obtain ⟨args, hargs⟩ := atbl_of_open hopen
  unfold doControllerDirectOpenWithLine
  by_cases hfull : 51 ≤ (atbl line).length
  · rw [if_pos hfull]
    exact ⟨nofun, fun h => absurd hfull (Nat.not_le_of_lt h)⟩
  · rw [if_neg hfull, hargs]
    simp only
    rw [if_neg (by decide)]
    exact ⟨fun _ => by rw [← hargs]; omega, fun _ => ⟨_, rfl⟩⟩

/-- All commands of a connection run when each of them does. -/
theorem exists_openLines (heap : Nat → Heap) (lines : List Bytes) (contexts : List Listed) :
    (∃ contexts', openLines heap lines contexts = .ok contexts') ↔
      ∀ line ∈ commands lines, (atbl line).length < 51 := by
  induction lines generalizing contexts with
  | nil => exact ⟨fun _ => by simp [commands], fun _ => ⟨contexts, rfl⟩⟩
  | cons line rest ih =>
    unfold openLines
    by_cases hopen : line.take OPEN.length = OPEN
    · have hone := exists_doControllerDirectOpenWithLine (heap rest.length) contexts hopen
      have hcommands : commands (line :: rest) = line :: commands rest :=
        List.filter_cons_of_pos (by simpa using hopen)
      rw [if_pos hopen, hcommands, List.forall_mem_cons]
      -- The line opens a file, and the rest goes on with its context in the list.
      constructor
      · rintro ⟨contexts', h⟩
        obtain ⟨contexts1, hfirst, h⟩ := bind_eq_ok.mp h
        exact ⟨hone.mp ⟨contexts1, hfirst⟩, (ih _).mp ⟨contexts', h⟩⟩
      · rintro ⟨hline, hrest⟩
        obtain ⟨contexts1, hfirst⟩ := hone.mpr hline
        obtain ⟨contexts', h⟩ := (ih _).mpr hrest
        exact ⟨contexts', bind_eq_ok.mpr ⟨contexts1, hfirst, h⟩⟩
    · have hcommands : commands (line :: rest) = commands rest :=
        List.filter_cons_of_neg (by simpa using hopen)
      rw [if_neg hopen, hcommands]
      exact ih _

/-- The commands of a connection put their contexts to the front, the last one first. -/
theorem openLines_eq_ok {heap : Nat → Heap} {lines : List Bytes}
    {contexts contexts' : List Listed} (h : openLines heap lines contexts = .ok contexts') :
    ∃ new, contexts' = new ++ contexts ∧
      new.filterMap (·.cxt.filename) = (openedFiles lines).reverse ∧
      ∀ c ∈ new, c.cxt.buffer.Valid := by
  induction lines generalizing contexts with
  | nil =>
    cases h
    exact ⟨[], rfl, rfl, by simp⟩
  | cons line rest ih =>
    unfold openLines at h
    by_cases hopen : line.take OPEN.length = OPEN
    · rw [if_pos hopen] at h
      obtain ⟨contexts1, hone, h⟩ := bind_eq_ok.mp h
      obtain ⟨first, rfl, hfile, hvalid⟩ := doControllerDirectOpenWithLine_eq_ok hopen hone
      obtain ⟨new, rfl, hnew, hall⟩ := ih h
      -- Contexts are put at the head, so those of later lines stand first.
      refine ⟨new ++ [first], by simp, ?_, ?_⟩
      · rw [List.filterMap_append, hnew, openedFiles, openedFiles,
          List.filter_cons_of_pos (by simpa using hopen), List.filterMap_cons]
        cases hone : openedFile line with
        | none => simp [hfile, hone]
        | some fn => simp [hfile, hone]
      · intro c hc
        rcases List.mem_append.mp hc with hc | hc
        · exact hall c hc
        · rw [List.mem_singleton.mp hc]
          exact hvalid
    · rw [if_neg hopen] at h
      obtain ⟨new, rfl, hnew, hall⟩ := ih h
      refine ⟨new, rfl, ?_, hall⟩
      rw [hnew, openedFiles, openedFiles, List.filter_cons_of_neg (by simpa using hopen)]

end Compostela.Follower
