import Compostela.Common.GrowAppend
import Compostela.Follower.Controller
import Compostela.Lib.Runs

/-!
# `Compostela.Follower.ControlSegments`: a controller and the segments it receives

`_do_receive_data_0` turn by turn. A segment goes behind what is left of the earlier ones, and the
loop reads a line, terminates it on the stack and runs it when it is a command, before it reads the
next one. `Follower.Controller` has the same function with all lines read first, for a controller
that is new.

* `receiveLoop_eq`: the loop ends, and it overruns the stack exactly when one of the lines that it
  comes to does.
* `receiveSegment_new`: the first segment of a controller, as in `Follower.Controller`.
-/

set_option autoImplicit false

namespace Compostela.Follower

open Compostela.Common
open Compostela.Lines
open Compostela.Memory
open Compostela.Runs

/-- What `_do_receive_data_0` does with the controller's buffer before it reads lines. -/
def clearedBuffer (buffer : AzBuffer) : AzBuffer :=
  if azBufferUnreadBytes buffer = 0 then azBufferReset buffer else buffer

/-- The first part of `_do_receive_data_0`: the segment goes into the buffer. -/
def takeSegment (heap : Heap) (buffer : AzBuffer) (data : Bytes) : Except Trap AzBuffer :=
  growAppend heap (clearedBuffer buffer) data

/-- The loop of `_do_receive_data_0`, with `ret` the value that it returns. A command gets the
memory that there is when the list has so many contexts. -/
def receiveLoop (heaps : Nat → Heap) :
    Nat → Int → AzBuffer → List Listed → Except Trap (Int × AzBuffer × List Listed)
  | 0, _, _, _ => .error .hangs
  | fuel + 1, ret, buffer, contexts => do
      let (n, line, buffer) ← azBufferReadLine buffer CONTROLLER_BUFFER_SIZE
      if n ≤ 0 then .ok (ret, buffer, contexts)
      else if CONTROLLER_BUFFER_SIZE ≤ line.length then .error .oobWrite
      else if line.take OPEN.length = OPEN then do
        let contexts ← doControllerDirectOpenWithLine (heaps contexts.length) line contexts
        receiveLoop heaps fuel 1 buffer contexts
      else receiveLoop heaps fuel ret buffer contexts

/-- A controller's buffer and `g_context_list`. -/
structure ControlState where
  buffer : AzBuffer
  contexts : List Listed

/-- The controller that `sc_controller_new` makes. -/
def ControlState.new (heap : Heap) (contexts : List Listed) : ControlState :=
  ⟨azBufferNew heap CONTROLLER_BUFFER_SIZE, contexts⟩

/-- What one `recv` on the control socket gives, with the memory that the call of
`_do_receive_data_0` for it meets. -/
structure ControlSegment where
  data : Bytes
  length_le : data.length ≤ BUFSIZE
  heap : Heap
  heaps : Nat → Heap

/-- `_do_receive_data_0`. Every turn of its loop takes a line out of the buffer. -/
def receiveSegment (s : ControlState) (segment : ControlSegment) :
    Except Trap ControlState := do
  let buffer ← takeSegment segment.heap s.buffer segment.data
  let (_, buffer, contexts) ←
    receiveLoop segment.heaps (buffer.used + 1) 0 buffer s.contexts
  .ok ⟨buffer, contexts⟩

/-- A line that runs over `line[2048]` with its terminator, or over `atbl[51]` with its fields. -/
def Overruns (line : Bytes) : Prop :=
  line.length = CONTROLLER_BUFFER_SIZE ∨ line.take OPEN.length = OPEN ∧ 51 ≤ (atbl line).length

instance (line : Bytes) : Decidable (Overruns line) := inferInstanceAs (Decidable (_ ∨ _))

/-- A reset of a buffer with nothing unread loses nothing. -/
theorem valid_clearedBuffer {buf : AzBuffer} (h : buf.Valid) :
    (clearedBuffer buf).Valid ∧ (clearedBuffer buf).size = buf.size ∧
      (clearedBuffer buf).unread = buf.unread := by
  unfold clearedBuffer
  split
  · rename_i hnone
    refine ⟨h.reset, rfl, ?_⟩
    have hempty : buf.unread.length = 0 := by
      rw [← h.toSize_unread, hnone]
      rfl
    rw [AzBuffer.unread_azBufferReset, List.eq_nil_of_length_eq_zero hempty]
  · exact ⟨h, rfl, rfl⟩

/-! ### The loop -/

/-- The loop ends before the budget does. It overruns the stack exactly when one of the lines does
that it comes to, and otherwise its buffer is valid again. -/
theorem receiveLoop_eq (heaps : Nat → Heap) {fuel : Nat} {buffer : AzBuffer} (hv : buffer.Valid)
    (hfuel : buffer.unread.length < fuel) (ret : Int) (contexts : List Listed) :
    if ∃ line ∈ shortLines LF CONTROLLER_BUFFER_SIZE buffer.unread, Overruns line then
      receiveLoop heaps fuel ret buffer contexts = .error .oobWrite
    else ∃ ret' buffer' contexts',
      receiveLoop heaps fuel ret buffer contexts = .ok (ret', buffer', contexts') ∧
        buffer'.Valid := by
  induction fuel generalizing buffer ret contexts with
  | zero => exact absurd hfuel (Nat.not_lt_zero _)
  | succ fuel ih =>
    have hroom : 0 < CONTROLLER_BUFFER_SIZE := by decide
    unfold receiveLoop
    rcases AzBuffer.azBufferReadLine_cases hv hroom with
      ⟨hempty, heq⟩ | ⟨line, buffer', hsplit, hv', -, hne, hle, hcase⟩
    · -- Nothing is left.
      rw [heq, hempty, shortLines_of_notMem List.not_mem_nil, if_neg (by simp)]
      exact ⟨ret, buffer, contexts, rfl, hv⟩
    rcases hcase with ⟨heq, hline⟩ | ⟨heq, hnone⟩
    · have hshort := length_behind_line hsplit hne hfuel
      rw [heq, hsplit, shortLines_append_of_line _ hline hle]
      simp only [List.mem_cons, exists_eq_or_imp, ok_bind]
      rw [if_neg (by decide : ¬ (1 : Int) ≤ 0)]
      -- What the rest of the lines does, when this one overruns nothing.
      have hrest : ∀ ret contexts, ¬ Overruns line →
          if Overruns line ∨
              ∃ line ∈ shortLines LF CONTROLLER_BUFFER_SIZE buffer'.unread, Overruns line then
            receiveLoop heaps fuel ret buffer' contexts = .error .oobWrite
          else ∃ ret' buffer1 contexts',
            receiveLoop heaps fuel ret buffer' contexts = .ok (ret', buffer1, contexts') ∧
              buffer1.Valid := by
        intro ret contexts hfits
        simpa only [hfits, false_or] using ih hv' hshort ret contexts
      by_cases hfull : CONTROLLER_BUFFER_SIZE ≤ line.length
      · have hover : Overruns line := Or.inl (Nat.le_antisymm hle hfull)
        rw [if_pos (Or.inl hover), if_pos hfull]
      rw [if_neg hfull]
      have hlen : line.length ≠ CONTROLLER_BUFFER_SIZE := by omega
      by_cases hopen : line.take OPEN.length = OPEN
      · rw [if_pos hopen]
        by_cases hfields : 51 ≤ (atbl line).length
        · have hover : Overruns line := Or.inr ⟨hopen, hfields⟩
          rw [if_pos (Or.inl hover), doControllerDirectOpenWithLine, if_pos hfields]
          rfl
        · obtain ⟨contexts1, hone⟩ := (exists_doControllerDirectOpenWithLine
            (heaps contexts.length) contexts hopen).mpr (by omega)
          rw [hone]
          exact hrest 1 contexts1 fun h => h.elim hlen fun h => hfields h.2
      · rw [if_neg hopen]
        exact hrest ret contexts fun h => h.elim hlen fun h => hopen h.1
    · -- No newline is among the bytes that fit.
      have hnot := AzBuffer.notMem_of_azBufferReadLine hv heq
      rw [heq, shortLines_of_notMem hnot, if_neg (by simp)]
      exact ⟨ret, buffer', contexts, rfl, hv'⟩

/-- The loop leaves the contexts that the two loops leave which read all lines first and run the
commands among them then. A command that is not run is the same overrun as a line that is too
long. -/
theorem receiveLoop_eq_openLines (heap : Heap) {fuel : Nat} {buffer : AzBuffer}
    (hv : buffer.Valid) (hfuel : buffer.unread.length < fuel) (ret : Int)
    (contexts : List Listed) :
    (receiveLoop (fun _ => heap) fuel ret buffer contexts).map (·.2.2) =
      (controlLines fuel buffer >>= fun lines => openLines (fun _ => heap) lines contexts) := by
  induction fuel generalizing buffer ret contexts with
  | zero => exact absurd hfuel (Nat.not_lt_zero _)
  | succ fuel ih =>
    have hroom : 0 < CONTROLLER_BUFFER_SIZE := by decide
    unfold receiveLoop controlLines
    rcases AzBuffer.azBufferReadLine_cases hv hroom with
      ⟨-, heq⟩ | ⟨line, buffer', hsplit, hv', -, hne, -, ⟨heq, -⟩ | ⟨heq, -⟩⟩
    · rw [heq]
      rfl
    · have hshort := length_behind_line hsplit hne hfuel
      rw [heq]
      simp only [ok_bind]
      rw [if_neg (by decide : ¬ (1 : Int) ≤ 0), if_neg (by decide : ¬ (1 : Int) ≤ 0)]
      -- A line that fills `line` leaves no room for its terminator.
      by_cases hfull : CONTROLLER_BUFFER_SIZE ≤ line.length
      · rw [if_pos hfull, if_pos hfull]
        rfl
      rw [if_neg hfull, if_neg hfull]
      by_cases hopen : line.take OPEN.length = OPEN
      · simp only [if_pos hopen, bind_assoc, ok_bind, openLines]
        by_cases hfields : 51 ≤ (atbl line).length
        · -- The command fails, whether the rest of the lines can be read or not.
          have hone : ∀ heap, doControllerDirectOpenWithLine heap line contexts =
              .error .oobWrite := fun heap => if_pos hfields
          simp only [hone, error_bind]
          rw [controlLines_eq hv' hshort]
          split <;> rfl
        · obtain ⟨contexts1, hone⟩ := (exists_doControllerDirectOpenWithLine
            heap contexts hopen).mpr (by omega)
          simp only [hone, ok_bind]
          exact ih hv' hshort 1 contexts1
      · simp only [if_neg hopen, bind_assoc, ok_bind, openLines]
        exact ih hv' hshort ret contexts
    · rw [heq]
      rfl

/-- The first segment of a controller goes into a buffer like that of `controlBuffer`. -/
theorem takeSegment_new (heap : Heap) (segment : ControlSegment) :
    takeSegment heap (azBufferNew heap CONTROLLER_BUFFER_SIZE) segment.data =
      controlBuffer heap segment.data := by
  have hle := segment.length_le
  unfold BUFSIZE at hle
  have hsum : segment.data.length + CONTROLLER_BUFFER_SIZE < 2 ^ 64 := by
    unfold CONTROLLER_BUFFER_SIZE
    omega
  exact (controlBuffer_eq_growAppend heap hsum).symm

/-- The contexts after the first segment of a controller, when every command meets the same
memory. -/
theorem receiveSegment_new (contexts : List Listed) (segment : ControlSegment)
    (hheap : segment.heaps = fun _ => segment.heap) :
    (receiveSegment (.new segment.heap contexts) segment).map (·.contexts) =
      doReceiveData0 segment.heap segment.heaps segment.data contexts := by
  have htake := takeSegment_new segment.heap segment
  simp only [receiveSegment, ControlState.new, doReceiveData0, readControl, htake, hheap]
  by_cases hroom : HasRoom segment.heap segment.data
  · obtain ⟨buffer, hbuffer, hv, hunread⟩ := controlBuffer_of_hasRoom hroom
    -- The fuel of the loop and the fuel of the abstract one both cover the bytes.
    have hused : buffer.unread.length < buffer.used + 1 := by
      rw [AzBuffer.length_unread]
      omega
    have hdata : buffer.unread.length < segment.data.length + 1 := by
      rw [hunread]
      omega
    have hloop := receiveLoop_eq_openLines segment.heap hv hused 0 contexts
    rw [controlLines_eq hv hused, ← controlLines_eq hv hdata] at hloop
    rw [hbuffer, ok_bind, ok_bind, ← hloop]
    cases receiveLoop (fun _ => segment.heap) (buffer.used + 1) 0 buffer contexts with
    | error t => rfl
    | ok result => rfl
  · rw [controlBuffer_of_not_hasRoom hroom]
    rfl

end Compostela.Follower
