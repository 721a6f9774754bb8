import Compostela.Follower.ControlSegments

/-!
# `Compostela.Proofs.ControlOverruns`: the stack of the control loop

A controller gets any bytes in any segments. Each turn of the loop of `_do_receive_data_0` writes
a line and its terminator to `line[2048]`, and a command its fields and a null to `atbl[51]`.
Neither number is compared with anything.

* `receiveSegment_cases`: a call ends, and the only memory errors are writes outside. No token
  that is dereferenced is null: the first one is the command word.
* `control_safe_iff`: the runs without such a write.
-/

set_option autoImplicit false

namespace Compostela.Follower

open Compostela.Common
open Compostela.Lines
open Compostela.Memory
open Compostela.Runs
open AzBuffer

/-- A call with this segment stays inside its arrays and inside the buffer. A buffer that cannot
grow has nothing unread, and else no line overruns the stack. -/
def Fits (s : ControlState) (segment : ControlSegment) : Prop :=
  if GrowthFails segment.heap (clearedBuffer s.buffer) segment.data.length then
    s.buffer.unread = []
  else
    ∀ line ∈ shortLines LF CONTROLLER_BUFFER_SIZE (s.buffer.unread ++ segment.data), ¬ Overruns line

/-- The growth of a controller's buffer fails only for want of memory. -/
theorem room_of_not_growthFails {heap : Heap} {buf : AzBuffer} (h : buf.Valid) {len : Nat}
    (hlen : len ≤ BUFSIZE) (hnot : ¬ GrowthFails heap buf len) :
    buf.size - buf.used < len → Granted heap (len + buf.size) := by
  intro hlong
  have hused := h.used_le
  have hsize := h.size_le
  have hsum : toSize (len + buf.size) = len + buf.size := by
    unfold BUFSIZE at hlen
    unfold PTRDIFF_MAX at hsize
    rw [toSize_of_lt (by omega) (by omega)]
    rfl
  by_contra hrefused
  exact hnot ⟨hlong, by omega, by rwa [hsum]⟩

/-- The three ends of a call. -/
theorem receiveSegment_cases {s : ControlState} (h : s.buffer.Valid) (segment : ControlSegment) :
    (¬ Fits s segment ∧ receiveSegment s segment = .error .oobWrite) ∨
      (Fits s segment ∧ receiveSegment s segment = .error .assertFailed) ∨
      (Fits s segment ∧ ∃ s', receiveSegment s segment = .ok s' ∧ s'.buffer.Valid) := by
  obtain ⟨hv, -, hunread⟩ := valid_clearedBuffer h
  unfold receiveSegment takeSegment Fits
  by_cases hgrow : GrowthFails segment.heap (clearedBuffer s.buffer) segment.data.length
  · rw [if_pos hgrow, growAppend_of_failed hv hgrow]
    have hlen := length_unread s.buffer
    by_cases hempty : s.buffer.unread = []
    · -- The buffer was reset, and the assertion sees that there is no room.
      have hnone : azBufferUnreadBytes s.buffer = 0 := by
        have hcur := h.cursor_le
        rw [hempty, List.length_nil] at hlen
        unfold azBufferUnreadBytes
        omega
      have hused : (clearedBuffer s.buffer).used = 0 := by
        rw [clearedBuffer, if_pos hnone]
        rfl
      refine Or.inr (Or.inl ⟨hempty, ?_⟩)
      rw [if_neg (by omega)]
      rfl
    · have hpos : 0 < (clearedBuffer s.buffer).used := by
        have hsome := List.length_pos_of_ne_nil hempty
        rw [← hunread, length_unread] at hsome
        omega
      -- The bytes in use and those that arrived do not wrap together, so the sum is past the block.
      have hwrap : (clearedBuffer s.buffer).used + segment.data.length ≤ 2 ^ 64 := by
        have hused := hv.used_le
        have hsize := hv.size_le
        have hle := segment.length_le
        unfold PTRDIFF_MAX at hsize
        unfold BUFSIZE at hle
        omega
      refine Or.inl ⟨hempty, ?_⟩
      rw [if_pos ⟨hpos, hwrap⟩]
      rfl
  -- The bytes are appended, and the loop reads the lines of the whole buffer.
  · have hroom := room_of_not_growthFails hv segment.length_le hgrow
    obtain ⟨buffer, htake, hbuffer, hdata⟩ := growAppend_of_room hv hroom
    have hfuel : buffer.unread.length < buffer.used + 1 := by
      rw [length_unread]
      omega
    have hloop := receiveLoop_eq segment.heaps hbuffer hfuel 0 s.contexts
    rw [if_neg hgrow, htake, ← hunread, ← hdata, ok_bind]
    by_cases hover : ∃ line ∈ shortLines LF CONTROLLER_BUFFER_SIZE buffer.unread, Overruns line
    · rw [if_pos hover] at hloop
      obtain ⟨line, hline, hbad⟩ := hover
      refine Or.inl ⟨fun hall => hall line hline hbad, ?_⟩
      rw [hloop]
      rfl
    · rw [if_neg hover] at hloop
      obtain ⟨ret, buffer', contexts', heq, hv'⟩ := hloop
      refine Or.inr (Or.inr ⟨fun line hline hbad => hover ⟨line, hline, hbad⟩, ?_⟩)
      exact ⟨⟨buffer', contexts'⟩, by rw [heq]; rfl, hv'⟩

/-- A call that does not end with a write outside. -/
theorem receiveSegment_safe_iff {s : ControlState} (h : s.buffer.Valid)
    (segment : ControlSegment) :
    (∀ t, receiveSegment s segment = .error t → t = .assertFailed) ↔ Fits s segment := by
  rcases receiveSegment_cases h segment with ⟨hnot, heq⟩ | ⟨hfits, heq⟩ | ⟨hfits, s', heq, -⟩
  · refine iff_of_false ?_ hnot
    intro hall
    cases hall _ heq
  · refine iff_of_true ?_ hfits
    intro t ht
    exact (Except.error.inj (heq.symm.trans ht)).symm
  · refine iff_of_true ?_ hfits
    intro t ht
    exact nomatch heq.symm.trans ht

/-- A call keeps the buffer valid. -/
theorem receiveSegment_valid {s s' : ControlState} (h : s.buffer.Valid)
    {segment : ControlSegment} (hs : receiveSegment s segment = .ok s') : s'.buffer.Valid := by
  rcases receiveSegment_cases h segment with ⟨-, heq⟩ | ⟨-, heq⟩ | ⟨-, s1, heq, hv⟩
  · exact nomatch heq.symm.trans hs
  · exact nomatch heq.symm.trans hs
  · exact Except.ok.inj (heq.symm.trans hs) ▸ hv

/-- The segments that a new controller receives, in any number: all calls end without a write
outside `line`, `atbl` and the buffer and without a null that is dereferenced exactly when every
segment fits. A call can end the program with the assertion that the buffer has room. -/
theorem control_safe_iff (heap : Heap) (contexts : List Listed) (segments : List ControlSegment) :
    (∀ t, segments.foldlM receiveSegment (.new heap contexts) = .error t → t = .assertFailed) ↔
      Along receiveSegment Fits (.new heap contexts) segments :=
  Along.iff_of_error (I := fun s : ControlState => s.buffer.Valid)
    (fun _ _ _ h hs => receiveSegment_valid h hs)
    (fun _ segment h => receiveSegment_safe_iff h segment)
    (valid_azBufferNew heap (by decide))

/-- One line that overruns the stack, as all that a controller receives. -/
theorem receiveSegment_new_of_overruns (heap : Heap) (contexts : List Listed)
    {segment : ControlSegment} (hline : IsLine LF segment.data)
    (hle : segment.data.length ≤ CONTROLLER_BUFFER_SIZE) (hover : Overruns segment.data) :
    receiveSegment (.new heap contexts) segment = .error .oobWrite := by
  have hfirst : segment.data ∈ shortLines LF CONTROLLER_BUFFER_SIZE segment.data := by
    rw [← List.append_nil segment.data, shortLines_append_of_line [] hline hle, List.append_nil]
    exact List.mem_cons_self
  have hroom : ¬ GrowthFails segment.heap (clearedBuffer (ControlState.new heap contexts).buffer)
      segment.data.length := fun h => absurd h.long (Nat.not_lt_of_le hle)
  have hnot : ¬ Fits (.new heap contexts) segment := by
    intro hfits
    rw [Fits, if_neg hroom] at hfits
    exact hfits segment.data hfirst hover
  rcases receiveSegment_cases (s := .new heap contexts) (valid_azBufferNew heap (by decide))
    segment with ⟨-, heq⟩ | ⟨hfits, -⟩ | ⟨hfits, -⟩
  · exact heq
  · exact absurd hfits hnot
  · exact absurd hfits hnot

/-- A segment in a memory that serves every allocation. -/
def segmentOf (data : Bytes) (h : data.length ≤ BUFSIZE) : ControlSegment :=
  ⟨data, h, zeroHeap, fun _ => zeroHeap⟩

/-- A line of exactly 2048 bytes with its newline. -/
def fullLine : Bytes := List.replicate 2047 120 ++ [LF]

/-- A command with 51 fields. -/
def manyFields : Bytes := OPEN ++ (List.replicate 49 [97, 32]).flatten ++ [LF]

/-- The line fills the buffer of the controller to its end. -/
theorem length_fullLine : fullLine.length = CONTROLLER_BUFFER_SIZE := by
  rw [fullLine, List.length_append, List.length_replicate]
  rfl

/-- The terminator of a full line is written to `line[2048]`, and the null behind 51 fields to
`atbl[51]`. -/
theorem control_line_overruns :
    [segmentOf fullLine (by rw [length_fullLine]; decide)].foldlM receiveSegment
        (.new zeroHeap []) = .error .oobWrite ∧
      [segmentOf manyFields (by decide)].foldlM receiveSegment (.new zeroHeap []) =
        .error .oobWrite := by
  have hfull : IsLine LF fullLine :=
    ⟨List.replicate 2047 120, rfl, fun hmem => absurd (List.eq_of_mem_replicate hmem) (by decide)⟩
  have hmany : IsLine LF manyFields :=
    ⟨OPEN ++ (List.replicate 49 [97, 32]).flatten, rfl, by decide⟩
  constructor
  · have hone := @receiveSegment_new_of_overruns zeroHeap []
      (segmentOf fullLine (by rw [length_fullLine]; decide)) hfull (Nat.le_of_eq length_fullLine)
      (Or.inl length_fullLine)
    rw [List.foldlM_cons, hone]
    rfl
  · have hone := @receiveSegment_new_of_overruns zeroHeap [] (segmentOf manyFields (by decide))
      hmany (by decide) (by decide)
    rw [List.foldlM_cons, hone]
    rfl

end Compostela.Follower
