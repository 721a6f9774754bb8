import Compostela.Proofs.BufferQueue

/-!
# `Compostela.Proofs.FetchedBytes`: what becomes of the fetched bytes

A buffer that is filled with `az_buffer_fetch_bytes` and emptied with `az_buffer_read` and
`az_buffer_read_line`. A read moves the cursor and frees no space, and a fetch takes as much of its
data as the space behind the used part can hold. The buffer does not grow by itself.

* `fetched_kept_iff`: in a run of these calls all data is kept exactly when all of it together fits
  into the buffer.
-/

set_option autoImplicit false

namespace Compostela.Common

open Compostela.Memory

/-- A call that puts bytes into the buffer or takes some out. -/
inductive StreamOp
  | fetchBytes (data : Bytes)
  | read (len dsize : Nat)
  | readLine (dsize : Nat)

namespace StreamOp

/-- The call as an operation on the buffer. -/
def op : StreamOp → BufferOp
  | .fetchBytes data => .fetchBytes data
  | .read len dsize => .read len dsize
  | .readLine dsize => .readLine dsize

/-- The data that the call passes to `az_buffer_fetch_bytes`. -/
def data : StreamOp → Bytes
  | .fetchBytes data => data
  | .read .. | .readLine _ => []

end StreamOp

/-- All data that is passed to `az_buffer_fetch_bytes`. -/
def fetched (ops : List StreamOp) : Bytes := ops.flatMap StreamOp.data

/-- All bytes that are copied out of the buffer. -/
def readOut (trace : List (Nat × BufferResult)) : Bytes := trace.flatMap fun t => t.2.2

/-- A fetch uses the space that its data takes, and the buffer keeps its size. -/
theorem azBufferFetchBytes_used {buf buf' : AzBuffer} {data : Bytes} {n : Nat}
    (h : azBufferFetchBytes buf data = .ok (n, buf')) :
    buf'.size = buf.size ∧ buf'.used = buf.used + n := by
  obtain ⟨block, -, h⟩ := bind_eq_ok.mp h
  cases h
  exact ⟨rfl, rfl⟩

/-- One call. What was unread and the data that fits are the bytes that it copies out and what is
unread now. -/
theorem bufferStep_stream {buf : AzBuffer} (h : buf.Valid) (op : StreamOp) :
    ∃ result buf', bufferStep .checked buf op.op = .ok (result, buf') ∧ buf'.Valid ∧
      buf'.size = buf.size ∧
      buf'.used = buf.used + min (buf.size - buf.used) op.data.length ∧
      buf.unread ++ op.data.take (buf.size - buf.used) = result.2 ++ buf'.unread := by
  cases op with
  | fetchBytes data =>
    obtain ⟨buf', heq, hv, hunread⟩ := AzBuffer.azBufferFetchBytes_eq h data
    obtain ⟨hsize, hused⟩ := azBufferFetchBytes_used heq
    refine ⟨((min (buf.size - buf.used) data.length : Nat), []), buf', ?_, hv, hsize, hused, ?_⟩
    · show bufferStep .checked buf (.fetchBytes data) = _
      rw [bufferStep, heq]
      rfl
    · show buf.unread ++ data.take (buf.size - buf.used) = buf'.unread
      rw [hunread, ← List.take_eq_take_min]
  | read len dsize =>
    simp only [StreamOp.op, StreamOp.data, List.take_nil, List.append_nil, List.length_nil,
      Nat.min_zero, Nat.add_zero]
    -- A read that has an error changes nothing.
    have hsame : ∀ ret : Int, azBufferRead buf len dsize = .ok (ret, [], buf) →
        ∃ result buf', bufferStep .checked buf (.read len dsize) = .ok (result, buf') ∧
          buf'.Valid ∧ buf'.size = buf.size ∧ buf'.used = buf.used ∧
          buf.unread = result.2 ++ buf'.unread := by
      intro ret heq
      exact ⟨(ret, []), buf, by rw [bufferStep, heq]; rfl, h, rfl, rfl, rfl⟩
    by_cases hd : dsize < len
    · apply hsame (-1)
      rw [azBufferRead, if_pos hd]
    · by_cases hu : buf.unread.length < len
      · apply hsame (-2)
        rw [azBufferRead, if_neg hd, if_pos (by rw [h.toSize_unread]; exact hu)]
      · obtain ⟨buf', heq, hv, hunread, hsize, hused⟩ :=
          AzBuffer.azBufferRead_of_le h len dsize (by omega) (by omega)
        refine ⟨((BitVec.ofNat 32 len).toInt, buf.unread.take len), buf', ?_, hv, hsize, hused, ?_⟩
        · rw [bufferStep, heq]
          rfl
        rw [hunread, List.take_append_drop]
  | readLine dsize =>
    simp only [StreamOp.op, StreamOp.data, List.take_nil, List.append_nil, List.length_nil,
      Nat.min_zero, Nat.add_zero]
    by_cases hempty : buf.unread = []
    · refine ⟨(-1, []), buf, ?_, h, rfl, rfl, rfl⟩
      rw [bufferStep, azBufferReadLine, if_pos (by rw [h.toSize_unread, hempty]; rfl)]
      rfl
    · obtain ⟨buf', heq, hv, hunread, hsize, hused⟩ :=
        AzBuffer.azBufferReadLine_eq h hempty dsize
      refine ⟨lineResult buf.unread dsize, buf', by rw [bufferStep, heq]; rfl, hv, hsize, hused, ?_⟩
      -- The line is the front of what is unread, in both results of the search.
      have hfront : (lineResult buf.unread dsize).2 <+: buf.unread := by
        rw [lineResult]
        cases hline : firstLine buf.unread dsize with
        | some line => exact (firstLine_eq_some hline).1
        | none => exact List.take_prefix _ _
      show buf.unread = (lineResult buf.unread dsize).2 ++ buf'.unread
      rw [hunread]
      exact (List.prefix_iff_eq_append.mp hfront).symm

/-- A run from a valid buffer. The space that is used grows by what is kept of the data, and when
all data fits, all of it is kept. By induction on the calls. -/
theorem azBufferRun_stream {buf : AzBuffer} (h : buf.Valid) (ops : List StreamOp) :
    ∃ trace last, azBufferRun .checked buf (ops.map StreamOp.op) = .ok (trace, last) ∧
      last.Valid ∧ last.size = buf.size ∧
      buf.unread.length + last.used = (readOut trace ++ last.unread).length + buf.used ∧
      ((fetched ops).length ≤ buf.size - buf.used →
        buf.unread ++ fetched ops = readOut trace ++ last.unread) := by
  induction ops generalizing buf with
  | nil => exact ⟨[], buf, rfl, h, rfl, rfl, fun _ => List.append_nil _⟩
  | cons op ops ih =>
    obtain ⟨result, buf', hstep, hv, hsize, hused, hbytes⟩ := bufferStep_stream h op
    obtain ⟨trace, last, hrun, hlast, hsize', hlen, hkept⟩ := ih hv
    have hcons : fetched (op :: ops) = op.data ++ fetched ops := List.flatMap_cons
    have hout : readOut ((buf.size - buf.used, result) :: trace) = result.2 ++ readOut trace :=
      List.flatMap_cons
    refine ⟨(buf.size - buf.used, result) :: trace, last, ?_, hlast, hsize'.trans hsize, ?_, ?_⟩
    · show azBufferRun .checked buf (op.op :: ops.map StreamOp.op) = _
      rw [azBufferRun, hstep, ok_bind]
      simp only [hrun, ok_bind]
    · have htotal := congrArg List.length hbytes
      simp only [List.length_append, List.length_take] at htotal hlen
      rw [hout]
      simp only [List.length_append]
      omega
    · intro hfits
      rw [hcons, List.length_append] at hfits
      have hall : op.data.take (buf.size - buf.used) = op.data := List.take_of_length_le (by omega)
      rw [hall] at hbytes
      rw [hcons, hout, ← List.append_assoc, hbytes, List.append_assoc, List.append_assoc,
        hkept (by omega)]

/-- A run of fetches and reads on a new buffer goes through, and keeps all data exactly when the
data of all fetches together fits into the buffer. -/
theorem fetched_kept_iff (heap : Heap) (size : Nat) (hsize : size ≤ PTRDIFF_MAX)
    (ops : List StreamOp) :
    ∃ trace last, azBufferRun .checked (azBufferNew heap size) (ops.map StreamOp.op)
        = .ok (trace, last) ∧
      (fetched ops = readOut trace ++ last.unread ↔ (fetched ops).length ≤ size) := by
  obtain ⟨trace, last, hrun, hlast, hsize', hlen, hkept⟩ :=
    azBufferRun_stream (AzBuffer.valid_azBufferNew heap hsize) ops
  refine ⟨trace, last, hrun, ?_, hkept⟩
  intro hall
  have hle := hlast.used_le
  have hused : (azBufferNew heap size).used = 0 := rfl
  have hnew : (azBufferNew heap size).size = size := rfl
  rw [hall]
  rw [AzBuffer.unread_azBufferNew, hused, List.length_nil] at hlen
  omega

/-- Ten bytes for a buffer of eight. Eight are kept, and the buffer does not grow. -/
theorem fetch_cuts_data :
    ∃ trace last, azBufferRun .checked (azBufferNew zeroHeap 8)
        [.fetchBytes [48, 49, 50, 51, 52, 53, 54, 55, 56, 57]] = .ok (trace, last) ∧
      last.unread = [48, 49, 50, 51, 52, 53, 54, 55] ∧ last.size = 8 :=
  ⟨_, _, rfl, rfl, rfl⟩

/-- Four bytes through a buffer of eight, with a line read in between. -/
theorem fetched_kept_iff_eight :
    ∃ trace last, azBufferRun .checked (azBufferNew zeroHeap 8)
        ([StreamOp.fetchBytes [97, 98, LF], .readLine 4, .fetchBytes [99]].map StreamOp.op)
        = .ok (trace, last) ∧
      (fetched [.fetchBytes [97, 98, LF], .readLine 4, .fetchBytes [99]] =
        readOut trace ++ last.unread ↔
        (fetched [.fetchBytes [97, 98, LF], .readLine 4, .fetchBytes [99]]).length ≤ 8) :=
  fetched_kept_iff zeroHeap 8 (by decide) _

end Compostela.Common
