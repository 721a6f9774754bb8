import Compostela.Common.PushBack
import Compostela.Lib.Runs

/-!
# `Compostela.Proofs.BufferQueue`: the buffer is a queue with put back

The unread bytes of a buffer are a queue. A fetch appends, a read takes from the front, and a push
back prepends. `queueStep` says this of every operation, with the room of the buffer as the only
thing that it has to be told.

* `azBufferRun_queue`: every run of operations gives what the queue gives, and the offsets stay in
  order. The memory behind the block belongs to the buffer there.
* `azBufferRun_checked_iff`: a run, also one with resizes that shrink the buffer or are refused,
  stays inside the block exactly when each push back has room for what it moves.
-/

set_option autoImplicit false

namespace Compostela.Common

open Compostela.Memory
open Compostela.Runs

/-- An operation on a buffer, with its arguments. A fetch from a file has the result of `read` and
what the file holds from its offset on. -/
inductive BufferOp
  | fetchBytes (data : Bytes)
  | fetchFile (r : ReadResult) (rest : Bytes) (size : Nat)
  | read (len dsize : Nat)
  | readLine (dsize : Nat)
  | pushBack (heap : Heap) (src : Bytes)
  | resize (heap : Heap) (newsize : Nat)
  | reset

/-- What an operation returns: its code, and the bytes that it copies to the destination. -/
abbrev BufferResult := Int × Bytes

/-- One operation of the code. -/
def bufferStep (mem : Access) (buf : AzBuffer) :
    BufferOp → Except Trap (BufferResult × AzBuffer)
  | .fetchBytes data => do
      let (n, buf) ← azBufferFetchBytes buf data
      .ok ((n, []), buf)
  | .fetchFile r rest size => do
      let (ret, buf) ← azBufferFetchFile buf r rest size
      .ok ((ret, []), buf)
  | .read len dsize => do
      let (ret, dst, buf) ← azBufferRead buf len dsize
      .ok ((ret, dst), buf)
  | .readLine dsize => do
      let (ret, dst, buf) ← azBufferReadLine buf dsize
      .ok ((ret, dst), buf)
  | .pushBack heap src => do
      let (ret, buf) ← azBufferPushBack mem heap buf src
      .ok ((ret, []), buf)
  | .resize heap newsize =>
      let (ret, buf) := azBufferResize heap buf newsize
      .ok ((ret, []), buf)
  | .reset => .ok ((0, []), azBufferReset buf)

/-- The operations one after the other, with the size that is not used before each and its
result. -/
def azBufferRun (mem : Access) (buf : AzBuffer) :
    List BufferOp → Except Trap (List (Nat × BufferResult) × AzBuffer)
  | [] => .ok ([], buf)
  | op :: ops => do
      let (result, buf') ← bufferStep mem buf op
      let (results, last) ← azBufferRun mem buf' ops
      .ok ((buf.size - buf.used, result) :: results, last)

/-! ### The queue -/

/-- One operation on the queue `q`, with `room` for more bytes. -/
def queueStep (room : Nat) (q : Bytes) : BufferOp → BufferResult × Bytes
  | .fetchBytes data => (((data.take room).length, []), q ++ data.take room)
  | .fetchFile r rest size =>
      ((r.code rest (min size room), []), q ++ r.bytes rest (min size room))
  | .read len dsize =>
      if dsize < len then ((-1, []), q)
      else if q.length < len then ((-2, []), q)
      else (((BitVec.ofNat 32 len).toInt, q.take len), q.drop len)
  | .readLine dsize =>
      if q = [] then ((-1, []), q)
      else
        match firstLine q dsize with
        | some line => ((1, line), q.drop line.length)
        | none => ((0, q.take dsize), q.drop dsize)
  | .pushBack _ src => ((0, []), src ++ q)
  | .resize _ _ => ((0, []), q)
  | .reset => ((0, []), [])

/-- The operations one after the other, each with the room that there is then. -/
def queueRun (q : Bytes) : List (BufferOp × Nat) → List BufferResult × Bytes
  | [] => ([], q)
  | (op, room) :: rest =>
      let (result, q) := queueStep room q op
      let (results, q) := queueRun q rest
      (result :: results, q)

/-! ### The operations on a valid buffer -/

/-- The requests for memory of an operation succeed, and a resize does not shrink the buffer. -/
def BufferOp.Granted (buf : AzBuffer) : BufferOp → Prop
  | .pushBack heap src => AzBuffer.RoomFor heap buf src
  | .resize heap newsize => buf.size ≤ newsize ∧ AzBuffer.Granted heap newsize
  | _ => True

instance (buf : AzBuffer) : ∀ op : BufferOp, Decidable (op.Granted buf)
  | .pushBack heap src => inferInstanceAs (Decidable (AzBuffer.RoomFor heap buf src))
  | .resize _ _ => inferInstanceAs (Decidable (_ ∧ _))
  | .fetchBytes _ | .fetchFile .. | .read .. | .readLine _ | .reset => isTrue trivial

/-- An operation does to the unread bytes what it does to the queue. -/
theorem bufferStep_queue {buf : AzBuffer} (h : buf.Valid) (op : BufferOp) (hop : op.Granted buf) :
    ∃ result buf', bufferStep .extended buf op = .ok (result, buf') ∧ buf'.Valid ∧
      queueStep (buf.size - buf.used) buf.unread op = (result, buf'.unread) := by
  cases op with
  | fetchBytes data =>
    obtain ⟨buf', heq, hv, hunread⟩ := AzBuffer.azBufferFetchBytes_eq h data
    refine ⟨_, buf', by rw [bufferStep, heq]; rfl, hv, ?_⟩
    have htake :
        data.take (buf.size - buf.used) = data.take (min (buf.size - buf.used) data.length) :=
      List.take_eq_take_min
    rw [queueStep, hunread, htake, List.length_take, Nat.min_eq_left (Nat.min_le_right _ _)]
  | fetchFile r rest size =>
    obtain ⟨buf', heq, hv, hunread, -⟩ := azBufferFetchFile_eq h r rest size
    refine ⟨_, buf', by rw [bufferStep, heq]; rfl, hv, ?_⟩
    rw [queueStep, hunread, Nat.min_comm]
  | read len dsize =>
    by_cases hd : dsize < len
    · refine ⟨(-1, []), buf, ?_, h, if_pos hd⟩
      rw [bufferStep, azBufferRead, if_pos hd]
      rfl
    -- `az_buffer_read` gives all the bytes asked for or none.
    · by_cases hu : buf.unread.length < len
      · refine ⟨(-2, []), buf, ?_, h, ?_⟩
        · rw [bufferStep, azBufferRead, if_neg hd, if_pos (by rw [h.toSize_unread]; exact hu)]
          rfl
        · rw [queueStep, if_neg hd, if_pos hu]
      · obtain ⟨buf', heq, hv, hunread, -⟩ := AzBuffer.azBufferRead_of_le h len dsize (by omega)
          (by omega)
        refine ⟨_, buf', by rw [bufferStep, heq]; rfl, hv, ?_⟩
        rw [queueStep, if_neg hd, if_neg hu, hunread]
  | readLine dsize =>
    by_cases hempty : buf.unread = []
    · refine ⟨(-1, []), buf, ?_, h, if_pos hempty⟩
      rw [bufferStep, azBufferReadLine, if_pos (by rw [h.toSize_unread, hempty]; rfl)]
      rfl
    · obtain ⟨buf', heq, hv, hunread, -⟩ := AzBuffer.azBufferReadLine_eq h hempty dsize
      refine ⟨_, buf', by rw [bufferStep, heq]; rfl, hv, ?_⟩
      rw [queueStep, if_neg hempty, hunread, lineResult]
      cases firstLine buf.unread dsize with
      | some line => rfl
      | none =>
        simp only [List.length_take, ← List.drop_eq_drop_min]
  | pushBack heap src =>
    obtain ⟨buf', heq, hv, hunread⟩ := AzBuffer.azBufferPushBack_extended h hop
    exact ⟨_, buf', by rw [bufferStep, heq]; rfl, hv, by rw [queueStep, hunread]⟩
  | resize heap newsize =>
    obtain ⟨hgrow, hmax, hmem⟩ := hop
    obtain ⟨buf', heq, hv, hunread, -, -⟩ :=
      AzBuffer.azBufferResize_ok h (Nat.le_trans h.used_le hgrow) hmax hmem
    exact ⟨_, buf', by rw [bufferStep, heq], hv, by rw [queueStep, hunread]⟩
  | reset => exact ⟨_, _, rfl, h.reset, rfl⟩

/-- The buffer that an operation leaves. -/
def bufferNext (buf : AzBuffer) (op : BufferOp) : Except Trap AzBuffer :=
  (bufferStep .extended buf op).map Prod.snd

/-- The operations of a run have their memory, each in the buffer that it finds. -/
def Granted (buf : AzBuffer) (ops : List BufferOp) : Prop :=
  Along bufferNext (fun buf op => op.Granted buf) buf ops

instance (buf : AzBuffer) (ops : List BufferOp) : Decidable (Granted buf ops) :=
  Along.decidable buf ops

/-- A run from a valid buffer. -/
theorem azBufferRun_of_valid {buf : AzBuffer} (h : buf.Valid) {ops : List BufferOp}
    (hops : Granted buf ops) :
    ∃ trace last, azBufferRun .extended buf ops = .ok (trace, last) ∧ last.Valid ∧
      queueRun buf.unread (ops.zip (trace.map Prod.fst)) =
        (trace.map Prod.snd, last.unread) := by
  induction ops generalizing buf with
  | nil => exact ⟨[], buf, rfl, h, rfl⟩
  | cons op ops ih =>
    obtain ⟨result, buf', hstep, hv, hqueue⟩ := bufferStep_queue h op hops.1
    have hrest : Granted buf' ops := hops.2 buf' (by rw [bufferNext, hstep]; rfl)
    obtain ⟨trace, last, hrun, hlast, hq⟩ := ih hv hrest
    refine ⟨(buf.size - buf.used, result) :: trace, last, ?_, hlast, ?_⟩
    · rw [azBufferRun, hstep, ok_bind]
      simp only [hrun, ok_bind]
    · simp only [List.map_cons, List.zip_cons_cons, queueRun, hqueue, hq]

/-- A new buffer of any size is an empty queue, whatever is done with it. Every operation gives
what the queue gives with as much room as the buffer has size that is not used, and after the run
the unread bytes are the queue and the offsets are in order. -/
theorem azBufferRun_queue (heap : Heap) (size : Nat) (hsize : size ≤ PTRDIFF_MAX)
    (ops : List BufferOp) (hops : Granted (azBufferNew heap size) ops) :
    ∃ trace last, azBufferRun .extended (azBufferNew heap size) ops = .ok (trace, last) ∧
      last.cursor ≤ last.used ∧ last.used ≤ last.size ∧
      queueRun [] (ops.zip (trace.map Prod.fst)) = (trace.map Prod.snd, last.unread) := by
  obtain ⟨trace, last, hrun, hlast, hqueue⟩ :=
    azBufferRun_of_valid (AzBuffer.valid_azBufferNew heap hsize) hops
  exact ⟨trace, last, hrun, hlast.cursor_le, hlast.used_le, hqueue⟩

/-- `"ab"`, and `"c\n"` of three bytes, are fetched, one byte is read, and the line is read behind
`"xy"`. -/
def lineOps : List BufferOp :=
  [.fetchBytes [97, 98], .fetchBytes [99, LF, 100], .read 1 1, .pushBack zeroHeap [120, 121],
    .readLine 8]

/-- The buffer has room for two of the three bytes, and the line is `"xybc\n"`. -/
theorem azBufferRun_queue_line :
    ∃ trace last, azBufferRun .extended (azBufferNew zeroHeap 4) lineOps = .ok (trace, last) ∧
      trace.map Prod.fst = [4, 2, 0, 0, 3] ∧
      trace.map Prod.snd =
        [(2, []), (2, []), (1, [97]), (0, []), (1, [120, 121, 98, 99, LF])] ∧
      last.unread = [] ∧ last.cursor ≤ last.used ∧ last.used ≤ last.size ∧
      queueRun [] (lineOps.zip (trace.map Prod.fst)) = (trace.map Prod.snd, last.unread) := by
  obtain ⟨trace, last, hrun, hcursor, hused, hqueue⟩ :=
    azBufferRun_queue zeroHeap 4 (by decide) lineOps (by decide)
  have hresult : (azBufferRun .extended (azBufferNew zeroHeap 4) lineOps).map
      (fun r => (r.1.map Prod.fst, r.1.map Prod.snd, r.2.unread)) =
      .ok ([4, 2, 0, 0, 3],
        [(2, []), (2, []), (1, [97]), (0, []), (1, [120, 121, 98, 99, LF])], []) := rfl
  rw [hrun] at hresult
  obtain ⟨hrooms, hrest⟩ := Prod.mk.inj (Except.ok.inj hresult)
  obtain ⟨hresults, hunread⟩ := Prod.mk.inj hrest
  exact ⟨trace, last, hrun, hrooms, hresults, hunread, hcursor, hused, hqueue⟩

/-! ### Bounds -/

/-- The requests for memory of an operation succeed. A resize can shrink the buffer, and one to
less than its used part requests nothing. -/
def BufferOp.Allocated (buf : AzBuffer) : BufferOp → Prop
  | .pushBack heap src => AzBuffer.PushBackGranted heap buf src
  | .resize heap newsize => AzBuffer.ResizeGranted heap buf newsize
  | _ => True

instance (buf : AzBuffer) : ∀ op : BufferOp, Decidable (op.Allocated buf)
  | .pushBack heap src => inferInstanceAs (Decidable (AzBuffer.PushBackGranted heap buf src))
  | .resize heap newsize => inferInstanceAs (Decidable (AzBuffer.ResizeGranted heap buf newsize))
  | .fetchBytes _ | .fetchFile .. | .read .. | .readLine _ | .reset => isTrue trivial

/-- The bytes that the operation moves have room in the block. -/
def BufferOp.Fits (buf : AzBuffer) : BufferOp → Prop
  | .pushBack _ src => AzBuffer.MoveFits buf src
  | _ => True

instance (buf : AzBuffer) : ∀ op : BufferOp, Decidable (op.Fits buf)
  | .pushBack _ src => inferInstanceAs (Decidable (AzBuffer.MoveFits buf src))
  | .fetchBytes _ | .fetchFile .. | .read .. | .readLine _ | .resize .. | .reset => isTrue trivial

/-- An operation stays inside the block exactly when what it moves has room there. Then it leaves
a valid buffer, and does what it does with memory behind the block. -/
theorem bufferStep_checked {buf : AzBuffer} (h : buf.Valid) (op : BufferOp)
    (hop : op.Allocated buf) :
    (op.Fits buf → ∃ result buf', bufferStep .checked buf op = .ok (result, buf') ∧
      bufferNext buf op = .ok buf' ∧ buf'.Valid) ∧
    (¬ op.Fits buf → ∃ t, bufferStep .checked buf op = .error t) := by
  -- An operation that requests no memory does not look at the kind of access.
  have hplain : op.Granted buf → bufferStep .checked buf op = bufferStep .extended buf op →
      ∃ result buf', bufferStep .checked buf op = .ok (result, buf') ∧
        bufferNext buf op = .ok buf' ∧ buf'.Valid := by
    intro hgranted hsame
    obtain ⟨result, buf', hstep, hv, -⟩ := bufferStep_queue h op hgranted
    exact ⟨result, buf', hsame.trans hstep, by rw [bufferNext, hstep]; rfl, hv⟩
  cases op with
  | pushBack heap src =>
    obtain ⟨hin, hout⟩ := AzBuffer.azBufferPushBack_checked h hop
    constructor
    · intro hfits
      obtain ⟨buf', hchecked, hextended, hv, -⟩ := hin hfits
      refine ⟨(0, []), buf', ?_, ?_, hv⟩
      · rw [bufferStep, hchecked]
        rfl
      · rw [bufferNext, bufferStep, hextended]
        rfl
    · intro hno
      obtain ⟨t, ht⟩ := hout hno
      exact ⟨t, by rw [bufferStep, ht]; rfl⟩
  | resize heap newsize =>
    refine ⟨fun _ => ?_, fun hno => absurd trivial hno⟩
    obtain ⟨ret, buf', heq, hv, -⟩ := AzBuffer.azBufferResize_granted h hop
    refine ⟨(ret, []), buf', ?_, ?_, hv⟩
    · rw [bufferStep, heq]
    · rw [bufferNext, bufferStep, heq]
      rfl
  | fetchBytes _ | fetchFile _ _ _ | read _ _ | readLine _ | reset =>
    exact ⟨fun _ => hplain trivial rfl, fun hno => absurd trivial hno⟩

/-- The operations of a run get the memory that they request, each in the buffer that it finds. -/
def Allocated (buf : AzBuffer) (ops : List BufferOp) : Prop :=
  Along bufferNext (fun buf op => op.Allocated buf) buf ops

instance (buf : AzBuffer) (ops : List BufferOp) : Decidable (Allocated buf ops) :=
  Along.decidable buf ops

/-- A run from a valid buffer. By induction on the operations: each of them traps, or leaves the
valid buffer that the rest of the run starts from. -/
theorem azBufferRun_checked_of_valid {buf : AzBuffer} (h : buf.Valid) {ops : List BufferOp}
    (hops : Allocated buf ops) :
    (∃ run, azBufferRun .checked buf ops = .ok run) ↔
      Along bufferNext (fun buf op => op.Fits buf) buf ops := by
  induction ops generalizing buf with
  | nil => exact ⟨fun _ => trivial, fun _ => ⟨_, rfl⟩⟩
  | cons op ops ih =>
    obtain ⟨hin, hout⟩ := bufferStep_checked h op hops.1
    by_cases hfits : op.Fits buf
    · obtain ⟨result, buf', hstep, hnext, hv⟩ := hin hfits
      have hrest := ih hv (hops.2 buf' hnext)
      constructor
      · rintro ⟨run, hrun⟩
        refine ⟨hfits, ?_⟩
        intro buf1 h1
        cases hnext.symm.trans h1
        rw [azBufferRun, hstep, ok_bind] at hrun
        obtain ⟨run', hrun', -⟩ := bind_eq_ok.mp hrun
        exact hrest.mp ⟨run', hrun'⟩
      · rintro ⟨-, hall⟩
        obtain ⟨run', hrun'⟩ := hrest.mpr (hall buf' hnext)
        refine ⟨((buf.size - buf.used, result) :: run'.1, run'.2), ?_⟩
        rw [azBufferRun, hstep, ok_bind]
        simp only [hrun', ok_bind]
    -- The first operation traps already, and the rest is not run.
    · refine iff_of_false ?_ fun hall => hfits hall.1
      rintro ⟨run, hrun⟩
      obtain ⟨t, ht⟩ := hout hfits
      rw [azBufferRun, ht] at hrun
      cases hrun

/-- A run of operations on a new buffer stays inside the block exactly when each push back has
room there for what it moves. -/
theorem azBufferRun_checked_iff (heap : Heap) (size : Nat) (hsize : size ≤ PTRDIFF_MAX)
    (ops : List BufferOp) (hops : Allocated (azBufferNew heap size) ops) :
    (∃ run, azBufferRun .checked (azBufferNew heap size) ops = .ok run) ↔
      Along bufferNext (fun buf op => op.Fits buf) (azBufferNew heap size) ops :=
  azBufferRun_checked_of_valid (AzBuffer.valid_azBufferNew heap hsize) hops

/-- A resize to less than the used part is refused, one to the used part shrinks the buffer, and a
byte is pushed back into it. -/
def shrinkOps : List BufferOp :=
  [.fetchBytes [97, 98, 99], .read 1 1, .resize zeroHeap 2, .resize zeroHeap 3,
    .pushBack zeroHeap [120]]

/-- The three bytes that are moved have no room behind the byte that was read. -/
theorem azBufferRun_checked_iff_shrink :
    Allocated (azBufferNew zeroHeap 8) shrinkOps ∧
      ¬ Along bufferNext (fun buf op => op.Fits buf) (azBufferNew zeroHeap 8) shrinkOps ∧
      ((∃ run, azBufferRun .checked (azBufferNew zeroHeap 8) shrinkOps = .ok run) ↔
        Along bufferNext (fun buf op => op.Fits buf) (azBufferNew zeroHeap 8) shrinkOps) :=
  ⟨by decide, by decide, azBufferRun_checked_iff zeroHeap 8 (by decide) _ (by decide)⟩

/-- A byte that is pushed back after all four bytes of a full buffer are read. The move reads four
bytes behind the block. -/
theorem pushBack_reads_outside :
    Allocated (azBufferNew zeroHeap 4)
        [.fetchBytes [97, 98, 99, 100], .read 4 4, .pushBack zeroHeap [120]] ∧
      azBufferRun .checked (azBufferNew zeroHeap 4)
        [.fetchBytes [97, 98, 99, 100], .read 4 4, .pushBack zeroHeap [120]] =
          .error .oobRead :=
  ⟨by decide, rfl⟩

end Compostela.Common
