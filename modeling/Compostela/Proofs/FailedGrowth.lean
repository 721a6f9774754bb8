import Compostela.Aggregator.Handlers
import Compostela.Follower.ControlSegments

/-!
# `Compostela.Proofs.FailedGrowth`: a buffer whose `realloc` fails

Four operations make a buffer larger: `az_buffer_resize` itself, `az_buffer_push_back`, and the
appends of `handler_data` and `_do_receive_data_0`. `az_buffer_resize` gives up the block when
`realloc` fails, and keeps `used`.

* `failsCleanly_iff`: the failure is reported and the buffer is as before exactly when the buffer
  had no size, and never for a push back.
* `pushBack_of_failed`: a push back goes on without the block.
-/

set_option autoImplicit false

namespace Compostela.Proofs.FailedGrowth

open Compostela.Aggregator
open Compostela.Common
open Compostela.Follower
open Compostela.Memory
open AzBuffer

/-- An operation that makes the buffer larger when it has to. -/
inductive GrowOp
  | resize (newsize : Nat)
  | pushBack (src : Bytes)
  | handlerData (text : Bytes)
  | receiveData0 (data : Bytes)

namespace GrowOp

/-- The operation asks `realloc` for memory and does not get it. -/
def Fails (heap : Heap) (buf : AzBuffer) : GrowOp → Prop
  | .resize newsize => buf.used ≤ newsize ∧ ¬ Granted heap newsize
  | .pushBack src =>
      src ≠ [] ∧ buf.size < (src.length + buf.unread.length) % 2 ^ 64 ∧
        buf.used ≤ (buf.size + src.length * 2) % 2 ^ 64 ∧
        ¬ Granted heap ((buf.size + src.length * 2) % 2 ^ 64)
  | .handlerData text => GrowthFails heap buf text.length
  | .receiveData0 data => GrowthFails heap (clearedBuffer buf) data.length

instance (heap : Heap) (buf : AzBuffer) : (op : GrowOp) → Decidable (op.Fails heap buf)
  | .resize _ | .pushBack _ => inferInstanceAs (Decidable (_ ∧ _))
  | .handlerData _ | .receiveData0 _ => inferInstanceAs (Decidable (GrowthFails ..))

/-- The buffer after the operation's growth. -/
def grown (heap : Heap) (buf : AzBuffer) : GrowOp → AzBuffer
  | .resize newsize => (azBufferResize heap buf newsize).2
  | .pushBack src => pushBackRoom heap buf src.length (toSize (azBufferUnreadBytes buf))
  | .handlerData text => growFor heap buf text.length
  | .receiveData0 data => growFor heap (clearedBuffer buf) data.length

/-- What the operation ends with. The two appends have no result that tells of a failure. -/
def result (heap : Heap) (buf : AzBuffer) : GrowOp → Except Trap Int
  | .resize newsize => .ok (azBufferResize heap buf newsize).1
  | .pushBack src => (azBufferPushBack .checked heap buf src).map (·.1)
  | .handlerData text => (bufferText heap buf text.length (.ok text)).map fun _ => 0
  | .receiveData0 data => (takeSegment heap buf data).map fun _ => 0

end GrowOp

/-- The operation reports its failure, with its result or with an assertion, and does not go on to
write to a block that it does not have. -/
def Reported : Except Trap Int → Prop
  | .ok code => code ≠ 0
  | .error t => t = .assertFailed

/-- A failure that leaves the buffer intact. -/
structure FailsCleanly (heap : Heap) (buf : AzBuffer) (op : GrowOp) : Prop where
  reported : Reported (op.result heap buf)
  valid : (op.grown heap buf).Valid
  size_eq : (op.grown heap buf).size = buf.size
  unread_eq : (op.grown heap buf).unread = buf.unread

/-- The append of `handler_data`. -/
theorem bufferText_eq_growAppend (heap : Heap) (buf : AzBuffer) (text : Bytes) :
    bufferText heap buf text.length (.ok text) = growAppend heap buf text := rfl

/-- A push back whose `realloc` fails. With bytes in use it reads them from the null block, and
with none it writes to it. -/
theorem pushBack_of_failed {heap : Heap} {buf : AzBuffer} (h : buf.Valid) {src : Bytes}
    (hfail : (GrowOp.pushBack src).Fails heap buf) :
    (GrowOp.pushBack src).grown heap buf = lost heap buf ∧
      (GrowOp.pushBack src).result heap buf =
        .error (if 0 < buf.used then .oobRead else .oobWrite) := by
  obtain ⟨hne, hgrow, hasked, hrefused⟩ := hfail
  have hroom : pushBackRoom heap buf src.length buf.unread.length = lost heap buf := by
    rw [pushBackRoom, if_pos hgrow, azBufferResize_failed hasked hrefused]
  have hused := h.used_le
  have hcur := h.cursor_le
  have hlen : 0 < src.length := List.length_pos_of_ne_nil hne
  refine ⟨by rw [GrowOp.grown, h.toSize_unread, hroom], ?_⟩
  rw [GrowOp.result, azBufferPushBack, if_neg hne]
  simp only [h.toSize_unread, hroom, pushBackInto, pushBackMove]
  show Except.map _ ((if 0 < buf.used then _ else _) >>= _) = _
  by_cases hpos : 0 < buf.used
  · -- The move reads as many bytes as were in use.
    have hload : Block.load ⟨0, heap.fresh⟩ 0 buf.used = .error .oobRead :=
      if_neg (by simp only; omega)
    rw [if_pos hpos, if_pos hpos]
    show Except.map _ ((Block.load ⟨0, heap.fresh⟩ 0 buf.used >>= _) >>= _) = _
    rw [hload]
    rfl
  · have hzero : buf.cursor = 0 := by omega
    have hback : ∀ r, pushBackStep buf.cursor src.length r = 0 := by
      intro r
      rw [hzero]
      unfold pushBackStep
      split <;> omega
    have hstore : Block.store ⟨0, heap.fresh⟩ 0 src = .error .oobWrite :=
      Block.store_eq_error.mpr ⟨by simp only; omega, rfl⟩
    rw [if_neg hpos, if_neg hpos, ok_bind, hback, if_neg (Nat.not_lt_zero _)]
    show Except.map _ (Block.store ⟨0, heap.fresh⟩ 0 src >>= _) = _
    rw [hstore]
    rfl

/-- A buffer that had no size has lost nothing. -/
theorem lost_of_size_eq_zero (heap : Heap) {buf : AzBuffer} (h : buf.Valid) (hsize : buf.size = 0) :
    (lost heap buf).Valid ∧ (lost heap buf).unread = buf.unread := by
  have hused := h.used_le
  have hcur := h.cursor_le
  have hnone : buf.used = 0 := by omega
  have hzero : buf.cursor = 0 := by omega
  refine ⟨⟨rfl, Nat.zero_le _, ?_, Nat.zero_le _⟩, ?_⟩
  · show buf.used ≤ 0
    omega
  · show Block.bytes _ 0 (buf.used - 0) = Block.bytes _ buf.cursor (buf.used - buf.cursor)
    rw [hnone, hzero]
    rfl

/-- The append after a growth that failed, for a buffer that had no size. -/
theorem reported_growAppend {heap : Heap} {buf : AzBuffer} (h : buf.Valid) {data : Bytes}
    (hfail : GrowthFails heap buf data.length) (hsize : buf.size = 0) :
    Reported ((growAppend heap buf data).map fun _ => 0) := by
  have hused := h.used_le
  rw [growAppend_of_failed h hfail, if_neg (by omega)]
  rfl

/-- The growth of an operation that fails gives up the block. -/
theorem grown_eq_lost {heap : Heap} {buf : AzBuffer} (h : buf.Valid) {op : GrowOp}
    (hfail : op.Fails heap buf) : ∃ b, op.grown heap buf = lost heap b ∧ b.Valid ∧
      b.size = buf.size ∧ b.unread = buf.unread := by
  cases op with
  | resize newsize =>
    obtain ⟨hasked, hrefused⟩ := hfail
    exact ⟨buf, congrArg Prod.snd (azBufferResize_failed hasked hrefused), h, rfl, rfl⟩
  | pushBack src => exact ⟨buf, (pushBack_of_failed h hfail).1, h, rfl, rfl⟩
  | handlerData text => exact ⟨buf, growFor_of_failed h hfail, h, rfl, rfl⟩
  | receiveData0 data =>
    obtain ⟨hv, hsize, hunread⟩ := valid_clearedBuffer h
    exact ⟨clearedBuffer buf, growFor_of_failed hv hfail, hv, hsize, hunread⟩

/-- An operation that fails to get memory leaves a buffer intact exactly when the buffer had no
size, and a push back never does. -/
theorem failsCleanly_iff {heap : Heap} {buf : AzBuffer} (h : buf.Valid) (op : GrowOp)
    (hfail : op.Fails heap buf) :
    FailsCleanly heap buf op ↔ buf.size = 0 ∧ ∀ src, op ≠ .pushBack src := by
  obtain ⟨b, hgrown, hv, hsize, hunread⟩ := grown_eq_lost h hfail
  constructor
  · intro hclean
    have hlost := hclean.size_eq
    rw [hgrown] at hlost
    refine ⟨hlost.symm, ?_⟩
    rintro src rfl
    have hreported := hclean.reported
    rw [(pushBack_of_failed h hfail).2] at hreported
    -- A push back ends in an access to the null block.
    change (if 0 < buf.used then Trap.oobRead else Trap.oobWrite) = .assertFailed at hreported
    split at hreported <;> cases hreported
  · rintro ⟨hzero, hop⟩
    obtain ⟨hvalid, hrest⟩ := lost_of_size_eq_zero heap hv (hsize.trans hzero)
    refine ⟨?_, hgrown ▸ hvalid, ?_, ?_⟩
    · cases op with
      | resize newsize =>
        obtain ⟨hasked, hrefused⟩ := hfail
        show (azBufferResize heap buf newsize).1 ≠ 0
        rw [azBufferResize_failed hasked hrefused]
        exact nofun
      | pushBack src => exact absurd rfl (hop src)
      | handlerData text => exact reported_growAppend h hfail hzero
      | receiveData0 data =>
        obtain ⟨hv', hsize', -⟩ := valid_clearedBuffer h
        exact reported_growAppend hv' hfail (hsize'.trans hzero)
    · rw [hgrown]
      exact hzero.symm
    · rw [hgrown, hrest, hunread]

/-- A memory that has no more. -/
def fullHeap : Heap := ⟨fun _ => true, fun _ => false, fun _ => 0, fun _ => 0⟩

/-- A buffer of `size` bytes that holds `data`. -/
def holding (size : Nat) (data : Bytes) : AzBuffer :=
  ⟨Block.put ⟨size, fun _ => 0⟩ 0 data, 0, size, data.length⟩

/-- Four bytes with two in use, and no memory for eight. The buffer has no size then and two bytes
in use, and `handler_data` writes three more to the null block. -/
theorem failed_resize_keeps_used :
    (holding 4 [97, 98]).Valid ∧ (GrowOp.resize 8).Fails fullHeap (holding 4 [97, 98]) ∧
      (azBufferResize fullHeap (holding 4 [97, 98]) 8).2.size = 0 ∧
      (azBufferResize fullHeap (holding 4 [97, 98]) 8).2.used = 2 ∧
      ¬ FailsCleanly fullHeap (holding 4 [97, 98]) (.resize 8) ∧
      (GrowOp.handlerData [99, 100, 101]).Fails fullHeap (holding 4 [97, 98]) ∧
      bufferText fullHeap (holding 4 [97, 98]) 3 (.ok [99, 100, 101]) = .error .oobWrite := by
  refine ⟨⟨rfl, by decide, by decide, by decide⟩, by decide, rfl, rfl, ?_, by decide, rfl⟩
  intro hclean
  have hsize : (0 : Nat) = 4 := hclean.size_eq
  cases hsize

/-- Three bytes for a buffer of four with two in it, in a memory that is full. -/
theorem failsCleanly_iff_four :
    (holding 4 [97, 98]).Valid ∧
      (FailsCleanly fullHeap (holding 4 [97, 98]) (.receiveData0 [99, 100, 101]) ↔
        (holding 4 [97, 98]).size = 0 ∧
          ∀ src, GrowOp.receiveData0 [99, 100, 101] ≠ .pushBack src) :=
  have hvalid : (holding 4 [97, 98]).Valid := ⟨rfl, by decide, by decide, by decide⟩
  ⟨hvalid, failsCleanly_iff hvalid _ (by decide)⟩

end Compostela.Proofs.FailedGrowth
