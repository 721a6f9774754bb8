import Compostela.Common.PushBack

/-!
# `Compostela.Common.GrowAppend`: growing a buffer and appending to it

`handler_data` of the aggregator and `_do_receive_data_0` of the follower append to a buffer with
the same three statements: a resize when the data does not fit, an `assert` that it fits now, and
`az_buffer_fetch_bytes`. The result of the resize is not looked at.

* `growAppend_of_room`: with the memory the data is behind the unread bytes.
* `growAppend_of_failed`: without it the assertion fails when the buffer uses nothing. When the
  buffer is in use, the free space is a difference below zero, which the assertion takes for a
  large number, and the fetch writes to the null block.
-/

set_option autoImplicit false

namespace Compostela.Common

open Compostela.Memory

/-- The growth in front of an append of `len` bytes. -/
def growFor (heap : Heap) (buf : AzBuffer) (len : Nat) : AzBuffer :=
  if toSize (azBufferUnusedBytes buf) < len then
    (azBufferResize heap buf (toSize (len + buf.size))).2
  else buf

/-- The growth, the assertion and the append. -/
def growAppend (heap : Heap) (buf : AzBuffer) (data : Bytes) : Except Trap AzBuffer := do
  let buf := growFor heap buf data.length
  if toSize (azBufferUnusedBytes buf) < data.length then .error .assertFailed
  else do
    let (_, buf) ← azBufferFetchBytes buf data
    .ok buf

namespace AzBuffer

/-- The buffer that a resize without memory leaves. -/
def lost (heap : Heap) (buf : AzBuffer) : AzBuffer :=
  { buf with buffer := ⟨0, heap.fresh⟩, size := 0, cursor := 0 }

/-- A resize whose `realloc` fails. -/
theorem azBufferResize_failed {heap : Heap} {buf : AzBuffer} {newsize : Nat}
    (hused : buf.used ≤ newsize) (hfail : ¬ Granted heap newsize) :
    azBufferResize heap buf newsize = (-1, lost heap buf) :=
  (if_neg (Nat.not_lt_of_le hused)).trans (if_neg hfail)

/-- The free space of such a buffer. It is below zero as long as something was used. -/
theorem toSize_unused_lost {heap : Heap} {buf : AzBuffer} (h : buf.Valid) :
    toSize (azBufferUnusedBytes (lost heap buf)) =
      if 0 < buf.used then 2 ^ 64 - buf.used else 0 := by
  have hused := h.used_le
  have hsize := h.size_le
  unfold PTRDIFF_MAX at hsize
  show toSize ((0 : Nat) - (buf.used : Int)) = _
  split
  · rename_i hpos
    unfold toSize
    omega
  · rename_i hzero
    have hnone : buf.used = 0 := by omega
    rw [hnone]
    rfl

/-- A fetch into a buffer that has lost its block. -/
theorem azBufferFetchBytes_lost {heap : Heap} {buf : AzBuffer} (data : Bytes)
    (hused : 0 < buf.used) :
    azBufferFetchBytes (lost heap buf) data = .error .oobWrite := by
  have hout : ∀ bs, Block.store (lost heap buf).buffer (lost heap buf).used bs =
      .error .oobWrite := by
    intro bs
    show Block.store ⟨0, heap.fresh⟩ buf.used bs = _
    exact Block.store_eq_error.mpr ⟨by simp only; omega, rfl⟩
  rw [azBufferFetchBytes, hout]
  rfl

/-- Data that fits, or memory for it: the append does what it is for. -/
theorem growAppend_of_room {heap : Heap} {buf : AzBuffer} (h : buf.Valid) {data : Bytes}
    (hroom : buf.size - buf.used < data.length → Granted heap (data.length + buf.size)) :
    ∃ buf', growAppend heap buf data = .ok buf' ∧ buf'.Valid ∧
      buf'.unread = buf.unread ++ data := by
  -- The append to a buffer with room.
  have hfetch : ∀ b : AzBuffer, b.Valid → b.unread = buf.unread →
      b.used + data.length ≤ b.size → growFor heap buf data.length = b →
      ∃ buf', growAppend heap buf data = .ok buf' ∧ buf'.Valid ∧
        buf'.unread = buf.unread ++ data := by
    intro b hv hunread hfit hgrow
    obtain ⟨buf', heq, hv', hunread'⟩ := azBufferFetchBytes_of_fits hv data hfit
    refine ⟨buf', ?_, hv', by rw [hunread', hunread]⟩
    rw [growAppend, hgrow]
    simp only [hv.toSize_unused]
    rw [if_neg (by omega), heq]
    rfl
  have hused := h.used_le
  unfold growFor at hfetch
  rw [h.toSize_unused] at hfetch
  by_cases hlong : buf.size - buf.used < data.length
  · have hgranted := hroom hlong
    have hnewsize : toSize (data.length + buf.size) = data.length + buf.size := by
      have hmax := hgranted.1
      unfold PTRDIFF_MAX at hmax
      rw [toSize_of_lt (by omega) (by omega)]
      rfl
    obtain ⟨b, hb, hv, hunread, hsize, hused'⟩ :=
      azBufferResize_ok h (by omega : buf.used ≤ data.length + buf.size) hgranted.1 hgranted.2
    exact hfetch b hv hunread (by omega) (by rw [if_pos hlong, hnewsize, hb])
  · exact hfetch buf h rfl (by omega) (if_neg hlong)

/-- The `realloc` for the data fails. -/
structure GrowthFails (heap : Heap) (buf : AzBuffer) (len : Nat) : Prop where
  /-- The data does not fit. -/
  long : buf.size - buf.used < len
  /-- The new size, which can wrap around, is not refused by `az_buffer_resize` itself. -/
  asked : buf.used ≤ toSize (len + buf.size)
  refused : ¬ Granted heap (toSize (len + buf.size))

instance (heap : Heap) (buf : AzBuffer) (len : Nat) : Decidable (GrowthFails heap buf len) :=
  decidable_of_iff (buf.size - buf.used < len ∧ buf.used ≤ toSize (len + buf.size) ∧
    ¬ Granted heap (toSize (len + buf.size)))
    ⟨fun h => ⟨h.1, h.2.1, h.2.2⟩, fun h => ⟨h.long, h.asked, h.refused⟩⟩

/-- The growth loses the block. -/
theorem growFor_of_failed {heap : Heap} {buf : AzBuffer} (h : buf.Valid) {len : Nat}
    (hfail : GrowthFails heap buf len) : growFor heap buf len = lost heap buf := by
  unfold growFor
  rw [h.toSize_unused, if_pos hfail.long, azBufferResize_failed hfail.asked hfail.refused]

/-- The append after a growth that failed. -/
theorem growAppend_of_failed {heap : Heap} {buf : AzBuffer} (h : buf.Valid) {data : Bytes}
    (hfail : GrowthFails heap buf data.length) :
    growAppend heap buf data =
      if 0 < buf.used ∧ buf.used + data.length ≤ 2 ^ 64 then .error .oobWrite
      else .error .assertFailed := by
  have hpos : 0 < data.length := Nat.lt_of_le_of_lt (Nat.zero_le _) hfail.long
  have hused := h.used_le
  have hsize := h.size_le
  unfold PTRDIFF_MAX at hsize
  rw [growAppend, growFor_of_failed h hfail]
  simp only [toSize_unused_lost h]
  by_cases hempty : 0 < buf.used
  · rw [if_pos hempty]
    by_cases hwrap : buf.used + data.length ≤ 2 ^ 64
    · -- The assertion holds for the large number.
      rw [if_neg (by omega), azBufferFetchBytes_lost data hempty, if_pos ⟨hempty, hwrap⟩]
      rfl
    · rw [if_pos (by omega), if_neg (fun hboth => hwrap hboth.2)]
  · rw [if_neg hempty, if_pos hpos, if_neg (fun hboth => hempty hboth.1)]

end AzBuffer

end Compostela.Common
