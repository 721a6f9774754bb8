import Compostela.Common.AzBuffer

/-!
# `Compostela.Common.PushBack`: bytes put back into the buffer

`az_buffer_push_back` of `common/azbuffer.c`. It makes room with a growth rule of its own, moves
what is behind the cursor out of the way and stores the bytes in front of it. The move takes as
many bytes as the whole buffer uses, and not only the unread ones, so it can leave the block.

The accesses are a parameter. `Access.checked` stops at an access outside the block, and
`Access.extended` lets the block have as much memory as is needed.

* `azBufferPushBack_extended`: the bytes come before the unread ones.
* `azBufferPushBack_checked`: the push backs that stay inside the block.
-/

set_option autoImplicit false

namespace Compostela.Common

open Compostela.Memory

/-- The accesses to the block of a buffer. -/
structure Access where
  load : Block → Nat → Nat → Except Trap Bytes
  store : Block → Nat → Bytes → Except Trap Block

/-- An access that leaves the block is a trap. -/
def Access.checked : Access := ⟨Block.load, Block.store⟩

/-- The memory behind the block belongs to the buffer as well. -/
def Access.extended : Access :=
  ⟨fun b off n => .ok (b.bytes off n), fun b off bs => .ok (b.put off bs)⟩

/-- The `memmove` of `az_buffer_push_back`, by `r` bytes. -/
def pushBackMove (mem : Access) (buf : AzBuffer) (r : Nat) : Except Trap Block :=
  if 0 < buf.used then do
    let bs ← mem.load buf.buffer buf.cursor buf.used
    mem.store buf.buffer (buf.cursor + r) bs
  else .ok buf.buffer

/-- The `r` of `az_buffer_push_back`. -/
def pushBackShift (used n ssize : Nat) : Nat :=
  if 0 < used then (if n < ssize then ssize - n else 0) else 0

/-- What `az_buffer_push_back` takes from the cursor. -/
def pushBackStep (n ssize r : Nat) : Nat := if ssize - r < n then ssize - r else n

/-- `az_buffer_push_back` from the move on, with the `n` and `u` that it has computed. -/
def pushBackInto (mem : Access) (buf : AzBuffer) (n u : Nat) (src : Bytes) :
    Except Trap (Int × AzBuffer) := do
  let r := pushBackShift buf.used n src.length
  let block ← pushBackMove mem buf r
  let back := pushBackStep n src.length r
  if buf.cursor < back then .error .assertFailed
  else do
    let block ← mem.store block (buf.cursor - back) src
    .ok (0, { buf with
      buffer := block
      cursor := buf.cursor - back
      used := u + (if n < src.length then src.length else n) })

/-- The growth rule of `az_buffer_push_back`. The result of the resize is not looked at. -/
def pushBackRoom (heap : Heap) (buf : AzBuffer) (ssize u : Nat) : AzBuffer :=
  if buf.size < (ssize + u) % 2 ^ 64 then
    (azBufferResize heap buf ((buf.size + ssize * 2) % 2 ^ 64)).2
  else buf

/-- `az_buffer_push_back`, with `ssize` the length of `src`. -/
def azBufferPushBack (mem : Access) (heap : Heap) (buf : AzBuffer) (src : Bytes) :
    Except Trap (Int × AzBuffer) :=
  if src = [] then .ok (0, buf)
  else
    let n := buf.cursor
    let u := toSize (azBufferUnreadBytes buf)
    pushBackInto mem (pushBackRoom heap buf src.length u) n u src

namespace AzBuffer

/-- A request for so much memory can be met, and is. -/
def Granted (heap : Heap) (n : Nat) : Prop := n ≤ PTRDIFF_MAX ∧ heap.realloc n = true

/-- The `realloc` of a resize succeeds. A resize to less than the used part makes none. -/
def ResizeGranted (heap : Heap) (buf : AzBuffer) (newsize : Nat) : Prop :=
  buf.used ≤ newsize → Granted heap newsize

/-- The size that a push back asks for, in a `size_t`. -/
def askedSize (buf : AzBuffer) (src : Bytes) : Nat := (buf.size + src.length * 2) % 2 ^ 64

/-- The growth test of a push back. -/
def Grows (buf : AzBuffer) (src : Bytes) : Prop :=
  buf.size < (src.length + buf.unread.length) % 2 ^ 64

instance (buf : AzBuffer) (src : Bytes) : Decidable (Grows buf src) :=
  inferInstanceAs (Decidable (_ < _))

/-- The `realloc` of a push back succeeds, if there is one. -/
def PushBackGranted (heap : Heap) (buf : AzBuffer) (src : Bytes) : Prop :=
  Grows buf src → ResizeGranted heap buf (askedSize buf src)

/-- The size of the buffer after the growth test of a push back. -/
def roomSize (buf : AzBuffer) (src : Bytes) : Nat :=
  if Grows buf src then
    if askedSize buf src < buf.used then buf.size else askedSize buf src
  else buf.size

/-- The memory for the pushed and the unread bytes can be had, and is, if the buffer has no room
for them. -/
def RoomFor (heap : Heap) (buf : AzBuffer) (src : Bytes) : Prop :=
  buf.size < src.length + buf.unread.length → Granted heap (buf.size + src.length * 2)

instance (heap : Heap) (n : Nat) : Decidable (Granted heap n) :=
  inferInstanceAs (Decidable (_ ∧ _))

instance (heap : Heap) (buf : AzBuffer) (n : Nat) : Decidable (ResizeGranted heap buf n) :=
  inferInstanceAs (Decidable (_ → _))

instance (heap : Heap) (buf : AzBuffer) (src : Bytes) : Decidable (PushBackGranted heap buf src) :=
  inferInstanceAs (Decidable (_ → _))

instance (heap : Heap) (buf : AzBuffer) (src : Bytes) : Decidable (RoomFor heap buf src) :=
  inferInstanceAs (Decidable (_ → _))

/-- A resize that is refused, or gets its memory, changes the size and nothing else. -/
theorem azBufferResize_granted {heap : Heap} {buf : AzBuffer} (h : buf.Valid) {newsize : Nat}
    (hgranted : ResizeGranted heap buf newsize) :
    ∃ ret buf', azBufferResize heap buf newsize = (ret, buf') ∧ buf'.Valid ∧
      buf'.unread = buf.unread ∧ buf'.cursor = buf.cursor ∧ buf'.used = buf.used ∧
      buf'.size = if newsize < buf.used then buf.size else newsize := by
  by_cases hshort : newsize < buf.used
  · refine ⟨-1000, buf, if_pos hshort, h, rfl, rfl, rfl, ?_⟩
    rw [if_pos hshort]
  · obtain ⟨hmax, hmem⟩ := hgranted (Nat.le_of_not_lt hshort)
    obtain ⟨buf', heq, hv, hunread, hsize, hused⟩ :=
      azBufferResize_ok h (Nat.le_of_not_lt hshort) hmax hmem
    -- As many bytes are unread and used as before, so the cursor is where it was.
    have hcursor : buf'.cursor = buf.cursor := by
      have hlen := length_unread buf
      have hlen' := length_unread buf'
      have hle := h.cursor_le
      have hle' := hv.cursor_le
      rw [hunread, hused] at hlen'
      omega
    refine ⟨0, buf', heq, hv, hunread, hcursor, hused, ?_⟩
    rw [if_neg hshort]
    exact hsize

/-- A push back makes room first, and the offsets and the unread bytes stay. -/
theorem pushBackRoom_spec {heap : Heap} {buf : AzBuffer} (h : buf.Valid) {src : Bytes}
    (hgranted : PushBackGranted heap buf src) :
    (pushBackRoom heap buf src.length buf.unread.length).Valid ∧
      (pushBackRoom heap buf src.length buf.unread.length).unread = buf.unread ∧
      (pushBackRoom heap buf src.length buf.unread.length).cursor = buf.cursor ∧
      (pushBackRoom heap buf src.length buf.unread.length).used = buf.used ∧
      (pushBackRoom heap buf src.length buf.unread.length).size = roomSize buf src := by
  have hroom : pushBackRoom heap buf src.length buf.unread.length =
      if Grows buf src then (azBufferResize heap buf (askedSize buf src)).2 else buf := rfl
  rw [hroom, roomSize]
  by_cases hgrow : Grows buf src
  · obtain ⟨ret, buf', heq, hv, hunread, hcursor, hused, hsize⟩ :=
      azBufferResize_granted h (hgranted hgrow)
    rw [if_pos hgrow, heq, if_pos hgrow]
    exact ⟨hv, hunread, hcursor, hused, hsize⟩
  · rw [if_neg hgrow, if_neg hgrow]
    exact ⟨h, rfl, rfl, rfl, rfl⟩

/-- With memory for the pushed and the unread bytes no sum wraps around. The request is granted,
and the room is enough for the bytes. -/
theorem RoomFor.granted {heap : Heap} {buf : AzBuffer} (h : buf.Valid) {src : Bytes}
    (hroom : RoomFor heap buf src) :
    PushBackGranted heap buf src ∧ src.length + buf.unread.length ≤ roomSize buf src := by
  have hlen := length_unread buf
  have hle := h.used_le
  have hcur := h.cursor_le
  have hsize := h.size_le
  have hgrows : Grows buf src ↔ buf.size < (src.length + buf.unread.length) % 2 ^ 64 := .rfl
  unfold PTRDIFF_MAX at hsize
  by_cases hgrow : buf.size < src.length + buf.unread.length
  · obtain ⟨hmax, hmem⟩ := hroom hgrow
    have hlimit := hmax
    unfold PTRDIFF_MAX at hlimit
    -- Below the limit nothing wraps, and the size asked for is the sum.
    have hasked : askedSize buf src = buf.size + src.length * 2 := by
      unfold askedSize
      omega
    have hneed : Grows buf src := hgrows.mpr (by omega)
    rw [PushBackGranted, ResizeGranted, roomSize, if_pos hneed, hasked, if_neg (by omega)]
    exact ⟨fun _ _ => ⟨hmax, hmem⟩, by omega⟩
  -- The sum that does not exceed the size cannot have wrapped to a larger one.
  · have hfits : ¬ Grows buf src := fun hg => by
      have hlt := hgrows.mp hg
      omega
    rw [roomSize, if_neg hfits]
    exact ⟨fun hg => absurd hg hfits, Nat.le_of_not_lt hgrow⟩

/-- A push back of some bytes, from the move on. -/
theorem azBufferPushBack_eq {heap : Heap} {buf : AzBuffer} (h : buf.Valid)
    {src : Bytes} (hsrc : src ≠ []) (hgranted : PushBackGranted heap buf src) :
    ∃ buf1, (∀ mem, azBufferPushBack mem heap buf src =
        pushBackInto mem buf1 buf1.cursor buf1.unread.length src) ∧
      buf1.Valid ∧ buf1.unread = buf.unread ∧ buf1.cursor = buf.cursor ∧ buf1.used = buf.used ∧
      buf1.size = roomSize buf src := by
  obtain ⟨hv, hunread, hcur, hused, hsize⟩ := pushBackRoom_spec h hgranted
  refine ⟨_, ?_, hv, hunread, hcur, hused, hsize⟩
  intro mem
  unfold azBufferPushBack
  rw [if_neg hsrc]
  simp only [h.toSize_unread, hcur, hunread]

/-- A move puts the bytes behind the consumed ones, or behind the pushed ones. -/
theorem add_pushBackShift {used : Nat} (n ssize : Nat) (h : 0 < used) :
    n + pushBackShift used n ssize = max n ssize := by
  unfold pushBackShift
  rw [if_pos h]
  split
  · omega
  · omega

/-- The cursor goes back by the number of pushed bytes, or to the start. -/
theorem sub_pushBackStep {used n : Nat} (ssize : Nat) (h : n ≤ used) :
    pushBackStep n ssize (pushBackShift used n ssize) ≤ n ∧
      n - pushBackStep n ssize (pushBackShift used n ssize) = max n ssize - ssize := by
  by_cases hused : 0 < used
  · have hshift := add_pushBackShift n ssize hused
    unfold pushBackStep
    split
    · omega
    · omega
  · unfold pushBackStep
    split
    · omega
    · omega

/-- The bytes behind the pushed ones, after the move. -/
theorem pushBackMove_extended {buf : AzBuffer} (h : buf.Valid) (ssize : Nat) :
    ∃ block, pushBackMove .extended buf (pushBackShift buf.used buf.cursor ssize) = .ok block ∧
      block.size = buf.size ∧
      block.bytes (max buf.cursor ssize) buf.unread.length = buf.unread := by
  have hcur := h.cursor_le
  have hlen := length_unread buf
  unfold pushBackMove
  by_cases hused : 0 < buf.used
  · rw [if_pos hused, add_pushBackShift _ _ hused]
    refine ⟨_, rfl, h.size_eq, ?_⟩
    -- As many bytes are moved as are used, and the unread ones are the first of them.
    rw [Block.bytes_put_take _ _ _ _ (by rw [Block.length_bytes]; omega),
      Block.take_bytes _ _ (by omega), hlen]
    rfl
  · rw [if_neg hused]
    have hnone : buf.unread = [] := List.length_eq_zero_iff.mp (by omega)
    exact ⟨buf.buffer, rfl, h.size_eq, by rw [hnone]; rfl⟩

/-- With room for the bytes, and memory behind the block, they come before the unread ones. -/
theorem pushBackInto_extended {buf : AzBuffer} (h : buf.Valid) {src : Bytes}
    (hroom : src.length + buf.unread.length ≤ buf.size) :
    ∃ buf', pushBackInto .extended buf buf.cursor buf.unread.length src = .ok (0, buf') ∧
      buf'.Valid ∧ buf'.unread = src ++ buf.unread := by
  have hcur := h.cursor_le
  have hused := h.used_le
  have hlen := length_unread buf
  obtain ⟨block, hmove, hsize, hbytes⟩ := pushBackMove_extended h src.length
  obtain ⟨hback, hstart⟩ := sub_pushBackStep src.length hcur
  -- The cursor after the move, whichever of the two branches sets it.
  have hnew : (if buf.cursor < src.length then src.length else buf.cursor) =
      max buf.cursor src.length := by
    split
    · omega
    · omega
  refine ⟨{ buf with
    buffer := block.put (max buf.cursor src.length - src.length) src
    cursor := max buf.cursor src.length - src.length
    used := buf.unread.length + max buf.cursor src.length }, ?_, ?_, ?_⟩
  · unfold pushBackInto
    simp only [hmove, ok_bind]
    rw [if_neg (Nat.not_lt_of_le hback), hstart, hnew]
    rfl
  · refine ⟨hsize, ?_, ?_, h.size_le⟩
    · show max buf.cursor src.length - src.length ≤ buf.unread.length + max buf.cursor src.length
      omega
    · show buf.unread.length + max buf.cursor src.length ≤ buf.size
      omega
  -- The source is stored right before the bytes that were moved, so the two read as one.
  · have hspan : buf.unread.length + max buf.cursor src.length
        - (max buf.cursor src.length - src.length) = src.length + buf.unread.length := by omega
    have hend :
        max buf.cursor src.length - src.length + src.length = max buf.cursor src.length := by
      omega
    show (block.put (max buf.cursor src.length - src.length) src).bytes
      (max buf.cursor src.length - src.length) (buf.unread.length + max buf.cursor src.length
        - (max buf.cursor src.length - src.length)) = src ++ buf.unread
    rw [hspan, Block.bytes_append, Block.bytes_put_self, hend,
      Block.bytes_put_of_disjoint _ _ _ _ _ (Or.inr (by omega)), hbytes]

/-- A push back puts the bytes before the unread ones. -/
theorem azBufferPushBack_extended {heap : Heap} {buf : AzBuffer} (h : buf.Valid) {src : Bytes}
    (hroom : RoomFor heap buf src) :
    ∃ buf', azBufferPushBack .extended heap buf src = .ok (0, buf') ∧ buf'.Valid ∧
      buf'.unread = src ++ buf.unread := by
  by_cases hsrc : src = []
  · refine ⟨buf, if_pos hsrc, h, ?_⟩
    rw [hsrc, List.nil_append]
  · obtain ⟨hgranted, hfits⟩ := hroom.granted h
    obtain ⟨buf1, heq, hv, hunread, -, -, hsize⟩ := azBufferPushBack_eq h hsrc hgranted
    rw [← hunread, ← hsize] at hfits
    obtain ⟨buf', hpush, hv', hunread'⟩ := pushBackInto_extended hv hfits
    exact ⟨buf', (heq _).trans hpush, hv', by rw [hunread', hunread]⟩

/-- The size and the used part behind a push back. -/
theorem used_of_azBufferPushBack {mem : Access} {heap : Heap} {buf buf' : AzBuffer}
    (h : buf.Valid) {src : Bytes} (hsrc : src ≠ []) (hgranted : PushBackGranted heap buf src)
    {r : Int} (hpush : azBufferPushBack mem heap buf src = .ok (r, buf')) :
    buf'.size = roomSize buf src ∧ buf'.used = buf.unread.length + max buf.cursor src.length := by
  obtain ⟨buf1, heq, hv, hunread, hcur, -, hsize⟩ := azBufferPushBack_eq h hsrc hgranted
  rw [heq] at hpush
  obtain ⟨hback, -⟩ := sub_pushBackStep src.length hv.cursor_le
  obtain ⟨block, -, hpush⟩ := bind_eq_ok.mp hpush
  simp only [if_neg (Nat.not_lt_of_le hback)] at hpush
  obtain ⟨block', -, hpush⟩ := bind_eq_ok.mp hpush
  cases hpush
  refine ⟨hsize, ?_⟩
  show buf1.unread.length + (if buf1.cursor < src.length then src.length else buf1.cursor) = _
  rw [hunread, hcur]
  split
  · omega
  · omega

/-! ### Bounds of a push back -/

/-- A push back has room for what it moves. It moves as many bytes as are used, to behind the
consumed or the pushed ones. -/
def MoveFits (buf : AzBuffer) (src : Bytes) : Prop :=
  src = [] ∨ max buf.cursor src.length + buf.used ≤ roomSize buf src

instance (buf : AzBuffer) (src : Bytes) : Decidable (MoveFits buf src) :=
  inferInstanceAs (Decidable (_ ∨ _))

/-- The bytes that are moved have room, so the pushed ones have too. -/
theorem pushBackInto_of_fits {buf : AzBuffer} (h : buf.Valid) {src : Bytes}
    (hfits : max buf.cursor src.length + buf.used ≤ buf.size) :
    pushBackInto .checked buf buf.cursor buf.unread.length src =
      pushBackInto .extended buf buf.cursor buf.unread.length src := by
  have hcur := h.cursor_le
  obtain ⟨block, hmove, hsize, -⟩ := pushBackMove_extended h src.length
  obtain ⟨hback, hstart⟩ := sub_pushBackStep src.length hcur
  -- The move stays inside, so the checked one does what the unchecked one does.
  have hsame : pushBackMove .checked buf (pushBackShift buf.used buf.cursor src.length) =
      .ok block := by
    rw [← hmove]
    unfold pushBackMove
    by_cases hpos : 0 < buf.used
    · rw [if_pos hpos, if_pos hpos, add_pushBackShift _ _ hpos]
      show (do
        let bs ← buf.buffer.load buf.cursor buf.used
        buf.buffer.store (max buf.cursor src.length) bs) =
          .ok (buf.buffer.put (max buf.cursor src.length) (buf.buffer.bytes buf.cursor buf.used))
      rw [Block.load_of_le (by rw [h.size_eq]; omega), ok_bind,
        Block.store_of_le (by rw [Block.length_bytes, h.size_eq]; omega)]
    · rw [if_neg hpos, if_neg hpos]
  have hstore : block.store (max buf.cursor src.length - src.length) src =
      .ok (block.put (max buf.cursor src.length - src.length) src) :=
    Block.store_of_le (by rw [hsize]; omega)
  unfold pushBackInto
  simp only [hsame, hmove, ok_bind]
  rw [if_neg (Nat.not_lt_of_le hback), if_neg (Nat.not_lt_of_le hback), hstart]
  show (do
    let block ← block.store (max buf.cursor src.length - src.length) src
    _) = _
  rw [hstore]
  rfl

/-- A move without room for its bytes reads or writes outside the block. -/
theorem pushBackMove_error {buf : AzBuffer} (h : buf.Valid) {ssize : Nat} (hpos : 0 < buf.used)
    (hno : ¬ max buf.cursor ssize + buf.used ≤ buf.size) :
    ∃ t, pushBackMove .checked buf (pushBackShift buf.used buf.cursor ssize) = .error t := by
  unfold pushBackMove
  rw [if_pos hpos, add_pushBackShift _ _ hpos]
  show ∃ t, (do
    let bs ← buf.buffer.load buf.cursor buf.used
    buf.buffer.store (max buf.cursor ssize) bs) = .error t
  by_cases hread : buf.cursor + buf.used ≤ buf.buffer.size
  · refine ⟨.oobWrite, ?_⟩
    rw [Block.load_of_le hread, ok_bind, Block.store_eq_error, Block.length_bytes, h.size_eq]
    exact ⟨Nat.lt_of_not_le hno, rfl⟩
  · refine ⟨.oobRead, ?_⟩
    rw [Block.load, if_neg hread]
    rfl

/-- Without room the move leaves the block, or the copy of the pushed bytes does when nothing is
moved. -/
theorem pushBackInto_error {buf : AzBuffer} (h : buf.Valid) {src : Bytes}
    (hno : ¬ max buf.cursor src.length + buf.used ≤ buf.size) :
    ∃ t, pushBackInto .checked buf buf.cursor buf.unread.length src = .error t := by
  have hcur := h.cursor_le
  by_cases hpos : 0 < buf.used
  · obtain ⟨t, ht⟩ := pushBackMove_error h hpos hno
    refine ⟨t, ?_⟩
    unfold pushBackInto
    simp only [ht]
    rfl
  -- Nothing is moved, and the bytes put in front end behind the block.
  · obtain ⟨hback, hstart⟩ := sub_pushBackStep src.length hcur
    have hmove : ∀ r, pushBackMove .checked buf r = .ok buf.buffer := fun r => if_neg hpos
    have hstore : buf.buffer.store (max buf.cursor src.length - src.length) src =
        .error .oobWrite := by
      refine Block.store_eq_error.mpr ⟨?_, rfl⟩
      rw [h.size_eq]
      omega
    refine ⟨.oobWrite, ?_⟩
    unfold pushBackInto
    simp only [hmove, ok_bind]
    rw [if_neg (Nat.not_lt_of_le hback), hstart]
    show (do
      let block ← buf.buffer.store (max buf.cursor src.length - src.length) src
      _) = _
    rw [hstore]
    rfl

/-- A push back with the checked accesses is the one with memory behind the block when the move
fits, and it is a trap otherwise. -/
theorem azBufferPushBack_checked {heap : Heap} {buf : AzBuffer} (h : buf.Valid) {src : Bytes}
    (hgranted : PushBackGranted heap buf src) :
    (MoveFits buf src → ∃ buf', azBufferPushBack .checked heap buf src = .ok (0, buf') ∧
      azBufferPushBack .extended heap buf src = .ok (0, buf') ∧ buf'.Valid ∧
      buf'.unread = src ++ buf.unread) ∧
    (¬ MoveFits buf src → ∃ t, azBufferPushBack .checked heap buf src = .error t) := by
  by_cases hsrc : src = []
  · refine ⟨fun _ => ⟨buf, if_pos hsrc, if_pos hsrc, h, ?_⟩, fun hno => absurd (.inl hsrc) hno⟩
    rw [hsrc, List.nil_append]
  obtain ⟨buf1, heq, hv, hunread, hcur, hused, hsize⟩ := azBufferPushBack_eq h hsrc hgranted
  have hmove : MoveFits buf src ↔ max buf1.cursor src.length + buf1.used ≤ buf1.size := by
    rw [hused, hcur, hsize]
    exact ⟨fun h => h.resolve_left hsrc, Or.inr⟩
  rw [hmove, heq, heq]
  refine ⟨fun hfits => ?_, pushBackInto_error hv⟩
  have hroom : src.length + buf1.unread.length ≤ buf1.size := by
    have hlen := length_unread buf1
    omega
  obtain ⟨buf', hpush, hv', hunread'⟩ := pushBackInto_extended hv hroom
  exact ⟨buf', (pushBackInto_of_fits hv hfits).trans hpush, hpush, hv', by rw [hunread', hunread]⟩

end AzBuffer

end Compostela.Common
