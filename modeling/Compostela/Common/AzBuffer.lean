import Compostela.Common.Message
import Mathlib.Data.List.TakeWhile

/-!
# `Compostela.Common.AzBuffer`: the byte buffer of `common/azbuffer.c`

`AzBuffer` keeps the four fields of `struct _az_buffer`, with `cursor` as an offset into
the block. The functions translate the C ones and keep their result codes. A copy that
leaves the buffer's memory ends in a trap.

`AzBuffer.Valid` is the invariant of a buffer whose `realloc` calls succeeded, and
`AzBuffer.unread` is what the buffer is for: the bytes between the cursor and the end of
the used part, in order. The lemmas below state each function on `unread`, and the proofs
of the other modules use these lemmas and not the offsets.

* `azBufferFetchBytes_of_fits`: a fetch with room for the data appends it.
* `azBufferResize_ok`: a growing resize keeps the unread bytes.
* `azBufferReadLine_cases`: the three results of a line read. The line and the bytes after
  it are the unread bytes from before.
* `azBufferFetchFile_ok`: a fetch from a file appends what `read` delivered.
-/

set_option autoImplicit false

namespace Compostela.Common

open Compostela.Memory

/-- `'\n'`. -/
def LF : UInt8 := 10

/-- `struct _az_buffer`. -/
structure AzBuffer where
  buffer : Block
  cursor : Nat
  size : Nat
  used : Nat

/-- `az_buffer_new`. -/
def azBufferNew (heap : Heap) (size : Nat) : AzBuffer where
  buffer := ⟨size, heap.fresh⟩
  cursor := 0
  size := size
  used := 0

/-- `az_buffer_unused_bytes`, as the `ssize_t` it returns. -/
def azBufferUnusedBytes (buf : AzBuffer) : Int := (buf.size : Int) - buf.used

/-- `az_buffer_unread_bytes`, as the `ssize_t` it returns. -/
def azBufferUnreadBytes (buf : AzBuffer) : Int := (buf.used : Int) - buf.cursor

/-- `az_buffer_read`. The result is the return code, which is an `int`, and the bytes copied to
`dst`. -/
def azBufferRead (buf : AzBuffer) (len dsize : Nat) :
    Except Trap (Int × Bytes × AzBuffer) :=
  if dsize < len then .ok (-1, [], buf)
  else if toSize (azBufferUnreadBytes buf) < len then .ok (-2, [], buf)
  else do
    let bs ← buf.buffer.load buf.cursor len
    .ok ((BitVec.ofNat 32 len).toInt, bs, { buf with cursor := buf.cursor + len })

/-- `az_buffer_resize`. When `realloc` fails, `buffer` and `cursor` are null and `used`
stays. -/
def azBufferResize (heap : Heap) (buf : AzBuffer) (newsize : Nat) : Int × AzBuffer :=
  if newsize < buf.used then (-1000, buf)
  else if newsize ≤ PTRDIFF_MAX ∧ heap.realloc newsize = true then
    (0, { buf with
      buffer := ⟨newsize, fun i => if i < buf.buffer.size then buf.buffer.byte i else heap.fresh i⟩
      size := newsize })
  else
    (-1, { buf with buffer := ⟨0, heap.fresh⟩, size := 0, cursor := 0 })

/-- `az_buffer_fetch_bytes`, with `len` the length of `data`. -/
def azBufferFetchBytes (buf : AzBuffer) (data : Bytes) : Except Trap (Nat × AzBuffer) := do
  let unused := min (toSize (azBufferUnusedBytes buf)) data.length
  let buffer ← buf.buffer.store buf.used (data.take unused)
  .ok (unused, { buf with buffer := buffer, used := buf.used + unused })

/-- What one `read` of a followed file returns: at most `k + 1` of the bytes that are there
(none at the end of the file), `EAGAIN`, or another error. -/
inductive ReadResult
  | chunk (k : Nat)
  | again
  | error
  deriving DecidableEq, Repr

/-- The bytes that a `read` of at most `n` bytes copies, with `rest` the file from the
descriptor's offset on. -/
def ReadResult.bytes (r : ReadResult) (rest : Bytes) (n : Nat) : Bytes :=
  match r with
  | .chunk k => rest.take (min (k + 1) n)
  | .again | .error => []

/-- The value that `read` returns. -/
def ReadResult.code (r : ReadResult) (rest : Bytes) (n : Nat) : Int :=
  match r with
  | .chunk _ => (r.bytes rest n).length
  | .again | .error => -1

/-- `az_buffer_fetch_file`. -/
def azBufferFetchFile (buf : AzBuffer) (r : ReadResult) (rest : Bytes) (size : Nat) :
    Except Trap (Int × AzBuffer) := do
  let unused := min (toSize (azBufferUnusedBytes buf)) size
  let bs := r.bytes rest unused
  let buffer ← buf.buffer.store buf.used bs
  .ok (r.code rest unused, { buf with buffer := buffer, used := buf.used + bs.length })

/-- `az_buffer_read_line`. The result is the return code and the bytes copied to `dst`.
The terminator that C writes after a line shorter than `dsize` is not part of them. -/
def azBufferReadLine (buf : AzBuffer) (dsize : Nat) :
    Except Trap (Int × Bytes × AzBuffer) :=
  let unread := toSize (azBufferUnreadBytes buf)
  if unread = 0 then .ok (-1, [], buf)
  else do
    let len := min unread dsize
    let window ← buf.buffer.load buf.cursor len
    match window.findIdx? (· = LF) with
    | some i => do
        let (_, line, buf') ← azBufferRead buf (i + 1) dsize
        .ok (1, line, buf')
    | none => do
        let (_, line, buf') ← azBufferRead buf len dsize
        .ok (0, line, buf')

/-- `az_buffer_reset`. -/
def azBufferReset (buf : AzBuffer) : AzBuffer := { buf with cursor := 0, used := 0 }

/-! ### Lines -/

/-- The shortest prefix that ends in a newline, when it has at most `dsize` bytes. -/
def firstLine (q : Bytes) (dsize : Nat) : Option Bytes :=
  if LF ∈ q ∧ (q.takeWhile (· ≠ LF)).length < dsize then some (q.takeWhile (· ≠ LF) ++ [LF])
  else none

/-- What is in front of the first newline. -/
theorem takeWhile_ne_LF {init : Bytes} (rest : Bytes) (h : LF ∉ init) :
    (init ++ LF :: rest).takeWhile (· ≠ LF) = init := by
  rw [List.takeWhile_append_of_pos, List.takeWhile_cons_of_neg (by simp), List.append_nil]
  intro b hb
  exact decide_eq_true fun heq => h (heq ▸ hb)

/-- The line is cut off where the search finds the newline. -/
theorem firstLine_of_findIdx {q : Bytes} {dsize i : Nat}
    (h : (q.take dsize).findIdx? (· = LF) = some i) :
    i < dsize ∧ i < q.length ∧ firstLine q dsize = some (q.take (i + 1)) := by
  rw [List.findIdx?_eq_some_iff_getElem] at h
  obtain ⟨hi, hLF, hbefore⟩ := h
  rw [List.length_take] at hi
  have hinit : LF ∉ q.take i := by
    intro hmem
    obtain ⟨j, hj, hjeq⟩ := List.mem_take_iff_getElem.mp hmem
    have hne := hbefore j (by omega)
    simp only [List.getElem_take] at hne
    exact hne (by simp [hjeq])
  have hnext : q[i] = LF := by simpa using hLF
  -- The newline at `i` is the first one of the whole queue, not only of the part that is searched.
  have hsplit : q = q.take i ++ LF :: q.drop (i + 1) := by
    rw [← hnext, List.getElem_cons_drop, List.take_append_drop]
  have hwhile : q.takeWhile (· ≠ LF) = q.take i := by
    conv_lhs => rw [hsplit]
    exact takeWhile_ne_LF _ hinit
  have hline : LF ∈ q ∧ (q.takeWhile (· ≠ LF)).length < dsize := by
    refine ⟨?_, ?_⟩
    · rw [hsplit]
      simp
    · rw [hwhile, List.length_take]
      omega
  refine ⟨by omega, by omega, ?_⟩
  rw [firstLine, if_pos hline, hwhile, List.take_add_one, List.getElem?_eq_getElem (by omega),
    hnext]
  rfl

/-- Without a line there is no newline among the bytes that fit. -/
theorem firstLine_eq_none_iff {q : Bytes} {dsize : Nat} :
    firstLine q dsize = none ↔ LF ∉ q.take dsize := by
  constructor
  · intro h hmem
    obtain ⟨init, rest, hsplit, hinit⟩ := List.eq_append_cons_of_mem hmem
    have hq : q = init ++ LF :: (rest ++ q.drop dsize) := by
      conv_lhs => rw [← List.take_append_drop dsize q, hsplit, List.append_assoc]
      rfl
    -- A newline within the part is a newline of the queue that fits.
    have hlen : init.length < dsize := by
      have hle := congrArg List.length hsplit
      rw [List.length_take, List.length_append, List.length_cons] at hle
      omega
    have hline : LF ∈ q ∧ (q.takeWhile (· ≠ LF)).length < dsize := by
      refine ⟨List.mem_of_mem_take hmem, ?_⟩
      rw [hq, takeWhile_ne_LF _ hinit]
      exact hlen
    rw [firstLine, if_pos hline] at h
    cases h
  · intro hnot
    refine if_neg ?_
    rintro ⟨hmem, hlen⟩
    obtain ⟨init, rest, rfl, hinit⟩ := List.eq_append_cons_of_mem hmem
    rw [takeWhile_ne_LF _ hinit] at hlen
    refine hnot ?_
    obtain ⟨k, hk⟩ := Nat.exists_eq_succ_of_ne_zero (Nat.ne_of_gt (Nat.sub_pos_of_lt hlen))
    rw [List.take_append, hk]
    simp

/-- There is no line when the search finds no newline. -/
theorem firstLine_of_findIdx_none {q : Bytes} {dsize : Nat}
    (h : (q.take dsize).findIdx? (· = LF) = none) : firstLine q dsize = none := by
  rw [List.findIdx?_eq_none_iff] at h
  exact firstLine_eq_none_iff.mpr fun hmem => absurd (h LF hmem) (by simp)

/-- A line is a prefix that fits and has its only newline at its end. -/
theorem firstLine_eq_some {q line : Bytes} {dsize : Nat} (h : firstLine q dsize = some line) :
    line <+: q ∧ line.length ≤ dsize ∧ ∃ init, line = init ++ [LF] ∧ LF ∉ init := by
  unfold firstLine at h
  split at h
  · rename_i hline
    cases h
    obtain ⟨init, rest, rfl, hinit⟩ := List.eq_append_cons_of_mem hline.1
    have hwhile := takeWhile_ne_LF rest hinit
    rw [hwhile] at hline ⊢
    refine ⟨⟨rest, by simp⟩, ?_, init, rfl, hinit⟩
    rw [List.length_append, List.length_singleton]
    exact hline.2
  · cases h

/-- What a line read gives for unread bytes: a line and the code 1, or as many bytes as fit and
the code 0. -/
def lineResult (q : Bytes) (dsize : Nat) : Int × Bytes :=
  match firstLine q dsize with
  | some line => (1, line)
  | none => (0, q.take dsize)

namespace AzBuffer

/-- The bytes that are buffered and not read. -/
def unread (buf : AzBuffer) : Bytes := buf.buffer.bytes buf.cursor (buf.used - buf.cursor)

/-- The invariant of a buffer: the block has the recorded size, and the cursor is inside
the used part, which is inside the block. No object is larger than `PTRDIFF_MAX`. -/
structure Valid (buf : AzBuffer) : Prop where
  size_eq : buf.buffer.size = buf.size
  cursor_le : buf.cursor ≤ buf.used
  used_le : buf.used ≤ buf.size
  size_le : buf.size ≤ PTRDIFF_MAX

/-- A new buffer has nothing to read. -/
@[simp] theorem unread_azBufferNew (heap : Heap) (size : Nat) :
    (azBufferNew heap size).unread = [] := rfl

/-- A new buffer is valid, for a size that `malloc` can give. -/
theorem valid_azBufferNew (heap : Heap) {size : Nat} (h : size ≤ PTRDIFF_MAX) :
    (azBufferNew heap size).Valid where
  size_eq := rfl
  cursor_le := Nat.le_refl 0
  used_le := Nat.zero_le size
  size_le := h

/-- A reset buffer has nothing to read. -/
@[simp] theorem unread_azBufferReset (buf : AzBuffer) : (azBufferReset buf).unread = [] := rfl

/-- A reset keeps a buffer valid. -/
theorem Valid.reset {buf : AzBuffer} (h : buf.Valid) : (azBufferReset buf).Valid where
  size_eq := h.size_eq
  cursor_le := Nat.le_refl 0
  used_le := Nat.zero_le _
  size_le := h.size_le

/-- What is not read is between the cursor and the end of what is used. -/
theorem length_unread (buf : AzBuffer) : buf.unread.length = buf.used - buf.cursor := by
  simp [unread]

/-- The unread count is the length of the unread bytes. -/
theorem Valid.toSize_unread {buf : AzBuffer} (h : buf.Valid) :
    toSize (azBufferUnreadBytes buf) = buf.unread.length := by
  have h1 := h.cursor_le
  have h2 := h.used_le
  have h3 := h.size_le
  unfold azBufferUnreadBytes PTRDIFF_MAX at *
  rw [toSize_of_lt (by omega) (by omega)]
  simp [unread]

/-- A load at the cursor stays in the allocation as long as it takes unread bytes. -/
theorem Valid.load_cursor {buf : AzBuffer} (h : buf.Valid) {n : Nat}
    (hn : n ≤ buf.unread.length) :
    buf.buffer.load buf.cursor n = .ok (buf.unread.take n) := by
  have hlen := length_unread buf
  have hcur := h.cursor_le
  have hused := h.used_le
  rw [Block.load_of_le (by rw [h.size_eq]; omega), unread, Block.take_bytes _ _ (by omega)]

/-- The unused bytes of a valid buffer, as a `size_t`: the subtraction does not wrap. -/
theorem Valid.toSize_unused {buf : AzBuffer} (h : buf.Valid) :
    toSize (azBufferUnusedBytes buf) = buf.size - buf.used := by
  have h2 := h.used_le
  have h3 := h.size_le
  unfold azBufferUnusedBytes PTRDIFF_MAX at *
  rw [toSize_of_lt (by omega) (by omega)]
  omega

/-- Bytes stored at the end of the used part are appended to the unread bytes. -/
theorem Valid.unread_append {buf : AzBuffer} (h : buf.Valid) (bs : Bytes) :
    ({ buf with buffer := buf.buffer.put buf.used bs, used := buf.used + bs.length } :
      AzBuffer).unread = buf.unread ++ bs := by
  have h1 := h.cursor_le
  have hsplit : buf.used + bs.length - buf.cursor
      = (buf.used - buf.cursor) + bs.length := by omega
  have hend : buf.cursor + (buf.used - buf.cursor) = buf.used := by omega
  simp only [unread]
  rw [hsplit, Block.bytes_append, hend, Block.bytes_put_self,
    Block.bytes_put_of_disjoint _ _ _ _ _ (Or.inl (by omega))]

/-- A fetch appends as much of the data as there is room for. -/
theorem azBufferFetchBytes_eq {buf : AzBuffer} (h : buf.Valid) (data : Bytes) :
    ∃ buf', azBufferFetchBytes buf data = .ok (min (buf.size - buf.used) data.length, buf') ∧
      buf'.Valid ∧ buf'.unread =
        buf.unread ++ data.take (min (buf.size - buf.used) data.length) := by
  have hused := h.used_le
  -- What does not fit is left out.
  have hlen : (data.take (min (buf.size - buf.used) data.length)).length =
      min (buf.size - buf.used) data.length := by
    rw [List.length_take]
    omega
  refine ⟨{ buf with
    buffer := buf.buffer.put buf.used (data.take (min (buf.size - buf.used) data.length))
    used := buf.used + (data.take (min (buf.size - buf.used) data.length)).length }, ?_, ?_,
    h.unread_append _⟩
  · unfold azBufferFetchBytes
    simp only [h.toSize_unused]
    rw [Block.store_of_le (by rw [h.size_eq]; omega), hlen]
    rfl
  · exact ⟨h.size_eq, Nat.le_add_right_of_le h.cursor_le, by simp only; omega, h.size_le⟩

/-- A fetch that fits appends all of the data. -/
theorem azBufferFetchBytes_of_fits {buf : AzBuffer} (h : buf.Valid) (data : Bytes)
    (hfit : buf.used + data.length ≤ buf.size) :
    ∃ buf', azBufferFetchBytes buf data = .ok (data.length, buf') ∧ buf'.Valid ∧
      buf'.unread = buf.unread ++ data := by
  obtain ⟨buf', heq, hv, hunread⟩ := azBufferFetchBytes_eq h data
  have hmin : min (buf.size - buf.used) data.length = data.length := by omega
  rw [hmin] at heq hunread
  rw [List.take_length] at hunread
  exact ⟨buf', heq, hv, hunread⟩

/-- A resize to at least the used part that gets its memory keeps the unread bytes. -/
theorem azBufferResize_ok {heap : Heap} {buf : AzBuffer} (h : buf.Valid) {newsize : Nat}
    (hused : buf.used ≤ newsize) (hmax : newsize ≤ PTRDIFF_MAX)
    (hmem : heap.realloc newsize = true) :
    ∃ buf', azBufferResize heap buf newsize = (0, buf') ∧ buf'.Valid ∧
      buf'.unread = buf.unread ∧ buf'.size = newsize ∧ buf'.used = buf.used := by
  have hle := h.used_le
  have hcur := h.cursor_le
  unfold azBufferResize
  rw [if_neg (by omega), if_pos ⟨hmax, hmem⟩]
  refine ⟨_, rfl, ⟨rfl, hcur, hused, hmax⟩, ?_, rfl, rfl⟩
  simp only [unread]
  apply Block.bytes_congr
  intro i _ hi
  simp only
  rw [if_pos (by rw [h.size_eq]; omega)]

/-- A read of at most the unread bytes takes them from the front. -/
theorem azBufferRead_of_le {buf : AzBuffer} (h : buf.Valid) (len dsize : Nat)
    (hd : len ≤ dsize) (hu : len ≤ buf.unread.length) :
    ∃ buf', azBufferRead buf len dsize =
        .ok ((BitVec.ofNat 32 len).toInt, buf.unread.take len, buf') ∧
      buf'.Valid ∧ buf'.unread = buf.unread.drop len ∧ buf'.size = buf.size ∧
      buf'.used = buf.used := by
  have hlen := length_unread buf
  have hcur := h.cursor_le
  have hused := h.used_le
  refine ⟨{ buf with cursor := buf.cursor + len }, ?_, ⟨h.size_eq, ?_, hused, h.size_le⟩,
    ?_, rfl, rfl⟩
  · unfold azBufferRead
    rw [if_neg (by omega), if_neg (by rw [h.toSize_unread]; omega), h.load_cursor hu]
    rfl
  · simp only
    omega
  · rw [unread, unread, Block.drop_bytes _ _ (by omega), Nat.sub_sub]

/-- A line read takes what `lineResult` says from the front of the unread bytes. -/
theorem azBufferReadLine_eq {buf : AzBuffer} (h : buf.Valid) (hne : buf.unread ≠ [])
    (dsize : Nat) :
    ∃ buf', azBufferReadLine buf dsize =
        .ok ((lineResult buf.unread dsize).1, (lineResult buf.unread dsize).2, buf') ∧
      buf'.Valid ∧ buf'.unread = buf.unread.drop (lineResult buf.unread dsize).2.length ∧
      buf'.size = buf.size ∧ buf'.used = buf.used := by
  have hlen := length_unread buf
  have hcur := h.cursor_le
  have hused := h.used_le
  have hpos : 0 < buf.unread.length := List.length_pos_of_ne_nil hne
  have htake : buf.unread.take (min buf.unread.length dsize) = buf.unread.take dsize := by
    rw [Nat.min_comm]
    exact List.take_eq_take_min.symm
  unfold azBufferReadLine
  simp only [h.toSize_unread]
  -- The window that `memchr` searches is the front of the unread bytes.
  rw [if_neg (by omega), h.load_cursor (Nat.min_le_left _ _), ok_bind, htake]
  cases hfind : (buf.unread.take dsize).findIdx? (· = LF) with
  | some i =>
    obtain ⟨hi, hiq, hfirst⟩ := firstLine_of_findIdx hfind
    obtain ⟨buf', hread, hvalid, hrest, hsize, hused'⟩ := azBufferRead_of_le h (i + 1) dsize
      (by omega) (by omega)
    refine ⟨buf', ?_, hvalid, ?_, hsize, hused'⟩
    · simp only [hread, ok_bind, lineResult, hfirst]
    · simp only [hrest, lineResult, hfirst, List.length_take]
      congr 1
      omega
  | none =>
    have hfirst := firstLine_of_findIdx_none hfind
    obtain ⟨buf', hread, hvalid, hrest, hsize, hused'⟩ := azBufferRead_of_le h
      (min buf.unread.length dsize) dsize (by omega) (by omega)
    refine ⟨buf', ?_, hvalid, ?_, hsize, hused'⟩
    · simp only [hread, ok_bind, lineResult, hfirst, htake]
    · simp only [hrest, lineResult, hfirst, List.length_take, Nat.min_comm]

/-- The three results of a line read: nothing is unread; the front of the unread bytes is
a line, with its newline, that fits; or there is no newline in as many bytes as fit, and
these are what the read takes. -/
theorem azBufferReadLine_cases {buf : AzBuffer} (h : buf.Valid) {dsize : Nat}
    (hd : 0 < dsize) :
    (buf.unread = [] ∧ azBufferReadLine buf dsize = .ok (-1, [], buf)) ∨
    ∃ line buf', buf.unread = line ++ buf'.unread ∧ buf'.Valid ∧ buf'.size = buf.size ∧
      line ≠ [] ∧ line.length ≤ dsize ∧
      ((azBufferReadLine buf dsize = .ok (1, line, buf') ∧
          ∃ init, line = init ++ [LF] ∧ LF ∉ init) ∨
        (azBufferReadLine buf dsize = .ok (0, line, buf') ∧ LF ∉ line)) := by
  by_cases hempty : buf.unread = []
  · left
    refine ⟨hempty, ?_⟩
    unfold azBufferReadLine
    simp only [h.toSize_unread]
    rw [if_pos (by rw [hempty]; rfl)]
  right
  obtain ⟨buf', hread, hvalid, hrest, hsize, -⟩ := azBufferReadLine_eq h hempty dsize
  cases hfirst : firstLine buf.unread dsize with
  | some line =>
    obtain ⟨⟨rest, hsplit⟩, hle, init, hline, hinit⟩ := firstLine_eq_some hfirst
    simp only [lineResult, hfirst] at hread hrest
    refine ⟨line, buf', ?_, hvalid, hsize, ?_, hle, Or.inl ⟨hread, init, hline, hinit⟩⟩
    · rw [hrest, ← hsplit, List.drop_left]
    · rw [hline]
      simp
  | none =>
    simp only [lineResult, hfirst] at hread hrest
    refine ⟨buf.unread.take dsize, buf', ?_, hvalid, hsize, ?_, List.length_take_le _ _,
      Or.inr ⟨hread, firstLine_eq_none_iff.mp hfirst⟩⟩
    · rw [hrest, List.length_take, ← List.drop_eq_drop_min, List.take_append_drop]
    -- The piece is empty only for a room of nothing or an empty queue.
    · exact fun h0 => (List.take_eq_nil_iff.mp h0).elim (Nat.ne_of_gt hd) hempty

/-- A line read that finds no newline has looked at as many bytes as fit. -/
theorem notMem_of_azBufferReadLine {buf buf' : AzBuffer} (h : buf.Valid) {dsize : Nat}
    {line : Bytes} (hread : azBufferReadLine buf dsize = .ok (0, line, buf')) :
    LF ∉ buf.unread.take dsize := by
  by_cases hempty : buf.unread = []
  · rw [hempty]
    simp
  obtain ⟨buf1, heq, -⟩ := azBufferReadLine_eq h hempty dsize
  rw [heq] at hread
  cases hfirst : firstLine buf.unread dsize with
  | some line' =>
    simp only [lineResult, hfirst] at hread
    cases hread
  | none => exact firstLine_eq_none_iff.mp hfirst

end AzBuffer

/-- A `read` copies a prefix of what the file holds from the offset on, of at most the
requested length. -/
theorem ReadResult.bytes_prefix (r : ReadResult) (rest : Bytes) (n : Nat) :
    r.bytes rest n <+: rest ∧ (r.bytes rest n).length ≤ n := by
  cases r with
  | chunk k =>
    refine ⟨List.take_prefix _ _, ?_⟩
    simp only [ReadResult.bytes, List.length_take]
    omega
  | again => exact ⟨List.nil_prefix, Nat.zero_le n⟩
  | error => exact ⟨List.nil_prefix, Nat.zero_le n⟩

/-- A fetch from a file appends what `read` delivered, which had room. -/
theorem azBufferFetchFile_eq {buf : AzBuffer} (h : buf.Valid) (r : ReadResult) (rest : Bytes)
    (size : Nat) :
    ∃ buf', azBufferFetchFile buf r rest size =
        .ok (r.code rest (min (buf.size - buf.used) size), buf') ∧
      buf'.Valid ∧
      buf'.unread = buf.unread ++ r.bytes rest (min (buf.size - buf.used) size) ∧
      buf'.used = buf.used + (r.bytes rest (min (buf.size - buf.used) size)).length := by
  have hused := h.used_le
  have hle := (r.bytes_prefix rest (min (buf.size - buf.used) size)).2
  refine ⟨{ buf with
    buffer := buf.buffer.put buf.used (r.bytes rest (min (buf.size - buf.used) size))
    used := buf.used + (r.bytes rest (min (buf.size - buf.used) size)).length }, ?_, ?_,
    h.unread_append _, rfl⟩
  · unfold azBufferFetchFile
    simp only [h.toSize_unused]
    rw [Block.store_of_le (by rw [h.size_eq]; omega)]
    rfl
  · exact ⟨h.size_eq, Nat.le_add_right_of_le h.cursor_le, by simp only; omega, h.size_le⟩

/-- A fetch from a file into an empty, reset buffer: the unread bytes are what `read`
delivered. -/
theorem azBufferFetchFile_ok {buf : AzBuffer} (h : buf.Valid) (hused : buf.used = 0)
    (r : ReadResult) (rest : Bytes) :
    ∃ buf', azBufferFetchFile buf r rest buf.size = .ok (r.code rest buf.size, buf') ∧
      buf'.Valid ∧ buf'.unread = buf.unread ++ r.bytes rest buf.size ∧
      buf'.used = (r.bytes rest buf.size).length := by
  obtain ⟨buf', heq, hv, hunread, hused'⟩ := azBufferFetchFile_eq h r rest buf.size
  have hmin : min (buf.size - buf.used) buf.size = buf.size := by omega
  rw [hmin] at heq hunread hused'
  exact ⟨buf', heq, hv, hunread, by rw [hused', hused, Nat.zero_add]⟩

end Compostela.Common
