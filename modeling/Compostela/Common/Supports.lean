import Compostela.Common.Message
import Compostela.Lib.Segments
import Mathlib.Data.List.TakeWhile

/-!
# `Compostela.Common.Supports`: the helpers of `common/supports.c`

`recvall` and `sendall` are the loops around `recv` and `send`. Their result is the number
of bytes moved when this is positive, and the result of the last call otherwise. So a
stream that ends early gives a positive count that is smaller than the request.
`recvall_bytes` and `recvall_rest_bytes` say what they do to the byte stream, whatever its
segments are.

`pathcat` joins path components in a fixed buffer of `PATH_MAX` bytes. The model keeps the
buffer, the bytes that `strncpy` leaves unset included, so an access outside the buffer and
a missing terminator end in a trap. `strdup_pathcat` joins two components in a block of the heap
that has just the size for them.

`mhashWithSize` feeds a file to the digest in pieces of at most 2048 bytes.
-/

set_option autoImplicit false

namespace Compostela.Common

open Compostela.Memory
open Compostela.Segments

/-! ### `recvall` and `sendall` -/

/-- What one `recvall` call does: its return value, the bytes it wrote to the caller's
buffer, and the stream it leaves. -/
structure Recvd where
  ret : Int
  bytes : Bytes
  rest : Incoming

/-- `recvall`. `EAGAIN` sleeps and tries again. The loop stops at the end of the stream,
and then the count so far is the result unless it is zero. -/
def recvall (s : Incoming) (size : Nat) : Recvd :=
  let r := readFull size s.arrivals
  { ret :=
      if r.1 ≠ [] then r.1.length
      else if size = 0 then 0
      else match s.ending with
        | .eof => 0
        | .error => -1
    bytes := r.1
    rest := { s with arrivals := r.2 } }

/-- `recvall` gets the front of the stream. -/
theorem recvall_bytes (s : Incoming) (size : Nat) :
    (recvall s size).bytes = s.bytes.take size := readFull_fst size s.arrivals

/-- What is behind the bytes that `recvall` got is still to come. -/
theorem recvall_rest_bytes (s : Incoming) (size : Nat) :
    (recvall s size).rest.bytes = s.bytes.drop size := bytesOf_readFull_snd size s.arrivals

/-- `recvall` does not change how the stream ends. -/
@[simp] theorem recvall_rest_ending (s : Incoming) (size : Nat) :
    (recvall s size).rest.ending = s.ending := rfl

/-- The result is positive exactly when a byte was received. -/
theorem recvall_ret_pos_iff (s : Incoming) (size : Nat) :
    0 < (recvall s size).ret ↔ (recvall s size).bytes ≠ [] := by
  by_cases h : (readFull size s.arrivals).1 = []
  · by_cases hsize : size = 0
    · simp [recvall, hsize]
    · cases hend : s.ending <;> simp [recvall, h, hsize, hend]
  · simp [recvall, h, List.length_pos_iff]

/-- A request that the stream can serve returns its size. -/
theorem recvall_ret_of_le {s : Incoming} {size : Nat} (h0 : 0 < size)
    (h : size ≤ s.bytes.length) : (recvall s size).ret = size := by
  have hbytes := recvall_bytes s size
  have hlen : (readFull size s.arrivals).1.length = size := by
    have : (readFull size s.arrivals).1 = s.bytes.take size := hbytes
    rw [this, List.length_take_of_le h]
  have hne : (readFull size s.arrivals).1 ≠ [] := List.ne_nil_of_length_pos (by omega)
  simp [recvall, hne, hlen]

/-- `sendall`: its return value, the bytes that the socket accepted, and what the later
calls will do. The count is returned as an `int`. The result of a refused call is `-1`. -/
def sendall (data : Bytes) (script : List Accept) : Int × Bytes × List Accept :=
  let r := writeFull data script
  (if r.1 ≠ [] then (BitVec.ofNat 32 r.1.length).toInt else if data = [] then 0 else -1,
    r.1, r.2)

/-! ### Strings -/

/-- `PATH_MAX`. -/
def PATH_MAX : Nat := 4096

/-- `'/'`. -/
def SLASH : UInt8 := 47

/-- The characters of a text, one byte each. -/
def ascii (s : String) : Bytes := s.toList.map fun c => c.toNat.toUInt8

/-- The C string at the start of a byte string. -/
def cstr (bs : Bytes) : Bytes := bs.takeWhile (· ≠ 0)

/-- The string without its trailing slashes. -/
def dropSlashes (path : Bytes) : Bytes := (path.reverse.dropWhile (· = SLASH)).reverse

/-- A C string has no zero in it. -/
theorem zero_notMem_cstr (bs : Bytes) : 0 ∉ cstr bs := by
  intro h
  simpa using List.mem_takeWhile_imp h

/-- Bytes are a C string as a whole exactly when no zero is among them. -/
theorem cstr_eq_self_iff {bs : Bytes} : cstr bs = bs ↔ 0 ∉ bs := by
  rw [cstr, List.takeWhile_eq_self_iff]
  constructor
  · intro hall hmem
    exact of_decide_eq_true (hall 0 hmem) rfl
  · intro hzero b hb
    exact decide_eq_true fun heq => hzero (heq ▸ hb)

/-- A C string is not longer than the bytes it stands at the front of. -/
theorem length_cstr_le (bs : Bytes) : (cstr bs).length ≤ bs.length :=
  (List.takeWhile_sublist _).length_le

/-- Dropping slashes adds nothing to a path. -/
theorem dropSlashes_sublist (path : Bytes) : (dropSlashes path).Sublist path := by
  have h := (List.dropWhile_sublist (fun b : UInt8 => b = SLASH) (l := path.reverse)).reverse
  rw [List.reverse_reverse] at h
  exact h

/-! ### `pathcat` -/

/-- The offset of the first zero byte among the `fuel` bytes from `off` on. -/
def findNul (b : Block) : Nat → Nat → Option Nat
  | 0, _ => none
  | fuel + 1, off => if b.byte off = 0 then some off else findNul b fuel (off + 1)

/-- `strncat(q, s, n)` with `q` at offset `off`: append at most `n` bytes of `s` and a
terminator after the string at `q`. -/
def strncat (b : Block) (off : Nat) (s : Bytes) (n : Nat) : Except Trap Block :=
  match findNul b (b.size - off) off with
  | none => .error .oobRead
  | some i => b.store i (s.take n ++ [0])

/-- The separator at the write pointer `q`, when the string does not end with one. -/
def addSlash (b : Block) (q : Nat) : Except Trap (Block × Nat) :=
  if b.byte (q - 1) ≠ SLASH then do
    let b ← b.store q [SLASH, 0]
    .ok (b, q + 1)
  else .ok (b, q)

/-- The loop of `pathcat` from the write pointer `q` on. -/
def pathcatLoop (b : Block) (q : Nat) : List Bytes → Except Trap Block
  | [] => .ok b
  | s :: rest =>
      if PATH_MAX ≤ q then .ok b
      else if q = 0 then .error .oobRead
      else do
        let (b, q) ← addSlash b q
        -- `buf + sizeof(buf) - q - 1`: `q` is still inside the buffer here.
        let b ← strncat b q s (PATH_MAX - q - 1)
        pathcatLoop b (q + s.length) rest

/-- `pathcat(p, comps..., NULL)`. `strncpy` copies at most `PATH_MAX - 1` bytes, pads with
zeros and leaves the last byte of the buffer unset. The result is the string that `strdup`
finds in the buffer. -/
def pathcat (heap : Heap) (p : Bytes) (comps : List Bytes) : Except Trap Bytes := do
  let buf : Block :=
    { size := PATH_MAX
      byte := fun i => if i < PATH_MAX - 1 then p.getD i 0 else heap.stack i }
  let b ← pathcatLoop buf p.length comps
  match findNul b b.size 0 with
  | none => .error .oobRead
  | some n => .ok (b.bytes 0 n)

/-- The string from the front of the block on. -/
def stringOf (b : Block) : Except Trap Bytes :=
  match findNul b b.size 0 with
  | none => .error .oobRead
  | some n => .ok (b.bytes 0 n)

/-- `strcat(p, s)` with `p` the front of the block. -/
def strcat (b : Block) (s : Bytes) : Except Trap Block :=
  match findNul b b.size 0 with
  | none => .error .oobRead
  | some i => b.store i (s ++ [0])

/-- The separator of `strdup_pathcat`, where `strcpy` has put the terminator. -/
def putSeparator (b : Block) (p0 : Bytes) : Except Trap Block :=
  if p0.getLast? ≠ some SLASH then b.store p0.length [SLASH] else .ok b

/-- `strdup_pathcat`. The result of `malloc` is not looked at. -/
def strdupPathcat (heap : Heap) (p0 p1 : Bytes) : Except Trap Bytes :=
  if p0 = [] then .error .oobRead
  else
    let na := p0.length + p1.length + 1
    let na := if p0.getLast? ≠ some SLASH then na + 1 else na
    if heap.malloc na = false then .error .nullDeref
    else do
      let b : Block := ⟨na, heap.fresh⟩
      let b ← b.store 0 (p0 ++ [0])
      let b ← putSeparator b p0
      let b ← strcat b p1
      stringOf b

/-- Two buffers that can differ in their last byte only, the one that `strncpy` leaves
unset. -/
structure SamePath (b c : Block) : Prop where
  size_left : b.size = PATH_MAX
  size_right : c.size = PATH_MAX
  byte : ∀ i, i < PATH_MAX - 1 → b.byte i = c.byte i

/-- The same store in both blocks leaves the same path. -/
theorem SamePath.store {b c b' c' : Block} (h : SamePath b c) {off : Nat} {bs : Bytes}
    (hb : b.store off bs = .ok b') (hc : c.store off bs = .ok c') : SamePath b' c' := by
  obtain ⟨-, rfl⟩ := Block.store_eq_ok.mp hb
  obtain ⟨-, rfl⟩ := Block.store_eq_ok.mp hc
  refine ⟨h.size_left, h.size_right, ?_⟩
  intro i hi
  simp only [Block.put]
  split
  · rfl
  · exact h.byte i hi

/-- A zero byte that is found in both buffers is found at the same place. -/
theorem SamePath.findNul {b c : Block} (h : SamePath b c) (fuel off : Nat)
    (hend : off + fuel ≤ PATH_MAX) {i j : Nat} (hb : Common.findNul b fuel off = some i)
    (hc : Common.findNul c fuel off = some j) : i = j ∧ i < PATH_MAX := by
  induction fuel generalizing off with
  | zero => cases hb
  | succ fuel ih =>
    simp only [Common.findNul] at hb hc
    by_cases hlast : off < PATH_MAX - 1
    · rw [← h.byte off hlast] at hc
      by_cases hzero : b.byte off = 0
      · rw [if_pos hzero, Option.some.injEq] at hb hc
        omega
      · rw [if_neg hzero] at hb hc
        exact ih (off + 1) (by omega) hb hc
    · -- Only the last byte is left, and it is the zero byte in both.
      have hfuel : fuel = 0 := by
        unfold PATH_MAX at *
        omega
      subst hfuel
      simp only [Common.findNul] at hb hc
      split at hb
      · split at hc
        · cases hb
          cases hc
          exact ⟨rfl, by omega⟩
        · cases hc
      · cases hb

/-- `strncat` of the same string leaves the same path in both blocks. -/
theorem SamePath.strncat {b c b' c' : Block} (h : SamePath b c) {off n : Nat} {s : Bytes}
    (hoff : off ≤ PATH_MAX) (hb : Common.strncat b off s n = .ok b')
    (hc : Common.strncat c off s n = .ok c') : SamePath b' c' := by
  unfold Common.strncat at hb hc
  rw [h.size_left] at hb
  rw [h.size_right] at hc
  cases hi : Common.findNul b (PATH_MAX - off) off with
  | none =>
    rw [hi] at hb
    cases hb
  | some i =>
    cases hj : Common.findNul c (PATH_MAX - off) off with
    | none =>
      rw [hj] at hc
      cases hc
    | some j =>
      obtain ⟨hij, -⟩ := h.findNul (PATH_MAX - off) off (by omega) hi hj
      subst hij
      rw [hi] at hb
      rw [hj] at hc
      exact h.store hb hc

/-- The separator is written in both buffers or in none. -/
theorem SamePath.addSlash {b c b' c' : Block} {q q1 q2 : Nat} (h : SamePath b c)
    (hq : q < PATH_MAX) (hb : Common.addSlash b q = .ok (b', q1))
    (hc : Common.addSlash c q = .ok (c', q2)) : SamePath b' c' ∧ q1 = q2 ∧ q1 ≤ PATH_MAX := by
  have hlast : q - 1 < PATH_MAX - 1 := by
    unfold PATH_MAX at *
    omega
  unfold Common.addSlash at hb hc
  rw [← h.byte (q - 1) hlast] at hc
  by_cases hslash : b.byte (q - 1) ≠ SLASH
  · rw [if_pos hslash] at hb hc
    obtain ⟨b2, hb2, hb⟩ := bind_eq_ok.mp hb
    obtain ⟨c2, hc2, hc⟩ := bind_eq_ok.mp hc
    cases hb
    cases hc
    exact ⟨h.store hb2 hc2, rfl, hq⟩
  · rw [if_neg hslash] at hb hc
    cases hb
    cases hc
    exact ⟨h, rfl, Nat.le_of_lt hq⟩

/-- The loop of `pathcat` leaves the same path in both blocks. -/
theorem SamePath.pathcatLoop {comps : List Bytes} {b c b' c' : Block} {q : Nat}
    (h : SamePath b c) (hb : Common.pathcatLoop b q comps = .ok b')
    (hc : Common.pathcatLoop c q comps = .ok c') : SamePath b' c' := by
  induction comps generalizing b c q with
  | nil =>
    cases hb
    cases hc
    exact h
  | cons s rest ih =>
    unfold Common.pathcatLoop at hb hc
    -- The two loops end at the same component, since both are at the same place.
    split at hb
    · rename_i hfull
      rw [if_pos hfull] at hc
      cases hb
      cases hc
      exact h
    · rename_i hfull
      rw [if_neg hfull] at hc
      split at hb
      · cases hb
      · rename_i hzero
        rw [if_neg hzero] at hc
        obtain ⟨⟨b1, q1⟩, hsep, hb⟩ := bind_eq_ok.mp hb
        obtain ⟨⟨c1, q2⟩, hsep', hc⟩ := bind_eq_ok.mp hc
        obtain ⟨hsame, rfl, hle⟩ := h.addSlash (by omega) hsep hsep'
        obtain ⟨b2, hb2, hb⟩ := bind_eq_ok.mp hb
        obtain ⟨c2, hc2, hc⟩ := bind_eq_ok.mp hc
        exact ih (hsame.strncat hle hb2 hc2) hb hc

/-- The path that `pathcat` makes does not depend on what the memory held before. -/
theorem pathcat_unique {heap heap' : Heap} {p path path' : Bytes} {comps : List Bytes}
    (h : pathcat heap p comps = .ok path) (h' : pathcat heap' p comps = .ok path') :
    path = path' := by
  obtain ⟨b, hb, h⟩ := bind_eq_ok.mp h
  obtain ⟨c, hc, h'⟩ := bind_eq_ok.mp h'
  -- The two stacks differ in the last byte alone after `strncpy`.
  have hstart : SamePath
      ⟨PATH_MAX, fun i => if i < PATH_MAX - 1 then p.getD i 0 else heap.stack i⟩
      ⟨PATH_MAX, fun i => if i < PATH_MAX - 1 then p.getD i 0 else heap'.stack i⟩ := by
    refine ⟨rfl, rfl, ?_⟩
    intro i hi
    simp only [hi, if_true]
  have hsame := hstart.pathcatLoop hb hc
  cases hi : findNul b b.size 0 with
  | none =>
    rw [hi] at h
    cases h
  | some i =>
    cases hj : findNul c c.size 0 with
    | none =>
      rw [hj] at h'
      cases h'
    | some j =>
      rw [hi] at h
      rw [hj] at h'
      cases h
      cases h'
      rw [hsame.size_left] at hi
      rw [hsame.size_right] at hj
      obtain ⟨rfl, hlt⟩ := hsame.findNul PATH_MAX 0 (by omega) hi hj
      exact Block.bytes_congr fun k _ hk => hsame.byte k (by omega)

/-- The last byte of the second buffer is zero, or the one of the first. -/
structure Cleared (b c : Block) : Prop extends SamePath b c where
  last : c.byte (PATH_MAX - 1) = b.byte (PATH_MAX - 1) ∨ c.byte (PATH_MAX - 1) = 0

/-- Every zero byte of the first buffer is one of the second. -/
theorem Cleared.byte_eq_zero {b c : Block} (h : Cleared b c) {i : Nat} (hi : i < PATH_MAX)
    (hzero : b.byte i = 0) : c.byte i = 0 := by
  by_cases hlast : i < PATH_MAX - 1
  · rw [← h.byte i hlast]
    exact hzero
  · have heq : i = PATH_MAX - 1 := by omega
    subst heq
    exact h.last.elim (fun hsame => hsame.trans hzero) id

/-- A zero byte that is found in the first buffer is found in the second, at the same place. -/
theorem Cleared.findNul {b c : Block} (h : Cleared b c) (fuel off : Nat)
    (hend : off + fuel ≤ PATH_MAX) {i : Nat} (hb : Common.findNul b fuel off = some i) :
    Common.findNul c fuel off = some i := by
  -- The second search finds something, and two searches agree on the place.
  have hfound : ∃ j, Common.findNul c fuel off = some j := by
    induction fuel generalizing off with
    | zero => cases hb
    | succ fuel ih =>
      simp only [Common.findNul] at hb ⊢
      by_cases hzero : c.byte off = 0
      · exact ⟨off, if_pos hzero⟩
      · have hne : b.byte off ≠ 0 := fun hb0 => hzero (h.byte_eq_zero (by omega) hb0)
        rw [if_neg hne] at hb
        rw [if_neg hzero]
        exact ih (off + 1) (by omega) hb
  obtain ⟨j, hj⟩ := hfound
  obtain ⟨rfl, -⟩ := h.toSamePath.findNul fuel off hend hb hj
  exact hj

/-- A store in the first buffer is one in the second. -/
theorem Cleared.store {b c b' : Block} (h : Cleared b c) {off : Nat} {bs : Bytes}
    (hb : b.store off bs = .ok b') : ∃ c', c.store off bs = .ok c' ∧ Cleared b' c' := by
  obtain ⟨hle, rfl⟩ := Block.store_eq_ok.mp hb
  have hc : c.store off bs = .ok (c.put off bs) :=
    Block.store_of_le (by rw [h.size_right, ← h.size_left]; exact hle)
  refine ⟨_, hc, h.toSamePath.store hb hc, ?_⟩
  simp only [Block.put]
  split
  · exact .inl rfl
  · exact h.last

/-- An append in the first buffer is one in the second. -/
theorem Cleared.strncat {b c b' : Block} (h : Cleared b c) {off n : Nat} {s : Bytes}
    (hoff : off ≤ PATH_MAX) (hb : Common.strncat b off s n = .ok b') :
    ∃ c', Common.strncat c off s n = .ok c' ∧ Cleared b' c' := by
  unfold Common.strncat at hb ⊢
  rw [h.size_left] at hb
  rw [h.size_right]
  cases hi : Common.findNul b (PATH_MAX - off) off with
  | none =>
    rw [hi] at hb
    cases hb
  | some i =>
    rw [hi] at hb
    rw [h.findNul (PATH_MAX - off) off (by omega) hi]
    exact h.store hb

/-- A separator in the first buffer is one in the second. -/
theorem Cleared.addSlash {b c b' : Block} {q q' : Nat} (h : Cleared b c) (hq : q < PATH_MAX)
    (hb : Common.addSlash b q = .ok (b', q')) :
    ∃ c', Common.addSlash c q = .ok (c', q') ∧ Cleared b' c' := by
  have hlast : q - 1 < PATH_MAX - 1 := by
    unfold PATH_MAX at *
    omega
  unfold Common.addSlash at hb ⊢
  rw [← h.byte (q - 1) hlast]
  by_cases hslash : b.byte (q - 1) ≠ SLASH
  · rw [if_pos hslash] at hb ⊢
    obtain ⟨b1, hb1, heq⟩ := bind_eq_ok.mp hb
    cases heq
    obtain ⟨c1, hc1, h1⟩ := h.store hb1
    exact ⟨c1, bind_eq_ok.mpr ⟨c1, hc1, rfl⟩, h1⟩
  · rw [if_neg hslash] at hb ⊢
    cases hb
    exact ⟨c, rfl, h⟩

/-- The loop goes through in the second buffer when it does in the first. -/
theorem Cleared.pathcatLoop {comps : List Bytes} {b c b' : Block} {q : Nat} (h : Cleared b c)
    (hb : Common.pathcatLoop b q comps = .ok b') :
    ∃ c', Common.pathcatLoop c q comps = .ok c' ∧ Cleared b' c' := by
  induction comps generalizing b c q with
  | nil =>
    cases hb
    exact ⟨c, rfl, h⟩
  | cons s rest ih =>
    unfold Common.pathcatLoop at hb ⊢
    split at hb
    · rename_i hfull
      cases hb
      exact ⟨c, if_pos hfull, h⟩
    · rename_i hfull
      split at hb
      · cases hb
      · rename_i hzero
        obtain ⟨⟨b1, q1⟩, hsep, hb⟩ := bind_eq_ok.mp hb
        obtain ⟨b2, hcat, hb⟩ := bind_eq_ok.mp hb
        obtain ⟨c1, hsep', h1⟩ := h.addSlash (by omega) hsep
        -- The slash is put before the last byte, so the next component starts inside.
        have hle : q1 ≤ PATH_MAX := (h.toSamePath.addSlash (by omega) hsep hsep').2.2
        obtain ⟨c2, hcat', h2⟩ := h1.strncat hle hcat
        obtain ⟨c', hloop, h'⟩ := ih h2 hb
        refine ⟨c', ?_, h'⟩
        rw [if_neg hfull, if_neg hzero, hsep', ok_bind]
        simp only [hcat', ok_bind]
        exact hloop

/-- A path that some memory gives comes out of a memory that held zeros as well. -/
theorem pathcat_zeroHeap {heap : Heap} {p path : Bytes} {comps : List Bytes}
    (h : pathcat heap p comps = .ok path) : pathcat zeroHeap p comps = .ok path := by
  obtain ⟨b, hb, hstring⟩ := bind_eq_ok.mp h
  have hstart : Cleared
      ⟨PATH_MAX, fun i => if i < PATH_MAX - 1 then p.getD i 0 else heap.stack i⟩
      ⟨PATH_MAX, fun i => if i < PATH_MAX - 1 then p.getD i 0 else zeroHeap.stack i⟩ := by
    refine ⟨⟨rfl, rfl, ?_⟩, .inr rfl⟩
    intro i hi
    simp only [hi, if_true]
  obtain ⟨c, hc, hcleared⟩ := hstart.pathcatLoop hb
  cases hi : findNul b b.size 0 with
  | none =>
    rw [hi] at hstring
    cases hstring
  | some i =>
    rw [hcleared.size_left] at hi
    have hj := hcleared.findNul PATH_MAX 0 (by omega) hi
    rw [← hcleared.size_right] at hj
    have hzero : pathcat zeroHeap p comps = .ok (c.bytes 0 i) :=
      bind_eq_ok.mpr ⟨c, hc, by rw [hj]⟩
    rw [hzero, pathcat_unique h hzero]

example : pathcat ⟨fun _ => true, fun _ => true, fun _ => 1, fun _ => 1⟩ [97, 97, 47] [[98], [99]] =
    .ok [97, 97, 47, 98, 47, 99] := rfl

/-! ### `__w3cdatetime` -/

/-- `isdigit` in the C locale. -/
def isdigit (b : UInt8) : Bool := 48 ≤ b ∧ b ≤ 57

/-- `__w3cdatetime(buf, sz, t)` with `buf` at offset `base` of the block. `text` is what
`strftime` writes into `sz - 1` bytes, or nothing when it returns 0. Then the bytes of the
buffer are unspecified, and the model leaves them as they are. A read before the start of
the block ends in a trap. -/
def w3cdatetime (b : Block) (base : Nat) (text : Option Bytes) : Except Trap (Nat × Block) := do
  let (n, b) ← match text with
    | some s => do
        let b ← b.store base (s ++ [0])
        pure (s.length, b)
    | none => pure (0, b)
  let p := base + n
  if b.byte p ≠ 0 then .ok (n + 1, b)
  else if p < 1 then .error .oobRead
  else if isdigit (b.byte (p - 1)) = false then .ok (n + 1, b)
  else if p < 2 then .error .oobRead
  else if isdigit (b.byte (p - 2)) = false then .ok (n + 1, b)
  else do
    -- The terminator and the last two digits move up, and the colon takes their place.
    let b ← b.store (p - 2) [58, b.byte (p - 2), b.byte (p - 1), 0]
    .ok (n + 1, b)

/-! ### The digest of a file -/

/-- An incremental 16-byte digest, as the crypto library provides it. -/
structure Md5 where
  Ctx : Type
  init : Ctx
  update : Ctx → Bytes → Ctx
  final : Ctx → Bytes
  length_final : ∀ c, (final c).length = 16

/-- A digest of sixteen zeros. -/
def zeroMd5 : Md5 where
  Ctx := Unit
  init := ()
  update := fun _ _ => ()
  final := fun _ => List.replicate 16 0
  length_final := fun _ => rfl

/-- The loop of `mhash_with_size`, with `na` bytes to digest and `rest` the file from the
descriptor's offset on. One entry of `chunks` per `read`: at most that many bytes, and a
zero for a failed read. Each read delivers at least one byte or ends the loop, so `na`
iterations are enough. -/
def mhashLoop (md5 : Md5) : Nat → md5.Ctx → Nat → Bytes → List Nat → md5.Ctx
  | 0, ctx, _, _, _ => ctx
  | fuel + 1, ctx, na, rest, chunks =>
      let d := min na 2048
      let got := rest.take (min d (chunks.headD d))
      if got = [] then ctx
      else mhashLoop md5 fuel (md5.update ctx got) (na - got.length) (rest.drop got.length)
        chunks.tail

/-- `mhash_with_size`: the digest of the first `fsize` bytes of the file, or null when it
cannot be opened. A negative size digests nothing. -/
def mhashWithSize (md5 : Md5) (file : Option Bytes) (fsize : Int) (chunks : List Nat) :
    Option Bytes :=
  file.map fun content =>
    md5.final (mhashLoop md5 fsize.toNat md5.init fsize.toNat content chunks)

/-- The digest of a byte string that comes in one update. -/
def Md5.digest (md5 : Md5) (bytes : Bytes) : Bytes := md5.final (md5.update md5.init bytes)

/-- The digest does not depend on how the bytes are cut into updates. -/
def Md5.Incremental (md5 : Md5) : Prop :=
  ∀ pieces : List Bytes, md5.final (pieces.foldl md5.update md5.init) = md5.digest pieces.flatten

/-- The loop updates the context with pieces of the file, one for each `read`. They are the first
`na` bytes, or the whole file when it is shorter. -/
theorem exists_mhashLoop {md5 : Md5} {chunks : List Nat} (hchunks : ∀ n ∈ chunks, 0 < n)
    (fuel na : Nat) (hfuel : na ≤ fuel) (ctx : md5.Ctx) (rest : Bytes) :
    ∃ pieces : List Bytes, mhashLoop md5 fuel ctx na rest chunks = pieces.foldl md5.update ctx ∧
      pieces.flatten = rest.take na := by
  induction fuel generalizing na ctx rest chunks with
  | zero =>
    obtain rfl : na = 0 := Nat.le_zero.mp hfuel
    exact ⟨[], rfl, rfl⟩
  | succ fuel ih =>
    -- One `read` delivers at most `k` bytes.
    obtain ⟨k, hk⟩ : ∃ k, k = min (min na 2048) (chunks.headD (min na 2048)) := ⟨_, rfl⟩
    have hzero : k = 0 → na = 0 := by
      intro h
      cases chunks with
      | nil =>
        rw [List.headD_nil] at hk
        omega
      | cons n more =>
        have hpos := hchunks n List.mem_cons_self
        rw [List.headD_cons] at hk
        omega
    have hstep : mhashLoop md5 (fuel + 1) ctx na rest chunks = if rest.take k = [] then ctx
        else mhashLoop md5 fuel (md5.update ctx (rest.take k)) (na - (rest.take k).length)
          (rest.drop (rest.take k).length) chunks.tail := by
      rw [hk]
      rfl
    rw [hstep]
    split
    · -- At the end of the file, or with nothing left to digest.
      rename_i hnone
      rw [List.take_eq_nil_iff] at hnone
      refine ⟨[], rfl, ?_⟩
      rw [List.flatten_nil, eq_comm, List.take_eq_nil_iff]
      exact hnone.imp_left hzero
    · rename_i hgot
      have hlen := List.length_pos_of_ne_nil hgot
      have hle : (rest.take k).length ≤ na := by
        rw [List.length_take]
        omega
      obtain ⟨pieces, hloop, hpieces⟩ := ih (fun n hn => hchunks n (List.mem_of_mem_tail hn))
        (na - (rest.take k).length) (by omega) (md5.update ctx (rest.take k))
        (rest.drop (rest.take k).length)
      refine ⟨rest.take k :: pieces, hloop, ?_⟩
      obtain ⟨more, hmore⟩ := List.take_prefix k rest
      generalize rest.take k = got at hmore hpieces hle ⊢
      subst hmore
      rw [List.flatten_cons, hpieces, List.drop_left, List.take_append,
        List.take_of_length_le hle]

/-- `mhash_with_size` digests the first `fsize` bytes of the file, or all of them. -/
theorem mhashWithSize_eq {md5 : Md5} (hmd5 : md5.Incremental) (content : Bytes) (fsize : Nat)
    {chunks : List Nat} (hchunks : ∀ n ∈ chunks, 0 < n) :
    mhashWithSize md5 (some content) fsize chunks = some (md5.digest (content.take fsize)) := by
  obtain ⟨pieces, hloop, hpieces⟩ :=
    exists_mhashLoop hchunks fsize fsize (Nat.le_refl _) md5.init content
  show some (md5.final (mhashLoop md5 fsize md5.init fsize content chunks)) = _
  rw [hloop, hmd5, hpieces]

end Compostela.Common
