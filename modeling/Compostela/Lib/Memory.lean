import Mathlib.Data.List.Basic

/-!
# `Compostela.Lib.Memory`: blocks of memory and the ways a C program stops

A `Block` is one allocated object: its size and the byte at every offset. Fresh memory
holds any bytes, so a block comes with a total function and no initial value is assumed.

`Block.load` and `Block.store` are the checked accesses. They end in a `Trap` when the
range leaves the block. A trap stands for behaviour that C leaves undefined, for a failed
`assert` and for `exit`: the program has no state after it. `Block.bytes` and `Block.put`
are the same accesses without the check, and the lemmas about them are the frame rules:
`bytes_put_self` reads a stored range back, `bytes_put_of_disjoint` reads a range that
the store does not touch, and `bytes_append` joins two neighbouring ranges.
-/

set_option autoImplicit false

namespace Compostela.Memory

/-- The ways in which a C program has no next state. -/
inductive Trap
  /-- An access reads outside the object it was given. -/
  | oobRead
  /-- An access writes outside the object it was given. -/
  | oobWrite
  /-- A null pointer is dereferenced. -/
  | nullDeref
  /-- Memory is used after it was freed. -/
  | useAfterFree
  /-- A signed integer leaves its range. -/
  | intOverflow
  /-- `assert` finds its condition false. -/
  | assertFailed
  /-- The program calls `exit`. -/
  | exited
  /-- A loop does not end. -/
  | hangs
  deriving DecidableEq, Repr

/-- A step that does not trap goes on with its result. -/
@[simp] theorem ok_bind {ε α β : Type} (a : α) (f : α → Except ε β) :
    (Except.ok a >>= f) = f a := rfl

/-- A trap ends the computation. -/
@[simp] theorem error_bind {ε α β : Type} (e : ε) (f : α → Except ε β) :
    ((Except.error e : Except ε α) >>= f) = .error e := rfl

/-- `pure` is a result without a trap. -/
@[simp] theorem pure_eq_ok {ε α : Type} (a : α) : (pure a : Except ε α) = .ok a := rfl

/-- A computation in sequence succeeds exactly when both of its parts do. -/
theorem bind_eq_ok {ε α β : Type} {x : Except ε α} {f : α → Except ε β} {b : β} :
    (x >>= f) = .ok b ↔ ∃ a, x = .ok a ∧ f a = .ok b := by
  cases x with
  | error e => simp
  | ok a => simp

/-- One allocated object. `byte` is total. What it holds at and past `size` is never the
result of a checked access. -/
structure Block where
  size : Nat
  byte : Nat → UInt8

namespace Block

/-- The `n` bytes from offset `off` on. -/
def bytes (b : Block) (off n : Nat) : List UInt8 :=
  (List.range n).map fun i => b.byte (off + i)

/-- The block with `bs` stored from offset `off` on. -/
def put (b : Block) (off : Nat) (bs : List UInt8) : Block :=
  { b with byte := fun i =>
      if off ≤ i ∧ i < off + bs.length then bs.getD (i - off) 0 else b.byte i }

/-- Read `n` bytes from offset `off`. -/
def load (b : Block) (off n : Nat) : Except Trap (List UInt8) :=
  if off + n ≤ b.size then .ok (b.bytes off n) else .error .oobRead

/-- Write `bs` from offset `off` on. -/
def store (b : Block) (off : Nat) (bs : List UInt8) : Except Trap Block :=
  if off + bs.length ≤ b.size then .ok (b.put off bs) else .error .oobWrite

/-- The block that holds exactly `bs`. -/
def ofBytes (bs : List UInt8) : Block where
  size := bs.length
  byte := fun i => bs.getD i 0

/-- As many bytes are read as were asked for. -/
@[simp] theorem length_bytes (b : Block) (off n : Nat) : (b.bytes off n).length = n := by
  simp [bytes]

/-- Nothing is read when nothing is asked for. -/
@[simp] theorem bytes_zero (b : Block) (off : Nat) : b.bytes off 0 = [] := rfl

/-- One byte of those that are read. -/
@[simp] theorem getElem_bytes (b : Block) (off n i : Nat) (h : i < (b.bytes off n).length) :
    (b.bytes off n)[i] = b.byte (off + i) := by
  simp [bytes]

/-- A write does not change the size of a block. -/
@[simp] theorem size_put (b : Block) (off : Nat) (bs : List UInt8) :
    (b.put off bs).size = b.size := rfl

/-- A block of given bytes has their number as its size. -/
@[simp] theorem size_ofBytes (bs : List UInt8) : (ofBytes bs).size = bs.length := rfl

/-- A store of no bytes changes nothing. -/
@[simp] theorem put_nil (b : Block) (off : Nat) : b.put off [] = b := by
  have hbyte : (b.put off []).byte = b.byte := by
    funext i
    simp only [put, List.length_nil]
    rw [if_neg (by omega)]
  cases b
  simpa [put] using hbyte

/-- Two neighbouring ranges read as one. -/
theorem bytes_append (b : Block) (off n m : Nat) :
    b.bytes off (n + m) = b.bytes off n ++ b.bytes (off + n) m := by
  simp [bytes, List.range_add, Function.comp_def, Nat.add_assoc]

/-- The front of a range. -/
theorem take_bytes (b : Block) (off : Nat) {m n : Nat} (h : m ≤ n) :
    (b.bytes off n).take m = b.bytes off m := by
  obtain ⟨k, rfl⟩ := Nat.exists_eq_add_of_le h
  rw [bytes_append, List.take_left' (by simp)]

/-- What is left of a range after its front. -/
theorem drop_bytes (b : Block) (off : Nat) {m n : Nat} (h : m ≤ n) :
    (b.bytes off n).drop m = b.bytes (off + m) (n - m) := by
  obtain ⟨k, rfl⟩ := Nat.exists_eq_add_of_le h
  rw [bytes_append, List.drop_left' (by simp), Nat.add_sub_cancel_left]

/-- Two blocks with the same bytes in a range read the same there. -/
theorem bytes_congr {b c : Block} {off n : Nat}
    (h : ∀ i, off ≤ i → i < off + n → b.byte i = c.byte i) :
    b.bytes off n = c.bytes off n := by
  apply List.map_congr_left
  intro i hi
  have hlt : i < n := List.mem_range.mp hi
  exact h (off + i) (by omega) (by omega)

/-- The stored range reads back what was stored. -/
theorem bytes_put_self (b : Block) (off : Nat) (bs : List UInt8) :
    (b.put off bs).bytes off bs.length = bs := by
  apply List.ext_getElem (by simp)
  intro i h1 h2
  simp [put, h2]

/-- A range that the store does not touch reads as before. -/
theorem bytes_put_of_disjoint (b : Block) (off : Nat) (bs : List UInt8) (off' n : Nat)
    (h : off' + n ≤ off ∨ off + bs.length ≤ off') :
    (b.put off bs).bytes off' n = b.bytes off' n := by
  apply bytes_congr
  intro i h1 h2
  simp only [put]
  rw [if_neg (by omega)]

/-- The head of the stored range. -/
theorem bytes_put_take (b : Block) (off : Nat) (bs : List UInt8) (n : Nat)
    (h : n ≤ bs.length) : (b.put off bs).bytes off n = bs.take n := by
  rw [← take_bytes _ _ h, bytes_put_self]

/-- A block built from a list reads that list. -/
theorem bytes_ofBytes (bs : List UInt8) (off n : Nat) (h : off + n ≤ bs.length) :
    (ofBytes bs).bytes off n = (bs.drop off).take n := by
  apply List.ext_getElem (by simp; omega)
  intro i h1 h2
  have hi : i < n := by simpa using h1
  have hlt : off + i < bs.length := by omega
  simp [ofBytes, List.getElem?_eq_getElem hlt]

/-- A checked read succeeds inside the block, and gives its bytes. -/
theorem load_eq_ok {b : Block} {off n : Nat} {bs : List UInt8} :
    b.load off n = .ok bs ↔ off + n ≤ b.size ∧ bs = b.bytes off n := by
  unfold load
  split
  · simp_all [eq_comm]
  · simp
    omega

/-- A checked read inside the block gives its bytes. -/
theorem load_of_le {b : Block} {off n : Nat} (h : off + n ≤ b.size) :
    b.load off n = .ok (b.bytes off n) := by
  simp [load, h]

/-- A checked write inside the block succeeds. -/
theorem store_of_le {b : Block} {off : Nat} {bs : List UInt8} (h : off + bs.length ≤ b.size) :
    b.store off bs = .ok (b.put off bs) := by
  simp [store, h]

/-- A checked store succeeds exactly when it stays inside the block. -/
theorem store_eq_ok {b b' : Block} {off : Nat} {bs : List UInt8} :
    b.store off bs = .ok b' ↔ off + bs.length ≤ b.size ∧ b' = b.put off bs := by
  unfold store
  split
  · simp_all [eq_comm]
  · simp
    omega

/-- A checked store traps exactly when it leaves the block. -/
theorem store_eq_error {b : Block} {off : Nat} {bs : List UInt8} {t : Trap} :
    b.store off bs = .error t ↔ b.size < off + bs.length ∧ t = .oobWrite := by
  unfold store
  split
  · simp; omega
  · simp [eq_comm]; omega

end Block

end Compostela.Memory
