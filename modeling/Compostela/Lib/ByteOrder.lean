import Mathlib.Algebra.Order.Ring.Nat
import Mathlib.Tactic.Ring

/-!
# `Compostela.Lib.ByteOrder`: fixed-width integers as bytes

A machine word of `w` bytes, read as a natural number, has two byte images: least
significant byte first (`leBytes`) and most significant byte first (`beBytes`).
`ofLe` and `ofBe` read an image back.

* `ofLe_leBytes` / `leBytes_ofLe`: the two round trips, and `ofBe_beBytes` their
  big-endian form.
* `byteSwap`: the value whose little-endian image is the big-endian image of its
  argument. `leBytes_byteSwap` states this, and `byteSwap_byteSwap` says that the swap
  is its own inverse on a word.
* `bswap` is `byteSwap` on a bit vector. `leBytes_bswap` is the form a program on a
  little-endian host needs: the memory image of a swapped word is its network image.
-/

set_option autoImplicit false

namespace Compostela.ByteOrder

/-- The `w` bytes of `n`, least significant first. Bits above `8 * w` are dropped. -/
def leBytes : Nat → Nat → List UInt8
  | 0, _ => []
  | w + 1, n => UInt8.ofNat (n % 256) :: leBytes w (n / 256)

/-- The number whose bytes, least significant first, are the argument. -/
def ofLe : List UInt8 → Nat
  | [] => 0
  | b :: bs => b.toNat + 256 * ofLe bs

/-- The `w` bytes of `n`, most significant first. -/
def beBytes (w n : Nat) : List UInt8 := (leBytes w n).reverse

/-- The number whose bytes, most significant first, are the argument. -/
def ofBe (bs : List UInt8) : Nat := ofLe bs.reverse

/-- The word with the bytes of `n` in the opposite order. -/
def byteSwap (w n : Nat) : Nat := ofBe (leBytes w n)

/-- A number of `w` bytes, the lowest first, has `w` bytes. -/
@[simp] theorem length_leBytes (w n : Nat) : (leBytes w n).length = w := by
  induction w generalizing n with
  | zero => rfl
  | succ w ih => simp [leBytes, ih]

/-- A number of `w` bytes, the highest first, has `w` bytes. -/
@[simp] theorem length_beBytes (w n : Nat) : (beBytes w n).length = w := by
  simp [beBytes]

/-- The first round trip: writing `w` bytes and reading them keeps `n` modulo the word. -/
theorem ofLe_leBytes (w n : Nat) : ofLe (leBytes w n) = n % 256 ^ w := by
  induction w generalizing n with
  | zero => simp [leBytes, ofLe, Nat.mod_one]
  | succ w ih =>
    have hbyte : (UInt8.ofNat (n % 256)).toNat = n % 256 := by
      simp [UInt8.toNat_ofNat']
    rw [leBytes, ofLe, ih, hbyte, Nat.pow_succ', Nat.mod_mul]

/-- A list of bytes read as a number is smaller than its word. -/
theorem ofLe_lt (bs : List UInt8) : ofLe bs < 256 ^ bs.length := by
  induction bs with
  | nil => simp [ofLe]
  | cons b bs ih =>
    have hb : b.toNat < 256 := b.toNat_lt
    rw [ofLe, List.length_cons, Nat.pow_succ]
    omega

/-- The second round trip: reading bytes and writing as many gives them back. -/
theorem leBytes_ofLe (bs : List UInt8) : leBytes bs.length (ofLe bs) = bs := by
  induction bs with
  | nil => rfl
  | cons b bs ih =>
    have hb : b.toNat < 256 := b.toNat_lt
    have hhead : (b.toNat + 256 * ofLe bs) % 256 = b.toNat := by omega
    have htail : (b.toNat + 256 * ofLe bs) / 256 = ofLe bs := by omega
    rw [List.length_cons, ofLe, leBytes, hhead, htail, ih, UInt8.ofNat_toNat]

/-- The big-endian form of `ofLe_leBytes`. -/
theorem ofBe_beBytes (w n : Nat) : ofBe (beBytes w n) = n % 256 ^ w := by
  rw [ofBe, beBytes, List.reverse_reverse, ofLe_leBytes]

/-- The big-endian form of `ofLe_lt`. -/
theorem ofBe_lt (bs : List UInt8) : ofBe bs < 256 ^ bs.length := by
  simpa [ofBe] using ofLe_lt bs.reverse

/-- A swapped number fits the bytes that it had. -/
theorem byteSwap_lt (w n : Nat) : byteSwap w n < 256 ^ w := by
  simpa [byteSwap] using ofBe_lt (leBytes w n)

/-- The little-endian image of the swapped word is the big-endian image of the word. -/
theorem leBytes_byteSwap (w n : Nat) : leBytes w (byteSwap w n) = beBytes w n := by
  have h := leBytes_ofLe (leBytes w n).reverse
  rw [List.length_reverse, length_leBytes] at h
  exact h

/-- Swapping twice gives the word back. -/
theorem byteSwap_byteSwap (w n : Nat) : byteSwap w (byteSwap w n) = n % 256 ^ w := by
  rw [byteSwap, leBytes_byteSwap, ofBe_beBytes]

/-! ### Bit vectors -/

/-- The bytes of a word in the opposite order. -/
def bswap (w : Nat) {n : Nat} (x : BitVec n) : BitVec n := .ofNat n (byteSwap w x.toNat)

section
variable {w n : Nat} (hw : 2 ^ n = 256 ^ w)
include hw

/-- The swap of a bit vector is the swap of its number. -/
theorem toNat_bswap (x : BitVec n) : (bswap w x).toNat = byteSwap w x.toNat := by
  rw [bswap, BitVec.toNat_ofNat, hw, Nat.mod_eq_of_lt (byteSwap_lt w x.toNat)]

/-- The memory image of a swapped word on a little-endian host is the word's network
image. -/
theorem leBytes_bswap (x : BitVec n) : leBytes w (bswap w x).toNat = beBytes w x.toNat := by
  rw [toNat_bswap hw, leBytes_byteSwap]

/-- A second swap undoes the first. -/
theorem bswap_bswap (x : BitVec n) : bswap w (bswap w x) = x := by
  apply BitVec.eq_of_toNat_eq
  rw [toNat_bswap hw, toNat_bswap hw, byteSwap_byteSwap, ← hw]
  exact Nat.mod_eq_of_lt x.isLt

/-- Reading a word's network image in host order and swapping gives the word. -/
theorem bswap_ofLe_beBytes (x : BitVec n) :
    bswap w (BitVec.ofNat n (ofLe (beBytes w x.toNat))) = x := by
  rw [← leBytes_bswap hw, ofLe_leBytes, ← hw, Nat.mod_eq_of_lt (bswap w x).isLt,
    BitVec.ofNat_toNat, BitVec.setWidth_eq, bswap_bswap hw]

end

end Compostela.ByteOrder
