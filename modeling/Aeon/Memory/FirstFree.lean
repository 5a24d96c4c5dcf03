/-
The search for a single block: it returns the lowest clear bit of the whole words of the bitmap,
whatever word and bit that is, and with that bit set the search goes on behind it.
-/
import Mathlib.Order.Bounds.Basic
import Aeon.Memory.AllocatorSpec

namespace Aeon.Memory

/-- The free blocks that the searches look at. -/
def freeBlocks (a : MemoryAllocator) : Set Nat := {k | k < scannedBlocks a ∧ Bitmap.test a.memMap k = false}

section

variable {a : MemoryAllocator}

theorem mem_freeBlocks_iff {k : Nat} : k ∈ freeBlocks a ↔ k < scannedBlocks a ∧ offers 1#32 a k = true := by
  rw [offers_one, Bool.not_eq_true']
  rfl

/-- There is an answer just when a block is free. -/
theorem memFindFirstFreeBlock_ne_iff : memFindFirstFreeBlock a ≠ outOfMemory ↔ (freeBlocks a).Nonempty := by
  constructor
  · intro h
    have htakes := @takes_of_find 1#32 a h
    exact ⟨_, mem_freeBlocks_iff.2 ⟨htakes.upper, htakes.offered⟩⟩
  · rintro ⟨k, hk⟩
    obtain ⟨hlt, hoffers⟩ := mem_freeBlocks_iff.1 hk
    exact find_of_offered hlt hoffers

/-- It is the lowest one. -/
theorem memFindFirstFreeBlock_isLeast (h : memFindFirstFreeBlock a ≠ outOfMemory) :
    IsLeast (freeBlocks a) (memFindFirstFreeBlock a).toNat := by
  have htakes := @takes_of_find 1#32 a h
  refine ⟨mem_freeBlocks_iff.2 ⟨htakes.upper, htakes.offered⟩, fun k hk => ?_⟩
  by_contra hlt
  have hfirst : offers 1#32 a k = false := htakes.first k (Nat.zero_le k) (not_le.1 hlt)
  rw [(mem_freeBlocks_iff.1 hk).2] at hfirst
  cases hfirst

/-- Marking a block takes it from the free ones. -/
theorem freeBlocks_memMemoryMapSet (b : KUint32) :
    freeBlocks (memMemoryMapSet b a) = freeBlocks a \ {b.toNat} := by
  rw [memMemoryMapSet_eq]
  ext k
  constructor
  · rintro ⟨hlt, hclear⟩
    rw [Bitmap.test_set (by omega), Bool.or_eq_false_iff, decide_eq_false_iff_not] at hclear
    exact ⟨⟨hlt, hclear.2⟩, hclear.1⟩
  · rintro ⟨⟨hlt, hclear⟩, hne⟩
    refine ⟨hlt, ?_⟩
    rw [Bitmap.test_set (by omega), hclear, Bool.or_false]
    exact decide_eq_false hne

/-- The next search passes the block once it is marked. -/
theorem memFindFirstFreeBlock_lt_next (h : memFindFirstFreeBlock a ≠ outOfMemory)
    (hnext : memFindFirstFreeBlock (memMemoryMapSet (memFindFirstFreeBlock a) a) ≠ outOfMemory) :
    memFindFirstFreeBlock a < memFindFirstFreeBlock (memMemoryMapSet (memFindFirstFreeBlock a) a) := by
  have hmem := (memFindFirstFreeBlock_isLeast hnext).1
  rw [freeBlocks_memMemoryMapSet] at hmem
  obtain ⟨hfree, hne⟩ := hmem
  rw [BitVec.lt_def]
  exact lt_of_le_of_ne ((memFindFirstFreeBlock_isLeast h).2 hfree) (Ne.symm hne)

end

/-- `b` is the block that a search for a single block is to return: the lowest bit that is clear.
Once it is set the next search goes further, and no other bit has changed. -/
structure FirstFree (a : MemoryAllocator) (b : KUint32) : Prop where
  scanned : b.toNat < 32 * (a.blockCount / 32#32).toNat
  clear : memMemoryMapTest b a = false
  lower : ∀ k < b, memMemoryMapTest k a = true
  next : b < memFindFirstFreeBlock (memMemoryMapSet b a) ∨ memFindFirstFreeBlock (memMemoryMapSet b a) = outOfMemory
  others : ∀ k ≠ b, memMemoryMapTest k (memMemoryMapSet b a) = memMemoryMapTest k a

/-- Whatever the bitmap and the number of blocks, the search has an answer just when a bit of the
whole words is clear, and then it is the lowest one. -/
theorem memFindFirstFreeBlock_firstFree (a : MemoryAllocator) :
    (memFindFirstFreeBlock a ≠ outOfMemory ↔
      ∃ k : KUint32, k.toNat < 32 * (a.blockCount / 32#32).toNat ∧ memMemoryMapTest k a = false) ∧
      (memFindFirstFreeBlock a ≠ outOfMemory → FirstFree a (memFindFirstFreeBlock a)) := by
  have hscanned : 32 * (a.blockCount / 32#32).toNat = scannedBlocks a := by
    rw [div_32_toNat, Nat.mul_comm]
    rfl
  have hbound := scannedBlocks_lt a
  rw [hscanned]
  constructor
  · rw [memFindFirstFreeBlock_ne_iff]
    constructor
    · rintro ⟨k, hlt, hclear⟩
      have hk : (BitVec.ofNat 32 k).toNat = k := by
        rw [BitVec.toNat_ofNat]
        omega
      refine ⟨BitVec.ofNat 32 k, ?_, ?_⟩
      · rwa [hk]
      · rwa [memMemoryMapTest_eq, hk]
    · rintro ⟨k, hlt, hclear⟩
      rw [memMemoryMapTest_eq] at hclear
      exact ⟨k.toNat, hlt, hclear⟩
  · intro h
    obtain ⟨⟨hlt, hclear⟩, hleast⟩ := memFindFirstFreeBlock_isLeast h
    refine ⟨by rwa [hscanned], by rwa [memMemoryMapTest_eq], fun k hk => ?_, ?_, fun k hk => ?_⟩
    · rw [BitVec.lt_def] at hk
      rw [memMemoryMapTest_eq, ← Bool.not_eq_false]
      intro hfree
      exact absurd hk (not_lt.2 (hleast ⟨hk.trans hlt, hfree⟩))
    · rw [or_iff_not_imp_right]
      exact memFindFirstFreeBlock_lt_next h
    · rw [memMemoryMapTest_set, decide_eq_false hk, Bool.false_or]

/-- Two whole words of the bitmap with only the last bit clear, and blocks past them. -/
def lastBitFree : MemoryAllocator :=
  ⟨0#32, 0#32, 70#32, fun i => if i = 0 then 0xffffffff#32 else if i = 1 then 0x7fffffff#32 else 0#32⟩

theorem memFindFirstFreeBlock_lastBit : memFindFirstFreeBlock lastBitFree = 63#32 ∧ FirstFree lastBitFree 63#32 := by
  have hfound : memFindFirstFreeBlock lastBitFree = 63#32 := by decide
  have hfirst := (memFindFirstFreeBlock_firstFree lastBitFree).2 (by rw [hfound]; decide)
  rw [hfound] at hfirst
  exact ⟨hfound, hfirst⟩

end Aeon.Memory
