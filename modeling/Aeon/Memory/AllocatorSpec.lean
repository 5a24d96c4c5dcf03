/-
What each function of `memory.c` does: the bitmap functions are the operations on single bits, the
searches take the first block their own check accepts, `kmalloc` marks and maps a run of blocks
from there, and `kfree` of a mapping unmaps it and clears as many bits as it had pages.
-/
import Aeon.Lib.Bitmap
import Aeon.Memory.Allocator
import Aeon.Memory.Mapping

namespace Aeon.Memory

/-! ## The bitmap -/

theorem and_bit_ne_zero (x : KUint32) {j : Nat} (hj : j < 32) :
    (x &&& (1#32 <<< j) != 0#32) = x.getLsbD j := by
  rw [← BitVec.twoPow_eq, BitVec.and_twoPow]
  cases x.getLsbD j with
  | false => simp
  | true =>
    have h : (BitVec.twoPow 32 j).getLsbD j = true := by simp [hj]
    rw [if_pos rfl, bne_iff_ne]
    intro h0
    rw [h0] at h
    simp at h

theorem and_bit_eq_zero (x : KUint32) {j : Nat} (hj : j < 32) :
    (x &&& (1#32 <<< j) == 0#32) = !x.getLsbD j := by
  rw [← and_bit_ne_zero x hj, bne, Bool.not_not]

theorem div_32_toNat (bit : KUint32) : (bit / 32#32).toNat = bit.toNat / 32 := by
  rw [BitVec.toNat_udiv, BitVec.toNat_ofNat]

theorem mod_32_toNat (bit : KUint32) : (bit % 32#32).toNat = bit.toNat % 32 := by
  rw [BitVec.toNat_umod, BitVec.toNat_ofNat]

theorem memMemoryMapTest_eq (bit : KUint32) (a : MemoryAllocator) :
    memMemoryMapTest bit a = Bitmap.test a.memMap bit.toNat := by
  rw [memMemoryMapTest, mod_32_toNat, div_32_toNat, and_bit_ne_zero _ (Nat.mod_lt _ (by omega)), Bitmap.test]

theorem memMemoryMapSet_eq (bit : KUint32) (a : MemoryAllocator) :
    memMemoryMapSet bit a = { a with memMap := Bitmap.set a.memMap bit.toNat } := by
  simp only [memMemoryMapSet, mod_32_toNat, div_32_toNat, Bitmap.set, BitVec.twoPow_eq]

theorem memMemoryMapUnset_eq (bit : KUint32) (a : MemoryAllocator) :
    memMemoryMapUnset bit a = { a with memMap := Bitmap.unset a.memMap bit.toNat } := by
  simp only [memMemoryMapUnset, mod_32_toNat, div_32_toNat, Bitmap.unset, BitVec.twoPow_eq]

theorem memMemoryMapTest_set (k b : KUint32) (a : MemoryAllocator) :
    memMemoryMapTest k (memMemoryMapSet b a) = (decide (k = b) || memMemoryMapTest k a) := by
  rw [memMemoryMapTest_eq, memMemoryMapTest_eq, memMemoryMapSet_eq]
  dsimp only
  rw [Bitmap.test_set (by omega)]
  congr 1
  exact decide_eq_decide.2 BitVec.toNat_inj

theorem setLoop_eq : ∀ (rem : Nat) (bit : KUint32) (a : MemoryAllocator), bit.toNat + rem < 2 ^ 32 →
    setLoop rem bit a = { a with memMap := Bitmap.setRun rem bit.toNat a.memMap }
  | 0, _, _, _ => rfl
  | rem + 1, bit, a, h => by
    rw [setLoop, setLoop_eq rem _ _ (by rw [succ_toNat (by omega)]; omega), succ_toNat (by omega),
      memMemoryMapSet_eq, Bitmap.setRun]

theorem unsetLoop_eq : ∀ (rem : Nat) (bit : KUint32) (a : MemoryAllocator), bit.toNat + rem < 2 ^ 32 →
    unsetLoop rem bit a = { a with memMap := Bitmap.unsetRun rem bit.toNat a.memMap }
  | 0, _, _, _ => rfl
  | rem + 1, bit, a, h => by
    rw [unsetLoop, unsetLoop_eq rem _ _ (by rw [succ_toNat (by omega)]; omega), succ_toNat (by omega),
      memMemoryMapUnset_eq, Bitmap.unsetRun]

/-! ## The searches -/

theorem scanBits_some {word : KUint32} {accept : Nat → Bool} : ∀ {rem j r : Nat}, j + rem ≤ 32 →
    scanBits word accept rem j = some r →
      j ≤ r ∧ r < j + rem ∧ word.getLsbD r = false ∧ accept r = true ∧
      ∀ i, j ≤ i → i < r → (!word.getLsbD i && accept i) = false
  | rem + 1, j, r, hj, h => by
    rw [scanBits, and_bit_eq_zero _ (by omega)] at h
    split at h
    · rename_i hit
      cases h
      rw [Bool.and_eq_true, Bool.not_eq_true'] at hit
      exact ⟨le_refl _, by omega, hit.1, hit.2, fun i h1 h2 => absurd h2 (by omega)⟩
    · rename_i miss
      obtain ⟨h1, h2, hclear, hacc, hfirst⟩ := scanBits_some (by omega) h
      refine ⟨by omega, by omega, hclear, hacc, fun i hi hlt => ?_⟩
      rcases Nat.eq_or_lt_of_le hi with rfl | hi
      · exact Bool.eq_false_iff.2 miss
      · exact hfirst i hi hlt

theorem scanBits_none {word : KUint32} {accept : Nat → Bool} : ∀ {rem j : Nat}, j + rem ≤ 32 →
    scanBits word accept rem j = none → ∀ i, j ≤ i → i < j + rem → (!word.getLsbD i && accept i) = false
  | 0, _, _, _, _, h1, h2 => absurd h2 (by omega)
  | rem + 1, j, hj, h, i, h1, h2 => by
    rw [scanBits, and_bit_eq_zero _ (by omega)] at h
    split at h
    · cases h
    · rename_i miss
      rcases Nat.eq_or_lt_of_le h1 with rfl | h1
      · exact Bool.eq_false_iff.2 miss
      · exact scanBits_none (by omega) h i h1 (by omega)

/-- Block `k` is clear and passes the check: the search takes the first such block. -/
def blockOffered (memMap : Nat → KUint32) (accept : Nat → Nat → Bool) (k : Nat) : Bool :=
  !Bitmap.test memMap k && accept (k / 32) (k % 32)

theorem blockOffered_full {memMap : Nat → KUint32} (accept : Nat → Nat → Bool) {k : Nat}
    (h : memMap (k / 32) = 0xffffffff#32) : blockOffered memMap accept k = false := by
  have hbit : Bitmap.test memMap k = true := by
    rw [Bitmap.test, h, show 0xffffffff#32 = BitVec.allOnes 32 by decide, BitVec.getLsbD_allOnes]
    exact decide_eq_true (Nat.mod_lt _ (by omega))
  rw [blockOffered, hbit]
  rfl

theorem blockOffered_word (memMap : Nat → KUint32) (accept : Nat → Nat → Bool) {i j : Nat} (hj : j < 32) :
    blockOffered memMap accept (i * 32 + j) = (!(memMap i).getLsbD j && accept i j) := by
  rw [blockOffered, Bitmap.test, show (i * 32 + j) / 32 = i by omega, show (i * 32 + j) % 32 = j by omega]

/-- Block `k` is the first one offered from `lo` on, and lies below `hi`. -/
structure FirstOffered (memMap : Nat → KUint32) (accept : Nat → Nat → Bool) (lo hi k : Nat) : Prop where
  lower : lo ≤ k
  upper : k < hi
  offered : blockOffered memMap accept k = true
  first : ∀ j, lo ≤ j → j < k → blockOffered memMap accept j = false

/-- `r` is the answer of a search of the blocks from `lo` to `hi`: the first one offered, or that
there is none. -/
def SearchResult (memMap : Nat → KUint32) (accept : Nat → Nat → Bool) (lo hi : Nat) (r : KUint32) : Prop :=
  (r = outOfMemory ∧ ∀ k, lo ≤ k → k < hi → blockOffered memMap accept k = false) ∨
  ∃ k, r = BitVec.ofNat 32 k ∧ FirstOffered memMap accept lo hi k

theorem SearchResult.prepend {memMap : Nat → KUint32} {accept : Nat → Nat → Bool} {lo mid hi : Nat} {r : KUint32}
    (h : SearchResult memMap accept mid hi r) (hle : lo ≤ mid)
    (hskip : ∀ k, lo ≤ k → k < mid → blockOffered memMap accept k = false) :
    SearchResult memMap accept lo hi r := by
  rcases h with ⟨hr, hnone⟩ | ⟨k, hr, h1, h2, hoff, hfirst⟩
  · refine .inl ⟨hr, fun k hk hlt => ?_⟩
    by_cases hm : k < mid
    · exact hskip k hk hm
    · exact hnone k (by omega) hlt
  · refine .inr ⟨k, hr, by omega, h2, hoff, fun j hj hlt => ?_⟩
    by_cases hm : j < mid
    · exact hskip j hj hm
    · exact hfirst j (by omega) hlt

/-- The search over `rem` words from `i` on returns the first block offered there. -/
theorem scanWords_spec (memMap : Nat → KUint32) (accept : Nat → Nat → Bool) : ∀ (rem i : Nat),
    SearchResult memMap accept (i * 32) ((i + rem) * 32) (scanWords memMap accept rem i)
  | 0, i => .inl ⟨rfl, fun k h1 h2 => absurd h2 (by omega)⟩
  | rem + 1, i => by
    have hnext := scanWords_spec memMap accept rem (i + 1)
    rw [show i + 1 + rem = i + (rem + 1) by omega] at hnext
    rw [scanWords]
    split
    · rename_i hfull
      refine hnext.prepend (by omega) fun k h1 h2 => blockOffered_full accept ?_
      rwa [show k / 32 = i by omega]
    · split
      · rename_i j hbits
        obtain ⟨-, hj, hclear, hacc, hfirst⟩ := scanBits_some (by omega) hbits
        rw [Nat.zero_add] at hj
        refine .inr ⟨i * 32 + j, rfl, by omega, by omega, ?_, fun k h1 h2 => ?_⟩
        · rw [blockOffered_word memMap accept hj, hclear, hacc]
          rfl
        · have := hfirst (k - i * 32) (Nat.zero_le _) (by omega)
          rwa [← blockOffered_word memMap accept (by omega), show i * 32 + (k - i * 32) = k by omega] at this
      · rename_i hbits
        refine hnext.prepend (by omega) fun k h1 h2 => ?_
        have := scanBits_none (by omega) hbits (k - i * 32) (Nat.zero_le _) (by omega)
        rwa [← blockOffered_word memMap accept (by omega), show i * 32 + (k - i * 32) = k by omega] at this

/-! ## The block `kmalloc` takes -/

/-- The blocks `kmalloc` asks the search for. -/
def blockRequest (size : KSize) : KSize := size / memBlockSize + 1#32

theorem blockRequest_toNat (size : KSize) : (blockRequest size).toNat = pageCount size :=
  requiredPageCount_toNat size

/-- The blocks the searches look at: whole words of the bitmap only. -/
def scannedBlocks (a : MemoryAllocator) : Nat := a.blockCount.toNat / 32 * 32

/-- A search for `n` blocks offers block `k`: it is clear and, unless one block is enough, passes
the check of the range search. -/
def offers (n : KSize) (a : MemoryAllocator) (k : Nat) : Bool :=
  blockOffered a.memMap (fun i j => n == 1#32 || rangeCheck a n i j) k

theorem offers_one (a : MemoryAllocator) (k : Nat) : offers 1#32 a k = !Bitmap.test a.memMap k := by
  rw [offers, blockOffered, BEq.rfl, Bool.true_or, Bool.and_true]

/-- Block `k` is the one a search for `n` blocks takes. -/
def Takes (n : KSize) (a : MemoryAllocator) (k : Nat) : Prop :=
  FirstOffered a.memMap (fun i j => n == 1#32 || rangeCheck a n i j) 0 (scannedBlocks a) k

theorem searchResult_range (n : KSize) (a : MemoryAllocator) :
    SearchResult a.memMap (fun i j => n == 1#32 || rangeCheck a n i j) 0 (scannedBlocks a)
      (memFindFirstFreeBlockRange n a) := by
  have hwords : (a.blockCount / 32#32).toNat = a.blockCount.toNat / 32 := div_32_toNat _
  rw [memFindFirstFreeBlockRange, memFindFirstFreeBlock, hwords, scannedBlocks]
  split
  · rename_i hn
    have := scanWords_spec a.memMap (fun _ _ => true) (a.blockCount.toNat / 32) 0
    simpa only [hn, BEq.rfl, Bool.true_or, Nat.zero_mul, Nat.zero_add] using this
  · rename_i hn
    have := scanWords_spec a.memMap (rangeCheck a n) (a.blockCount.toNat / 32) 0
    simpa only [beq_eq_false_iff_ne.2 hn, Bool.false_or, Nat.zero_mul, Nat.zero_add] using this

theorem scannedBlocks_lt (a : MemoryAllocator) : scannedBlocks a < 2 ^ 32 - 1 := by
  have := a.blockCount.isLt
  unfold scannedBlocks
  omega

theorem takes_of_find {n : KSize} {a : MemoryAllocator} (h : memFindFirstFreeBlockRange n a ≠ outOfMemory) :
    Takes n a (memFindFirstFreeBlockRange n a).toNat := by
  rcases searchResult_range n a with ⟨hr, -⟩ | ⟨k, hr, hk⟩
  · exact absurd hr h
  · have := scannedBlocks_lt a
    have := hk.upper
    rw [hr, BitVec.toNat_ofNat, Nat.mod_eq_of_lt (by omega)]
    exact hk

theorem find_of_offered {n : KSize} {a : MemoryAllocator} {k : Nat} (hk : k < scannedBlocks a)
    (hoff : offers n a k = true) : memFindFirstFreeBlockRange n a ≠ outOfMemory := by
  rcases searchResult_range n a with ⟨-, hnone⟩ | ⟨k', hr, hk'⟩
  · have hno : offers n a k = false := hnone k (Nat.zero_le k) hk
    rw [hoff] at hno
    cases hno
  · intro h
    have := scannedBlocks_lt a
    have := hk'.upper
    have := congrArg BitVec.toNat (hr.symm.trans h)
    simp only [outOfMemory, BitVec.toNat_ofNat] at this
    omega

/-! ## `kmalloc` and `kfree` -/

theorem blockAddress_eq (x block : KUint32) : x + block * memBlockSize = pageAt x block.toNat := by
  apply BitVec.eq_of_toNat_eq
  simp [pageAt, memBlockSize, BitVec.toNat_add, BitVec.toNat_mul, Nat.mul_comm]

/-- The block the search of `kmalloc` returns. -/
def foundBlock (size : KSize) (a : MemoryAllocator) : KUint32 := memFindFirstFreeBlockRange (blockRequest size) a

def markBlocks (size : KSize) (a : MemoryAllocator) : MemoryAllocator :=
  setLoop (blockRequest size).toNat (foundBlock size a) a

theorem kmalloc_eq (size : KSize) (k : Kernel) : kmalloc size k =
    if foundBlock size k.allocator = outOfMemory then .halt (.panic "Out of physical memory.") k
    else (page ((markBlocks size k.allocator).minAddress + foundBlock size k.allocator * memBlockSize) size
      ptfReadWrite k.pageTable).lift fun pageTable => ⟨pageTable, markBlocks size k.allocator⟩ := rfl

/-- `kmalloc` marks the blocks from the one its search takes on, and maps them. -/
theorem kmalloc_ok {size : KSize} {k k' : Kernel} {v : KUint32} (hb : k.allocator.blockCount.toNat < 2 ^ 20)
    (h : kmalloc size k = .ok v k') :
    Takes (blockRequest size) k.allocator (foundBlock size k.allocator).toNat ∧
    page (pageAt k.allocator.minAddress (foundBlock size k.allocator).toNat) size ptfReadWrite k.pageTable =
      .ok v k'.pageTable ∧
    k'.allocator = { k.allocator with
      memMap := Bitmap.setRun (pageCount size) (foundBlock size k.allocator).toNat k.allocator.memMap } := by
  rw [kmalloc_eq] at h
  split at h
  · cases h
  · rename_i hne
    have htakes : Takes (blockRequest size) k.allocator (foundBlock size k.allocator).toNat := takes_of_find hne
    have hlt : (foundBlock size k.allocator).toNat + pageCount size < 2 ^ 32 := by
      have := htakes.upper
      have := pageCount_le size
      unfold scannedBlocks at *
      omega
    have hmark := setLoop_eq (pageCount size) _ k.allocator hlt
    rw [← blockRequest_toNat] at hmark
    rw [markBlocks, hmark, blockRequest_toNat, blockAddress_eq] at h
    obtain ⟨t, hpage, rfl⟩ := Outcome.lift_eq_ok.1 h
    exact ⟨htakes, hpage, rfl⟩

/-- `kmalloc` returns when its search is offered a block and the kernel tables have a free run; the
entries past that run keep their values. -/
theorem kmalloc_returns {size : KSize} {k : Kernel} {block start : Nat}
    (hblock : block < scannedBlocks k.allocator) (hoff : offers (blockRequest size) k.allocator block = true)
    (hrun : FreeRun k.pageTable kernelPageTablesLen start (pageCount size)) :
    ∃ v k', kmalloc size k = .ok v k' ∧ ∀ i, start + pageCount size ≤ i → k'.pageTable i = k.pageTable i := by
  obtain ⟨v, t', start', hp, hle, hpaged⟩ := page_returns
    ((markBlocks size k.allocator).minAddress + foundBlock size k.allocator * memBlockSize)
    (show ptfReadWrite &&& ptfUser = 0#32 by decide) hrun
  refine ⟨v, ⟨t', markBlocks size k.allocator⟩, ?_, fun i hi => hpaged.frame i (by omega)⟩
  have hne : foundBlock size k.allocator ≠ outOfMemory := find_of_offered hblock hoff
  rw [kmalloc_eq, if_neg hne, hp]
  rfl

/-- The first block `kfree` clears for a mapping of `frame`. -/
def releasedBlock (minAddress frame : KUint32) : Nat := ((minAddress - frame) / memBlockSize).toNat

/-- `kfree` counts the released blocks from the wrong end: block `b` is released as block `-b`
modulo 2^20. -/
theorem releasedBlock_eq (minAddress : KUint32) {block : Nat} (h : block < 2 ^ 20) :
    releasedBlock minAddress (pageAt minAddress block) = (2 ^ 20 - block) % 2 ^ 20 := by
  have := minAddress.isLt
  rw [releasedBlock, BitVec.toNat_udiv, BitVec.toNat_sub, pageAt_toNat, memBlockSize]
  simp only [BitVec.toNat_ofNat, Nat.reducePow, Nat.reduceMod]
  omega

theorem releasedBlock_lt (minAddress frame : KUint32) : releasedBlock minAddress frame < 2 ^ 20 := by
  have := (minAddress - frame).isLt
  rw [releasedBlock, BitVec.toNat_udiv, memBlockSize]
  simp only [BitVec.toNat_ofNat, Nat.reducePow, Nat.reduceMod]
  omega

theorem Backed.getPhysicalAddress {t : PageTable} {m : Mapping} (h : Backed t m) :
    getPhysicalAddress m.ptr t = m.frame := by
  have hentry := h.entries 0 (pageCount_pos m.size)
  rw [Nat.add_zero, pageAt_zero] at hentry
  rw [Memory.getPhysicalAddress, if_pos (kernel_pageDirIndex h.kernel)]
  change entryFrame (t m.start) = m.frame
  rw [hentry, entryFrame_mappedEntry h.aligned h.flags]

/-- `kfree` of a backed mapping returns: it unmaps the mapping and clears as many bits as it had
pages, from the released block on. -/
theorem Backed.kfree {k : Kernel} {m : Mapping} (h : Backed k.pageTable m) :
    kfree m.ptr k = .ok () ⟨clearRun k.pageTable m.start m.count, { k.allocator with
      memMap := Bitmap.unsetRun m.count (releasedBlock k.allocator.minAddress m.frame) k.allocator.memMap }⟩ := by
  have hcount : m.count ≤ 2 ^ 20 := pageCount_le m.size
  have hn : (BitVec.ofNat 32 m.count).toNat = m.count := by
    rw [BitVec.toNat_ofNat]
    omega
  have hlt := releasedBlock_lt k.allocator.minAddress m.frame
  rw [releasedBlock] at hlt
  simp only [Memory.kfree, h.unpage, h.getPhysicalAddress, Outcome.lift_ok, Outcome.bind_ok, hn]
  rw [unsetLoop_eq _ _ _ (by omega), releasedBlock]

/-! ## `mem_initialize` -/

def MemoryAllocator.header (a : MemoryAllocator) : KUint32 × KUint32 × KUint32 :=
  (a.minAddress, a.maxAddress, a.blockCount)

theorem memGetBytes_toNat_lt (lowmem highmem : KUint8) : (memGetBytes lowmem highmem).toNat < 2 ^ 26 := by
  rw [memGetBytes]
  generalize ((lowmem.setWidth 32 ||| highmem.setWidth 32 <<< 8 : KUint32).setWidth 16 : KUint16) = total
  have := total.isLt
  rw [BitVec.toNat_mul, BitVec.toNat_setWidth]
  simp only [BitVec.toNat_ofNat, Nat.reducePow, Nat.reduceMod]
  omega

/-- `mem_initialize` maps its bookkeeping at the highest free address and starts with a bitmap that
is clear as far as the page it cleared reaches. -/
theorem memInitialize_ok {b : Boot} {a : MemoryAllocator} {t : PageTable} (h : memInitialize b = .ok a t) :
    ∃ v, page (computeHighestFreeAddress b.pageTable) 4096#32 ptfReadWrite b.pageTable = .ok v t ∧
      a.minAddress = computeHighestFreeAddress b.pageTable + memBlockSize ∧
      a.maxAddress = memGetBytes b.lowmem b.highmem ∧
      a.blockCount =
        (memGetBytes b.lowmem b.highmem - computeHighestFreeAddress b.pageTable) / memBlockSize ∧
      ∀ k < 32 * bookkeepingWords, Bitmap.test a.memMap k = false := by
  simp only [memInitialize, Outcome.bind_eq_ok, Outcome.ok.injEq] at h
  obtain ⟨v, t', hpage, rfl, rfl⟩ := h
  refine ⟨v, hpage, rfl, rfl, rfl, fun k hk => ?_⟩
  have hword : k / 32 < bookkeepingWords := by omega
  simp only [Bitmap.test, if_pos hword, BitVec.getLsbD_zero]

theorem blockCount_lt {b : Boot} {a : MemoryAllocator} {t : PageTable} (h : memInitialize b = .ok a t) :
    a.blockCount.toNat < 2 ^ 20 := by
  obtain ⟨v, -, -, -, hc, -⟩ := memInitialize_ok h
  have := (memGetBytes b.lowmem b.highmem - computeHighestFreeAddress b.pageTable).isLt
  rw [hc, BitVec.toNat_udiv, memBlockSize]
  simp only [BitVec.toNat_ofNat, Nat.reducePow, Nat.reduceMod]
  omega

end Aeon.Memory
