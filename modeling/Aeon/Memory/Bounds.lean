/-
The upper end of the allocator's range. `mem_initialize` subtracts the first free address from the
memory size without comparing them, so the block count wraps on a machine whose reported memory
ends below the kernel. It counts the blocks from the first free address, one page before the
address it counts them from when it hands them out, so the last block ends past `max_address`;
requests of less than a block take the blocks in order, and reach it with the `block_count`-th.
-/
import Aeon.Memory.Session

namespace Aeon.Memory

/-! ## The block count -/

/-- The bytes of the header and of a word of the bitmap for every 32 blocks. -/
def bookkeepingBytes (a : MemoryAllocator) : Nat := 12 + 4 * ((a.blockCount.toNat + 31) / 32)

/-- The block count does not wrap, and the bookkeeping for it fits in the page that is cleared,
exactly when the first free address is not past the memory the CMOS reports. -/
theorem blockCount_fits_iff {b : Boot} {a₀ : MemoryAllocator} {t₀ : PageTable}
    (hb : memInitialize b = .ok a₀ t₀) :
    (a₀.blockCount.toNat * 4096 ≤ (memGetBytes b.lowmem b.highmem).toNat ∧ bookkeepingBytes a₀ ≤ 4096) ↔
      (computeHighestFreeAddress b.pageTable).toNat ≤ (memGetBytes b.lowmem b.highmem).toNat := by
  have hmax := memGetBytes_toNat_lt b.lowmem b.highmem
  constructor
  · rintro ⟨hle, -⟩
    by_contra hlt
    obtain ⟨v, -, -, -, hc, -⟩ := memInitialize_ok hb
    have hal := (aligned_iff _).1 (computeHighestFreeAddress_aligned b.pageTable)
    have := (computeHighestFreeAddress b.pageTable).isLt
    -- the difference wraps; the first free address is aligned, so the quotient is past the size
    rw [hc, BitVec.toNat_udiv, BitVec.toNat_sub, memBlockSize] at hle
    simp only [BitVec.toNat_ofNat, Nat.reducePow, Nat.reduceMod] at hle
    omega
  · intro hle
    rw [bookkeepingBytes, blockCount_toNat hb hle]
    omega

theorem blockCount_fits_twoMiB :
    allocatorTwoMiB.blockCount.toNat * 4096 ≤ (memGetBytes bootTwoMiB.lowmem bootTwoMiB.highmem).toNat ∧
      bookkeepingBytes allocatorTwoMiB ≤ 4096 :=
  (blockCount_fits_iff memInitialize_twoMiB).2 (by rw [computeHighestFreeAddress_twoMiB]; decide)

/-- The kernel of `bootTwoMiB` on a machine that reports 1024 KiB. -/
def bootOneMiB : Boot := { bootTwoMiB with lowmem := 0x00#8, highmem := 0x04#8 }

/-- With 1024 KiB reported, all of it below the kernel's end, the block count wraps. -/
theorem blockCount_wraps :
    ¬∀ (b : Boot) (a₀ : MemoryAllocator) (t₀ : PageTable), memInitialize b = .ok a₀ t₀ →
      a₀.blockCount.toNat * 4096 ≤ (memGetBytes b.lowmem b.highmem).toNat ∧ bookkeepingBytes a₀ ≤ 4096 := by
  intro h
  cases hb : memInitialize bootOneMiB with
  | ok a t =>
    obtain ⟨v, -, -, -, hc, -⟩ := memInitialize_ok hb
    obtain ⟨hle, -⟩ := h bootOneMiB a t hb
    rw [show bootOneMiB.pageTable = bootTwoMiB.pageTable by rfl, computeHighestFreeAddress_twoMiB] at hc
    rw [hc] at hle
    exact absurd hle (by decide)
  | halt e t =>
    -- the boot is the one of `memInitialize_twoMiB` as far as `page` can see
    have hok := memInitialize_twoMiB
    rw [memInitialize, Outcome.bind_eq_ok] at hok
    obtain ⟨v, t', hp, -⟩ := hok
    rw [memInitialize, show bootOneMiB.pageTable = bootTwoMiB.pageTable by rfl, hp] at hb
    cases hb

/-! ## Requests of less than a block -/

/-- A request of less than a block; nothing is released. -/
abbrev Session.SmallStep : Session → Session → Prop :=
  Session.Step (fun _ size => size.toNat < 4096) fun _ _ => False

/-- Every frame of a live allocation lies between `min_address` and `max_address`. -/
def InRange (a₀ : MemoryAllocator) (live : List Allocation) : Prop :=
  ∀ a ∈ live, ∀ x ∈ a.frames, a₀.minAddress.toNat ≤ x.toNat ∧ x.toNat + 4096 ≤ a₀.maxAddress.toNat

/-- Single blocks, taken in order: `n` allocations own the blocks `n - 1, …, 0`, and those are the
marked ones. -/
structure Sequential (s : Session) : Prop where
  blocks : s.live.map Allocation.block = (List.range s.live.length).reverse
  single : ∀ a ∈ s.live, a.count = 1
  bits : ∀ k < 32 * bookkeepingWords,
    Bitmap.test s.kernel.allocator.memMap k = decide (k < s.live.length)

theorem Sequential.boot {b : Boot} {a₀ : MemoryAllocator} {t₀ : PageTable} (hb : memInitialize b = .ok a₀ t₀) :
    Sequential (Session.boot a₀ t₀) := by
  obtain ⟨v, -, -, -, -, hclear⟩ := memInitialize_ok hb
  exact ⟨rfl, fun a ha => by simp [Session.boot] at ha, fun k hk => hclear k hk⟩

theorem Sequential.block_lt {s : Session} (h : Sequential s) {a : Allocation} (ha : a ∈ s.live) :
    a.block < s.live.length := by
  have : a.block ∈ s.live.map Allocation.block := List.mem_map_of_mem ha
  rwa [h.blocks, List.mem_reverse, List.mem_range] at this

theorem Sequential.exists_block {s : Session} (h : Sequential s) {k : Nat} (hk : k < s.live.length) :
    ∃ a ∈ s.live, a.block = k := by
  have : k ∈ s.live.map Allocation.block := by rwa [h.blocks, List.mem_reverse, List.mem_range]
  exact List.mem_map.1 this

theorem small_count {size : KSize} (hs : size.toNat < 4096) :
    pageCount size = 1 ∧ blockRequest size = 1#32 := by
  have hcount : pageCount size = 1 := by unfold pageCount; omega
  refine ⟨hcount, BitVec.eq_of_toNat_eq ?_⟩
  rw [blockRequest_toNat, hcount]
  rfl

section

variable {b : Boot} {a₀ : MemoryAllocator} {t₀ : PageTable} {s : Session}
  (hb : memInitialize b = .ok a₀ t₀)
  (hmem : (computeHighestFreeAddress b.pageTable).toNat + 4096 ≤ (memGetBytes b.lowmem b.highmem).toNat)

include hb hmem

theorem scannedBlocks_bookkeeping : scannedBlocks a₀ ≤ 32 * bookkeepingWords := by
  have hcount := blockCount_toNat hb (by omega)
  have := memGetBytes_toNat_lt b.lowmem b.highmem
  rw [scannedBlocks, hcount, bookkeepingWords]
  omega

theorem Sequential.step {s' : Session} (hi : Session.Inv b a₀ s) (h : Sequential s)
    (hs : Session.SmallStep s s') : Sequential s' := by
  cases hs with
  | @kmalloc k k' live size v hsize hk =>
    obtain ⟨hcount, hreq⟩ := small_count hsize
    obtain ⟨-, htakes, hmap⟩ := hi.kmalloc hb hk
    have hscan := scannedBlocks_bookkeeping hb hmem
    have hheader : scannedBlocks k.allocator = scannedBlocks a₀ := by
      rw [scannedBlocks, scannedBlocks, hi.blockCount_eq]
    have hlt := htakes.upper
    have hbits : ∀ i < 32 * bookkeepingWords, Bitmap.test k.allocator.memMap i = decide (i < live.length) := h.bits
    have hblock : Allocation.block ⟨v, size, k.allocator⟩ = live.length := by
      rw [hreq] at htakes
      have hoff : offers 1#32 k.allocator (Allocation.block ⟨v, size, k.allocator⟩) = true := htakes.offered
      rw [offers_one, hbits _ (by omega), Bool.not_eq_true', decide_eq_false_iff_not] at hoff
      by_contra hne
      -- a later block is not the first one that is clear
      have hlater : live.length < Allocation.block ⟨v, size, k.allocator⟩ := by omega
      have hfirst : offers 1#32 k.allocator live.length = false := htakes.first _ (Nat.zero_le _) hlater
      rw [offers_one, hbits _ (by omega)] at hfirst
      simp at hfirst
    have hsingle : Allocation.count ⟨v, size, k.allocator⟩ = 1 := hcount
    refine ⟨?_, fun a ha => ?_, fun i hlt => ?_⟩
    · rw [List.map_cons, h.blocks, hblock, List.length_cons, List.range_succ, List.reverse_append]
      rfl
    · rcases List.mem_cons.1 ha with rfl | ha
      · exact hcount
      · exact h.single a ha
    · rw [hmap i, hbits i hlt, hblock, hsingle, ← Bool.decide_or]
      exact decide_eq_decide.2 (by rw [List.length_cons]; omega)
  | kfree hfree _ => exact absurd hfree id

/-- `n` blocks taken in order lie in the allocator's range exactly when `n` is below the block
count. -/
theorem Sequential.inRange_iff (hi : Session.Inv b a₀ s) (h : Sequential s) :
    InRange a₀ s.live ↔ s.live.length <
      ((memGetBytes b.lowmem b.highmem).toNat - (computeHighestFreeAddress b.pageTable).toNat) / 4096 := by
  obtain ⟨v, -, -, hmax, -⟩ := memInitialize_ok hb
  have hmin := minAddress_toNat hb (by omega)
  constructor
  · intro hin
    by_cases hnil : s.live.length = 0
    · omega
    · -- the newest allocation has the last block
      obtain ⟨a, ha, hblock⟩ := h.exists_block (k := s.live.length - 1) (by omega)
      have hframe := hi.frame_toNat hb (by omega) ha a.count_pos
      have := (hin a ha _ ⟨0, a.count_pos, rfl⟩).2
      rw [hmax, hframe] at this
      omega
  · rintro hlt a ha x ⟨j, hj, rfl⟩
    have hblock := h.block_lt ha
    have hsingle := h.single a ha
    rw [hi.frame_toNat hb (by omega) ha hj, hmin, hmax]
    omega

/-- In every run of requests of less than a block, the frames handed out lie in the allocator's
range exactly when there were fewer requests than `block_count`. -/
theorem inRange_run (h : Run.Reach Session.SmallStep (Session.boot a₀ t₀) s) :
    InRange a₀ s.live ↔ s.live.length <
      ((memGetBytes b.lowmem b.highmem).toNat - (computeHighestFreeAddress b.pageTable).toNat) / 4096 := by
  obtain ⟨hi, hseq⟩ := Run.invariant (P := fun s => Session.Inv b a₀ s ∧ Sequential s) h
    ⟨Session.Inv.init hb, Sequential.boot hb⟩
    fun _ _ ⟨hi, hq⟩ hs => ⟨hi.step hb hs, hq.step hb hmem hi hs⟩
  exact hseq.inRange_iff hb hmem hi

end

theorem boundsTwoMiB : (computeHighestFreeAddress bootTwoMiB.pageTable).toNat + 4096 ≤
    (memGetBytes bootTwoMiB.lowmem bootTwoMiB.highmem).toNat := by
  rw [computeHighestFreeAddress_twoMiB]
  decide

/-- With 32 blocks, 32 requests of 100 bytes return one after the other. -/
theorem exists_smallRun : ∀ n ≤ 32, ∃ s, Run.Reach Session.SmallStep sessionTwoMiB s ∧
    Session.Inv bootTwoMiB allocatorTwoMiB s ∧ Sequential s ∧ s.live.length = n ∧
    ∀ i, 3 + n ≤ i → entryInUse (s.kernel.pageTable i) = false
  | 0, _ => by
    refine ⟨sessionTwoMiB, .refl, Session.Inv.init memInitialize_twoMiB, Sequential.boot memInitialize_twoMiB, rfl,
      fun i hi => ?_⟩
    have hrun : FreeRun bootTwoMiB.pageTable kernelPageTablesLen 1 (pageCount 4096#32) :=
      ⟨by decide, by decide⟩
    obtain ⟨v, t, start, hp, hle, hpaged⟩ :=
      page_returns 0x200000#32 (show ptfReadWrite &&& ptfUser = 0#32 by decide) hrun
    have ht : pageTableTwoMiB = t := by rw [pageTableTwoMiB, hp]; rfl
    change entryInUse (pageTableTwoMiB i) = false
    rw [ht, hpaged.frame i (.inr (by rw [show pageCount 4096#32 = 2 by rfl]; omega))]
    exact (congrArg entryInUse (if_neg (by omega))).trans entryInUse_zero
  | n + 1, hn => by
    obtain ⟨⟨k, live⟩, hreach, hi, hseq, hlen, hfree⟩ := exists_smallRun n (by omega)
    obtain ⟨hcount, hreq⟩ := small_count (show (100#32).toNat < 4096 by decide)
    have hscan : scannedBlocks k.allocator = 32 := by
      rw [scannedBlocks, hi.blockCount_eq]
      rfl
    have hoff : offers (blockRequest 100#32) k.allocator n = true := by
      rw [hreq, offers_one, hseq.bits n (by rw [bookkeepingWords]; omega), hlen]
      simp
    have hrun : FreeRun k.pageTable kernelPageTablesLen (3 + n) (pageCount 100#32) :=
      ⟨by rw [hcount, kernelPageTablesLen, pageTableLen]; omega, fun j hj => hfree _ (by omega)⟩
    obtain ⟨v, k', hk, hkeep⟩ := kmalloc_returns (by omega) hoff hrun
    have hstep : Session.SmallStep ⟨k, live⟩ ⟨k', ⟨v, 100#32, k.allocator⟩ :: live⟩ := .kmalloc (by decide) hk
    refine ⟨_, hreach.tail hstep, hi.step memInitialize_twoMiB hstep,
      hseq.step memInitialize_twoMiB boundsTwoMiB hi hstep, by rw [List.length_cons, ← hlen], fun i hle => ?_⟩
    rw [hkeep i (by omega)]
    exact hfree i (by omega)

/-- After 31 requests all frames are in the range, and after the last one they are not. -/
theorem inRange_run_boundary :
    (∃ s, Run.Reach Session.SmallStep sessionTwoMiB s ∧ s.live.length = 31 ∧ InRange allocatorTwoMiB s.live) ∧
      ∃ s, Run.Reach Session.SmallStep sessionTwoMiB s ∧ s.live.length = 32 ∧ ¬InRange allocatorTwoMiB s.live := by
  obtain ⟨s, hreach, -, -, hlen, -⟩ := exists_smallRun 31 (by decide)
  obtain ⟨s', hreach', -, -, hlen', -⟩ := exists_smallRun 32 (le_refl 32)
  have hiff := inRange_run memInitialize_twoMiB boundsTwoMiB hreach
  have hiff' := inRange_run memInitialize_twoMiB boundsTwoMiB hreach'
  rw [hlen, computeHighestFreeAddress_twoMiB] at hiff
  rw [hlen', computeHighestFreeAddress_twoMiB] at hiff'
  exact ⟨⟨s, hreach, hlen, hiff.2 (by decide)⟩, s', hreach', hlen', mt hiff'.1 (by decide)⟩

/-- With 32 blocks, the frame of the 32nd request of 100 bytes ends past `max_address`. -/
theorem inRange_last_block :
    ¬∀ (b : Boot) (a₀ : MemoryAllocator) (t₀ : PageTable), memInitialize b = .ok a₀ t₀ →
      (computeHighestFreeAddress b.pageTable).toNat + 4096 ≤ (memGetBytes b.lowmem b.highmem).toNat →
      ∀ s, Run.Reach Session.SmallStep (Session.boot a₀ t₀) s → InRange a₀ s.live := by
  intro h
  obtain ⟨s, hreach, hi, hseq, hlen, -⟩ := exists_smallRun 32 (le_refl 32)
  have hin := h bootTwoMiB _ _ memInitialize_twoMiB boundsTwoMiB s hreach
  have hlt := (hseq.inRange_iff memInitialize_twoMiB boundsTwoMiB hi).1 hin
  rw [hlen, computeHighestFreeAddress_twoMiB] at hlt
  revert hlt
  decide

end Aeon.Memory
