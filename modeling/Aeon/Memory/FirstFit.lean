/-
The search for a free run reads only the entries of its table and takes the first run that fits:
the entries `find_free_blocks_offset` reads, in order, and the run it returns against every run
that starts before it.
-/
import Aeon.Memory.PagingSpec

namespace Aeon.Memory

/-! ## What the search reads -/

/-- The entries the inner loop reads, over `rem` more entries from index `i` on: it breaks at the
first one in use. -/
def blocksFreeReads (pageTable : PageTable) : (rem i : Nat) → List Nat
  | 0, _ => []
  | rem + 1, i => i :: if entryInUse (pageTable i) then [] else blocksFreeReads pageTable rem (i + 1)

/-- The entries the outer loop reads from index `i` on, `rem` entries before the end of the table. -/
def findFreeBlocksLoopReads (pageTable : PageTable) (pageTableSize requestedCount : KSize) :
    (rem : Nat) → (i : KSize) → List Nat
  | 0, _ => []
  | rem + 1, i => i.toNat ::
    if entryInUse (pageTable i.toNat) then
      findFreeBlocksLoopReads pageTable pageTableSize requestedCount rem (i + 1#32)
    else if pageTableSize ≤ i + requestedCount then
      []
    else blocksFreeReads pageTable requestedCount.toNat i.toNat ++
      if blocksFree pageTable requestedCount.toNat i.toNat then []
      else findFreeBlocksLoopReads pageTable pageTableSize requestedCount rem (i + 1#32)

/-- The indices into `page_table` that a call of `find_free_blocks_offset` reads, in order. -/
def findFreeBlocksReads (pageTable : PageTable) (pageTableSize requestedCount : KSize) : List Nat :=
  findFreeBlocksLoopReads pageTable pageTableSize requestedCount pageTableSize.toNat 0#32

/-! ## The reads decide the result -/

theorem blocksFree_congr {t t' : PageTable} : ∀ (rem i : Nat),
    (∀ j ∈ blocksFreeReads t rem i, t' j = t j) → blocksFree t' rem i = blocksFree t rem i
  | 0, _, _ => rfl
  | rem + 1, i, h => by
    unfold blocksFreeReads at h
    unfold blocksFree
    rw [h i List.mem_cons_self]
    split
    · rfl
    · rename_i hu
      rw [if_neg hu] at h
      exact blocksFree_congr rem (i + 1) fun j hj => h j (List.mem_cons_of_mem _ hj)

theorem findFreeBlocksLoop_congr {t t' : PageTable} {size count : KSize} : ∀ (rem : Nat) (i : KSize),
    (∀ j ∈ findFreeBlocksLoopReads t size count rem i, t' j = t j) →
      findFreeBlocksLoop t' size count rem i = findFreeBlocksLoop t size count rem i
  | 0, _, _ => rfl
  | rem + 1, i, h => by
    unfold findFreeBlocksLoopReads at h
    unfold findFreeBlocksLoop
    obtain ⟨hi, h⟩ := List.forall_mem_cons.1 h
    rw [hi]
    split
    · rename_i hu
      rw [if_pos hu] at h
      exact findFreeBlocksLoop_congr rem _ h
    · rename_i hu
      rw [if_neg hu] at h
      split
      · rfl
      · rename_i hend
        rw [if_neg hend] at h
        obtain ⟨hrun, h⟩ := List.forall_mem_append.1 h
        rw [blocksFree_congr _ _ hrun]
        split
        · rfl
        · rename_i hfree
          rw [if_neg hfree] at h
          exact findFreeBlocksLoop_congr rem _ h

/-- Two tables that agree on what the search reads in the first give it the same result. -/
theorem findFreeBlocksOffset_congr {t t' : PageTable} {size count : KSize}
    (h : ∀ j ∈ findFreeBlocksReads t size count, t' j = t j) :
    findFreeBlocksOffset t' size count = findFreeBlocksOffset t size count :=
  findFreeBlocksLoop_congr _ _ h

/-! ## The reads stay inside the table -/

theorem blocksFreeReads_lt (t : PageTable) : ∀ (rem i : Nat), ∀ j ∈ blocksFreeReads t rem i, j < i + rem
  | 0, i, j, h => by cases h
  | rem + 1, i, j, h => by
    unfold blocksFreeReads at h
    rcases List.mem_cons.1 h with rfl | h
    · omega
    · split at h
      · cases h
      · have := blocksFreeReads_lt t rem (i + 1) j h
        omega

theorem findFreeBlocksLoopReads_lt (t : PageTable) {size count : KSize}
    (hc : size.toNat + count.toNat < 2 ^ 32) : ∀ (rem : Nat) (i : KSize), i.toNat + rem = size.toNat →
      ∀ j ∈ findFreeBlocksLoopReads t size count rem i, j < size.toNat
  | 0, i, _, j, h => by cases h
  | rem + 1, i, hi, j, h => by
    have hsucc : (i + 1#32).toNat + rem = size.toNat := by
      rw [succ_toNat (by omega)]
      omega
    unfold findFreeBlocksLoopReads at h
    rcases List.mem_cons.1 h with rfl | h
    · omega
    · split at h
      · exact findFreeBlocksLoopReads_lt t hc rem _ hsucc j h
      · split at h
        · cases h
        · rename_i hend
          rcases List.mem_append.1 h with h | h
          · exact (blocksFreeReads_lt t _ _ j h).trans (run_lt hc (by omega) hend)
          · split at h
            · cases h
            · exact findFreeBlocksLoopReads_lt t hc rem _ hsucc j h

/-! ## The first fit -/

/-- The entry is neither `PTF_PRESENT` nor `PTF_AEON_LOCKED`. -/
def Unused (entry : KUint32) : Prop := entry &&& ptfPresent = 0#32 ∧ entry &&& ptfAeonLocked = 0#32

theorem entryInUse_eq_false {entry : KUint32} : entryInUse entry = false ↔ Unused entry := by
  unfold entryInUse Unused
  simp

/-- The search returns the start of the first run of unused entries, inside the table, and reads
no entry outside it. -/
theorem findFreeBlocksOffset_firstFit (t : PageTable) {n c : KSize} (hc : 1 ≤ c.toNat)
    (hc' : c.toNat ≤ 2 ^ 20) (hn : n.toNat ≤ 2 ^ 31) (h : findFreeBlocksOffset t n c ≠ outOfFreeBlocks) :
    let r := (findFreeBlocksOffset t n c).toNat
    r + c.toNat ≤ n.toNat ∧ (∀ k < c.toNat, Unused (t (r + k))) ∧
      (∀ r' < r, ¬ ∀ k < c.toNat, Unused (t (r' + k))) ∧
        ∀ j ∈ findFreeBlocksReads t n c, j < n.toNat := by
  have hsum : n.toNat + c.toNat < 2 ^ 32 := by omega
  obtain ⟨hfits, hfree⟩ := findFreeBlocksOffset_spec t n c hsum h
  refine ⟨hfits.le, fun k hk => entryInUse_eq_false.1 (hfree k hk), fun r' hr hall => ?_,
    findFreeBlocksLoopReads_lt t hsum _ _ (by simp)⟩
  -- a run that starts earlier would have been taken
  have hrun : FreeRun t n.toNat r' c.toNat := ⟨by omega, fun k hk => entryInUse_eq_false.2 (hall k hk)⟩
  have hle := (findFreeBlocksLoop_complete hsum hc hrun n.toNat 0#32 (by simp) (by simp)).2
  unfold findFreeBlocksOffset at hr
  omega

/-- A table of six entries with the first and the third in use, and two more to find. -/
theorem findFreeBlocksOffset_firstFit_example :
    findFreeBlocksOffset (fun i => if i = 0 then 1#32 else if i = 2 then 0x800#32 else 0#32) 6#32 2#32 = 3#32 ∧
      ∀ j ∈ findFreeBlocksReads (fun i => if i = 0 then 1#32 else if i = 2 then 0x800#32 else 0#32) 6#32 2#32,
        j < 6 :=
  have hfound : findFreeBlocksOffset (fun i => if i = 0 then 1#32 else if i = 2 then 0x800#32 else 0#32)
      6#32 2#32 = 3#32 := by rfl
  ⟨hfound, (findFreeBlocksOffset_firstFit _ (by decide) (by decide) (by decide) (by rw [hfound]; decide)).2.2.2⟩

end Aeon.Memory
