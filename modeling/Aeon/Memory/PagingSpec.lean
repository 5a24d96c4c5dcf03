/-
What each function of `paging.c` does, one specification a function: the search returns a free
run inside the table, `page` writes exactly that run, `unpage` clears exactly the chain it walks,
and none of them touches a locked entry.
-/
import Aeon.Memory.Entry

namespace Aeon.Memory

/-! ## The search -/

theorem blocksFree_iff (t : PageTable) : ∀ (rem i : Nat),
    blocksFree t rem i = true ↔ ∀ k < rem, entryInUse (t (i + k)) = false
  | 0, i => by simp [blocksFree]
  | rem + 1, i => by
    unfold blocksFree
    split
    · rename_i h
      simp only [Bool.false_eq_true, false_iff, not_forall]
      exact ⟨0, by omega, by simp [h]⟩
    · rename_i h
      rw [blocksFree_iff t rem (i + 1)]
      constructor
      · intro hk k hlt
        cases k with
        | zero => simpa using h
        | succ k => have := hk k (by omega); rwa [show i + (k + 1) = i + 1 + k by omega]
      · intro hk k hlt
        have := hk (k + 1) (by omega)
        rwa [show i + 1 + k = i + (k + 1) by omega]

/-- A run the search returns lies inside the table and no entry of it is in use. -/
structure FreeRun (t : PageTable) (size start count : Nat) : Prop where
  fits : start + count < size
  free : ∀ k < count, entryInUse (t (start + k)) = false

theorem succ_toNat {i : KUint32} (h : i.toNat + 1 < 2 ^ 32) : (i + 1#32).toNat = i.toNat + 1 := by
  rw [BitVec.toNat_add, BitVec.toNat_ofNat]
  omega

/-- Where the search goes on to test a run, the run ends before the last entry. -/
theorem run_lt {i size count : KSize} (hc : size.toNat + count.toNat < 2 ^ 32) (hi : i.toNat ≤ size.toNat)
    (hend : ¬size ≤ i + count) : i.toNat + count.toNat < size.toNat := by
  rw [BitVec.le_def, BitVec.toNat_add] at hend
  omega

theorem findFreeBlocksLoop_spec (t : PageTable) (size count : KSize)
    (hc : size.toNat + count.toNat < 2 ^ 32) : ∀ (rem : Nat) (i : KSize), i.toNat + rem = size.toNat →
      findFreeBlocksLoop t size count rem i ≠ outOfFreeBlocks →
      FreeRun t size.toNat (findFreeBlocksLoop t size count rem i).toNat count.toNat
  | 0, i, _, h => absurd rfl h
  | rem + 1, i, hi, h => by
    have hsucc : (i + 1#32).toNat + rem = size.toNat := by
      rw [succ_toNat (by omega)]
      omega
    unfold findFreeBlocksLoop at h ⊢
    split
    · rename_i hu
      rw [if_pos hu] at h
      exact findFreeBlocksLoop_spec t size count hc rem _ hsucc h
    · rename_i hu
      rw [if_neg hu] at h
      split
      · rename_i hend
        rw [if_pos hend] at h
        exact absurd rfl h
      · rename_i hend
        rw [if_neg hend] at h
        split
        · rename_i hfree
          exact ⟨run_lt hc (by omega) hend, (blocksFree_iff t _ _).1 hfree⟩
        · rename_i hfree
          rw [if_neg hfree] at h
          exact findFreeBlocksLoop_spec t size count hc rem _ hsucc h

theorem findFreeBlocksOffset_spec (t : PageTable) (size count : KSize)
    (hc : size.toNat + count.toNat < 2 ^ 32) (h : findFreeBlocksOffset t size count ≠ outOfFreeBlocks) :
    FreeRun t size.toNat (findFreeBlocksOffset t size count).toNat count.toNat :=
  findFreeBlocksLoop_spec t size count hc _ _ (by simp) h

/-- The search fails only when the table has no free run; otherwise it returns the first one. -/
theorem findFreeBlocksLoop_complete {t : PageTable} {size count : KSize} {start : Nat}
    (hc : size.toNat + count.toNat < 2 ^ 32) (hpos : 0 < count.toNat)
    (hrun : FreeRun t size.toNat start count.toNat) : ∀ (rem : Nat) (i : KSize), i.toNat + rem = size.toNat →
      i.toNat ≤ start →
      findFreeBlocksLoop t size count rem i ≠ outOfFreeBlocks ∧
        (findFreeBlocksLoop t size count rem i).toNat ≤ start
  | 0, i, hi, hle => by
    have := hrun.fits
    omega
  | rem + 1, i, hi, hle => by
    have hfit := hrun.fits
    have hsucc : (i + 1#32).toNat = i.toNat + 1 := succ_toNat (by omega)
    have hnext (hne : i.toNat ≠ start) := findFreeBlocksLoop_complete hc hpos hrun rem (i + 1#32)
      (by omega) (by omega)
    unfold findFreeBlocksLoop
    split
    · rename_i hu
      apply hnext
      rintro rfl
      have hfree := hrun.free 0 hpos
      rw [Nat.add_zero, hu] at hfree
      cases hfree
    · rw [if_neg (by rw [BitVec.le_def, BitVec.toNat_add]; omega)]
      split
      · refine ⟨fun h => ?_, hle⟩
        have := congrArg BitVec.toNat h
        simp only [outOfFreeBlocks, BitVec.toNat_ofNat] at this
        omega
      · rename_i hnot
        apply hnext
        rintro rfl
        exact hnot ((blocksFree_iff t _ _).2 hrun.free)

/-! ## The highest mapped frame -/

theorem highestAddressLoop_ge (t : PageTable) : ∀ (n i : Nat), i < n →
    (entryFrame (t i)).toNat ≤ (highestAddressLoop t n).toNat
  | n + 1, i, hi => by
    simp only [highestAddressLoop]
    rcases Nat.lt_succ_iff_lt_or_eq.1 hi with h | rfl
    · have ih := highestAddressLoop_ge t n i h
      split
      · exact ih
      · rename_i hlt
        rw [BitVec.lt_def] at hlt
        omega
    · split
      · rename_i hlt
        rw [BitVec.lt_def] at hlt
        omega
      · exact le_refl _

theorem highestAddressLoop_aligned (t : PageTable) : ∀ n, Aligned (highestAddressLoop t n)
  | 0 => (by decide : Aligned 0#32)
  | n + 1 => by
    simp only [highestAddressLoop]
    split
    · exact highestAddressLoop_aligned t n
    · exact aligned_entryFrame _

theorem aligned_pageSize : Aligned pageSize := by decide

theorem computeHighestFreeAddress_aligned (t : PageTable) : Aligned (computeHighestFreeAddress t) :=
  (highestAddressLoop_aligned t _).add aligned_pageSize

/-- Unless the sum wraps, every frame of the kernel tables lies below the first free address. -/
theorem lt_computeHighestFreeAddress (t : PageTable) (hw : computeHighestFreeAddress t ≠ 0#32) {i : Nat}
    (hi : i < kernelPageTablesLen) :
    (entryFrame (t i)).toNat + 4096 ≤ (computeHighestFreeAddress t).toNat := by
  have hge := highestAddressLoop_ge t _ i hi
  have hal := (aligned_iff _).1 (highestAddressLoop_aligned t kernelPageTablesLen)
  have hlt := (highestAddressLoop t kernelPageTablesLen).isLt
  have hne : (computeHighestFreeAddress t).toNat ≠ 0 := fun h => hw (BitVec.eq_of_toNat_eq h)
  unfold computeHighestFreeAddress at hne ⊢
  rw [BitVec.toNat_add, pageSize] at hne ⊢
  simp only [BitVec.toNat_ofNat] at hne ⊢
  omega

/-! ## `page` -/

/-- The pages `page` maps for a request of `size` bytes, and the blocks `kmalloc` takes for it. -/
def pageCount (size : KSize) : Nat := size.toNat / 4096 + 1

theorem pageCount_pos (size : KSize) : 0 < pageCount size := by unfold pageCount; omega

theorem pageCount_le (size : KSize) : pageCount size ≤ 2 ^ 20 := by
  have := size.isLt
  unfold pageCount
  omega

theorem requiredPageCount_toNat (size : KSize) : (size / pageSize + 1#32).toNat = pageCount size := by
  have := size.isLt
  rw [BitVec.toNat_add, BitVec.toNat_udiv, pageSize, pageCount]
  simp only [BitVec.toNat_ofNat, Nat.reducePow, Nat.reduceMod]
  omega

theorem pageLoop_apply (flags : KUint32) : ∀ (rem i : Nat) (pa : KUint32) (t : PageTable) (j : Nat),
    pageLoop flags rem i pa t j =
      if i ≤ j ∧ j < i + rem then pageAt pa (j - i) ||| flags ||| ptfPresent else t j
  | 0, i, pa, t, j => by
    rw [pageLoop, if_neg (by omega)]
  | rem + 1, i, pa, t, j => by
    rw [pageLoop, pageLoop_apply flags rem (i + 1) _ _ j]
    by_cases hj : j = i
    · subst hj
      rw [if_neg (by omega), if_pos (by omega), Function.update_self, Nat.sub_self, pageAt_zero]
    · rw [Function.update_of_ne hj]
      by_cases h : i + 1 ≤ j ∧ j < i + 1 + rem
      · rw [if_pos h, if_pos (by omega), pageAt_succ, show j - (i + 1) + 1 = j - i by omega]
      · rw [if_neg h, if_neg (by omega)]

/-- What a call of `page` that returns does: `count` entries from `start`, none of them in use
before, map consecutive frames from `pa` on, and nothing else changes. -/
structure Paged (t t' : PageTable) (pa flags : KUint32) (start count : Nat) : Prop where
  run : FreeRun t kernelPageTablesLen start count
  mapped : ∀ k < count, t' (start + k) = mappedEntry (pageAt pa k) flags (k + 1 == count)
  frame : ∀ i, i < start ∨ start + count ≤ i → t' i = t i

theorem Paged.changed {t t' : PageTable} {pa flags : KUint32} {start count k : Nat}
    (h : Paged t t' pa flags start count) (hk : k < count) : t' (start + k) ≠ t (start + k) := by
  intro heq
  have hfree := h.run.free k hk
  rw [← heq, h.mapped k hk, mappedEntry_inUse] at hfree
  cases hfree

/-- Marking the last entry of the mapping loop's run gives the entries of `mappedEntry`. -/
theorem paged_of_run {t : PageTable} {pa flags : KUint32} {start count : Nat} (hpos : 0 < count)
    (hrun : FreeRun t kernelPageTablesLen start count) :
    Paged t (Function.update (pageLoop flags count start pa t) (start + count - 1)
      (pageLoop flags count start pa t (start + count - 1) ||| ptfAeonEndOfBlock)) pa flags start count := by
  refine ⟨hrun, fun k hk => ?_, fun i hi => ?_⟩
  · have hloop : pageLoop flags count start pa t (start + k) = pageAt pa k ||| flags ||| ptfPresent := by
      rw [pageLoop_apply, if_pos (by omega), Nat.add_sub_cancel_left]
    by_cases hlast : k + 1 = count
    · have hk' : start + count - 1 = start + k := by omega
      rw [hk', Function.update_self, hloop, mappedEntry, if_pos (by simpa using hlast)]
    · rw [Function.update_of_ne (by omega), hloop, mappedEntry, if_neg (by simpa using hlast)]
  · rw [Function.update_of_ne (by omega), pageLoop_apply, if_neg (by omega)]

theorem findFreeBlocksOffset_zero (t : PageTable) (count : KSize) :
    findFreeBlocksOffset t 0#32 count = outOfFreeBlocks := rfl

def kernelRun (t : PageTable) (size : KSize) : KSize :=
  findFreeBlocksOffset t (BitVec.ofNat 32 kernelPageTablesLen) (size / pageSize + 1#32)

theorem kernelRun_bound (size : KSize) :
    (BitVec.ofNat 32 kernelPageTablesLen).toNat = kernelPageTablesLen ∧
      (BitVec.ofNat 32 kernelPageTablesLen).toNat + (size / pageSize + 1#32).toNat < 2 ^ 32 := by
  have := pageCount_le size
  have hlen : (BitVec.ofNat 32 kernelPageTablesLen).toNat = kernelPageTablesLen := by decide
  refine ⟨hlen, ?_⟩
  rw [hlen, requiredPageCount_toNat, kernelPageTablesLen, pageTableLen]
  omega

/-- `page` for the kernel: it maps the run the search finds, or panics. -/
theorem page_kernel {pa flags : KUint32} {size : KSize} {t : PageTable} (hf : flags &&& ptfUser = 0#32) :
    page pa size flags t =
      if kernelRun t size = outOfFreeBlocks then .halt (.panic "Out of page space.") t
      else
        let mapped := pageLoop flags (pageCount size) (kernelRun t size).toNat pa t
        let last := (kernelRun t size).toNat + pageCount size - 1
        .ok (kernelFirstPageAddress + kernelRun t size * pageSize)
          (Function.update mapped last (mapped last ||| ptfAeonEndOfBlock)) := by
  unfold page
  simp only [hf, bne_self_eq_false, Bool.false_eq_true, if_false, requiredPageCount_toNat]
  rfl

theorem page_of_run (pa : KUint32) {flags : KUint32} {size : KSize} {t : PageTable} (hf : flags &&& ptfUser = 0#32)
    (hne : kernelRun t size ≠ outOfFreeBlocks) :
    ∃ t', page pa size flags t = .ok (pageAt kernelFirstPageAddress (kernelRun t size).toNat) t' ∧
      Paged t t' pa flags (kernelRun t size).toNat (pageCount size) := by
  have hn := requiredPageCount_toNat size
  obtain ⟨hlen, hbound⟩ := kernelRun_bound size
  have hrun := findFreeBlocksOffset_spec t _ _ hbound hne
  rw [hlen, hn] at hrun
  refine ⟨_, ?_, paged_of_run (pageCount_pos size) hrun⟩
  have hv : kernelFirstPageAddress + kernelRun t size * pageSize =
      pageAt kernelFirstPageAddress (kernelRun t size).toNat := by
    apply BitVec.eq_of_toNat_eq
    simp [pageAt, pageSize, BitVec.toNat_add, BitVec.toNat_mul, Nat.mul_comm]
  rw [page_kernel hf, if_neg hne, hv]

/-- A call of `page` maps a run and returns its address, or panics with the table as it was. -/
theorem page_cases (pa flags : KUint32) (size : KSize) (t : PageTable) :
    (∃ start t', page pa size flags t = .ok (pageAt kernelFirstPageAddress start) t' ∧
      Paged t t' pa flags start (pageCount size)) ∨
      page pa size flags t = .halt (.panic "Out of page space.") t := by
  by_cases hu : flags &&& ptfUser = 0#32
  · by_cases hrun : kernelRun t size = outOfFreeBlocks
    · right
      rw [page_kernel hu, if_pos hrun]
    · left
      obtain ⟨t', hp, hpaged⟩ := page_of_run pa hu hrun
      exact ⟨_, t', hp, hpaged⟩
  · -- a user mapping searches a table of length 0
    right
    simp only [page, bne_iff_ne.2 hu, if_true, findFreeBlocksOffset_zero]

/-- `page` returns the address of the run it mapped. -/
theorem page_ok {pa flags v : KUint32} {size : KSize} {t t' : PageTable}
    (h : page pa size flags t = .ok v t') :
    ∃ start, v = pageAt kernelFirstPageAddress start ∧ Paged t t' pa flags start (pageCount size) := by
  rcases page_cases pa flags size t with ⟨start, t'', hok, hpaged⟩ | hpanic
  · rw [hok, Outcome.ok.injEq] at h
    obtain ⟨rfl, rfl⟩ := h
    exact ⟨start, rfl, hpaged⟩
  · rw [hpanic] at h
    cases h

/-- `page` returns when the kernel tables have a free run, and takes the first one. -/
theorem page_returns (pa : KUint32) {flags : KUint32} {size : KSize} {t : PageTable} {start : Nat}
    (hf : flags &&& ptfUser = 0#32) (hrun : FreeRun t kernelPageTablesLen start (pageCount size)) :
    ∃ v t' start', page pa size flags t = .ok v t' ∧ start' ≤ start ∧
      Paged t t' pa flags start' (pageCount size) := by
  have hn := requiredPageCount_toNat size
  obtain ⟨hlen, hbound⟩ := kernelRun_bound size
  have hfirst : kernelRun t size ≠ outOfFreeBlocks ∧ (kernelRun t size).toNat ≤ start :=
    findFreeBlocksLoop_complete hbound (by rw [hn]; exact pageCount_pos size) (by rw [hlen, hn]; exact hrun) _ 0#32
      (by simp) (by simp)
  obtain ⟨t', hp, hpaged⟩ := page_of_run pa hf hfirst.1
  exact ⟨_, t', _, hp, hfirst.2, hpaged⟩

/-- A call of `page` that does not return panics and leaves the table as it was. -/
theorem page_halt {pa flags : KUint32} {size : KSize} {t t' : PageTable} {h : Halt}
    (hp : page pa size flags t = .halt h t') : h = .panic "Out of page space." ∧ t' = t := by
  rcases page_cases pa flags size t with ⟨start, t'', hok, -⟩ | hpanic
  · rw [hok] at hp
    cases hp
  · rw [hpanic] at hp
    cases hp
    exact ⟨rfl, rfl⟩

/-- `page` for the kernel panics exactly when the tables have no run that ends before their last
entry. -/
theorem page_panics_iff {pa flags : KUint32} {size : KSize} {t : PageTable} (hf : flags &&& ptfUser = 0#32) :
    (∃ t', page pa size flags t = .halt (.panic "Out of page space.") t') ↔
      ¬∃ start, FreeRun t kernelPageTablesLen start (pageCount size) := by
  constructor
  · rintro ⟨t', hp⟩ ⟨start, hrun⟩
    obtain ⟨v, t'', start', hok, -⟩ := page_returns pa hf hrun
    rw [hok] at hp
    cases hp
  · intro hno
    cases hp : page pa size flags t with
    | ok v t' =>
      obtain ⟨start, -, hpaged⟩ := page_ok hp
      exact absurd ⟨start, hpaged.run⟩ hno
    | halt h t' =>
      obtain ⟨rfl, -⟩ := page_halt hp
      exact ⟨t', rfl⟩

/-- The last `count` entries of the kernel tables, none of them in use. -/
structure FreeTail (t : PageTable) (count : Nat) : Prop where
  fits : count ≤ kernelPageTablesLen
  free : ∀ k < count, entryInUse (t (kernelPageTablesLen - count + k)) = false

/-- `page` without `PTF_USER` panics only on tables without enough consecutive free entries, unless
the only such run is the one at the end of the tables. -/
theorem page_panics_only_full {pa flags : KUint32} {size : KSize} {t : PageTable} (hf : flags &&& ptfUser = 0#32) :
    ((∃ t', page pa size flags t = .halt (.panic "Out of page space.") t') →
      ¬∃ start, start + (size.toNat / 4096 + 1) ≤ kernelPageTablesLen ∧
        ∀ k < size.toNat / 4096 + 1, entryInUse (t (start + k)) = false) ↔
    (∃ start, FreeRun t kernelPageTablesLen start (size.toNat / 4096 + 1)) ∨
      ¬FreeTail t (size.toNat / 4096 + 1) := by
  rw [page_panics_iff hf, pageCount]
  generalize size.toNat / 4096 + 1 = n
  constructor
  · intro h
    by_contra hno
    rw [not_or, not_not] at hno
    obtain ⟨hrun, htail⟩ := hno
    have := htail.fits
    exact h hrun ⟨kernelPageTablesLen - n, by omega, htail.free⟩
  · rintro hcond hrun ⟨start, hfit, hfree⟩
    rcases hcond with hex | htail
    · exact hrun hex
    · -- a run that does not end before the last entry is the tail
      have hnot : ¬start + n < kernelPageTablesLen := fun hlt => hrun ⟨start, hlt, hfree⟩
      have hstart : start = kernelPageTablesLen - n := by omega
      rw [hstart] at hfree
      exact htail ⟨by omega, hfree⟩

def fullTable : PageTable := fun _ => 0x5003#32

theorem page_panics_full : ∃ t', page 0x5000#32 100#32 ptfReadWrite fullTable =
    .halt (.panic "Out of page space.") t' :=
  (page_panics_iff (by decide)).2 fun ⟨_, hrun⟩ =>
    absurd (hrun.free 0 (by decide)) (show ¬entryInUse 0x5003#32 = false by decide)

theorem page_panics_only_full_table : ¬∃ start, start + ((100#32 : KSize).toNat / 4096 + 1) ≤ kernelPageTablesLen ∧
    ∀ k < (100#32 : KSize).toNat / 4096 + 1, entryInUse (fullTable (start + k)) = false :=
  (page_panics_only_full (by decide)).2 (.inr fun h => absurd (h.free 0 (by decide)) (by decide)) page_panics_full

/-- With only the last entry free, a request of 100 bytes panics. -/
theorem page_panics_last_entry :
    ¬∀ (t : PageTable) (pa : KUint32) (size : KSize) (flags : KUint32), flags &&& ptfUser = 0#32 →
      (∃ t', page pa size flags t = .halt (.panic "Out of page space.") t') →
      ¬∃ start, start + (size.toNat / 4096 + 1) ≤ kernelPageTablesLen ∧
        ∀ k < size.toNat / 4096 + 1, entryInUse (t (start + k)) = false := by
  intro h
  let t : PageTable := fun i => if i = 3071 then 0#32 else 0x5003#32
  have hcount : pageCount 100#32 = 1 := by decide
  refine h t 0x5000#32 100#32 ptfReadWrite (by decide) ((page_panics_iff (by decide)).2 ?_) ⟨3071, by decide, ?_⟩
  · rintro ⟨start, hfit, hfree⟩
    rw [hcount, kernelPageTablesLen, pageTableLen] at hfit
    have huse : t start = 0x5003#32 := if_neg (by omega)
    have := hfree 0 (by omega)
    rw [Nat.add_zero, huse] at this
    exact absurd this (by decide)
  · intro k hk
    have hk0 : k = 0 := by
      change k < 100 / 4096 + 1 at hk
      omega
    subst hk0
    exact (by decide : entryInUse 0#32 = false)

/-! ## Kernel addresses and table indices -/

theorem pageDirIndex_toNat (v : KUint32) : (pageDirIndex v).toNat = v.toNat / 2 ^ 22 := by
  have := v.isLt
  rw [pageDirIndex, BitVec.toNat_and, BitVec.toNat_ushiftRight, Nat.shiftRight_eq_div_pow]
  rw [show (1023#32).toNat = 2 ^ 10 - 1 by rfl, Nat.and_two_pow_sub_one_eq_mod]
  omega

theorem pageTableIndex_toNat (v : KUint32) : (pageTableIndex v).toNat = v.toNat / 4096 % 1024 := by
  rw [pageTableIndex, BitVec.toNat_and, BitVec.toNat_ushiftRight, Nat.shiftRight_eq_div_pow]
  rw [show (1023#32).toNat = 2 ^ 10 - 1 by rfl, Nat.and_two_pow_sub_one_eq_mod]

theorem kernel_pageDirIndex {v : KUint32} (h : 0xC0000000 ≤ v.toNat) :
    kernelFirstPageTableOffset ≤ pageDirIndex v := by
  rw [BitVec.le_def, pageDirIndex_toNat, kernelFirstPageTableOffset]
  simp only [BitVec.toNat_ofNat]
  omega

/-- For a kernel address the flat index is the page number from `KERNEL_FIRST_PAGE_ADDRESS` on. -/
theorem tableOffset_toNat {v : KUint32} (h : 0xC0000000 ≤ v.toNat) :
    (tableOffset v).toNat = (v.toNat - 0xC0000000) / 4096 := by
  have hv := v.isLt
  have hd := pageDirIndex_toNat v
  have ht := pageTableIndex_toNat v
  have hsub : (pageDirIndex v - kernelFirstPageTableOffset).toNat = v.toNat / 2 ^ 22 - 768 := by
    rw [BitVec.toNat_sub, hd, kernelFirstPageTableOffset]
    simp only [BitVec.toNat_ofNat]
    omega
  rw [tableOffset, BitVec.toNat_add, BitVec.toNat_mul, hsub, ht]
  simp only [BitVec.toNat_ofNat, pageTableLen]
  omega

/-! ## `unpage` -/

/-- The table with the entries `start … start + count - 1` cleared. -/
def clearRun (t : PageTable) (start count : Nat) : PageTable := fun i =>
  if start ≤ i ∧ i < start + count then 0#32 else t i

theorem clearRun_one (t : PageTable) (start : Nat) : clearRun t start 1 = Function.update t start 0#32 := by
  funext i
  by_cases h : i = start
  · subst h; simp [clearRun]
  · rw [clearRun, if_neg (by omega), Function.update_of_ne h]

theorem clearRun_update (t : PageTable) (start count : Nat) :
    clearRun (Function.update t start 0#32) (start + 1) count = clearRun t start (count + 1) := by
  funext i
  by_cases h : i = start
  · subst h; simp [clearRun]
  · simp only [clearRun, Function.update_of_ne h]
    by_cases hi : start + 1 ≤ i ∧ i < start + 1 + count
    · rw [if_pos hi, if_pos (by omega)]
    · rw [if_neg hi, if_neg (by omega)]

/-- A chain of `count` unlocked entries whose last one, and no other, is marked. -/
structure Chain (t : PageTable) (start count : Nat) : Prop where
  pos : 0 < count
  notLocked : ∀ k < count, t (start + k) &&& ptfAeonLocked = 0#32
  marked : ∀ k < count, (t (start + k) &&& ptfAeonEndOfBlock != 0#32) = (k + 1 == count)

theorem Chain.tail {t : PageTable} {start count : Nat} (h : Chain t start (count + 1)) (hc : 0 < count) :
    Chain (Function.update t start 0#32) (start + 1) count := by
  refine ⟨hc, fun k hk => ?_, fun k hk => ?_⟩
  · rw [Function.update_of_ne (by omega), show start + 1 + k = start + (k + 1) by omega]
    exact h.notLocked _ (by omega)
  · rw [Function.update_of_ne (by omega), show start + 1 + k = start + (k + 1) by omega,
      h.marked _ (by omega)]
    simp

/-- The walk of `unpage` over a chain inside the tables clears exactly the chain. -/
theorem unpageLoop_chain : ∀ (count : Nat) {rem start : Nat} {c : KUint32} {t : PageTable},
    Chain t start count → count ≤ rem →
      unpageLoop rem start c t = .ok (c + BitVec.ofNat 32 count) (clearRun t start count)
  | 0, _, _, _, _, h, _ => absurd h.pos (lt_irrefl 0)
  | count + 1, rem + 1, start, c, t, h, hle => by
    have hl := h.notLocked 0 (by omega)
    have hm := h.marked 0 (by omega)
    rw [Nat.add_zero] at hl hm
    rw [unpageLoop, hl, hm]
    cases count with
    | zero => simp [clearRun_one]
    | succ count =>
      simp only [bne_self_eq_false, Bool.false_eq_true, if_false]
      rw [if_neg (by simp), unpageLoop_chain (count + 1) (h.tail (by omega)) (by omega), clearRun_update]
      congr 1
      rw [BitVec.add_assoc]
      congr 1
      apply BitVec.eq_of_toNat_eq
      simp [BitVec.toNat_add, Nat.add_comm]

theorem unpage_chain {v : KUint32} {t : PageTable} {count : Nat} (hv : 0xC0000000 ≤ v.toNat)
    (h : Chain t (tableOffset v).toNat count) (hfit : (tableOffset v).toNat + count ≤ kernelPageTablesLen) :
    unpage v t = .ok (BitVec.ofNat 32 count) (clearRun t (tableOffset v).toNat count) := by
  rw [unpage, if_pos (kernel_pageDirIndex hv), unpageLoop_chain count h (by omega)]
  simp

/-! ## Locked entries -/

theorem unpageLoop_locked {i : Nat} : ∀ (rem : Nat) {start : Nat} {c : KUint32} {t : PageTable},
    t i &&& ptfAeonLocked ≠ 0#32 → (unpageLoop rem start c t).state i = t i
  | 0, _, _, _, _ => rfl
  | rem + 1, start, c, t, h => by
    rw [unpageLoop]
    split
    · rfl
    · rename_i hl
      -- the entry that is cleared is not the locked one
      have hne : i ≠ start := by
        rintro rfl
        simp [h] at hl
      have hkeep : Function.update t start 0#32 i = t i := Function.update_of_ne hne _ _
      split
      · exact hkeep
      · rw [unpageLoop_locked rem (by rwa [hkeep]), hkeep]

theorem unpage_locked {i : Nat} {t : PageTable} (v : KUint32) (h : t i &&& ptfAeonLocked ≠ 0#32) :
    (unpage v t).state i = t i := by
  rw [unpage]
  split
  · exact unpageLoop_locked _ h
  · rfl

theorem Paged.locked {t t' : PageTable} {pa flags : KUint32} {start count i : Nat}
    (hp : Paged t t' pa flags start count) (h : t i &&& ptfAeonLocked ≠ 0#32) : t' i = t i := by
  by_cases hi : i < start ∨ start + count ≤ i
  · exact hp.frame i hi
  · have hfree := hp.run.free (i - start) (by omega)
    rw [show start + (i - start) = i by omega, entryInUse_of_locked h] at hfree
    cases hfree

theorem page_locked {i : Nat} {t : PageTable} (pa flags : KUint32) (size : KSize)
    (h : t i &&& ptfAeonLocked ≠ 0#32) : (page pa size flags t).state i = t i := by
  cases hp : page pa size flags t with
  | ok v t' =>
    obtain ⟨start, -, hpaged⟩ := page_ok hp
    exact hpaged.locked h
  | halt _ t' =>
    obtain ⟨-, rfl⟩ := page_halt hp
    rfl

theorem pageUnaligned_ok {pa flags v : KUint32} {size : KSize} {t t' : PageTable} :
    pageUnaligned pa size flags t = .ok v t' ↔
      ∃ w, page (pageAlign pa) size flags t = .ok w t' ∧ v = w + (pa - pageAlign pa) := by
  simp only [pageUnaligned, Outcome.bind_eq_ok, Outcome.ok.injEq]
  constructor
  · rintro ⟨w, s, hw, rfl, rfl⟩; exact ⟨w, hw, rfl⟩
  · rintro ⟨w, hw, rfl⟩; exact ⟨w, t', hw, rfl, rfl⟩

theorem pageUnaligned_state (pa flags : KUint32) (size : KSize) (t : PageTable) :
    (pageUnaligned pa size flags t).state = (page (pageAlign pa) size flags t).state := by
  simp only [pageUnaligned]
  cases page (pageAlign pa) size flags t <;> rfl

end Aeon.Memory
