/-
From the entry code to the heap. `mem_initialize` and the calls after it run on the tables that
`_start` left in memory. Whatever they do, the kernel stays mapped where it was and keeps its bytes,
and the pages they map are all above it.
-/
import Aeon.Memory.Bounds
import Aeon.Memory.FirstFit
import Aeon.Memory.Heap
import Aeon.Platform.HigherHalf

namespace Aeon.Platform

open I386 Memory

/-! ## What a run keeps -/

/-- A call that returns is a step over the page tables, whatever else is mapped. -/
theorem pages_step {start : PageTable} {rest : List Mapping} {mallocOk : MemoryAllocator → KSize → Prop}
    {freeOk : Allocation → List Allocation → Prop} {s s' : Session} (hmin : Aligned s.kernel.allocator.minAddress)
    (hcount : s.kernel.allocator.blockCount.toNat < 2 ^ 20)
    (h : PageSpace.Inv start ⟨s.kernel.pageTable, s.live.map Allocation.mapping ++ rest⟩)
    (hs : Session.Step mallocOk freeOk s s') :
    PageSpace.Inv start ⟨s'.kernel.pageTable, s'.live.map Allocation.mapping ++ rest⟩ := by
  cases hs with
  | @kmalloc k k' live size v _ hk =>
    obtain ⟨-, hpage, -⟩ := kmalloc_ok hcount hk
    have hstep : PageSpace.Step ⟨k.pageTable, live.map Allocation.mapping ++ rest⟩
        ⟨k'.pageTable, Allocation.mapping ⟨v, size, k.allocator⟩ :: (live.map Allocation.mapping ++ rest)⟩ :=
      .page (hmin.pageAt _) (.inr rfl) hpage
    exact (h.step hstep).1
  | @kfree k k' l₁ l₂ a _ hk =>
    have hfree := (h.backed a.mapping (by simp)).kfree
    change kfree a.ptr k = _ at hfree
    rw [hk] at hfree
    cases hfree
    rw [List.map_append, List.map_cons, List.append_assoc, List.cons_append] at h
    have hcleared := h.cleared.1
    rwa [← List.append_assoc, ← List.map_append] at hcleared

/-- What a run from the memory `ram₀` keeps: every mapping beside those of `b` is a live allocation's or
the one of the bookkeeping, and below the bookkeeping only the kernel tables change. -/
structure Kept (l : MemoryLayout) (b : Boot) (books : Mapping) (ram₀ : Ram) (m : Machine) (k : Kernel) : Prop where
  pages : PageSpace.Inv b.pageTable ⟨k.pageTable, m.live.map Allocation.mapping ++ [books]⟩
  below : ∀ x : KUint32, x.toNat < l.books.toNat → ¬l.KernelTables x → m.ram x = ram₀ x

section

variable {l : MemoryLayout} {tail : PageTable} {b : Boot} {a₀ : MemoryAllocator} {t₀ : PageTable} {m : Machine}
  {k : Kernel} {books : Mapping} {ram₀ : Ram} (hb : memInitialize b = .ok a₀ t₀)
  (hle : (computeHighestFreeAddress b.pageTable).toNat ≤ (memGetBytes b.lowmem b.highmem).toNat)
  (hbooks : l.books = computeHighestFreeAddress b.pageTable)

include hb

/-- A call of the kernel writes its state back. -/
theorem Kept.call {ram : Ram} {live live' : List Allocation} {k₁ k' : Kernel} {mallocOk : MemoryAllocator → KSize → Prop}
    {freeOk : Allocation → List Allocation → Prop} (h : Machine.Held l tail b a₀ ⟨ram, live⟩ k₁)
    (hkept : Kept l b books ram₀ ⟨ram, live⟩ k₁) (hs : Session.Step mallocOk freeOk ⟨k₁, live⟩ ⟨k', live'⟩) :
    Kept l b books ram₀ ⟨k'.write l ram, live'⟩ k' := by
  refine ⟨pages_step ?_ ?_ hkept.pages hs, fun x hx ht => (k'.write_below hx ht).trans (hkept.below x hx ht)⟩
  · rw [h.session.minAddress_eq]
    exact aligned_minAddress hb
  · rw [h.session.blockCount_eq]
    exact blockCount_lt hb

include hle

theorem Kept.of_inRam (h : m.Held l tail b a₀ k) (hkept : Kept l b books ram₀ m k) {k₁ : Kernel}
    (hk : k₁.InRam l tail m.ram) : m.Held l tail b a₀ k₁ ∧ Kept l b books ram₀ m k₁ := by
  refine ⟨h.of_inRam hb hle hk, ?_, hkept.below⟩
  rw [(h.inRam.unique hk).1]
  exact hkept.pages

include hbooks

theorem Kept.step (h : m.Held l tail b a₀ k) (hkept : Kept l b books ram₀ m k) {c : Arrays.Call KUint8} {m' : Machine}
    (hs : Machine.Step l tail c m m') : ∃ k', m'.Held l tail b a₀ k' ∧ Kept l b books ram₀ m' k' := by
  cases hs with
  | @kmalloc ram live k₁ k' size v hram hclear hk =>
    obtain ⟨hold, hkept⟩ := hkept.of_inRam hb hle h hram
    have hs : Session.AnyStep ⟨k₁, live⟩ ⟨k', ⟨v, size, k₁.allocator⟩ :: live⟩ := .kmalloc trivial hk
    exact ⟨k', hold.kmalloc hb hclear hk, hkept.call hb hold hs⟩
  | @kfree ram k₁ k' l₁ l₂ a hram hok hk =>
    obtain ⟨hold, hkept⟩ := hkept.of_inRam hb hle h hram
    have hs : Session.AnyStep ⟨k₁, l₁ ++ a :: l₂⟩ ⟨k', l₁ ++ l₂⟩ := .kfree trivial hk
    exact ⟨k', hold.kfree hb hle hok hk, hkept.call hb hold hs⟩
  | @store ram l₁ l₂ a j x v hj hx =>
    have hmem : a ∈ l₁ ++ a :: l₂ := by simp
    have hplace := h.translate hmem hj
    rw [hx, Option.some.injEq] at hplace
    subst hplace
    -- the byte is the allocation's own, and so above the bookkeeping
    have hown : a.place j ∈ Pool.Owned (Arrays.region Allocation.place Allocation.len) (l₁ ++ a :: l₂) :=
      ⟨a, hmem, j, hj, rfl⟩
    have habove := h.above hb hle hbooks hown
    refine ⟨k, h.store hb hle hbooks hown v, hkept.pages, fun y hy ht => ?_⟩
    show Function.update ram (a.place j) v y = ram₀ y
    rw [Function.update_of_ne (by rintro rfl; omega)]
    exact hkept.below y hy ht
  | load l₁ l₂ a hj hx => exact ⟨k, h, hkept⟩

theorem Kept.run (h : m.Held l tail b a₀ k) (hkept : Kept l b books ram₀ m k) {cs : List (Arrays.Call KUint8)}
    {m' : Machine} (hrun : Run.Trace (Machine.Step l tail) cs m m') :
    ∃ k', m'.Held l tail b a₀ k' ∧ Kept l b books ram₀ m' k' := by
  induction hrun generalizing k with
  | nil => exact ⟨k, h, hkept⟩
  | cons hs _ ih =>
    obtain ⟨k₁, h₁, hkept₁⟩ := hkept.step hb hle hbooks h hs
    exact ih h₁ hkept₁

end

/-! ## What is mapped -/

section

variable {l : MemoryLayout} {tail : PageTable} {b : Boot} {a₀ : MemoryAllocator} {t₀ : PageTable} {m : Machine}
  {k : Kernel} {books : Mapping} {ram₀ : Ram} (hb : memInitialize b = .ok a₀ t₀)
  (hle : (computeHighestFreeAddress b.pageTable).toNat ≤ (memGetBytes b.lowmem b.highmem).toNat)
  (hbooks : l.books = computeHighestFreeAddress b.pageTable)

include hb hle hbooks

/-- The pages of the allocations and of the bookkeeping lie from the bookkeeping on. -/
theorem Kept.frame_above (h : m.Held l tail b a₀ k) {v : KUint32} {mp : Mapping}
    (hmp : mp ∈ m.live.map Allocation.mapping ++ [⟨v, 4096#32, l.books, ptfReadWrite⟩]) {j : Nat} (hj : j < mp.count) :
    l.books.toNat ≤ (pageAt mp.frame j).toNat := by
  rcases List.mem_append.1 hmp with hmp | hmp
  · obtain ⟨a, ha, rfl⟩ := List.mem_map.1 hmp
    have := h.session.frame_toNat hb hle ha hj
    rw [hbooks]
    change _ ≤ (pageAt a.frame j).toNat
    omega
  · rw [List.mem_singleton] at hmp
    subst hmp
    have hmem := memGetBytes_toNat_lt b.lowmem b.highmem
    have hcount : pageCount 4096#32 = 2 := rfl
    change j < pageCount 4096#32 at hj
    rw [pageAt_toNat]
    change _ ≤ (l.books.toNat + 4096 * j) % 2 ^ 32
    rw [hbooks]
    omega

/-- The calls only ever add to what is mapped, and what they add lies from the bookkeeping on. -/
theorem Kept.translate {v : KUint32} (h : m.Held l tail b a₀ k)
    (hkept : Kept l b ⟨v, 4096#32, l.books, ptfReadWrite⟩ ram₀ m k)
    (hd₀ : Table ram₀ l.pageDirectory l.directoryEntry) (hb₀ : b.pageTable = (Kernel.read l ram₀).pageTable)
    (x : KUint32) : translate l m.ram x = translate l ram₀ x ∨
      translate l ram₀ x = none ∧ ∃ p, translate l m.ram x = some p ∧ l.books.toNat ≤ p.toNat := by
  by_cases hx : KernelAddress x
  · have hnow := h.inRam.translate_kernel hx
    have hthen := (Kernel.inRam_read hd₀).translate_kernel hx
    rw [← hb₀] at hthen
    by_cases hown : (tableOffset x).toNat ∈ Pool.Owned Mapping.range
        (m.live.map Allocation.mapping ++ [⟨v, 4096#32, l.books, ptfReadWrite⟩])
    · -- an entry that was free, and is one of a mapping now
      have hfree : entryInUse (b.pageTable (tableOffset x).toNat) = false := by
        by_contra hu
        rw [Bool.not_eq_false] at hu
        exact Set.disjoint_left.1 hkept.pages.pool.baseFree hu hown
      obtain ⟨mp, hmp, hrange⟩ := hown
      obtain ⟨h1, h2⟩ := (mp.mem_range _).1 hrange
      obtain ⟨j, hj⟩ := Nat.exists_eq_add_of_le h1
      have hback := hkept.pages.backed mp hmp
      have hentry := hback.entries j (by omega)
      change k.pageTable _ = _ at hentry
      rw [← hj] at hentry
      have habove := Kept.frame_above hb hle hbooks h hmp (show j < mp.count by omega)
      have hal := (aligned_iff _).1 (hback.aligned.pageAt j)
      have hlt := (pageAt mp.frame j).isLt
      rw [hentry, if_neg mappedEntry_present, entryFrame_mappedEntry (hback.aligned.pageAt j) hback.flags] at hnow
      refine .inr ⟨by rw [hthen, if_pos (entryInUse_eq_false.1 hfree).1], _, hnow, ?_⟩
      rw [BitVec.toNat_add, and_fff_toNat]
      omega
    · rcases hkept.pages.rest _ hown with heq | ⟨hzero, hfree⟩
      · change k.pageTable _ = _ at heq
        refine .inl ?_
        rw [hnow, hthen, heq]
      · change k.pageTable _ = _ at hzero
        refine .inl ?_
        rw [hnow, hthen, hzero, if_pos (BitVec.zero_and), if_pos (entryInUse_eq_false.1 hfree).1]
  · -- other addresses go through the identity map, which no call writes
    refine .inl (translate_other h.inRam.directory hd₀ (fun y hy => hkept.below y ?_ ?_) hx)
    · have h1 := l.table_toNat (show 1 ≤ 4 by omega)
      have := l.below
      bv_omega
    · have h1 := l.table_toNat (show 1 ≤ 4 by omega)
      have h2 := l.table_toNat (show 2 ≤ 4 by omega)
      have := l.below
      unfold BootLayout.KernelTables
      bv_omega

end

/-! ## What `mem_initialize` finds -/

theorem highestAddressLoop_le {t : PageTable} {x : Nat} : ∀ n : Nat, (∀ i < n, (entryFrame (t i)).toNat ≤ x) →
    (highestAddressLoop t n).toNat ≤ x
  | 0, _ => Nat.zero_le x
  | n + 1, h => by
    simp only [highestAddressLoop]
    split
    · exact highestAddressLoop_le n fun i hi => h i (by omega)
    · exact h n (by omega)

namespace KernelImage

variable (img : KernelImage)

/-- The bookkeeping will be on the first page after the kernel. -/
def layout : MemoryLayout where
  toBootLayout := img.toBootLayout
  books := img.kernelEnd
  below := img.tables.2
  room := by
    have := img.endUpper
    omega

/-- The tables in memory, and the memory size in the CMOS registers. -/
def boot (m : Ram) (lowmem highmem : KUint8) : Boot where
  pageTable := (Kernel.read img.layout m).pageTable
  lowmem := lowmem
  highmem := highmem
  memory := (Kernel.read img.layout m).allocator.memMap

end KernelImage

section

variable {img : KernelImage} {first : KUint32} {s : Processor}

/-- The kernel tables in memory: the kernel and the screen. -/
theorem Running.pageTable (h : Running img first s) {i : Nat} (hi : i < kernelPageTablesLen) :
    (Kernel.read img.layout s.memory).pageTable i = Function.update (kernelTable img.endPage) 1023 vgaEntry i := by
  have hbounds := img.endPage_bounds
  have hlow := img.low
  simp only [kernelPageTablesLen, pageTableLen] at hi
  have hplace : ∀ n ≤ 2, i = 1024 * n + i % 1024 → img.table 2 + BitVec.ofNat 32 (4 * i) =
      img.table (n + 2) + BitVec.ofNat 32 (4 * (i % 1024)) := fun n hn hin => by
    have h2 := img.table_toNat (show 2 ≤ 4 by omega)
    have ht := img.table_toNat (show n + 2 ≤ 4 by omega)
    bv_omega
  show readWord s.memory (img.table 2 + BitVec.ofNat 32 (4 * i)) = _
  by_cases h1024 : i < 1024
  · exact h.kernel i h1024
  · have hempty := h.empty (i / 1024 + 2) (by omega) (by omega) (i % 1024) (by omega)
    rw [hplace (i / 1024) (by omega) (by omega), hempty, Function.update_of_ne (by omega), kernelTable, if_neg (by omega)]

theorem entryFrame_kernelEntry (k : Nat) : entryFrame (kernelEntry k) = BitVec.ofNat 32 (4096 * k) :=
  (page_entry k (show (ptfPresent ||| ptfReadWrite ||| ptfAeonLocked) &&& ~~~0xfff#32 = 0#32 by decide) (by decide)
    (by decide)).2.2

/-- The page after the kernel is the first free one. -/
theorem Running.highest (h : Running img first s) (lowmem highmem : KUint8) :
    computeHighestFreeAddress (img.boot s.memory lowmem highmem).pageTable = img.kernelEnd := by
  have hbounds := img.endPage_bounds
  have hlast := img.endPage_lt
  have hend := img.kernelEnd_eq
  have hframe : ∀ i < kernelPageTablesLen, (entryFrame ((img.boot s.memory lowmem highmem).pageTable i)).toNat ≤
      4096 * (img.endPage - 1) := fun i hi => by
    show (entryFrame ((Kernel.read img.layout s.memory).pageTable i)).toNat ≤ _
    rw [h.pageTable hi]
    -- the screen's frame is below the kernel
    by_cases hvga : i = 1023
    · rw [hvga, Function.update_self, show entryFrame vgaEntry = 0xB8000#32 by decide, BitVec.toNat_ofNat]
      omega
    · rw [Function.update_of_ne hvga]
      unfold kernelTable
      split
      · rw [entryFrame_kernelEntry, BitVec.toNat_ofNat]
        omega
      · exact Nat.zero_le _
  have hle := highestAddressLoop_le kernelPageTablesLen hframe
  have hlen : img.endPage - 1 < kernelPageTablesLen := by
    unfold kernelPageTablesLen pageTableLen
    omega
  have hge := highestAddressLoop_ge (img.boot s.memory lowmem highmem).pageTable kernelPageTablesLen _ hlen
  have hentry : (img.boot s.memory lowmem highmem).pageTable (img.endPage - 1) = kernelEntry (img.endPage - 1) :=
    (h.pageTable hlen).trans (kernelTable_page (by omega) (by omega))
  rw [hentry, entryFrame_kernelEntry, BitVec.toNat_ofNat] at hge
  apply BitVec.eq_of_toNat_eq
  rw [computeHighestFreeAddress, BitVec.toNat_add, pageSize, BitVec.toNat_ofNat]
  omega

section

variable {lowmem highmem : KUint8} {a : MemoryAllocator} {t : PageTable}

theorem Running.blockCount (h : Running img first s) (hinit : memInitialize (img.boot s.memory lowmem highmem) = .ok a t) :
    a.blockCount = (memGetBytes lowmem highmem - img.kernelEnd) / 4096#32 := by
  obtain ⟨-, -, -, -, hcount, -⟩ := memInitialize_ok hinit
  rw [hcount, h.highest]
  rfl

end

end

/-! ## From `_start` on -/

section

variable {img : KernelImage} {s : Processor}

end

end Aeon.Platform
