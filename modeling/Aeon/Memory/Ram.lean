/-
The kernel's memory state in physical memory: the page directory, the kernel tables and the
allocator's bookkeeping are dwords of the same memory that everything else is in, and the hardware
translates addresses by a walk over those very dwords.
-/
import Aeon.Lib.I386Program
import Aeon.Klibc.Memory
import Aeon.Memory.Ownership
import Aeon.Memory.Kmalloc

namespace Aeon.Memory

open I386

/-! ## The kernel's state in memory -/

/-- The dwords of `memory_allocator_t` on the first page of the bookkeeping. -/
def MemoryAllocator.word (a : MemoryAllocator) : Nat → KUint32
  | 0 => a.minAddress
  | 1 => a.maxAddress
  | 2 => a.blockCount
  | i + 3 => a.memMap i

/-- The frame of the bookkeeping, and the tables in the kernel below it. -/
structure MemoryLayout extends BootLayout where
  books : KUint32
  below : pageDirectory.toNat + 5 * 4096 ≤ books.toNat
  room : books.toNat + 4096 ≤ 2 ^ 32

/-- Memory holds the kernel's state. Of `mem_map` it is the words on the first page; the words past the
tables, which no function looks at, are those of `tail`. -/
structure Kernel.InRam (l : MemoryLayout) (tail : PageTable) (m : Ram) (k : Kernel) : Prop where
  directory : Table m l.pageDirectory l.directoryEntry
  tables : ∀ n < 3, Table m (l.table (n + 2)) fun i => k.pageTable (1024 * n + i)
  tail : ∀ i, kernelPageTablesLen ≤ i → k.pageTable i = tail i
  books : Table m l.books k.allocator.word

/-- Memory after the kernel has written its state. -/
def Kernel.write (l : MemoryLayout) (k : Kernel) (m : Ram) : Ram :=
  putTable l.books k.allocator.word <|
  putTable (l.table 4) (fun i => k.pageTable (2048 + i)) <|
  putTable (l.table 3) (fun i => k.pageTable (1024 + i)) <|
  putTable (l.table 2) k.pageTable m

/-- The state that is in memory. -/
def Kernel.read (l : MemoryLayout) (m : Ram) : Kernel where
  pageTable i := readWord m (l.table 2 + BitVec.ofNat 32 (4 * i))
  allocator :=
    { minAddress := readWord m l.books
      maxAddress := readWord m (l.books + 4#32)
      blockCount := readWord m (l.books + 8#32)
      memMap := fun i => readWord m (l.books + BitVec.ofNat 32 (4 * (i + 3))) }

/-- The bytes of the three kernel tables. -/
def BootLayout.KernelTables (l : BootLayout) (x : KUint32) : Prop :=
  (l.table 2).toNat ≤ x.toNat ∧ x.toNat < (l.table 2).toNat + 3 * 4096

section

variable {l : MemoryLayout} {tail : PageTable} {m m' : Ram} {k k' : Kernel}

theorem Kernel.inRam_read (hd : Table m l.pageDirectory l.directoryEntry) :
    (Kernel.read l m).InRam l (Kernel.read l m).pageTable m := by
  refine ⟨hd, fun n hn i hi => congrArg (readWord m) ?_, fun _ _ => rfl, fun i _ => ?_⟩
  · have h2 := l.table_toNat (show 2 ≤ 4 by omega)
    have ht := l.table_toNat (show n + 2 ≤ 4 by omega)
    bv_omega
  · rcases i with _ | _ | _ | i
    · exact congrArg (readWord m) (BitVec.add_zero _)
    all_goals rfl

/-- The kernel writes to its tables and its bookkeeping. -/
theorem Kernel.write_below (k : Kernel) {x : KUint32} (hx : x.toNat < l.books.toNat) (ht : ¬l.KernelTables x) :
    k.write l m x = m x := by
  unfold BootLayout.KernelTables at ht
  have hbelow := l.below
  have hroom := l.room
  have h2 := l.table_toNat (show 2 ≤ 4 by omega)
  have h3 := l.table_toNat (show 3 ≤ 4 by omega)
  have h4 := l.table_toNat (show 4 ≤ 4 by omega)
  unfold Kernel.write
  rw [putTable_outside _ _ (by bv_omega), putTable_outside _ _ (by bv_omega), putTable_outside _ _ (by bv_omega),
    putTable_outside _ _ (by bv_omega)]

theorem Kernel.write_above (k : Kernel) {x : KUint32} (hx : l.books.toNat + 4096 ≤ x.toNat) : k.write l m x = m x := by
  have hbelow := l.below
  have h2 := l.table_toNat (show 2 ≤ 4 by omega)
  have h3 := l.table_toNat (show 3 ≤ 4 by omega)
  have h4 := l.table_toNat (show 4 ≤ 4 by omega)
  unfold Kernel.write
  rw [putTable_outside _ _ (by bv_omega), putTable_outside _ _ (by bv_omega), putTable_outside _ _ (by bv_omega),
    putTable_outside _ _ (by bv_omega)]

theorem Kernel.inRam_write (hd : Table m l.pageDirectory l.directoryEntry)
    (htail : ∀ i, kernelPageTablesLen ≤ i → k.pageTable i = tail i) : k.InRam l tail (k.write l m) := by
  have hbelow := l.below
  have hroom := l.room
  have h2 := l.table_toNat (show 2 ≤ 4 by omega)
  have h3 := l.table_toNat (show 3 ≤ 4 by omega)
  have h4 := l.table_toNat (show 4 ≤ 4 by omega)
  have ht2 := table_putTable (l.table 2) k.pageTable m
  have ht3 := table_putTable (l.table 3) (fun i => k.pageTable (1024 + i)) (putTable (l.table 2) k.pageTable m)
  have ht4 := table_putTable (l.table 4) (fun i => k.pageTable (2048 + i))
    (putTable (l.table 3) (fun i => k.pageTable (1024 + i)) (putTable (l.table 2) k.pageTable m))
  refine ⟨?_, fun n hn => ?_, htail, table_putTable _ _ _⟩
  · -- each part is apart from the ones written after it
    exact (((hd.put_other _ (by bv_omega) (by bv_omega)).put_other _ (by bv_omega) (by bv_omega)).put_other _
      (by bv_omega) (by bv_omega)).put_other _ (by bv_omega) (by bv_omega)
  · rcases n with _ | _ | _ | n
    · refine (((ht2.put_other _ (by bv_omega) (by bv_omega)).put_other _ (by bv_omega) (by bv_omega)).put_other _
        (by bv_omega) (by bv_omega)).congr fun i _ => ?_
      rw [Nat.mul_zero, Nat.zero_add]
    · exact (ht3.put_other _ (by bv_omega) (by bv_omega)).put_other _ (by bv_omega) (by bv_omega)
    · exact ht4.put_other _ (by bv_omega) (by bv_omega)
    · omega

/-- Memory that differs only above the bookkeeping holds the same state. -/
theorem Kernel.InRam.congr_above (h : k.InRam l tail m)
    (heq : ∀ x : KUint32, x.toNat < l.books.toNat + 4096 → m' x = m x) : k.InRam l tail m' := by
  have hbelow := l.below
  have hroom := l.room
  refine ⟨h.directory.congr_bytes fun x hx => heq x (by bv_omega), fun n hn => ?_, h.tail,
    h.books.congr_bytes fun x hx => heq x (by bv_omega)⟩
  have ht := l.table_toNat (show n + 2 ≤ 4 by omega)
  exact (h.tables n hn).congr_bytes fun x hx => heq x (by bv_omega)

/-- Memory determines the state, up to the words of `mem_map` that are not on its first page. -/
theorem Kernel.InRam.unique (h : k.InRam l tail m) (h' : k'.InRam l tail m) :
    k'.pageTable = k.pageTable ∧ k'.allocator.header = k.allocator.header ∧
      ∀ i < bookkeepingWords, k'.allocator.memMap i = k.allocator.memMap i := by
  have hword : ∀ i < 1024, k'.allocator.word i = k.allocator.word i := fun i hi => h'.books.unique h.books hi
  refine ⟨funext fun i => ?_, ?_, fun i hi => hword (i + 3) (by unfold bookkeepingWords at hi; omega)⟩
  · by_cases hi : i < kernelPageTablesLen
    · simp only [kernelPageTablesLen, pageTableLen] at hi
      have := (h'.tables (i / 1024) (by omega)).unique (h.tables (i / 1024) (by omega))
        (show i % 1024 < 1024 by omega)
      rwa [show 1024 * (i / 1024) + i % 1024 = i by omega] at this
    · rw [h'.tail i (by omega), h.tail i (by omega)]
  · exact Prod.ext (hword 0 (by omega)) (Prod.ext (hword 1 (by omega)) (hword 2 (by omega)))

end

/-! ## The walk over tables in memory -/

section

variable {l : BootLayout} {m : Ram} {directory entries : Nat → KUint32} {v : KUint32}

theorem entry_address (base i : KUint32) : base + 4#32 * i = base + BitVec.ofNat 32 (4 * i.toNat) := rfl

theorem directory_read (hd : Table m l.pageDirectory directory) :
    readWord m ((l.pageDirectory &&& ~~~0xfff#32) + 4#32 * (v >>> 22)) = directory (v.toNat / 2 ^ 22) := by
  have hcr3 : l.pageDirectory &&& ~~~0xfff#32 = l.pageDirectory := l.aligned.entryFrame_eq
  have hindex : (v >>> 22).toNat = v.toNat / 2 ^ 22 := by
    rw [BitVec.toNat_ushiftRight, Nat.shiftRight_eq_div_pow]
  rw [hcr3, entry_address, hindex, hd _ (by omega)]

theorem table_read {n : Nat} (ht : Table m (l.table n) entries) :
    readWord m ((l.table n + BootLayout.pdf &&& ~~~0xfff#32) + 4#32 * ((v >>> 12) &&& 0x3ff#32)) =
      entries (v.toNat / 4096 % 1024) := by
  have hindex : ((v >>> 12) &&& 0x3ff#32).toNat = v.toNat / 4096 % 1024 := pageTableIndex_toNat v
  rw [(l.pde_table n).2, entry_address, hindex, ht _ (by omega)]

/-- The walk through table `n`. -/
theorem walk_table {n : Nat} (hd : Table m l.pageDirectory directory)
    (hn : directory (v.toNat / 2 ^ 22) = l.table n + BootLayout.pdf) (ht : Table m (l.table n) entries) :
    pageWalk (readWord m) l.pageDirectory v = if entries (v.toNat / 4096 % 1024) &&& 1#32 = 0#32 then none
      else some ((entries (v.toNat / 4096 % 1024) &&& ~~~0xfff#32) + (v &&& 0xfff#32)) := by
  have hread := directory_read (v := v) hd
  rw [hn] at hread
  unfold pageWalk
  simp only [hread, table_read ht]
  rw [if_neg (l.pde_table n).1]

theorem walk_none (hd : Table m l.pageDirectory directory) (hn : directory (v.toNat / 2 ^ 22) = 0#32) :
    pageWalk (readWord m) l.pageDirectory v = none := by
  have hread := directory_read (v := v) hd
  rw [hn] at hread
  unfold pageWalk
  simp only [hread]
  rfl

end

/-! ## Translation -/

section

variable {l : MemoryLayout} {tail : PageTable} {m m' : Ram} {k k' : Kernel}

/-- The hardware's walk over the tables in memory. -/
def translate (l : MemoryLayout) (m : Ram) (v : KUint32) : Option KUint32 :=
  pageWalk (readWord m) l.pageDirectory v

theorem Kernel.InRam.translate_kernel (h : k.InRam l tail m) {v : KUint32} (hv : KernelAddress v) : translate l m v =
    if k.pageTable (tableOffset v).toNat &&& ptfPresent = 0#32 then none
    else some (entryFrame (k.pageTable (tableOffset v).toNat) + (v &&& 0xfff#32)) := by
  obtain ⟨h1, h2⟩ := hv
  have hn : v.toNat / 2 ^ 22 - 768 < 3 := by omega
  have hentry := directoryEntry_kernel l.toBootLayout hn
  rw [show 768 + (v.toNat / 2 ^ 22 - 768) = v.toNat / 2 ^ 22 by omega] at hentry
  have hoff : 1024 * (v.toNat / 2 ^ 22 - 768) + v.toNat / 4096 % 1024 = (tableOffset v).toNat := by
    rw [tableOffset_toNat h1]
    omega
  have hwalk := walk_table (v := v) h.directory hentry (h.tables _ hn)
  rw [hoff] at hwalk
  exact hwalk

/-- Any other address is translated by the directory and the map of the first 4 MiB. -/
theorem translate_other (hd : Table m l.pageDirectory l.directoryEntry)
    (hd' : Table m' l.pageDirectory l.directoryEntry) (hid : ∀ x, (x - l.table 1).toNat < 4096 → m x = m' x)
    {v : KUint32} (hv : ¬KernelAddress v) : translate l m v = translate l m' v := by
  unfold KernelAddress at hv
  unfold translate
  by_cases h0 : v.toNat / 2 ^ 22 = 0
  · have hid' : Table m' (l.table 1) fun i => readWord m' (l.table 1 + BitVec.ofNat 32 (4 * i)) := fun _ _ => rfl
    have hentry : l.directoryEntry (v.toNat / 2 ^ 22) = l.table 1 + BootLayout.pdf := if_pos h0
    rw [walk_table hd hentry (hid'.congr_bytes hid), walk_table hd' hentry hid']
  · have hentry : l.directoryEntry (v.toNat / 2 ^ 22) = 0#32 := by
      unfold BootLayout.directoryEntry
      rw [if_neg h0, if_neg (by omega), if_neg (by omega), if_neg (by omega)]
    rw [walk_none hd hentry, walk_none hd' hentry]

/-- Nothing above the bookkeeping has a part in a walk. -/
theorem Kernel.InRam.translate_above (h : k.InRam l tail m)
    (heq : ∀ x : KUint32, x.toNat < l.books.toNat + 4096 → m' x = m x) (v : KUint32) :
    translate l m' v = translate l m v := by
  have h' := h.congr_above heq
  by_cases hv : KernelAddress v
  · rw [h.translate_kernel hv, h'.translate_kernel hv]
  · refine translate_other h'.directory h.directory (fun x hx => heq x ?_) hv
    have h1 := l.table_toNat (show 1 ≤ 4 by omega)
    have hbelow := l.below
    bv_omega

/-- The page of a linear address. -/
def linearPage (v : KUint32) : KUint32 := v &&& ~~~0xfff#32

/-- A walk goes by the page of the address. -/
theorem translate_page (l : MemoryLayout) (m : Ram) (v : KUint32) :
    translate l m v = (translate l m (linearPage v)).map (· + (v &&& 0xfff#32)) := by
  have hpage : (linearPage v).toNat = v.toNat - v.toNat % 4096 := entryFrame_toNat v
  have hdir : linearPage v >>> 22 = v >>> 22 := by
    apply BitVec.eq_of_toNat_eq
    rw [BitVec.toNat_ushiftRight, BitVec.toNat_ushiftRight, Nat.shiftRight_eq_div_pow, Nat.shiftRight_eq_div_pow, hpage]
    omega
  have htab : linearPage v >>> 12 = v >>> 12 := by
    apply BitVec.eq_of_toNat_eq
    rw [BitVec.toNat_ushiftRight, BitVec.toNat_ushiftRight, Nat.shiftRight_eq_div_pow, Nat.shiftRight_eq_div_pow, hpage]
    omega
  have hoff : linearPage v &&& 0xfff#32 = 0#32 := aligned_entryFrame v
  unfold translate pageWalk
  simp only [hdir, htab, hoff]
  split
  · rfl
  · split
    · rfl
    · rw [Option.map_some, BitVec.add_zero]

/-- The walk of byte `i` of a mapping is byte `i` of its frames. -/
theorem Backed.translate {a : Mapping} (hb : Backed k.pageTable a) (hp : Aligned a.ptr) (h : k.InRam l tail m) {i : Nat}
    (hi : i < a.count * 4096) :
    translate l m (a.ptr + BitVec.ofNat 32 i) = some (a.frame + BitVec.ofNat 32 i) := by
  have hptr : a.ptr = pageAt kernelFirstPageAddress a.start := hp.kernel_page hb.kernel
  obtain ⟨hka, hoff⟩ := byte_entry hb.fits hi
  rw [← hptr] at hka hoff
  rw [h.translate_kernel hka, hoff,
    hb.entries _ (Nat.div_lt_of_lt_mul (by rwa [Nat.mul_comm] at hi)), if_neg mappedEntry_present,
    entryFrame_mappedEntry (hb.aligned.pageAt _) hb.flags, (pageAt_add_offset hp i).2,
    (pageAt_add_offset hb.aligned i).1]

end

end Aeon.Memory
