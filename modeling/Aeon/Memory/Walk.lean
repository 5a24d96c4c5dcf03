/-
The i386 two-level page walk over physical memory as `boot.s` sets it up, and the agreement of the
three address computations: the flat index `page` allocates with, the directory and table split of
`get_physical_address`, and the hardware's walk through the separate tables.
-/
import Aeon.Memory.Mapping

namespace Aeon.Memory

/-! ## The hardware -/

/-- The two-level walk of a 32-bit address: bits 31–22 index the directory at `cr3`, bits 21–12 the
table its entry points to, and each entry must be present. `memory a` is the dword at `a`. -/
def pageWalk (memory : KUint32 → KUint32) (cr3 v : KUint32) : Option KUint32 :=
  let pde := memory ((cr3 &&& ~~~0xfff#32) + 4#32 * (v >>> 22))
  if pde &&& 1#32 = 0#32 then none
  else
    let pte := memory ((pde &&& ~~~0xfff#32) + 4#32 * ((v >>> 12) &&& 0x3ff#32))
    if pte &&& 1#32 = 0#32 then none
    else some ((pte &&& ~~~0xfff#32) + (v &&& 0xfff#32))

/-! ## Physical memory -/

/-- Where the linker put `g_page_directory`: page aligned, with room for the four tables that
follow it in `.bss`. -/
structure BootLayout where
  pageDirectory : KUint32
  aligned : Aligned pageDirectory
  fits : pageDirectory.toNat + 5 * 4096 ≤ 2 ^ 32

namespace BootLayout

variable (l : BootLayout)

/-- The physical address of table `n` after the directory: 1 is `g_page_table_00000000`, 2, 3 and 4
are `g_page_table_C0000000`, `g_page_table_C0400000` and `g_page_table_C0800000`. -/
def table (n : Nat) : KUint32 := pageAt l.pageDirectory n

/-- `PDF_PRESENT + PDF_READ_WRITE`. -/
def pdf : KUint32 := 1#32 + 2#32

/-- The directory entries `boot.s` writes; the rest of `.bss` is zero. -/
def directoryEntry (i : Nat) : KUint32 :=
  if i = 0 then l.table 1 + pdf
  else if i = 768 then l.table 2 + pdf
  else if i = 769 then l.table 3 + pdf
  else if i = 770 then l.table 4 + pdf
  else 0#32

/-- Physical memory: the directory, the kernel tables `t`, and anything else. -/
def memory (t : PageTable) (rest : KUint32 → KUint32) (a : KUint32) : KUint32 :=
  let d := l.pageDirectory.toNat
  if d ≤ a.toNat ∧ a.toNat < d + 4096 then l.directoryEntry ((a.toNat - d) / 4)
  else if d + 2 * 4096 ≤ a.toNat ∧ a.toNat < d + 5 * 4096 then t ((a.toNat - (d + 2 * 4096)) / 4)
  else rest a

theorem table_toNat {n : Nat} (hn : n ≤ 4) : (l.table n).toNat = l.pageDirectory.toNat + 4096 * n := by
  have := l.fits
  rw [table, pageAt_toNat]
  omega

theorem aligned_table (n : Nat) : Aligned (l.table n) := l.aligned.pageAt n

theorem memory_directory (t : PageTable) (rest : KUint32 → KUint32) {i : KUint32} (hi : i.toNat < 1024) :
    l.memory t rest (l.pageDirectory + 4#32 * i) = l.directoryEntry i.toNat := by
  have ha : (l.pageDirectory + 4#32 * i).toNat = l.pageDirectory.toNat + 4 * i.toNat := by
    have := l.fits
    rw [BitVec.toNat_add, BitVec.toNat_mul]
    simp only [BitVec.toNat_ofNat]
    omega
  rw [memory, ha, if_pos (by omega), Nat.add_sub_cancel_left, Nat.mul_div_cancel_left _ (by omega)]

theorem memory_table (t : PageTable) (rest : KUint32 → KUint32) {n : Nat} (hn : n < 3) {i : KUint32}
    (hi : i.toNat < 1024) :
    l.memory t rest (l.table (n + 2) + 4#32 * i) = t (1024 * n + i.toNat) := by
  have ha : (l.table (n + 2) + 4#32 * i).toNat = l.pageDirectory.toNat + 4096 * (n + 2) + 4 * i.toNat := by
    have := l.fits
    rw [BitVec.toNat_add, BitVec.toNat_mul, l.table_toNat (by omega)]
    simp only [BitVec.toNat_ofNat]
    omega
  rw [memory, ha, if_neg (by omega), if_pos (by omega)]
  congr 1
  omega

theorem pde_table (n : Nat) :
    (l.table n + pdf) &&& 1#32 ≠ 0#32 ∧ (l.table n + pdf) &&& ~~~0xfff#32 = l.table n := by
  have hd : l.table n &&& pdf = 0#32 := (l.aligned_table n).and_low (by decide)
  have hf := (l.aligned_table n).entryFrame_eq
  rw [BitVec.add_eq_or_of_and_eq_zero _ _ hd, BitVec.and_or_distrib_right, BitVec.and_or_distrib_right]
  refine ⟨?_, ?_⟩
  · rw [(l.aligned_table n).and_low (by decide), show pdf &&& 1#32 = 1#32 by decide]
    decide
  · rw [show pdf &&& ~~~0xfff#32 = 0#32 by decide, BitVec.or_zero]
    exact hf

end BootLayout

/-! ## The walk of a kernel address -/

def KernelAddress (v : KUint32) : Prop := 0xC0000000 ≤ v.toNat ∧ v.toNat ≤ 0xC0BFFFFF

theorem directoryEntry_kernel (l : BootLayout) {n : Nat} (hn : n < 3) :
    l.directoryEntry (768 + n) = l.table (n + 2) + BootLayout.pdf := by
  rcases n with _ | _ | _ | n
  · rfl
  · rfl
  · rfl
  · omega

/-- For a kernel address the walk reads exactly the entry at its flat index. -/
theorem pageWalk_kernel (l : BootLayout) (t : PageTable) (rest : KUint32 → KUint32) {v : KUint32}
    (hv : KernelAddress v) :
    pageWalk (l.memory t rest) l.pageDirectory v =
      if t (tableOffset v).toNat &&& ptfPresent = 0#32 then none
      else some (entryFrame (t (tableOffset v).toNat) + (v &&& 0xfff#32)) := by
  obtain ⟨h1, h2⟩ := hv
  have hdir : (v >>> 22).toNat = 768 + (v.toNat / 2 ^ 22 - 768) := by
    rw [BitVec.toNat_ushiftRight, Nat.shiftRight_eq_div_pow]
    omega
  have htab := pageTableIndex_toNat v
  have hoff := tableOffset_toNat h1
  have hn : v.toNat / 2 ^ 22 - 768 < 3 := by omega
  have hidx : 1024 * (v.toNat / 2 ^ 22 - 768) + (pageTableIndex v).toNat = (tableOffset v).toNat := by omega
  obtain ⟨hp, hf⟩ := l.pde_table (v.toNat / 2 ^ 22 - 768 + 2)
  have hpde : l.memory t rest (l.pageDirectory + 4#32 * (v >>> 22)) =
      l.table (v.toNat / 2 ^ 22 - 768 + 2) + BootLayout.pdf := by
    rw [l.memory_directory t rest (by omega), hdir, directoryEntry_kernel l hn]
  have hcr3 : l.pageDirectory &&& ~~~0xfff#32 = l.pageDirectory := l.aligned.entryFrame_eq
  have hpte : l.memory t rest (l.table (v.toNat / 2 ^ 22 - 768 + 2) + 4#32 * ((v >>> 12) &&& 0x3ff#32)) =
      t (tableOffset v).toNat := by
    rw [show (v >>> 12) &&& 0x3ff#32 = pageTableIndex v from rfl, l.memory_table t rest hn (by omega), hidx]
  simp only [pageWalk, hcr3, hpde, hf, hpte]
  rw [if_neg hp]
  rfl

theorem pageWalk_congr (l : BootLayout) {t t' : PageTable} (rest : KUint32 → KUint32) {v : KUint32}
    (hv : KernelAddress v) (h : t' (tableOffset v).toNat = t (tableOffset v).toNat) :
    pageWalk (l.memory t' rest) l.pageDirectory v = pageWalk (l.memory t rest) l.pageDirectory v := by
  rw [pageWalk_kernel l t' rest hv, pageWalk_kernel l t rest hv, h]

theorem pageAt_add_offset {pa : KUint32} (ha : Aligned pa) (i : Nat) :
    pageAt pa (i / 4096) + BitVec.ofNat 32 (i % 4096) = pa + BitVec.ofNat 32 i ∧
      (pa + BitVec.ofNat 32 i) &&& 0xfff#32 = BitVec.ofNat 32 (i % 4096) := by
  rw [aligned_iff] at ha
  constructor
  · apply BitVec.eq_of_toNat_eq
    rw [BitVec.toNat_add, BitVec.toNat_add, pageAt_toNat, BitVec.toNat_ofNat, BitVec.toNat_ofNat]
    omega
  · apply BitVec.eq_of_toNat_eq
    rw [and_fff_toNat, BitVec.toNat_add, BitVec.toNat_ofNat, BitVec.toNat_ofNat]
    omega

theorem entryFrame_add {pa : KUint32} (ha : Aligned pa) (i : Nat) :
    entryFrame (pa + BitVec.ofNat 32 i) = pageAt pa (i / 4096) := by
  rw [aligned_iff] at ha
  apply BitVec.eq_of_toNat_eq
  rw [entryFrame_toNat, pageAt_toNat, BitVec.toNat_add, BitVec.toNat_ofNat]
  omega

/-! ## The bytes of a run of entries -/

section

variable {start count : Nat} (hfit : start + count < kernelPageTablesLen)

include hfit

theorem byte_toNat {i : Nat} (hi : i < count * 4096) :
    (pageAt kernelFirstPageAddress start + BitVec.ofNat 32 i).toNat = 0xC0000000 + 4096 * start + i := by
  rw [BitVec.toNat_add, pageAt_kernel_toNat (by omega), BitVec.toNat_ofNat]
  simp only [kernelPageTablesLen, pageTableLen] at hfit
  omega

/-- Byte `i` of the pages of a run is a kernel address whose entry is `i / 4096` into the run. -/
theorem byte_entry {i : Nat} (hi : i < count * 4096) :
    KernelAddress (pageAt kernelFirstPageAddress start + BitVec.ofNat 32 i) ∧
      (tableOffset (pageAt kernelFirstPageAddress start + BitVec.ofNat 32 i)).toNat = start + i / 4096 := by
  have hbyte := byte_toNat hfit hi
  simp only [kernelPageTablesLen, pageTableLen] at hfit
  refine ⟨⟨by omega, by omega⟩, ?_⟩
  rw [tableOffset_toNat (by omega), hbyte]
  omega

/-- Any other kernel address has its entry outside the run. -/
theorem entry_outside {a : KUint32} (ha : KernelAddress a)
    (hne : ∀ i < count * 4096, a ≠ pageAt kernelFirstPageAddress start + BitVec.ofNat 32 i) :
    (tableOffset a).toNat < start ∨ start + count ≤ (tableOffset a).toNat := by
  have hoff := tableOffset_toNat ha.1
  have hlo := ha.1
  by_contra hin
  have hlt : a.toNat - (0xC0000000 + 4096 * start) < count * 4096 := by omega
  refine hne _ hlt (BitVec.eq_of_toNat_eq ?_)
  rw [byte_toNat hfit hlt]
  omega

end

section

variable {pa flags : KUint32} {t t' : PageTable} {start count i : Nat} (hp : Paged t t' pa flags start count)
  (ha : Aligned pa) (hf : KernelFlags flags) (hi : i < count * 4096)

include hp ha hf hi

/-- The walk of byte `i` of the pages of a run yields `pa + i`. -/
theorem Paged.walk (l : BootLayout) (rest : KUint32 → KUint32) :
    pageWalk (l.memory t' rest) l.pageDirectory (pageAt kernelFirstPageAddress start + BitVec.ofNat 32 i) =
      some (pa + BitVec.ofNat 32 i) := by
  obtain ⟨hka, hoff⟩ := byte_entry hp.run.fits hi
  have hva : Aligned (pageAt kernelFirstPageAddress start) := Aligned.pageAt (by decide) start
  rw [pageWalk_kernel l t' rest hka, hoff, hp.mapped _ (Nat.div_lt_of_lt_mul (by rwa [Nat.mul_comm] at hi)),
    if_neg mappedEntry_present, entryFrame_mappedEntry (ha.pageAt _) hf, (pageAt_add_offset hva i).2,
    (pageAt_add_offset ha i).1]

theorem Paged.getPhysicalAddress :
    getPhysicalAddress (pageAt kernelFirstPageAddress start + BitVec.ofNat 32 i) t' =
      entryFrame (pa + BitVec.ofNat 32 i) := by
  obtain ⟨hka, hoff⟩ := byte_entry hp.run.fits hi
  rw [Memory.getPhysicalAddress, if_pos (kernel_pageDirIndex hka.1), hoff,
    hp.mapped _ (Nat.div_lt_of_lt_mul (by rwa [Nat.mul_comm] at hi)), entryFrame_mappedEntry (ha.pageAt _) hf,
    entryFrame_add ha i]

end

/-- After `page` returns `v` for the frame `pa`, the hardware walk of every byte `i` of the pages
it mapped yields `pa + i`, `get_physical_address` the same rounded down to 4 KiB, and the walk of
every other kernel address is as before the call. -/
theorem page_walk (l : BootLayout) (rest : KUint32 → KUint32) {pa flags v : KUint32} {size : KSize}
    {t t' : PageTable} (ha : Aligned pa) (hf : KernelFlags flags) (h : page pa size flags t = .ok v t') :
    (∀ i < (size.toNat / 4096 + 1) * 4096,
      pageWalk (l.memory t' rest) l.pageDirectory (v + BitVec.ofNat 32 i) = some (pa + BitVec.ofNat 32 i) ∧
      getPhysicalAddress (v + BitVec.ofNat 32 i) t' = (pa + BitVec.ofNat 32 i) &&& ~~~0xfff#32) ∧
    (∀ a, KernelAddress a → (∀ i < (size.toNat / 4096 + 1) * 4096, a ≠ v + BitVec.ofNat 32 i) →
      pageWalk (l.memory t' rest) l.pageDirectory a = pageWalk (l.memory t rest) l.pageDirectory a) := by
  obtain ⟨start, rfl, hp⟩ := page_ok h
  exact ⟨fun i hi => ⟨hp.walk ha hf hi l rest, hp.getPhysicalAddress ha hf hi⟩,
    fun a hk hne => pageWalk_congr l rest hk (hp.frame _ (entry_outside hp.run.fits hk hne))⟩

/-- A layout with the directory at `0x110000`. -/
def layout110000 : BootLayout := ⟨0x110000#32, by decide, by norm_num⟩

theorem page_walk_onePage :
    pageWalk (layout110000.memory onePage fun _ => 0#32) 0x110000#32
      (0xC0000000#32 + BitVec.ofNat 32 5) = some (0x5000#32 + BitVec.ofNat 32 5) :=
  have h := page_walk layout110000 (fun _ => 0#32) (by decide) (by decide) page_onePage
  (h.1 5 (by norm_num)).1

/-! ## `page_unaligned` -/

/-- A call that turned the table `t` into `t'` and returned `v` for `pa` maps byte `i` of the
object: it wrote the entry the walk of `v + i` reads, and the walk yields `pa + i`. -/
def MapsByte (l : BootLayout) (rest : KUint32 → KUint32) (t t' : PageTable) (pa v : KUint32) (i : Nat) : Prop :=
  t' (tableOffset (v + BitVec.ofNat 32 i)).toNat ≠ t (tableOffset (v + BitVec.ofNat 32 i)).toNat ∧
    pageWalk (l.memory t' rest) l.pageDirectory (v + BitVec.ofNat 32 i) = some (pa + BitVec.ofNat 32 i)

theorem pageAlign_offset (pa : KUint32) : (pa - pageAlign pa).toNat = pa.toNat % 4096 := by
  have hf := entryFrame_toNat pa
  have := pa.isLt
  rw [pageAlign_eq, BitVec.toNat_sub, hf]
  omega

theorem add_offset (x : KUint32) {offset : KUint32} (i : Nat) :
    x + offset + BitVec.ofNat 32 i = x + BitVec.ofNat 32 (offset.toNat + i) := by
  apply BitVec.eq_of_toNat_eq
  simp only [BitVec.toNat_add, BitVec.toNat_ofNat]
  omega

/-- `page_unaligned` maps every byte of the object exactly when the offset into the first page and
the size together do not run past the `size / 4096 + 1` pages it asks for. -/
theorem pageUnaligned_walk (l : BootLayout) (rest : KUint32 → KUint32) {pa flags v : KUint32} {size : KSize}
    {t t' : PageTable} (hf : KernelFlags flags) (h : pageUnaligned pa size flags t = .ok v t') :
    (∀ i < size.toNat, MapsByte l rest t t' pa v i) ↔ pa.toNat % 4096 + size.toNat % 4096 ≤ 4096 := by
  obtain ⟨w, hw, rfl⟩ := pageUnaligned_ok.1 h
  obtain ⟨start, rfl, hp⟩ := page_ok hw
  have hlt : pa.toNat % 4096 < 4096 := Nat.mod_lt _ (by omega)
  have hcount : pageCount size * 4096 = size.toNat / 4096 * 4096 + 4096 := by
    rw [pageCount, Nat.add_mul, Nat.one_mul]
  constructor
  · intro hall
    by_contra hgt
    -- the last byte of the object lies on the page after the last one
    obtain ⟨hchanged, -⟩ := hall (size.toNat - 1) (by omega)
    refine hchanged (hp.frame _ (.inr ?_))
    have hfit := hp.run.fits
    have htop : (pageAt kernelFirstPageAddress start +
        BitVec.ofNat 32 (pa.toNat % 4096 + (size.toNat - 1))).toNat =
          0xC0000000 + 4096 * start + (pa.toNat % 4096 + (size.toNat - 1)) := by
      rw [BitVec.toNat_add, pageAt_kernel_toNat (by omega), BitVec.toNat_ofNat]
      simp only [kernelPageTablesLen, pageTableLen, pageCount] at hfit
      omega
    rw [add_offset, pageAlign_offset, tableOffset_toNat (by omega), htop, pageCount]
    omega
  · intro hle i hi
    have hin : pa.toNat % 4096 + i < pageCount size * 4096 := by omega
    have ha : Aligned (pageAlign pa) := by
      rw [pageAlign_eq]
      exact aligned_entryFrame pa
    have hbyte := hp.walk ha hf hin l rest
    have hpa : pageAlign pa + BitVec.ofNat 32 (pa.toNat % 4096 + i) = pa + BitVec.ofNat 32 i := by
      rw [← pageAlign_offset, ← add_offset, BitVec.add_comm (pageAlign pa), BitVec.sub_add_cancel]
    unfold MapsByte
    rw [add_offset, pageAlign_offset, (byte_entry hp.run.fits hin).2]
    refine ⟨hp.changed (Nat.div_lt_of_lt_mul (by omega)), ?_⟩
    rw [hbyte, hpa]

theorem pageUnaligned_onePage : pageUnaligned 0x5010#32 100#32 ptfReadWrite (fun _ => 0#32) =
    .ok 0xC0000010#32 onePage := rfl

theorem pageUnaligned_walk_onePage :
    MapsByte layout110000 (fun _ => 0#32) (fun _ => 0#32) onePage 0x5010#32 0xC0000010#32 99 :=
  (pageUnaligned_walk layout110000 (fun _ => 0#32) (by decide) pageUnaligned_onePage).2 (by decide) 99 (by decide)

theorem pageUnaligned_straddle : pageUnaligned 0x5fff#32 2#32 ptfReadWrite (fun _ => 0#32) =
    .ok 0xC0000fff#32 onePage := rfl

/-- Two bytes on both sides of a page boundary: only the page of the first one is mapped. -/
theorem pageUnaligned_tail :
    ¬∀ (l : BootLayout) (rest : KUint32 → KUint32) (pa flags v : KUint32) (size : KSize) (t t' : PageTable),
      KernelFlags flags → 0 < size.toNat → pa.toNat + size.toNat ≤ 2 ^ 32 →
      pageUnaligned pa size flags t = .ok v t' → ∀ i < size.toNat, MapsByte l rest t t' pa v i := by
  intro h
  obtain ⟨hchanged, -⟩ := h layout110000 (fun _ => 0#32) 0x5fff#32 ptfReadWrite _ 2#32 _ _ (by decide) (by decide)
    (by decide) pageUnaligned_straddle 1 (by decide)
  exact hchanged (by decide)

end Aeon.Memory
