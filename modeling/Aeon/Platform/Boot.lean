/-
The code of `boot.s` from `_start` to the page directory: the identity map of the first 4 MiB, the
map of the kernel, and the directory entries. Both maps are written in loops that also end when
`ecx` is counted down, and `ecx` is never set: how much of the maps is written depends on what the
bootloader left in it.
-/
import Aeon.Lib.I386Program
import Aeon.Memory.Walk

namespace Aeon.Platform

open I386 Memory

/-! ## `_start` -/

/-- `_kernel_start`, at 1 MiB. -/
def kernelStart : KUint32 := 0x100000#32

/-- Where the linker put the kernel: its page tables, which are in `.bss` and so in the lower half of
the address space with the rest of it, and its physical end, `_kernel_end - KERNEL_START_OFFSET` rounded
up to a page: the loop compares it with addresses of pages only, which are below both or below neither. -/
structure BootImage extends BootLayout where
  kernelEnd : KUint32
  endAligned : Aligned kernelEnd
  endLower : 0x100000 ≤ kernelEnd.toNat
  endUpper : kernelEnd.toNat ≤ 0x3FF000
  low : pageDirectory.toNat + 5 * 4096 ≤ 2 ^ 31

def ptfCacheWriteThrough : KUint32 := 1#32 <<< 3

def start (img : BootImage) : List Op :=
  [.movImm (img.table 1) .edi,
   .movImm 0#32 .esi,
   .mov .esi .edx,
   .orImm (ptfPresent ||| ptfReadWrite ||| ptfCacheWriteThrough ||| ptfAeonLocked) .edx,
   .store .edx .edi,
   -- 5
   .cmpImm (img.table 1 + 4096#32) .edi,
   .jge 13,
   .mov .esi .edx,
   .orImm 0x003#32 .edx,
   .store .edx .edi,
   .addImm 4096#32 .esi,
   .addImm 4#32 .edi,
   .loop 5,
   -- 13
   .movImm (img.table 2) .edi,
   .movImm 0#32 .esi,
   -- 15
   .cmpImm kernelStart .esi,
   .jl 22,
   .cmpImm img.kernelEnd .esi,
   .jge 25,
   .mov .esi .edx,
   .orImm (ptfPresent ||| ptfReadWrite ||| ptfAeonLocked) .edx,
   .store .edx .edi,
   -- 22
   .addImm 4096#32 .esi,
   .addImm 4#32 .edi,
   .loop 15,
   -- 25
   .storeImm (0x000B8000#32 ||| 0x003#32) (img.table 2 + BitVec.ofNat 32 (4 * 1023)),
   .storeImm (img.table 2 + BootLayout.pdf) img.pageDirectory,
   .storeImm (img.table 2 + BootLayout.pdf) (img.pageDirectory + BitVec.ofNat 32 (4 * 768)),
   .storeImm (img.table 3 + BootLayout.pdf) (img.pageDirectory + BitVec.ofNat 32 (4 * 769)),
   .storeImm (img.table 4 + BootLayout.pdf) (img.pageDirectory + BitVec.ofNat 32 (4 * 770))]

/-- The rounds `loop` makes for a count in `ecx`; zero counts down through all 32 bits. -/
def rounds (ecx : Nat) : Nat := if ecx = 0 then 2 ^ 32 else ecx

def identityEntry (k : Nat) : KUint32 := BitVec.ofNat 32 (4096 * k) ||| 0x003#32

def kernelEntry (k : Nat) : KUint32 :=
  BitVec.ofNat 32 (4096 * k) ||| (ptfPresent ||| ptfReadWrite ||| ptfAeonLocked)

namespace BootImage

variable (img : BootImage)

/-- The page after the kernel's last one. -/
def endPage : Nat := img.kernelEnd.toNat / 4096

theorem kernelEnd_eq : img.kernelEnd.toNat = 4096 * img.endPage := by
  have := (aligned_iff _).1 img.endAligned
  unfold endPage
  omega

theorem endPage_bounds : 256 ≤ img.endPage ∧ img.endPage ≤ 1023 := by
  have := img.endLower
  have := img.endUpper
  unfold endPage
  omega

theorem table_zero : img.table 0 = img.pageDirectory := pageAt_zero _

/-- A write to an entry of one table leaves another as it was. -/
theorem table_other {n n' : Nat} (hn : n ≤ 4) (hn' : n' ≤ 4) (hne : n' ≠ n) {m : I386.Memory} {entries : Nat → KUint32}
    (h : Table m (img.table n) entries) {i : Nat} (hi : i < 1024) (v : KUint32) :
    Table (writeWord m (img.table n' + BitVec.ofNat 32 (4 * i)) v) (img.table n) entries := by
  have ht := img.table_toNat hn
  have ht' := img.table_toNat hn'
  have hlow := img.low
  rcases Nat.lt_or_gt_of_ne hne with hlt | hlt
  · have hsub : (img.table n - (img.table n' + BitVec.ofNat 32 (4 * i))).toNat = 4096 * (n - n') - 4 * i := by
      bv_omega
    exact h.write_other v (by omega) (by omega)
  · have hsub : (img.table n - (img.table n' + BitVec.ofNat 32 (4 * i))).toNat
        = 2 ^ 32 - 4096 * (n' - n) - 4 * i := by
      bv_omega
    exact h.write_other v (by omega) (by omega)

end BootImage

/-! ## The identity map -/

/-- `g_page_table_00000000` with its first `k` entries written in the loop; the first entry was
written once before. -/
def identityTable (k i : Nat) : KUint32 :=
  if i < k then identityEntry i
  else if i = 0 then ptfPresent ||| ptfReadWrite ||| ptfCacheWriteThrough ||| ptfAeonLocked
  else 0#32

/-- The loop of the identity map after `k` of the `n` rounds that `ecx` allows. -/
structure Identity (img : BootImage) (n k : Nat) (s : State) : Prop where
  edi : s.gpr .edi = img.table 1 + BitVec.ofNat 32 (4 * k)
  esi : s.gpr .esi = BitVec.ofNat 32 (4096 * k)
  ecx : s.gpr .ecx = BitVec.ofNat 32 (n - k)
  identity : Table s.memory (img.table 1) (identityTable k)
  kernel : Table s.memory (img.table 2) fun _ => 0#32

theorem identityTable_succ (k : Nat) :
    Function.update (identityTable k) k (identityEntry k) = identityTable (k + 1) := by
  funext i
  unfold identityTable
  by_cases hi : i = k
  · rw [hi, Function.update_self, if_pos (by omega)]
  · rw [Function.update_of_ne hi]
    by_cases hlt : i < k
    · rw [if_pos hlt, if_pos (by omega)]
    · rw [if_neg hlt, if_neg (show ¬i < k + 1 by omega)]

section

variable {img : BootImage} {n k : Nat} {s : State}

/-- The test of the loop is on the entry's address. -/
theorem Identity.less (h : Identity img n k s) (hk : k ≤ 1024) :
    (s.gpr .edi).slt (img.table 1 + 4096#32) = decide (k < 1024) := by
  have := img.table_toNat (show 1 ≤ 4 by omega)
  have := img.low
  rw [h.edi, slt_iff (by bv_omega) (by bv_omega)]
  exact decide_eq_decide.2 (by bv_omega)

/-- A round of the loop writes one entry. -/
theorem Identity.round (h : Identity img n k s) (hpc : s.pc = 5) (hn : n ≤ 2 ^ 32) (hk : k < n) (hlt : k < 1024) :
    ∃ s', Steps (start img) s s' ∧ s'.pc = (if k + 1 = n then 13 else 5) ∧ Identity img n (k + 1) s' := by
  have hless := h.less (le_of_lt hlt)
  rw [decide_eq_true hlt] at hless
  obtain ⟨pc, less, gpr, memory⟩ := s
  obtain ⟨hedi, hesi, hecx, hid, hker⟩ := h
  simp only at hpc hedi hesi hecx hid hker hless
  subst hpc
  have htest := @Steps.cmp_jge (start img) ⟨5, less, gpr, memory⟩ _ _ _ rfl rfl
  simp only [hless, if_true] at htest
  have hbody := @Steps.block (start img)
    [.mov .esi .edx, .orImm 0x003#32 .edx, .store .edx .edi, .addImm 4096#32 .esi, .addImm 4#32 .edi]
    ⟨7, true, gpr, memory⟩ (by decide) rfl
  have hloop := @Steps.loop (start img) (runBlock [.mov .esi .edx, .orImm 0x003#32 .edx, .store .edx .edi,
    .addImm 4096#32 .esi, .addImm 4#32 .edi] ⟨7, true, gpr, memory⟩) 5 n k rfl hn hk hecx
  refine ⟨_, (htest.trans hbody).trans hloop, rfl, ?_, ?_, ?_, ?_, ?_⟩
  · show gpr .edi + 4#32 = _
    rw [hedi]
    bv_omega
  · show gpr .esi + 4096#32 = _
    rw [hesi]
    bv_omega
  · rfl
  · show Table (writeWord memory (gpr .edi) (gpr .esi ||| 0x003#32)) _ _
    rw [hedi, hesi, ← identityTable_succ]
    exact hid.write hlt _
  · show Table (writeWord memory (gpr .edi) (gpr .esi ||| 0x003#32)) _ _
    rw [hedi]
    exact img.table_other (by omega) (by omega) (by omega) hker hlt _

/-- At the end of the table the loop is left. -/
theorem Identity.exit (h : Identity img n 1024 s) (hpc : s.pc = 5) :
    ∃ s', Steps (start img) s s' ∧ s'.pc = 13 ∧ Identity img n 1024 s' := by
  have hless := h.less (le_refl _)
  rw [decide_eq_false (by omega)] at hless
  obtain ⟨pc, less, gpr, memory⟩ := s
  simp only at hpc hless
  subst hpc
  have htest := @Steps.cmp_jge (start img) ⟨5, less, gpr, memory⟩ _ _ _ rfl rfl
  simp only [hless] at htest
  exact ⟨_, htest, rfl, h.edi, h.esi, h.ecx, h.identity, h.kernel⟩

/-- The loop ends at the end of the table or when the rounds are used up. -/
theorem Identity.finish (h : Identity img n 0 s) (hpc : s.pc = 5) (h0 : 0 < n) (hn : n ≤ 2 ^ 32) :
    ∃ s', Steps (start img) s s' ∧ s'.pc = 13 ∧ Identity img n (min 1024 n) s' :=
  Steps.countdown (fun h hpc hk hlt => Identity.round h hpc hn hk hlt) Identity.exit h hpc h0 (Nat.zero_add _)

end

/-! ## The kernel map -/

/-- `g_page_table_C0000000` after the loop has passed `k` pages. -/
def kernelTable (k i : Nat) : KUint32 := if 256 ≤ i ∧ i < k then kernelEntry i else 0#32

/-- The loop of the kernel map after `k` of the `n` rounds that `ecx` allows, with `written` entries
in the identity map and `mapped` pages passed. -/
structure KernelMap (img : BootImage) (n k written mapped : Nat) (s : State) : Prop where
  edi : s.gpr .edi = img.table 2 + BitVec.ofNat 32 (4 * k)
  esi : s.gpr .esi = BitVec.ofNat 32 (4096 * k)
  ecx : s.gpr .ecx = BitVec.ofNat 32 (n - k)
  identity : Table s.memory (img.table 1) (identityTable written)
  kernel : Table s.memory (img.table 2) (kernelTable mapped)

theorem kernelTable_succ {k : Nat} (hk : 256 ≤ k) :
    Function.update (kernelTable k) k (kernelEntry k) = kernelTable (k + 1) := by
  funext i
  unfold kernelTable
  by_cases hi : i = k
  · rw [hi, Function.update_self, if_pos (by omega)]
  · rw [Function.update_of_ne hi]
    by_cases hlt : 256 ≤ i ∧ i < k
    · rw [if_pos hlt, if_pos (by omega)]
    · rw [if_neg hlt, if_neg (show ¬(256 ≤ i ∧ i < k + 1) by omega)]

theorem kernelTable_below {k : Nat} (hk : k ≤ 256) : kernelTable k = fun _ => 0#32 := by
  funext i
  unfold kernelTable
  rw [if_neg (by omega)]

section

variable {img : BootImage} {n k written : Nat} {s : State}

/-- The tests of the loop are on the page's address. -/
theorem KernelMap.less {mapped : Nat} (h : KernelMap img n k written mapped s) (hk : k ≤ 1023) :
    (s.gpr .esi).slt kernelStart = decide (k < 256) ∧ (s.gpr .esi).slt img.kernelEnd = decide (k < img.endPage) := by
  have hend := img.kernelEnd_eq
  have hbounds := img.endPage_bounds
  have hesi : (s.gpr .esi).toNat = 4096 * k := by
    rw [h.esi, BitVec.toNat_ofNat]
    omega
  have hstart : kernelStart.toNat = 4096 * 256 := rfl
  constructor
  · rw [slt_iff (by omega) (by omega)]
    exact decide_eq_decide.2 (by omega)
  · rw [slt_iff (by omega) (by omega)]
    exact decide_eq_decide.2 (by omega)

/-- From the kernel's first page on, both tests are made. -/
theorem kernelTests_run (img : BootImage) {gpr : Gpr → Word} (less : Bool) (memory : I386.Memory)
    (h : (gpr .esi).slt kernelStart = false) :
    Steps (start img) ⟨15, less, gpr, memory⟩
      ⟨if (gpr .esi).slt img.kernelEnd then 19 else 25, (gpr .esi).slt img.kernelEnd, gpr, memory⟩ := by
  have hstart := @Steps.cmp_jl (start img) ⟨15, less, gpr, memory⟩ _ _ _ rfl rfl
  simp only [h] at hstart
  exact hstart.trans (@Steps.cmp_jge (start img) ⟨17, false, gpr, memory⟩ _ _ _ rfl rfl)

/-- The pages below the kernel are passed over. -/
theorem KernelMap.skip (h : KernelMap img n k written k s) (hpc : s.pc = 15) (hk : k < 256) :
    ∃ s', Steps (start img) s s' ∧ s'.pc = 22 ∧ KernelMap img n k written (k + 1) s' := by
  have hless := (h.less (by omega)).1
  rw [decide_eq_true hk] at hless
  obtain ⟨pc, less, gpr, memory⟩ := s
  obtain ⟨hedi, hesi, hecx, hid, hker⟩ := h
  simp only at hpc hless
  subst hpc
  have htest := @Steps.cmp_jl (start img) ⟨15, less, gpr, memory⟩ _ _ _ rfl rfl
  simp only [hless, if_true] at htest
  rw [kernelTable_below (by omega)] at hker
  exact ⟨_, htest, rfl, hedi, hesi, hecx, hid, kernelTable_below (show k + 1 ≤ 256 by omega) ▸ hker⟩

/-- A page of the kernel is mapped. -/
theorem KernelMap.write (h : KernelMap img n k written k s) (hpc : s.pc = 15) (hk : 256 ≤ k) (hend : k < img.endPage) :
    ∃ s', Steps (start img) s s' ∧ s'.pc = 22 ∧ KernelMap img n k written (k + 1) s' := by
  have hbounds := img.endPage_bounds
  obtain ⟨hstart, hless⟩ := h.less (by omega)
  rw [decide_eq_false (by omega)] at hstart
  rw [decide_eq_true hend] at hless
  obtain ⟨pc, less, gpr, memory⟩ := s
  obtain ⟨hedi, hesi, hecx, hid, hker⟩ := h
  simp only at hpc hedi hesi hecx hid hker hstart hless
  subst hpc
  have htest := kernelTests_run img less memory hstart
  simp only [hless, if_true] at htest
  have hbody := @Steps.block (start img)
    [.mov .esi .edx, .orImm (ptfPresent ||| ptfReadWrite ||| ptfAeonLocked) .edx, .store .edx .edi]
    ⟨19, true, gpr, memory⟩ (by decide) rfl
  refine ⟨_, htest.trans hbody, rfl, hedi, hesi, hecx, ?_, ?_⟩
  · show Table (writeWord memory (gpr .edi) (gpr .esi ||| (ptfPresent ||| ptfReadWrite ||| ptfAeonLocked))) _ _
    rw [hedi]
    exact img.table_other (by omega) (by omega) (by omega) hid (by omega) _
  · show Table (writeWord memory (gpr .edi) (gpr .esi ||| (ptfPresent ||| ptfReadWrite ||| ptfAeonLocked))) _ _
    rw [hedi, hesi, ← kernelTable_succ hk]
    exact hker.write (by omega) _

/-- A round of the loop passes one page. -/
theorem KernelMap.round (h : KernelMap img n k written k s) (hpc : s.pc = 15) (hn : n ≤ 2 ^ 32) (hk : k < n)
    (hend : k < img.endPage) :
    ∃ s', Steps (start img) s s' ∧ s'.pc = (if k + 1 = n then 25 else 15) ∧
      KernelMap img n (k + 1) written (k + 1) s' := by
  obtain ⟨s₁, hs₁, hpc₁, h₁⟩ : ∃ s', Steps (start img) s s' ∧ s'.pc = 22 ∧ KernelMap img n k written (k + 1) s' := by
    by_cases hlt : k < 256
    · exact h.skip hpc hlt
    · exact h.write hpc (by omega) hend
  obtain ⟨pc, less, gpr, memory⟩ := s₁
  obtain ⟨hedi, hesi, hecx, hid, hker⟩ := h₁
  simp only at hpc₁ hedi hesi hecx hid hker
  subst hpc₁
  have hbody := @Steps.block (start img) [.addImm 4096#32 .esi, .addImm 4#32 .edi] ⟨22, less, gpr, memory⟩
    (by decide) rfl
  have hloop := @Steps.loop (start img) (runBlock [.addImm 4096#32 .esi, .addImm 4#32 .edi] ⟨22, less, gpr, memory⟩)
    15 n k rfl hn hk hecx
  refine ⟨_, (hs₁.trans hbody).trans hloop, rfl, ?_, ?_, rfl, hid, hker⟩
  · show gpr .edi + 4#32 = _
    rw [hedi]
    bv_omega
  · show gpr .esi + 4096#32 = _
    rw [hesi]
    bv_omega

/-- At the end of the kernel the loop is left. -/
theorem KernelMap.exit (h : KernelMap img n img.endPage written img.endPage s) (hpc : s.pc = 15) :
    ∃ s', Steps (start img) s s' ∧ s'.pc = 25 ∧ KernelMap img n img.endPage written img.endPage s' := by
  have hbounds := img.endPage_bounds
  obtain ⟨hstart, hless⟩ := h.less (by omega)
  rw [decide_eq_false (by omega)] at hstart hless
  obtain ⟨pc, less, gpr, memory⟩ := s
  simp only at hpc hstart hless
  subst hpc
  have htest := kernelTests_run img less memory hstart
  simp only [hless] at htest
  exact ⟨_, htest, rfl, h.edi, h.esi, h.ecx, h.identity, h.kernel⟩

/-- The loop ends at the end of the kernel or when the rounds are used up. -/
theorem KernelMap.finish (h : KernelMap img n 0 written 0 s) (hpc : s.pc = 15) (h0 : 0 < n) (hn : n ≤ 2 ^ 32) :
    ∃ s', Steps (start img) s s' ∧ s'.pc = 25 ∧ KernelMap img n (min img.endPage n) written (min img.endPage n) s' :=
  @Steps.countdown (start img) (fun k => KernelMap img n k written k) 15 25 img.endPage n
    (fun h hpc hk hlt => h.round hpc hn hk hlt) KernelMap.exit _ _ _ h hpc h0 (Nat.zero_add _)

end

/-! ## The whole run -/

theorem rounds_le {e : Nat} (h : e < 2 ^ 32) : 0 < rounds e ∧ rounds e ≤ 2 ^ 32 := by
  unfold rounds
  split <;> omega

theorem ofNat_rounds (e : Nat) : BitVec.ofNat 32 (rounds e) = BitVec.ofNat 32 e := by
  unfold rounds
  by_cases h : e = 0
  · rw [if_pos h, h]
    rfl
  · rw [if_neg h]

/-- The entries of the identity map that get written. -/
def written (e : Nat) : Nat := min 1024 (rounds e)

/-- The pages the second loop passes, on the count the first one left. -/
def passed (img : BootImage) (e : Nat) : Nat := min img.endPage (rounds (rounds e - written e))

theorem identityTable_zero :
    Function.update (fun _ => 0#32) 0 (0#32 ||| (ptfPresent ||| ptfReadWrite ||| ptfCacheWriteThrough ||| ptfAeonLocked))
      = identityTable 0 := by
  funext i
  unfold identityTable
  by_cases hi : i = 0
  · rw [hi, Function.update_self]
    rfl
  · rw [Function.update_of_ne hi, if_neg (by omega), if_neg hi]

def vgaEntry : KUint32 := 0x000B8000#32 ||| 0x003#32

section

variable {img : BootImage} {s : State}

/-- Up to the first loop the first entry is written. -/
theorem Identity.enter (hpc : s.pc = 0) (hid : Table s.memory (img.table 1) fun _ => 0#32)
    (hker : Table s.memory (img.table 2) fun _ => 0#32) :
    ∃ s', Steps (start img) s s' ∧ s'.pc = 5 ∧ Identity img (rounds (s.gpr .ecx).toNat) 0 s' := by
  obtain ⟨pc, less, gpr, memory⟩ := s
  simp only at hpc hid hker ⊢
  subst hpc
  have hblock := @Steps.block (start img)
    [.movImm (img.table 1) .edi, .movImm 0#32 .esi, .mov .esi .edx,
     .orImm (ptfPresent ||| ptfReadWrite ||| ptfCacheWriteThrough ||| ptfAeonLocked) .edx, .store .edx .edi]
    ⟨0, less, gpr, memory⟩ (by simp [Op.straight]) rfl
  have hfirst : img.table 1 = img.table 1 + BitVec.ofNat 32 (4 * 0) := (BitVec.add_zero _).symm
  refine ⟨_, hblock, rfl, hfirst, rfl, ?_, ?_, ?_⟩
  · show gpr .ecx = _
    rw [Nat.sub_zero, ofNat_rounds, BitVec.ofNat_toNat, BitVec.setWidth_eq]
  · rw [← identityTable_zero]
    have := hid.write (show 0 < 1024 by omega)
      (0#32 ||| (ptfPresent ||| ptfReadWrite ||| ptfCacheWriteThrough ||| ptfAeonLocked))
    rwa [← hfirst] at this
  · have := img.table_other (show 2 ≤ 4 by omega) (show 1 ≤ 4 by omega) (by omega) hker (show 0 < 1024 by omega)
      (0#32 ||| (ptfPresent ||| ptfReadWrite ||| ptfCacheWriteThrough ||| ptfAeonLocked))
    rwa [← hfirst] at this

/-- The second loop starts on the count the first one left. -/
theorem KernelMap.enter {n k : Nat} (h : Identity img n k s) (hpc : s.pc = 13) :
    ∃ s', Steps (start img) s s' ∧ s'.pc = 15 ∧ KernelMap img (rounds (n - k)) 0 k 0 s' := by
  obtain ⟨pc, less, gpr, memory⟩ := s
  simp only at hpc
  subst hpc
  have hblock := @Steps.block (start img) [.movImm (img.table 2) .edi, .movImm 0#32 .esi] ⟨13, less, gpr, memory⟩
    (by simp [Op.straight]) rfl
  refine ⟨_, hblock, rfl, (BitVec.add_zero _).symm, rfl, ?_, h.identity, ?_⟩
  · rw [Nat.sub_zero, ofNat_rounds]
    exact h.ecx
  · rw [kernelTable_below (by omega)]
    exact h.kernel

/-- The directory setup leaves the tables as they were. -/
theorem directory_run (hpc : s.pc = 26) :
    ∃ s', Steps (start img) s s' ∧ s'.pc = (start img).length ∧ ∀ {n : Nat} {entries : Nat → KUint32}, 0 < n → n ≤ 4 →
      Table s.memory (img.table n) entries → Table s'.memory (img.table n) entries := by
  obtain ⟨pc, less, gpr, memory⟩ := s
  simp only at hpc
  subst hpc
  have hblock := @Steps.block (start img)
    [.storeImm (img.table 2 + BootLayout.pdf) img.pageDirectory,
     .storeImm (img.table 2 + BootLayout.pdf) (img.pageDirectory + BitVec.ofNat 32 (4 * 768)),
     .storeImm (img.table 3 + BootLayout.pdf) (img.pageDirectory + BitVec.ofNat 32 (4 * 769)),
     .storeImm (img.table 4 + BootLayout.pdf) (img.pageDirectory + BitVec.ofNat 32 (4 * 770))]
    ⟨26, less, gpr, memory⟩ (by simp [Op.straight]) rfl
  refine ⟨_, hblock, rfl, fun {n entries} h0 hn ht => ?_⟩
  -- The directory is table 0.
  have hstore : ∀ {m : I386.Memory} (i : Nat) (v : KUint32), i < 1024 → Table m (img.table n) entries →
      Table (writeWord m (img.pageDirectory + BitVec.ofNat 32 (4 * i)) v) (img.table n) entries := by
    intro m i v hi ht
    rw [← img.table_zero]
    exact img.table_other hn (by omega) (by omega) ht hi v
  have h0 := hstore 0 (img.table 2 + BootLayout.pdf) (by omega) ht
  rw [Nat.mul_zero, BitVec.add_zero] at h0
  have h768 := hstore 768 (img.table 2 + BootLayout.pdf) (by omega) h0
  have h769 := hstore 769 (img.table 3 + BootLayout.pdf) (by omega) h768
  exact hstore 770 (img.table 4 + BootLayout.pdf) (by omega) h769

/-- After the second loop the last entry of its table is set, and then the directory. -/
theorem KernelMap.leave {n k written mapped : Nat} (h : KernelMap img n k written mapped s) (hpc : s.pc = 25) :
    ∃ s', Steps (start img) s s' ∧ s'.pc = (start img).length ∧
      Table s'.memory (img.table 1) (identityTable written) ∧
      Table s'.memory (img.table 2) (Function.update (kernelTable mapped) 1023 vgaEntry) := by
  obtain ⟨pc, less, gpr, memory⟩ := s
  obtain ⟨-, -, -, hid, hker⟩ := h
  simp only at hpc hid hker
  subst hpc
  have hstore := @Steps.op (start img) ⟨25, less, gpr, memory⟩ _ rfl
  obtain ⟨s', hs', hpc', htables⟩ := @directory_run img
    ⟨26, less, gpr, writeWord memory (img.table 2 + BitVec.ofNat 32 (4 * 1023)) vgaEntry⟩ rfl
  refine ⟨s', hstore.trans hs', hpc', htables (by omega) (by omega) ?_, htables (by omega) (by omega) ?_⟩
  · exact img.table_other (by omega) (by omega) (by omega) hid (by omega) _
  · exact hker.write (by omega) _

/-- From zeroed tables the code runs to its end, whatever `ecx` was. -/
theorem start_run (hpc : s.pc = 0) (hid : Table s.memory (img.table 1) fun _ => 0#32)
    (hker : Table s.memory (img.table 2) fun _ => 0#32) :
    ∃ s', Steps (start img) s s' ∧ s'.pc = (start img).length ∧
      Table s'.memory (img.table 1) (identityTable (written (s.gpr .ecx).toNat)) ∧
      Table s'.memory (img.table 2)
        (Function.update (kernelTable (passed img (s.gpr .ecx).toNat)) 1023 vgaEntry) := by
  obtain ⟨hn, hn'⟩ := rounds_le (s.gpr .ecx).isLt
  obtain ⟨s₁, hs₁, hpc₁, h₁⟩ := Identity.enter hpc hid hker
  obtain ⟨s₂, hs₂, hpc₂, h₂⟩ := h₁.finish hpc₁ hn hn'
  obtain ⟨s₃, hs₃, hpc₃, h₃⟩ := KernelMap.enter h₂ hpc₂
  have hleft : rounds (s.gpr .ecx).toNat - min 1024 (rounds (s.gpr .ecx).toNat) < 2 ^ 32 := by omega
  obtain ⟨hm, hm'⟩ := rounds_le hleft
  obtain ⟨s₄, hs₄, hpc₄, h₄⟩ := h₃.finish hpc₃ hm hm'
  obtain ⟨s', hs', hpc', h'⟩ := h₄.leave hpc₄
  exact ⟨s', hs₁.trans (hs₂.trans (hs₃.trans (hs₄.trans hs'))), hpc', h'⟩

end

/-! ## The maps -/

/-- Page `k` is one of `[_kernel_start, kernel end)`. -/
def InKernel (img : BootImage) (k : Nat) : Prop := kernelStart.toNat ≤ 4096 * k ∧ 4096 * k < img.kernelEnd.toNat

theorem inKernel_iff {img : BootImage} {k : Nat} : InKernel img k ↔ 256 ≤ k ∧ k < img.endPage := by
  have hend := img.kernelEnd_eq
  have hstart : kernelStart.toNat = 4096 * 256 := rfl
  unfold InKernel
  omega

/-- What the tables are for: the first 4 MiB mapped to themselves, and the kernel and nothing else
mapped below the last entry of the other. -/
structure Mapped (img : BootImage) (m : I386.Memory) : Prop where
  identity : Table m (img.table 1) identityEntry
  kernel : ∀ k, InKernel img k → readWord m (img.table 2 + BitVec.ofNat 32 (4 * k)) = kernelEntry k
  rest : ∀ k < 1023, ¬InKernel img k → readWord m (img.table 2 + BitVec.ofNat 32 (4 * k)) = 0#32

theorem identityEntry_ne_zero (k : Nat) : identityEntry k ≠ 0#32 := by
  unfold identityEntry
  rw [ne_eq, BitVec.or_eq_zero_iff]
  exact fun h => absurd h.2 (by decide)

theorem kernelEntry_ne_zero (k : Nat) : kernelEntry k ≠ 0#32 := by
  unfold kernelEntry
  rw [ne_eq, BitVec.or_eq_zero_iff]
  exact fun h => absurd h.2 (by decide)

/-- The maps are whole when both loops ran to the end of their tables. -/
theorem mapped_iff {img : BootImage} {m : I386.Memory} {written passed : Nat} (hw : written ≤ 1024)
    (hp : passed ≤ img.endPage) (hid : Table m (img.table 1) (identityTable written))
    (hker : Table m (img.table 2) (Function.update (kernelTable passed) 1023 vgaEntry)) :
    Mapped img m ↔ written = 1024 ∧ (img.endPage = 256 ∨ passed = img.endPage) := by
  have hbounds := img.endPage_bounds
  have hentry : ∀ k < 1023, readWord m (img.table 2 + BitVec.ofNat 32 (4 * k)) = kernelTable passed k := by
    intro k hk
    rw [hker k (by omega), Function.update_of_ne (by omega)]
  constructor
  · intro h
    constructor
    · -- The last entry of the identity map is written last.
      by_contra hne
      have hlast := (hid 1023 (by omega)).symm.trans (h.identity 1023 (by omega))
      unfold identityTable at hlast
      rw [if_neg (by omega), if_neg (by omega)] at hlast
      exact identityEntry_ne_zero _ hlast.symm
    · by_contra hne
      have hlast := (hentry (img.endPage - 1) (by omega)).symm.trans (h.kernel _ (inKernel_iff.2 (by omega)))
      unfold kernelTable at hlast
      rw [if_neg (by omega)] at hlast
      exact kernelEntry_ne_zero _ hlast.symm
  · rintro ⟨rfl, hend⟩
    refine ⟨hid.congr fun i hi => ?_, fun k hk => ?_, fun k hk hout => ?_⟩
    · unfold identityTable
      rw [if_pos hi]
    · rw [inKernel_iff] at hk
      rw [hentry k (by omega), kernelTable, if_pos (by omega)]
    · rw [inKernel_iff] at hout
      rw [hentry k hk, kernelTable, if_neg (by omega)]

/-- What of the maps is written, in terms of the count the bootloader left. -/
theorem count_iff (img : BootImage) {e : Nat} (he : e < 2 ^ 32) :
    written e = 1024 ∧ (img.endPage = 256 ∨ passed img e = img.endPage) ↔
      e = 0 ∨ e = 1024 ∨ 1024 + img.endPage ≤ e ∨ (img.endPage = 256 ∧ 1024 ≤ e) := by
  have hbounds := img.endPage_bounds
  unfold passed written rounds
  split_ifs <;> omega

/-- The maps come out whole exactly for these values of `ecx`; for the others one of the loops is
cut short. -/
theorem start_maps_iff (img : BootImage) {s : State} (hpc : s.pc = 0)
    (hid : Table s.memory (img.table 1) fun _ => 0#32) (hker : Table s.memory (img.table 2) fun _ => 0#32) :
    (∃ s', Steps (start img) s s' ∧ s'.pc = (start img).length ∧ Mapped img s'.memory) ↔
      (s.gpr .ecx).toNat = 0 ∨ (s.gpr .ecx).toNat = 1024 ∨ 1024 + img.endPage ≤ (s.gpr .ecx).toNat ∨
        (img.endPage = 256 ∧ 1024 ≤ (s.gpr .ecx).toNat) := by
  obtain ⟨s', hs', hpc', hid', hker'⟩ := start_run hpc hid hker
  have hmapped := mapped_iff (Nat.min_le_left _ _) (Nat.min_le_left _ _) hid' hker'
  rw [← count_iff img (s.gpr .ecx).isLt]
  constructor
  · rintro ⟨s'', hs'', hpc'', h⟩
    rw [hs''.end_unique hs' hpc'' hpc'] at h
    exact hmapped.1 h
  · intro h
    exact ⟨s', hs', hpc', hmapped.2 h⟩

/-- A kernel of 2 MiB with its tables at 0x2f0000. -/
def smallImage : BootImage where
  pageDirectory := 0x2f0000#32
  aligned := by decide
  fits := by decide
  kernelEnd := 0x300000#32
  endAligned := by decide
  endLower := by decide
  endUpper := by decide
  low := by decide

/-- At `_start` with zeroed memory and `ecx` from the bootloader. -/
def atStart (ecx : KUint32) : State := ⟨0, false, Function.update (fun _ => 0#32) .ecx ecx, fun _ => 0#8⟩

theorem atStart_zeroed (ecx base : KUint32) : Table (atStart ecx).memory base fun _ => 0#32 := by
  intro i _
  exact show 0#8 ++ 0#8 ++ 0#8 ++ 0#8 = 0#32 by decide

theorem start_maps_zero :
    ∃ s', Steps (start smallImage) (atStart 0#32) s' ∧ s'.pc = (start smallImage).length ∧ Mapped smallImage s'.memory :=
  (@start_maps_iff smallImage (atStart 0#32) rfl (atStart_zeroed _ _) (atStart_zeroed _ _)).2 (.inl rfl)

/-- With 1 in `ecx` only the first entry of the identity map is written. -/
theorem start_maps_one :
    ¬∃ s', Steps (start smallImage) (atStart 1#32) s' ∧ s'.pc = (start smallImage).length ∧ Mapped smallImage s'.memory := by
  obtain ⟨s', hs', hpc', hid', hker'⟩ :=
    @start_run smallImage (atStart 1#32) rfl (atStart_zeroed _ _) (atStart_zeroed _ _)
  rintro ⟨s'', hs'', hpc'', h⟩
  rw [hs''.end_unique hs' hpc'' hpc', mapped_iff (Nat.min_le_left _ _) (Nat.min_le_left _ _) hid' hker'] at h
  exact absurd h.1 (by decide)

end Aeon.Platform
