/-
The rest of `boot.s`: paging is turned on under the code that runs, the code jumps to the upper half
of the address space and gives up the kernel's map in the lower one, and calls `kernel_main` on the
kernel's stack. Every instruction is fetched and every dword stored through the tables that are in
memory at that moment, so a step that has lost its map does not exist.
-/
import Aeon.Memory.Ram
import Aeon.Platform.Tables

namespace Aeon.Platform

open I386 Memory

/-! ## The processor with paging -/

inductive BootOp where
  | op (o : Op)
  /-- `movl %r, %cr3` -/
  | setCr3 (r : Gpr)
  /-- `movl %cr3, %r` -/
  | getCr3 (r : Gpr)
  /-- `movl %r, %cr0` -/
  | setCr0 (r : Gpr)
  /-- `movl %cr0, %r` -/
  | getCr0 (r : Gpr)
  /-- `jmp *%r` -/
  | jmp (r : Gpr)
  | push (r : Gpr)
  | call (target : Nat)
  /-- `cli` and the loop of `hlt`. -/
  | hang

structure Processor extends State where
  cr0 : KUint32
  cr3 : KUint32

/-- Both entries the walk finds allow writes. -/
def pageWritable (memory : KUint32 → KUint32) (cr3 v : KUint32) : Bool :=
  let pde := memory ((cr3 &&& ~~~0xfff#32) + 4#32 * (v >>> 22))
  let pte := memory ((pde &&& ~~~0xfff#32) + 4#32 * ((v >>> 12) &&& 0x3ff#32))
  pde &&& 2#32 != 0#32 && pte &&& 2#32 != 0#32

namespace Processor

variable (s : Processor)

/-- `PG` and `WP`. -/
def paging : Bool := s.cr0.getLsbD 31
def writeProtect : Bool := s.cr0.getLsbD 16

def translate (v : KUint32) : Option KUint32 :=
  if s.paging then pageWalk (readWord s.memory) s.cr3 v else some v

/-- The `n` bytes at the linear address `a` are those at the physical address `p`. -/
def Maps (a p : KUint32) (n : Nat) : Prop := ∀ i < n, s.translate (a + BitVec.ofNat 32 i) = some (p + BitVec.ofNat 32 i)

instance (a p : KUint32) (n : Nat) : Decidable (s.Maps a p n) :=
  inferInstanceAs (Decidable (∀ i, i < n → s.translate (a + BitVec.ofNat 32 i) = some (p + BitVec.ofNat 32 i)))

/-- Write protection holds for the kernel too. -/
def MayWrite (a : KUint32) : Prop := ∀ i < 4, s.paging = true → s.writeProtect = true →
  pageWritable (readWord s.memory) s.cr3 (a + BitVec.ofNat 32 i) = true

instance (a : KUint32) : Decidable (s.MayWrite a) :=
  inferInstanceAs (Decidable (∀ i, i < 4 → s.paging = true → s.writeProtect = true →
    pageWritable (readWord s.memory) s.cr3 (a + BitVec.ofNat 32 i) = true))

/-- Memory after a store of the dword `v` at `a`, unless it faults. -/
def write (a v : KUint32) : Option I386.Memory :=
  (s.translate a).bind fun p => if s.Maps a p 4 ∧ s.MayWrite a then some (writeWord s.memory p v) else none

theorem write_eq {a p : KUint32} (v : KUint32) (hm : s.Maps a p 4) (hw : s.MayWrite a) :
    s.write a v = some (writeWord s.memory p v) := by
  have h0 := hm 0 (by omega)
  rw [BitVec.add_zero a, BitVec.add_zero p] at h0
  rw [write, h0, Option.bind_some, if_pos ⟨hm, hw⟩]

end Processor

/-! ## The code -/

def kernelStartOffset : KUint32 := 0xC0000000#32

/-- Where the linker put the entry code and the stack: the linear address of each instruction, those from
the jump's target on in the upper half, and the number of its bytes; all of it, with the tables, lies in
the kernel, of which `kernelEnd` is the end, `_kernel_end`, rounded up to a page. -/
structure KernelImage extends BootImage where
  address : Nat → KUint32
  size : Nat → Nat
  stackTop : KUint32
  tables : 0x100000 ≤ pageDirectory.toNat ∧ pageDirectory.toNat + 5 * 4096 ≤ kernelEnd.toNat
  lower : ∀ i < 37, 0x100000 ≤ (address i).toNat ∧ (address i).toNat + size i ≤ kernelEnd.toNat
  upper : ∀ i < 45, 37 ≤ i →
    0xC0100000 ≤ (address i).toNat ∧ (address i).toNat + size i ≤ 0xC0000000 + kernelEnd.toNat
  distinct : ∀ i < 45, ∀ j < 45, address i = address j → i = j
  stack : 0xC0000000 + (pageDirectory.toNat + 5 * 4096) + 12 ≤ stackTop.toNat ∧
    stackTop.toNat ≤ 0xC0000000 + kernelEnd.toNat

/-- `_start` with the code after it; index 45 is `kernel_main`. -/
def entry (img : KernelImage) : List BootOp :=
  (start img.toBootImage).map .op ++
  [.op (.movImm img.pageDirectory .ecx),
   .setCr3 .ecx,
   .getCr0 .ecx,
   .op (.orImm 0x80010000#32 .ecx),
   .setCr0 .ecx,
   -- 35: `lea`
   .op (.movImm (img.address 37) .ecx),
   .jmp .ecx,
   -- 37: in `.text`
   .op (.storeImm (img.table 1 + BootLayout.pdf) (img.pageDirectory + kernelStartOffset)),
   .getCr3 .ecx,
   .setCr3 .ecx,
   .op (.movImm img.stackTop .esp),
   .push .ebx,
   .push .eax,
   .call 45,
   .hang]

namespace KernelImage

variable (img : KernelImage)

/-- The physical address the loader put an instruction at. -/
def loaded (i : Nat) : KUint32 := if i < 37 then img.address i else img.address i - kernelStartOffset

def exec (s : Processor) : BootOp → Option Processor
  | .op o =>
    match o.stored s.toState with
    | some (a, v) => (s.write a v).map fun m => { s with pc := s.pc + 1, memory := m }
    | none => some { s with toState := o.exec s.toState }
  | .setCr3 r => some { s with pc := s.pc + 1, cr3 := s.gpr r }
  | .getCr3 r => some { s with toState := (s.toState.setGpr r s.cr3).next }
  | .setCr0 r => some { s with pc := s.pc + 1, cr0 := s.gpr r }
  | .getCr0 r => some { s with toState := (s.toState.setGpr r s.cr0).next }
  | .jmp r => ((List.range 45).find? fun i => img.address i = s.gpr r).map fun i => { s with pc := i }
  | .push r =>
    (s.write (s.gpr .esp - 4#32) (s.gpr r)).map fun m =>
      { s with toState := { (s.toState.setGpr .esp (s.gpr .esp - 4#32)).next with memory := m } }
  | .call target =>
    (s.write (s.gpr .esp - 4#32) (img.address (s.pc + 1))).map fun m =>
      { s with toState := { s.toState.setGpr .esp (s.gpr .esp - 4#32) with pc := target, memory := m } }
  | .hang => none

theorem exec_op {s : Processor} {o : Op} (h : o.stored s.toState = none) :
    img.exec s (.op o) = some { s with toState := o.exec s.toState } := by
  simp only [exec, h]

theorem exec_store {s : Processor} {o : Op} {a v : KUint32} {m : I386.Memory} (h : o.stored s.toState = some (a, v))
    (hw : s.write a v = some m) : img.exec s (.op o) = some { s with pc := s.pc + 1, memory := m } := by
  simp only [exec, h, hw, Option.map_some]

/-- One instruction, all of whose bytes are fetched from where it was loaded. -/
def Step (s s' : Processor) : Prop :=
  ∃ op, (entry img)[s.pc]? = some op ∧ s.Maps (img.address s.pc) (img.loaded s.pc) (img.size s.pc) ∧
    img.exec s op = some s'

abbrev Steps : Processor → Processor → Prop := Run.Reach img.Step

theorem Step.unique : Relator.RightUnique img.Step := by
  rintro s s₁ s₂ ⟨op, hop, -, h₁⟩ ⟨op', hop', -, h₂⟩
  rw [hop, Option.some.injEq] at hop'
  subst hop'
  rw [h₁] at h₂
  exact Option.some.inj h₂

end KernelImage

/-! ## Entries that allow writes -/

theorem writable_table {l : BootLayout} {m : I386.Memory} {directory entries : Nat → KUint32} {v : KUint32} {n : Nat}
    (hd : Table m l.pageDirectory directory) (hn : directory (v.toNat / 2 ^ 22) = l.table n + BootLayout.pdf)
    (ht : Table m (l.table n) entries) :
    pageWritable (readWord m) l.pageDirectory v = (entries (v.toNat / 4096 % 1024) &&& 2#32 != 0#32) := by
  have hread := directory_read (v := v) hd
  rw [hn] at hread
  have hwrite : l.table n + BootLayout.pdf &&& 2#32 ≠ 0#32 := by
    rw [BitVec.add_eq_or_of_and_eq_zero _ _ ((l.aligned_table n).and_low (by decide)), BitVec.and_or_distrib_right,
      (l.aligned_table n).and_low (by decide)]
    decide
  unfold pageWritable
  simp only [hread, table_read ht, bne_iff_ne.2 hwrite, Bool.true_and]

/-- An entry for page `k` with flags that make it present and writable. -/
theorem page_entry (k : Nat) {flags : KUint32} (hmask : flags &&& ~~~0xfff#32 = 0#32) (hp : flags &&& 1#32 = 1#32)
    (hw : flags &&& 2#32 = 2#32) :
    (BitVec.ofNat 32 (4096 * k) ||| flags) &&& 1#32 ≠ 0#32 ∧ (BitVec.ofNat 32 (4096 * k) ||| flags) &&& 2#32 ≠ 0#32 ∧
      (BitVec.ofNat 32 (4096 * k) ||| flags) &&& ~~~0xfff#32 = BitVec.ofNat 32 (4096 * k) := by
  have hal : Aligned (BitVec.ofNat 32 (4096 * k)) := by
    rw [aligned_iff, BitVec.toNat_ofNat]
    omega
  have hframe : BitVec.ofNat 32 (4096 * k) &&& ~~~0xfff#32 = BitVec.ofNat 32 (4096 * k) := hal.entryFrame_eq
  rw [BitVec.and_or_distrib_right, BitVec.and_or_distrib_right, BitVec.and_or_distrib_right, hal.and_low (by decide),
    hal.and_low (by decide), hp, hw, hframe, hmask]
  exact ⟨by decide, by decide, BitVec.or_zero⟩

/-! ## Running with paging on -/

/-- Paging is on over the tables `_start` left, with `first` as the directory's first entry. -/
structure Running (img : KernelImage) (first : KUint32) (s : Processor) : Prop where
  paging : s.paging = true
  cr3 : s.cr3 = img.pageDirectory
  directory : Table s.memory img.pageDirectory fun i => if i = 0 then first else img.directoryEntry i
  identity : Table s.memory (img.table 1) identityEntry
  kernel : Table s.memory (img.table 2) (Function.update (kernelTable img.endPage) 1023 vgaEntry)
  empty : ∀ n, 3 ≤ n → n ≤ 4 → Table s.memory (img.table n) fun _ => 0#32

section

variable {img : KernelImage} {first : KUint32} {s : Processor}

theorem Running.translate_eq (h : Running img first s) (v : KUint32) :
    s.translate v = pageWalk (readWord s.memory) img.pageDirectory v := by
  rw [Processor.translate, h.paging, if_pos rfl, h.cr3]

theorem kernelTable_page {k : Nat} (h1 : 256 ≤ k) (h2 : k < img.endPage) :
    Function.update (kernelTable img.endPage) 1023 vgaEntry k = kernelEntry k := by
  have := img.endPage_bounds
  rw [Function.update_of_ne (by omega), kernelTable, if_pos ⟨h1, h2⟩]

/-- A walk through the kernel's table, in whichever half the directory has it. -/
theorem Running.kernel_walk (h : Running img first s) {v p : KUint32} (hp : 0x100000 ≤ p.toNat)
    (hend : p.toNat < img.kernelEnd.toNat) (hpage : v.toNat % 0x400000 = p.toNat)
    (hdir : (if v.toNat / 2 ^ 22 = 0 then first else img.directoryEntry (v.toNat / 2 ^ 22)) =
      img.table 2 + BootLayout.pdf) :
    s.translate v = some p ∧ pageWritable (readWord s.memory) img.pageDirectory v = true := by
  have hkernel := img.kernelEnd_eq
  have hbounds := img.endPage_bounds
  have hwalk := walk_table (v := v) h.directory hdir h.kernel
  have hwrite := writable_table (v := v) h.directory hdir h.kernel
  have hindex : v.toNat / 4096 % 1024 = p.toNat / 4096 := by omega
  have hentry := @kernelTable_page img (p.toNat / 4096) (by omega) (by omega)
  obtain ⟨h1, h2, hframe⟩ := page_entry (p.toNat / 4096)
    (show (ptfPresent ||| ptfReadWrite ||| ptfAeonLocked) &&& ~~~0xfff#32 = 0#32 by decide) (by decide) (by decide)
  rw [hindex, hentry] at hwalk hwrite
  unfold kernelEntry at hwalk hwrite
  rw [if_neg h1, hframe] at hwalk
  refine ⟨?_, ?_⟩
  · rw [h.translate_eq, hwalk, Option.some.injEq]
    apply BitVec.eq_of_toNat_eq
    rw [BitVec.toNat_add, and_fff_toNat, BitVec.toNat_ofNat]
    omega
  · rw [hwrite]
    exact bne_iff_ne.2 h2

/-- The kernel in the upper half. -/
theorem Running.high (h : Running img first s) {p : KUint32} (hp : 0x100000 ≤ p.toNat)
    (hend : p.toNat < img.kernelEnd.toNat) :
    s.translate (p + kernelStartOffset) = some p ∧
      pageWritable (readWord s.memory) img.pageDirectory (p + kernelStartOffset) = true := by
  have hbounds := img.endUpper
  have hv : (p + kernelStartOffset).toNat = p.toNat + 0xC0000000 := by
    rw [BitVec.toNat_add, kernelStartOffset, BitVec.toNat_ofNat]
    omega
  refine h.kernel_walk hp hend (by omega) ?_
  rw [hv, show (p.toNat + 0xC0000000) / 2 ^ 22 = 768 by omega]
  rfl

/-- The kernel in the lower half, while the directory still has it there. -/
theorem Running.low (h : Running img (img.table 2 + BootLayout.pdf) s) {p : KUint32} (hp : 0x100000 ≤ p.toNat)
    (hend : p.toNat < img.kernelEnd.toNat) : s.translate p = some p := by
  have hbounds := img.endUpper
  refine (h.kernel_walk hp hend (by omega) ?_).1
  rw [if_pos (by omega)]

/-- What the kernel runs on: the first 4 MiB where they are, the kernel in the upper half, and the page of
the screen at the end of its 4 MiB. -/
def kernelMap (img : KernelImage) (v : KUint32) : Option KUint32 :=
  if v.toNat < 0x400000 then some v
  else if 0xC0100000 ≤ v.toNat ∧ v.toNat < 0xC0000000 + img.kernelEnd.toNat then some (v - kernelStartOffset)
  else if 0xC03FF000 ≤ v.toNat ∧ v.toNat < 0xC0400000 then some (v - 0xC03FF000#32 + 0xB8000#32)
  else none

theorem Running.kernel_page (h : Running img first s) {v : KUint32} (hv : v.toNat / 2 ^ 22 = 768) :
    s.translate v = kernelMap img v := by
  have hend := img.kernelEnd_eq
  have hbounds := img.endPage_bounds
  have hupper := img.endUpper
  have hlt := v.isLt
  unfold kernelMap
  rw [if_neg (by omega)]
  by_cases hin : 0xC0100000 ≤ v.toNat ∧ v.toNat < 0xC0000000 + img.kernelEnd.toNat
  · have hp : (v - kernelStartOffset).toNat = v.toNat - 0xC0000000 := by
      rw [kernelStartOffset]
      bv_omega
    have := (h.high (p := v - kernelStartOffset) (by omega) (by omega)).1
    rw [BitVec.sub_add_cancel] at this
    rw [if_pos hin, this]
  · rw [if_neg hin]
    have hwalk := walk_table (v := v) h.directory (by rw [hv]; rfl) h.kernel
    rw [h.translate_eq, hwalk]
    by_cases hvga : 0xC03FF000 ≤ v.toNat ∧ v.toNat < 0xC0400000
    · rw [if_pos hvga, show v.toNat / 4096 % 1024 = 1023 by omega, Function.update_self, if_neg (by decide),
        Option.some.injEq]
      apply BitVec.eq_of_toNat_eq
      rw [BitVec.toNat_add, and_fff_toNat, BitVec.toNat_add, BitVec.toNat_sub]
      simp only [vgaEntry, BitVec.toNat_ofNat, BitVec.reduceOr, BitVec.reduceAnd, BitVec.reduceNot]
      omega
    · have hzero : Function.update (kernelTable img.endPage) 1023 vgaEntry (v.toNat / 4096 % 1024) = 0#32 := by
        rw [Function.update_of_ne (by omega), kernelTable, if_neg (by omega)]
      rw [if_neg hvga, hzero]
      rfl

theorem Running.map (h : Running img (img.table 1 + BootLayout.pdf) s) (v : KUint32) :
    s.translate v = kernelMap img v := by
  have hlt := v.isLt
  have hupper := img.endUpper
  by_cases hkernel : v.toNat / 2 ^ 22 = 768
  · exact h.kernel_page hkernel
  · unfold kernelMap
    rw [h.translate_eq]
    by_cases hlow : v.toNat < 0x400000
    · have hwalk := walk_table (v := v) h.directory (if_pos (by omega)) h.identity
      obtain ⟨h1, -, hframe⟩ := page_entry (v.toNat / 4096 % 1024) (show 0x003#32 &&& ~~~0xfff#32 = 0#32 by decide)
        (by decide) (by decide)
      unfold identityEntry at hwalk
      rw [if_neg h1, hframe] at hwalk
      rw [if_pos hlow, hwalk, Option.some.injEq]
      apply BitVec.eq_of_toNat_eq
      rw [BitVec.toNat_add, and_fff_toNat, BitVec.toNat_ofNat]
      omega
    · -- no other table has an entry
      rw [if_neg hlow, if_neg (by omega), if_neg (by omega)]
      have hdir : (if v.toNat / 2 ^ 22 = 0 then img.table 1 + BootLayout.pdf
          else img.directoryEntry (v.toNat / 2 ^ 22)) = img.directoryEntry (v.toNat / 2 ^ 22) := if_neg (by omega)
      by_cases h769 : v.toNat / 2 ^ 22 = 769
      · rw [walk_table (v := v) h.directory (by rw [hdir, h769]; rfl) (h.empty 3 (by omega) (by omega))]
        rfl
      · by_cases h770 : v.toNat / 2 ^ 22 = 770
        · rw [walk_table (v := v) h.directory (by rw [hdir, h770]; rfl) (h.empty 4 (by omega) (by omega))]
          rfl
        · refine walk_none (v := v) h.directory ?_
          rw [hdir, BootLayout.directoryEntry, if_neg (by omega), if_neg hkernel, if_neg h769, if_neg h770]

/-! ## Fetching -/

theorem fetch_unpaged (hpg : s.paging = false) (hpc : s.pc < 37) :
    s.Maps (img.address s.pc) (img.loaded s.pc) (img.size s.pc) := by
  intro i _
  rw [Processor.translate, hpg, KernelImage.loaded, if_pos hpc]
  rfl

theorem Running.fetch_low (h : Running img (img.table 2 + BootLayout.pdf) s) (hpc : s.pc < 37) :
    s.Maps (img.address s.pc) (img.loaded s.pc) (img.size s.pc) := by
  intro i hi
  obtain ⟨h1, h2⟩ := img.lower s.pc hpc
  have hupper := img.endUpper
  have hbyte : (img.address s.pc + BitVec.ofNat 32 i).toNat = (img.address s.pc).toNat + i := by
    rw [BitVec.toNat_add, BitVec.toNat_ofNat]
    omega
  rw [KernelImage.loaded, if_pos hpc]
  exact h.low (by omega) (by omega)

theorem Running.fetch_high (h : Running img first s) (h37 : 37 ≤ s.pc) (hpc : s.pc < 45) :
    s.Maps (img.address s.pc) (img.loaded s.pc) (img.size s.pc) := by
  intro i hi
  obtain ⟨h1, h2⟩ := img.upper s.pc hpc h37
  have hupper := img.endUpper
  have hlt := (img.address s.pc).isLt
  have hbyte : (img.address s.pc - kernelStartOffset + BitVec.ofNat 32 i).toNat =
      (img.address s.pc).toNat - 0xC0000000 + i := by
    rw [kernelStartOffset]
    bv_omega
  have := (h.high (p := img.address s.pc - kernelStartOffset + BitVec.ofNat 32 i) (by omega) (by omega)).1
  rw [KernelImage.loaded, if_neg (by omega), ← this]
  refine congrArg s.translate ?_
  rw [kernelStartOffset]
  bv_omega

/-! ## The steps -/

theorem Processor.write_unpaged (hpg : s.paging = false) (a v : KUint32) :
    s.write a v = some (writeWord s.memory a v) := by
  refine s.write_eq v (fun i _ => ?_) fun i _ hon => ?_
  · rw [Processor.translate, hpg]
    rfl
  · rw [hpg] at hon
    cases hon

/-- Up to the directory the code runs as it does without paging. -/
theorem start_lift {a b : State} (h : I386.Steps (start img.toBootImage) a b) {cr0 : KUint32} (cr3 : KUint32)
    (hpg : cr0.getLsbD 31 = false) : img.Steps ⟨a, cr0, cr3⟩ ⟨b, cr0, cr3⟩ := by
  refine Relation.ReflTransGen.lift (p := img.Step) (fun a => (⟨a, cr0, cr3⟩ : Processor)) ?_ _ _ h
  rintro a _ ⟨op, hop, rfl⟩
  have hlt : a.pc < 30 := (List.getElem?_eq_some_iff.1 hop).1
  refine ⟨.op op, ?_, fetch_unpaged hpg (show a.pc < 37 by omega), ?_⟩
  · show (entry img)[a.pc]? = _
    rw [entry, List.getElem?_append_left (by simpa [start] using hlt), List.getElem?_map, hop]
    rfl
  · show img.exec ⟨a, cr0, cr3⟩ (.op op) = some ⟨op.exec a, cr0, cr3⟩
    cases hstored : op.stored a with
    | none => exact @KernelImage.exec_op img ⟨a, cr0, cr3⟩ op hstored
    | some w =>
      obtain ⟨x, v⟩ := w
      have hoff : Processor.paging ⟨a, cr0, cr3⟩ = false := hpg
      rw [@KernelImage.exec_store img ⟨a, cr0, cr3⟩ op x v _ hstored (Processor.write_unpaged hoff x v)]
      cases op <;> cases hstored <;> rfl

/-- `cr3` is set and paging turned on, with write protection for the kernel. -/
theorem paging_on (hpc : s.pc = 30) (hpg : s.paging = false) :
    ∃ s', img.Steps s s' ∧ s'.pc = 35 ∧ s'.memory = s.memory ∧ s'.cr3 = img.pageDirectory ∧
      s'.cr0 = s.cr0 ||| 0x80010000#32 ∧ s'.gpr .eax = s.gpr .eax ∧ s'.gpr .ebx = s.gpr .ebx := by
  obtain ⟨⟨pc, less, gpr, memory⟩, cr0, cr3⟩ := s
  simp only at hpc
  subst hpc
  have hstep : ∀ {s s' : Processor} {op : BootOp}, (entry img)[s.pc]? = some op → s.pc < 37 → s.paging = false →
      img.exec s op = some s' → img.Step s s' := fun hop hlt hoff he => ⟨_, hop, fetch_unpaged hoff hlt, he⟩
  have h30 := @hstep ⟨⟨30, less, gpr, memory⟩, cr0, cr3⟩ _ _ rfl (by simp) hpg rfl
  have h31 := @hstep ⟨⟨31, less, Function.update gpr .ecx img.pageDirectory, memory⟩, cr0, cr3⟩ _ _ rfl (by simp) hpg rfl
  have h32 := @hstep ⟨⟨32, less, Function.update gpr .ecx img.pageDirectory, memory⟩, cr0, img.pageDirectory⟩ _ _ rfl
    (by simp) hpg rfl
  have h33 := @hstep ⟨⟨33, less, Function.update (Function.update gpr .ecx img.pageDirectory) .ecx cr0, memory⟩, cr0,
    img.pageDirectory⟩ _ _ rfl (by simp) hpg rfl
  have h34 := @hstep ⟨⟨34, (cr0 ||| 0x80010000#32).msb, Function.update (Function.update (Function.update gpr .ecx
    img.pageDirectory) .ecx cr0) .ecx (cr0 ||| 0x80010000#32), memory⟩, cr0, img.pageDirectory⟩ _ _ rfl
    (by simp) hpg rfl
  exact ⟨_, .head h30 (.head h31 (.head h32 (.head h33 (.single h34)))), rfl, rfl, rfl, rfl, rfl, rfl⟩

/-- The code jumps out of the lower half, which still has it. -/
theorem jump_run (hpc : s.pc = 35) (h : Running img (img.table 2 + BootLayout.pdf) s) :
    ∃ s', img.Steps s s' ∧ s'.pc = 37 ∧ Running img (img.table 2 + BootLayout.pdf) s' ∧ s'.cr0 = s.cr0 ∧
      s'.gpr .eax = s.gpr .eax ∧ s'.gpr .ebx = s.gpr .ebx := by
  obtain ⟨⟨pc, less, gpr, memory⟩, cr0, cr3⟩ := s
  simp only at hpc
  subst hpc
  have hnext : ∀ pc gpr, Running img (img.table 2 + BootLayout.pdf) ⟨⟨pc, less, gpr, memory⟩, cr0, cr3⟩ :=
    fun pc gpr => ⟨h.paging, h.cr3, h.directory, h.identity, h.kernel, h.empty⟩
  have hfind : (List.range 45).find? (fun i => img.address i = img.address 37) = some 37 := by
    rw [List.find?_range_eq_some]
    refine ⟨by simp, by simp, fun j hj => ?_⟩
    have : img.address j ≠ img.address 37 := fun heq => by
      have := img.distinct j (by omega) 37 (by omega) heq
      omega
    simpa using this
  have h35 : img.Step ⟨⟨35, less, gpr, memory⟩, cr0, cr3⟩
      ⟨⟨36, less, Function.update gpr .ecx (img.address 37), memory⟩, cr0, cr3⟩ :=
    ⟨_, rfl, h.fetch_low (by simp), rfl⟩
  have h36 : img.Step ⟨⟨36, less, Function.update gpr .ecx (img.address 37), memory⟩, cr0, cr3⟩
      ⟨⟨37, less, Function.update gpr .ecx (img.address 37), memory⟩, cr0, cr3⟩ := by
    refine ⟨.jmp .ecx, rfl, (hnext 36 _).fetch_low (by simp), ?_⟩
    show ((List.range 45).find? fun i => img.address i = img.address 37).map _ = _
    rw [hfind]
    rfl
  exact ⟨_, .head h35 (.single h36), rfl, hnext 37 _, rfl, rfl, rfl⟩

/-- A dword of the kernel is stored through its address in the upper half. -/
theorem Running.write_high (h : Running img first s) {p : KUint32} (hp : 0x100000 ≤ p.toNat)
    (hend : p.toNat + 4 ≤ img.kernelEnd.toNat) (v : KUint32) :
    s.write (p + kernelStartOffset) v = some (writeWord s.memory p v) := by
  have hupper := img.endUpper
  have hbyte : ∀ i < 4, p + kernelStartOffset + BitVec.ofNat 32 i = p + BitVec.ofNat 32 i + kernelStartOffset ∧
      (p + BitVec.ofNat 32 i).toNat = p.toNat + i := fun i hi => by
    constructor
    · rw [BitVec.add_assoc, BitVec.add_assoc, BitVec.add_comm kernelStartOffset]
    · rw [BitVec.toNat_add, BitVec.toNat_ofNat]
      omega
  refine s.write_eq v (fun i hi => ?_) fun i hi _ _ => ?_
  · obtain ⟨heq, hnat⟩ := hbyte i hi
    rw [heq]
    exact (h.high (by omega) (by omega)).1
  · obtain ⟨heq, hnat⟩ := hbyte i hi
    rw [heq, h.cr3]
    exact (h.high (by omega) (by omega)).2

/-- Stores past the tables leave them. -/
theorem Running.stored (h : Running img first s) {p : KUint32} (hp : img.pageDirectory.toNat + 5 * 4096 ≤ p.toNat)
    (hend : p.toNat < 2 ^ 31) (v : KUint32) (pc : Nat) (less : Bool) (gpr : Gpr → KUint32) :
    Running img first ⟨⟨pc, less, gpr, writeWord s.memory p v⟩, s.cr0, s.cr3⟩ := by
  have htable : ∀ n ≤ 4, ∀ entries, Table s.memory (img.table n) entries →
      Table (writeWord s.memory p v) (img.table n) entries := fun n hn entries ht => by
    have := img.table_toNat hn
    exact ht.write_other v (by bv_omega) (by bv_omega)
  have hd := h.directory
  rw [← img.table_zero] at hd
  have hd' := htable 0 (by omega) _ hd
  rw [img.table_zero] at hd'
  exact ⟨h.paging, h.cr3, hd', htable 1 (by omega) _ h.identity, htable 2 (by omega) _ h.kernel,
    fun n h3 h4 => htable n h4 _ (h.empty n h3 h4)⟩

/-- The first entry of the directory is replaced. -/
theorem Running.redirect (h : Running img first s) (first' : KUint32) (pc : Nat) (less : Bool) (gpr : Gpr → KUint32) :
    Running img first' ⟨⟨pc, less, gpr, writeWord s.memory img.pageDirectory first'⟩, s.cr0, s.cr3⟩ := by
  have htable : ∀ n ≤ 4, 0 ≠ n → ∀ entries, Table s.memory (img.table n) entries →
      Table (writeWord s.memory img.pageDirectory first') (img.table n) entries := fun n hn hne entries ht => by
    have := img.table_other hn (by omega) hne ht (show 0 < 1024 by omega) first'
    rwa [img.table_zero, Nat.mul_zero, BitVec.add_zero img.pageDirectory] at this
  refine ⟨h.paging, h.cr3, ?_, htable 1 (by omega) (by omega) _ h.identity, htable 2 (by omega) (by omega) _ h.kernel,
    fun n h3 h4 => htable n h4 (by omega) _ (h.empty n h3 h4)⟩
  have hd := h.directory.write (show 0 < 1024 by omega) first'
  rw [Nat.mul_zero, BitVec.add_zero img.pageDirectory] at hd
  refine hd.congr fun i _ => ?_
  by_cases hi : i = 0
  · rw [hi, Function.update_self, if_pos rfl]
  · rw [Function.update_of_ne hi, if_neg hi, if_neg hi]

/-- The place of a dword below the top of the stack. -/
theorem KernelImage.stack_slot (img : KernelImage) {k : KUint32} (hk : k.toNat ≤ 12) :
    img.stackTop - k = img.stackTop - kernelStartOffset - k + kernelStartOffset ∧
      (img.stackTop - kernelStartOffset - k).toNat = img.stackTop.toNat - 0xC0000000 - k.toNat := by
  have hstack := img.stack
  unfold kernelStartOffset
  constructor <;> bv_omega

/-- With `k` bytes on the stack, one more dword goes below them. -/
theorem Running.write_stack (h : Running img first s) {k : KUint32} (hk : k.toNat ≤ 8)
    (hesp : s.gpr .esp = img.stackTop - k) (v : KUint32) :
    s.gpr .esp - 4#32 = img.stackTop - (k + 4#32) ∧
      s.write (s.gpr .esp - 4#32) v = some (writeWord s.memory (img.stackTop - kernelStartOffset - (k + 4#32)) v) ∧
      ∀ pc less gpr, Running img first
        ⟨⟨pc, less, gpr, writeWord s.memory (img.stackTop - kernelStartOffset - (k + 4#32)) v⟩, s.cr0, s.cr3⟩ := by
  have hnext : (k + 4#32).toNat = k.toNat + 4 := by bv_omega
  have hbelow : s.gpr .esp - 4#32 = img.stackTop - (k + 4#32) := by
    rw [hesp]
    bv_omega
  obtain ⟨heq, hnat⟩ := img.stack_slot (k := k + 4#32) (by omega)
  have hstack := img.stack
  have htables := img.tables
  have hupper := img.endUpper
  refine ⟨hbelow, ?_, h.stored (by omega) (by omega) v⟩
  rw [hbelow, heq]
  exact h.write_high (by omega) (by omega) v

/-- `push`, with `k` bytes on the stack before it. -/
theorem Running.push_step (h : Running img first s) {r : Gpr} (hop : (entry img)[s.pc]? = some (.push r))
    (h37 : 37 ≤ s.pc) (h45 : s.pc < 45) {k : KUint32} (hk : k.toNat ≤ 8) (hesp : s.gpr .esp = img.stackTop - k) :
    ∃ s', img.Step s s' ∧ s'.pc = s.pc + 1 ∧ Running img first s' ∧ s'.cr0 = s.cr0 ∧
      s'.gpr .esp = img.stackTop - (k + 4#32) ∧ (∀ q, q ≠ .esp → s'.gpr q = s.gpr q) ∧
      s'.memory = writeWord s.memory (img.stackTop - kernelStartOffset - (k + 4#32)) (s.gpr r) := by
  obtain ⟨hbelow, hwrite, hrunning⟩ := h.write_stack hk hesp (s.gpr r)
  refine ⟨_, ⟨.push r, hop, h.fetch_high h37 h45, ?_⟩, rfl, hrunning (s.pc + 1) s.less
    (Function.update s.gpr .esp (s.gpr .esp - 4#32)), rfl, ?_, fun q hq => Function.update_of_ne hq .., rfl⟩
  · simp only [KernelImage.exec, hwrite, Option.map_some]
    rfl
  · show Function.update s.gpr .esp (s.gpr .esp - 4#32) .esp = _
    rw [Function.update_self, hbelow]

/-- `call`, which leaves the address of the instruction after it. -/
theorem Running.call_step (h : Running img first s) (target : Nat) (hop : (entry img)[s.pc]? = some (.call target))
    (h37 : 37 ≤ s.pc) (h45 : s.pc < 45) {k : KUint32} (hk : k.toNat ≤ 8) (hesp : s.gpr .esp = img.stackTop - k) :
    ∃ s', img.Step s s' ∧ s'.pc = target ∧ Running img first s' ∧ s'.cr0 = s.cr0 ∧
      s'.gpr .esp = img.stackTop - (k + 4#32) ∧
      s'.memory = writeWord s.memory (img.stackTop - kernelStartOffset - (k + 4#32)) (img.address (s.pc + 1)) := by
  obtain ⟨hbelow, hwrite, hrunning⟩ := h.write_stack hk hesp (img.address (s.pc + 1))
  refine ⟨_, ⟨.call target, hop, h.fetch_high h37 h45, ?_⟩, rfl, hrunning target s.less
    (Function.update s.gpr .esp (s.gpr .esp - 4#32)), rfl, ?_, rfl⟩
  · simp only [KernelImage.exec, hwrite, Option.map_some]
    rfl
  · show Function.update s.gpr .esp (s.gpr .esp - 4#32) .esp = _
    rw [Function.update_self, hbelow]

/-- In the upper half the lower one is given up and the stack is set. -/
theorem upper_run (hpc : s.pc = 37) (h : Running img (img.table 2 + BootLayout.pdf) s) :
    ∃ s', img.Steps s s' ∧ s'.pc = 41 ∧ Running img (img.table 1 + BootLayout.pdf) s' ∧ s'.cr0 = s.cr0 ∧
      s'.gpr .esp = img.stackTop ∧ s'.gpr .eax = s.gpr .eax ∧ s'.gpr .ebx = s.gpr .ebx := by
  obtain ⟨⟨pc, less, gpr, memory⟩, cr0, cr3⟩ := s
  simp only at hpc
  subst hpc
  have htables := img.tables
  have hwrite := h.write_high (p := img.pageDirectory) (by omega) (by omega) (img.table 1 + BootLayout.pdf)
  have hnext := h.redirect (img.table 1 + BootLayout.pdf)
  have h37 : img.Step ⟨⟨37, less, gpr, memory⟩, cr0, cr3⟩ ⟨⟨38, less, gpr, _⟩, cr0, cr3⟩ :=
    ⟨_, rfl, h.fetch_high (by simp) (by simp), img.exec_store rfl hwrite⟩
  have h38 : img.Step ⟨⟨38, less, gpr, _⟩, cr0, cr3⟩ ⟨⟨39, less, Function.update gpr .ecx cr3, _⟩, cr0, cr3⟩ :=
    ⟨_, rfl, (hnext 38 less gpr).fetch_high (by simp) (by simp), rfl⟩
  have h39 : img.Step ⟨⟨39, less, Function.update gpr .ecx cr3, _⟩, cr0, cr3⟩
      ⟨⟨40, less, Function.update gpr .ecx cr3, _⟩, cr0, cr3⟩ :=
    ⟨_, rfl, (hnext 39 less _).fetch_high (by simp) (by simp), rfl⟩
  have h40 : img.Step ⟨⟨40, less, Function.update gpr .ecx cr3, _⟩, cr0, cr3⟩
      ⟨⟨41, less, Function.update (Function.update gpr .ecx cr3) .esp img.stackTop, _⟩, cr0, cr3⟩ :=
    ⟨_, rfl, (hnext 40 less _).fetch_high (by simp) (by simp), rfl⟩
  exact ⟨_, .head h37 (.head h38 (.head h39 (.single h40))), rfl, hnext 41 less _, rfl, rfl, rfl, rfl⟩

/-! ## From `_start` to `kernel_main` -/

theorem KernelImage.endPage_lt (img : KernelImage) : 256 < img.endPage := by
  have := img.tables
  have := img.kernelEnd_eq
  omega

theorem Started.running {eax ebx : KUint32} {a : State} (h : Started img.toBootImage eax ebx a) (hm : s.memory = a.memory)
    (hcr3 : s.cr3 = img.pageDirectory) (hpg : s.paging = true) : Running img (img.table 2 + BootLayout.pdf) s :=
  ⟨hpg, hcr3, hm ▸ h.directory, hm ▸ h.identity, hm ▸ h.kernel, fun n h3 h4 => hm ▸ h.empty n h3 h4⟩

theorem entry_running (hpc : s.pc = 0) (hpg : s.paging = false) (hz : ∀ n ≤ 4, Table s.memory (img.table n) fun _ => 0#32)
    (hecx : (s.gpr .ecx).toNat = 0 ∨ (s.gpr .ecx).toNat = 1024 ∨ 1024 + img.endPage ≤ (s.gpr .ecx).toNat) :
    ∃ s', Run.Ends img.Step s s' ∧ s'.pc = 45 ∧ s'.cr0 = s.cr0 ||| 0x80010000#32 ∧
      Running img (img.table 1 + BootLayout.pdf) s' ∧
      ∃ p, s'.translate (s'.gpr .esp) = some p ∧ Holds s'.memory p [img.address 44, s.gpr .eax, s.gpr .ebx] := by
  obtain ⟨a, cr0, cr3⟩ := s
  -- the tables are written
  obtain ⟨s₁, hs₁, hpc₁, h₁⟩ := start_started hpc hz ⟨img.endPage_lt, hecx⟩
  obtain ⟨s₂, hs₂, hpc₂, hm₂, hcr3, hcr0, heax, hebx⟩ :=
    @paging_on img ⟨s₁, cr0, cr3⟩ hpc₁ hpg
  have hon : s₂.paging = true := by
    rw [Processor.paging, hcr0]
    simp
  -- both halves have the kernel while the code changes over
  obtain ⟨s₃, hs₃, hpc₃, h₃, hcr0₃, heax₃, hebx₃⟩ := jump_run hpc₂ (h₁.running hm₂ hcr3 hon)
  obtain ⟨s₄, hs₄, hpc₄, h₄, hcr0₄, hesp₄, heax₄, hebx₄⟩ := upper_run hpc₃ h₃
  -- two arguments and the return address
  obtain ⟨s₅, hs₅, hpc₅, h₅, hcr0₅, hesp₅, hgpr₅, hm₅⟩ := h₄.push_step (r := .ebx) (by rw [hpc₄]; rfl) (by omega)
    (by omega) (k := 0#32) (by simp) (by rw [hesp₄, BitVec.sub_zero])
  obtain ⟨s₆, hs₆, hpc₆, h₆, hcr0₆, hesp₆, hgpr₆, hm₆⟩ := h₅.push_step (r := .eax) (by rw [hpc₅, hpc₄]; rfl) (by omega)
    (by omega) (by simp) hesp₅
  obtain ⟨s', hs', hpc', h', hcr0', hesp', hm'⟩ := h₆.call_step 45 (by rw [hpc₆, hpc₅, hpc₄]; rfl)
    (by omega) (by omega) (by simp) hesp₆
  have hrun : img.Steps ⟨a, cr0, cr3⟩ s' := (start_lift hs₁ cr3 hpg).trans <| hs₂.trans <| hs₃.trans <| hs₄.trans <|
    .head hs₅ (.head hs₆ (.single hs'))
  have hstop : ∀ b, ¬img.Step s' b := by
    rintro b ⟨op, hop, -⟩
    rw [hpc'] at hop
    cases hop
  refine ⟨s', .of_reach (KernelImage.Step.unique img) hrun hstop, hpc', ?_, h', ?_⟩
  · rw [hcr0', hcr0₆, hcr0₅, hcr0₄, hcr0₃, hcr0]
  · obtain ⟨heq, hnat⟩ := img.stack_slot (k := 12#32) (by simp)
    rw [show (12#32).toNat = 12 by rfl] at hnat
    have hstack := img.stack
    have htables := img.tables
    have hupper := img.endUpper
    refine ⟨img.stackTop - kernelStartOffset - 12#32, ?_, ?_⟩
    · rw [hesp', show 0#32 + 4#32 + 4#32 + 4#32 = 12#32 by rfl, heq]
      exact (h'.high (by omega) (by omega)).1
    · have hslot : ∀ k : KUint32, img.stackTop - kernelStartOffset - (k + 4#32) + 4#32 =
          img.stackTop - kernelStartOffset - k := fun k => by bv_omega
      have hmagic : s₅.gpr .eax = a.gpr .eax :=
        (hgpr₅ .eax (by simp)).trans <| heax₄.trans <| heax₃.trans <| heax.trans h₁.magic
      have hinfo : s₄.gpr .ebx = a.gpr .ebx := hebx₄.trans <| hebx₃.trans <| hebx.trans h₁.info
      rw [hm', hm₆, hm₅, hmagic, hinfo, hpc₆, hpc₅, hpc₄]
      refine Holds.push ?_ (hslot _) _ (by simp)
      refine Holds.push ?_ (hslot _) _ (by simp)
      exact Holds.push (show Holds s₄.memory _ [] by trivial) (hslot 0#32) _ (by simp)

/-- Where the bootloader left a count in `ecx` that cuts no loop short, `_start` runs to the call of
`kernel_main` without a fault: every fetch and store on the way is through a present entry of the tables
at that moment. What is mapped then is the first 4 MiB, the kernel in the upper half and the screen, and
nothing else; paging and write protection are on, and on the stack are the address to return to and the
magic number and the address the bootloader left. -/
theorem entry_run (hpc : s.pc = 0) (hpg : s.paging = false) (hz : ∀ n ≤ 4, Table s.memory (img.table n) fun _ => 0#32)
    (hecx : (s.gpr .ecx).toNat = 0 ∨ (s.gpr .ecx).toNat = 1024 ∨ 1024 + img.endPage ≤ (s.gpr .ecx).toNat) :
    ∃ s', Run.Ends img.Step s s' ∧ s'.pc = 45 ∧ s'.cr0 = s.cr0 ||| 0x80010000#32 ∧
      (∀ v, s'.translate v = kernelMap img v) ∧
      ∃ p, s'.translate (s'.gpr .esp) = some p ∧ Holds s'.memory p [img.address 44, s.gpr .eax, s.gpr .ebx] := by
  obtain ⟨s', hends, hpc', hcr0, h', hstack⟩ := entry_running hpc hpg hz hecx
  exact ⟨s', hends, hpc', hcr0, h'.map, hstack⟩

end

/-- The small kernel, its entry code and stack with it. -/
def smallKernel : KernelImage where
  toBootImage := smallImage
  address i := if i < 37 then BitVec.ofNat 32 (0x100010 + 16 * i) else BitVec.ofNat 32 (0xC0101000 + 16 * i)
  size _ := 16
  stackTop := 0xC0300000#32
  tables := by decide
  lower := by decide
  upper := by decide
  distinct := by decide
  stack := by decide

theorem entry_run_small : ∃ s', Run.Ends smallKernel.Step ⟨atStart 0#32, 0x11#32, 0#32⟩ s' ∧ s'.pc = 45 ∧
    s'.cr0 = 0x11#32 ||| 0x80010000#32 ∧ (∀ v, s'.translate v = kernelMap smallKernel v) ∧
    ∃ p, s'.translate (s'.gpr .esp) = some p ∧ Holds s'.memory p [smallKernel.address 44, 0#32, 0#32] :=
  @entry_run smallKernel ⟨atStart 0#32, 0x11#32, 0#32⟩ rfl rfl (fun _ _ => atStart_zeroed _ _) (.inl rfl)

end Aeon.Platform
