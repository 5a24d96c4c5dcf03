/-
Runs of `kmalloc` and `kfree` after `mem_initialize`. A session is the kernel's memory state with
the list of live allocations; whatever is allocated and released, the live allocations stay backed
mappings of the page tables, so `kfree` of a live pointer always returns.
-/
import Aeon.Memory.AllocatorSpec

namespace Aeon.Memory

/-! ## Allocations -/

/-- A live allocation: what `kmalloc` returned for `size` bytes, and the allocator as its search
found it. -/
structure Allocation where
  ptr : KUint32
  size : KSize
  before : MemoryAllocator

namespace Allocation

variable (a : Allocation)

/-- The first block: the one the search returned. -/
def block : Nat := (foundBlock a.size a.before).toNat

def count : Nat := pageCount a.size

def blocks : Set Nat := Set.Ico a.block (a.block + a.count)

/-- The physical address of the first block. -/
def frame : KUint32 := pageAt a.before.minAddress a.block

/-- The physical frames the allocation owns. -/
def frames : Set KUint32 := {x | ∃ j < a.count, x = pageAt a.frame j}

def mapping : Mapping := ⟨a.ptr, a.size, a.frame, ptfReadWrite⟩

/-- The first block `kfree` clears. -/
def released : Nat := releasedBlock a.before.minAddress a.frame

theorem mem_blocks (k : Nat) : k ∈ a.blocks ↔ a.block ≤ k ∧ k < a.block + a.count := Iff.rfl

instance (k : Nat) : Decidable (k ∈ a.blocks) := decidable_of_iff _ (a.mem_blocks k).symm

theorem count_pos : 0 < a.count := pageCount_pos a.size

end Allocation

/-! ## Sessions -/

/-- The kernel's memory state and the live allocations, the newest first. -/
structure Session where
  kernel : Kernel
  live : List Allocation

def Session.boot (a : MemoryAllocator) (t : PageTable) : Session := ⟨⟨t, a⟩, []⟩

/-- A call that returns: `kmalloc` where `mallocOk` holds of the allocator and the size, or `kfree`
of a live pointer where `freeOk` holds of its allocation and the other live ones. -/
inductive Session.Step (mallocOk : MemoryAllocator → KSize → Prop) (freeOk : Allocation → List Allocation → Prop) :
    Session → Session → Prop
  | kmalloc {k k' : Kernel} {live : List Allocation} {size : KSize} {v : KUint32} :
      mallocOk k.allocator size → kmalloc size k = .ok v k' →
      Step mallocOk freeOk ⟨k, live⟩ ⟨k', ⟨v, size, k.allocator⟩ :: live⟩
  | kfree {k k' : Kernel} {l₁ l₂ : List Allocation} {a : Allocation} :
      freeOk a (l₁ ++ l₂) → kfree a.ptr k = .ok () k' →
      Step mallocOk freeOk ⟨k, l₁ ++ a :: l₂⟩ ⟨k', l₁ ++ l₂⟩

abbrev Session.AnyStep : Session → Session → Prop := Session.Step (fun _ _ => True) fun _ _ => True

/-- The invariant of a session booted with `b` to the allocator `a₀`: the header is as it was at
the start, and the live allocations are mappings beside the one for the bookkeeping. -/
structure Session.Inv (b : Boot) (a₀ : MemoryAllocator) (s : Session) : Prop where
  header : s.kernel.allocator.header = a₀.header
  taken : ∀ a ∈ s.live, a.before.header = a₀.header ∧ Takes (blockRequest a.size) a.before a.block
  pages : ∃ books : Mapping,
    PageSpace.Inv b.pageTable ⟨s.kernel.pageTable, s.live.map Allocation.mapping ++ [books]⟩

section

variable {b : Boot} {a₀ : MemoryAllocator} {t₀ : PageTable} {s : Session}

/-- `mem_initialize` is one call of `page`. -/
theorem Session.Inv.init (hb : memInitialize b = .ok a₀ t₀) : Session.Inv b a₀ (Session.boot a₀ t₀) := by
  obtain ⟨v, hpage, -⟩ := memInitialize_ok hb
  have hstep : PageSpace.Step ⟨b.pageTable, []⟩ ⟨t₀, _⟩ :=
    .page (computeHighestFreeAddress_aligned b.pageTable) (.inr rfl) hpage
  exact ⟨rfl, fun a ha => by simp [Session.boot] at ha, _, ((PageSpace.Inv.init b.pageTable).step hstep).1⟩

theorem header_minAddress {a : MemoryAllocator} (h : a.header = a₀.header) : a.minAddress = a₀.minAddress :=
  congrArg Prod.fst h

theorem header_blockCount {a : MemoryAllocator} (h : a.header = a₀.header) : a.blockCount = a₀.blockCount :=
  congrArg (fun x => x.2.2) h

theorem Session.Inv.minAddress_eq (h : Session.Inv b a₀ s) : s.kernel.allocator.minAddress = a₀.minAddress :=
  header_minAddress h.header

theorem Session.Inv.blockCount_eq (h : Session.Inv b a₀ s) : s.kernel.allocator.blockCount = a₀.blockCount :=
  header_blockCount h.header

theorem aligned_minAddress (hb : memInitialize b = .ok a₀ t₀) : Aligned a₀.minAddress := by
  obtain ⟨v, -, hmin, -⟩ := memInitialize_ok hb
  rw [hmin]
  exact (computeHighestFreeAddress_aligned b.pageTable).add aligned_pageSize

theorem Session.Inv.block_lt (hb : memInitialize b = .ok a₀ t₀) (h : Session.Inv b a₀ s) {a : Allocation}
    (ha : a ∈ s.live) : a.block < scannedBlocks a₀ ∧ a.block < 2 ^ 20 := by
  obtain ⟨hhead, htakes⟩ := h.taken a ha
  have hlt := htakes.upper
  have := blockCount_lt hb
  rw [scannedBlocks, header_blockCount hhead] at hlt
  rw [scannedBlocks]
  omega

theorem Session.Inv.backed (h : Session.Inv b a₀ s) {a : Allocation} (ha : a ∈ s.live) :
    Backed s.kernel.pageTable a.mapping := by
  obtain ⟨books, hp⟩ := h.pages
  exact hp.backed _ (List.mem_append_left _ (List.mem_map_of_mem ha))

theorem Session.Inv.kmalloc (hb : memInitialize b = .ok a₀ t₀) {k k' : Kernel} {live : List Allocation}
    {size : KSize} {v : KUint32} (h : Session.Inv b a₀ ⟨k, live⟩) (hk : kmalloc size k = .ok v k') :
    let a : Allocation := ⟨v, size, k.allocator⟩
    Session.Inv b a₀ ⟨k', a :: live⟩ ∧ Takes (blockRequest size) k.allocator a.block ∧
      ∀ i, Bitmap.test k'.allocator.memMap i =
        (decide (a.block ≤ i ∧ i < a.block + a.count) || Bitmap.test k.allocator.memMap i) := by
  intro a
  have hcount : k.allocator.blockCount.toNat < 2 ^ 20 := by
    have := blockCount_lt hb
    rwa [← h.blockCount_eq] at this
  obtain ⟨htakes, hpage, halloc⟩ := kmalloc_ok hcount hk
  have haligned : Aligned a.frame := by
    have := (aligned_minAddress hb).pageAt a.block
    rwa [← h.minAddress_eq] at this
  obtain ⟨books, hp⟩ := h.pages
  have hstep : PageSpace.Step ⟨k.pageTable, live.map Allocation.mapping ++ [books]⟩
      ⟨k'.pageTable, (a :: live).map Allocation.mapping ++ [books]⟩ := .page haligned (.inr rfl) hpage
  refine ⟨⟨?_, ?_, books, (hp.step hstep).1⟩, htakes, fun i => ?_⟩
  · rw [← h.header, halloc]
    rfl
  · intro a' ha'
    rcases List.mem_cons.1 ha' with rfl | ha'
    · exact ⟨h.header, htakes⟩
    · exact h.taken a' ha'
  · rw [halloc, Bitmap.test_setRun (by decide)]
    rfl

/-- What `kfree` of a live pointer does in a session: it returns, unmaps the allocation, and clears
its number of bits from its released block on. -/
theorem Session.Inv.kfree {k : Kernel} {l₁ l₂ : List Allocation} {a : Allocation}
    (h : Session.Inv b a₀ ⟨k, l₁ ++ a :: l₂⟩) :
    ∃ k', kfree a.ptr k = .ok () k' ∧ Session.Inv b a₀ ⟨k', l₁ ++ l₂⟩ ∧
      k'.allocator = { k.allocator with
        memMap := Bitmap.unsetRun a.count a.released k.allocator.memMap } := by
  have hmem : a ∈ l₁ ++ a :: l₂ := by simp
  have hreleased : releasedBlock k.allocator.minAddress a.frame = a.released := by
    rw [Allocation.released, h.minAddress_eq, header_minAddress (h.taken a hmem).1]
  have hfree := (h.backed hmem).kfree
  refine ⟨_, hfree, ⟨h.header, fun a' ha' => h.taken a' ?_, ?_⟩, ?_⟩
  · rcases List.mem_append.1 ha' with hm | hm <;> simp [hm]
  · obtain ⟨books, hp⟩ := h.pages
    rw [List.map_append, List.map_cons, List.append_assoc, List.cons_append] at hp
    refine ⟨books, ?_⟩
    rw [List.map_append, List.append_assoc]
    exact hp.cleared.1
  · rw [← hreleased]
    rfl

theorem Session.Inv.kfree_ok {k k' : Kernel} {l₁ l₂ : List Allocation} {a : Allocation}
    (h : Session.Inv b a₀ ⟨k, l₁ ++ a :: l₂⟩) (hk : Memory.kfree a.ptr k = .ok () k') :
    Session.Inv b a₀ ⟨k', l₁ ++ l₂⟩ ∧ ∀ i, Bitmap.test k'.allocator.memMap i =
      (decide (¬(a.released ≤ i ∧ i < a.released + a.count)) && Bitmap.test k.allocator.memMap i) := by
  obtain ⟨k'', hk'', hinv, halloc⟩ := h.kfree
  rw [hk] at hk''
  cases hk''
  refine ⟨hinv, fun i => ?_⟩
  rw [halloc, Bitmap.test_unsetRun (by decide)]

theorem Session.Inv.step (hb : memInitialize b = .ok a₀ t₀) {mallocOk : MemoryAllocator → KSize → Prop}
    {freeOk : Allocation → List Allocation → Prop} {s' : Session} (h : Session.Inv b a₀ s)
    (hs : Session.Step mallocOk freeOk s s') : Session.Inv b a₀ s' := by
  cases hs with
  | kmalloc _ hk => exact (h.kmalloc hb hk).1
  | kfree _ hk => exact (h.kfree_ok hk).1

theorem Session.Inv.run (hb : memInitialize b = .ok a₀ t₀) {mallocOk : MemoryAllocator → KSize → Prop}
    {freeOk : Allocation → List Allocation → Prop}
    (h : Run.Reach (Session.Step mallocOk freeOk) (Session.boot a₀ t₀) s) : Session.Inv b a₀ s :=
  Run.invariant h (Session.Inv.init hb) fun _ _ => Session.Inv.step hb

/-- The released block, counted from the wrong end. -/
theorem Session.Inv.released_eq (hb : memInitialize b = .ok a₀ t₀) (h : Session.Inv b a₀ s) {a : Allocation}
    (ha : a ∈ s.live) : a.released = (2 ^ 20 - a.block) % 2 ^ 20 :=
  releasedBlock_eq _ (h.block_lt hb ha).2

/-! ## Frames -/

variable (hb : memInitialize b = .ok a₀ t₀)
  (hle : (computeHighestFreeAddress b.pageTable).toNat ≤ (memGetBytes b.lowmem b.highmem).toNat)

include hb hle

/-- The block count is computed from the first free address, before the bookkeeping page is taken
off it. -/
theorem blockCount_toNat : a₀.blockCount.toNat =
    ((memGetBytes b.lowmem b.highmem).toNat - (computeHighestFreeAddress b.pageTable).toNat) / 4096 := by
  obtain ⟨v, -, -, -, hc, -⟩ := memInitialize_ok hb
  have := (memGetBytes b.lowmem b.highmem).isLt
  rw [hc, BitVec.toNat_udiv, BitVec.toNat_sub, memBlockSize]
  simp only [BitVec.toNat_ofNat, Nat.reducePow, Nat.reduceMod]
  omega

theorem minAddress_toNat : a₀.minAddress.toNat = (computeHighestFreeAddress b.pageTable).toNat + 4096 := by
  obtain ⟨v, -, hmin, -⟩ := memInitialize_ok hb
  have := memGetBytes_toNat_lt b.lowmem b.highmem
  rw [hmin, BitVec.toNat_add, memBlockSize]
  simp only [BitVec.toNat_ofNat, Nat.reducePow, Nat.reduceMod]
  omega

/-- The frames of a live allocation follow the bookkeeping page, block after block. -/
theorem Session.Inv.frame_toNat (h : Session.Inv b a₀ s) {a : Allocation} (ha : a ∈ s.live) {j : Nat}
    (hj : j < a.count) :
    (pageAt a.frame j).toNat = (computeHighestFreeAddress b.pageTable).toNat + 4096 * (1 + a.block + j) := by
  have hfit := (h.backed ha).fits
  have hblock := (h.block_lt hb ha).1
  have hcount := blockCount_toNat hb hle
  have hmem := memGetBytes_toNat_lt b.lowmem b.highmem
  have hmin := minAddress_toNat hb hle
  change _ + a.count < _ at hfit
  simp only [kernelPageTablesLen, pageTableLen] at hfit
  unfold scannedBlocks at hblock
  rw [Allocation.frame, pageAt_add, pageAt_toNat, header_minAddress (h.taken a ha).1, hmin]
  omega

end

/-! ## Sequences of calls -/

/-- A call in a session; `kfree i` releases the `i`-th live allocation, the newest first. -/
inductive Session.Call where
  | kmalloc (size : KSize)
  | kfree (i : Nat)
  deriving DecidableEq

def Session.exec : Session.Call → Session → Option Session
  | .kmalloc size, s =>
    match Memory.kmalloc size s.kernel with
    | .ok v k => some ⟨k, ⟨v, size, s.kernel.allocator⟩ :: s.live⟩
    | .halt _ _ => none
  | .kfree i, s =>
    match s.live[i]? with
    | none => none
    | some a =>
      match Memory.kfree a.ptr s.kernel with
      | .ok _ k => some ⟨k, s.live.take i ++ s.live.drop (i + 1)⟩
      | .halt _ _ => none

def Session.execAll : List Session.Call → Session → Option Session
  | [], s => some s
  | c :: cs, s => (Session.exec c s).bind (Session.execAll cs)

theorem Session.Step.mono {p p' : MemoryAllocator → KSize → Prop} {q q' : Allocation → List Allocation → Prop}
    (hp : ∀ a size, p a size → p' a size) (hq : ∀ a l, q a l → q' a l) {s s' : Session}
    (h : Session.Step p q s s') : Session.Step p' q' s s' := by
  cases h with
  | kmalloc ha hk => exact .kmalloc (hp _ _ ha) hk
  | kfree ha hk => exact .kfree (hq _ _ ha) hk

theorem Session.exec_step {c : Session.Call} {s s' : Session} (h : Session.exec c s = some s') :
    Session.Step (fun _ size => c = .kmalloc size) (fun _ _ => ∃ i, c = .kfree i) s s' := by
  obtain ⟨k, live⟩ := s
  cases c with
  | kmalloc size =>
    simp only [Session.exec] at h
    split at h
    · rename_i v k' hk
      cases h
      exact .kmalloc rfl hk
    · cases h
  | kfree i =>
    simp only [Session.exec] at h
    split at h
    · cases h
    · rename_i a ha
      split at h
      · rename_i k' hk
        cases h
        obtain ⟨hi, rfl⟩ := List.getElem?_eq_some_iff.1 ha
        have hsplit : live = live.take i ++ live[i] :: live.drop (i + 1) := by
          rw [← List.drop_eq_getElem_cons hi, List.take_append_drop]
        generalize live[i] = a at hk hsplit
        generalize live.take i = l₁ at hsplit ⊢
        generalize live.drop (i + 1) = l₂ at hsplit ⊢
        subst hsplit
        exact .kfree ⟨i, rfl⟩ hk
      · cases h

theorem Session.execAll_reach {p : MemoryAllocator → KSize → Prop} {q : Allocation → List Allocation → Prop} :
    ∀ {cs : List Session.Call} {s s' : Session}, (∀ size, .kmalloc size ∈ cs → ∀ a, p a size) →
      (∀ i, .kfree i ∈ cs → ∀ a l, q a l) → Session.execAll cs s = some s' →
      Run.Reach (Session.Step p q) s s'
  | [], _, _, _, _, h => by
    cases h
    exact .refl
  | c :: cs, s, s', hp, hq, h => by
    obtain ⟨s₁, h₁, h₂⟩ := Option.bind_eq_some_iff.1 h
    refine .head ((Session.exec_step h₁).mono ?_ ?_) (Session.execAll_reach ?_ ?_ h₂)
    · rintro a size rfl
      exact hp size (List.mem_cons_self ..) a
    · rintro a l ⟨i, rfl⟩
      exact hq i (List.mem_cons_self ..) a l
    · exact fun size hs => hp size (List.mem_cons_of_mem _ hs)
    · exact fun i hi => hq i (List.mem_cons_of_mem _ hi)

theorem Session.execAll_any {cs : List Session.Call} {s s' : Session} (h : Session.execAll cs s = some s') :
    Run.Reach Session.AnyStep s s' :=
  Session.execAll_reach (fun _ _ _ => trivial) (fun _ _ _ _ => trivial) h

/-! ## A boot with 2 MiB and 128 KiB of memory -/

/-- The kernel maps one page, `0x1FF000`, and the CMOS reports 2176 KiB. -/
def bootTwoMiB : Boot where
  pageTable := fun i => if i = 0 then 0x1FF803#32 else 0#32
  lowmem := 0x80#8
  highmem := 0x08#8
  memory := fun _ => 0#32

def pageTableTwoMiB : PageTable := (page 0x200000#32 4096#32 ptfReadWrite bootTwoMiB.pageTable).state

def allocatorTwoMiB : MemoryAllocator where
  minAddress := 0x201000#32
  maxAddress := 0x220000#32
  blockCount := 32#32
  memMap := fun i => if i < bookkeepingWords then 0#32 else bootTwoMiB.memory i

theorem highestAddressLoop_single {t : PageTable} : ∀ {n : Nat}, (∀ i, i ≠ 0 → t i = 0#32) →
    highestAddressLoop t (n + 1) = entryFrame (t 0)
  | 0, _ => by
    rw [highestAddressLoop, highestAddressLoop, if_neg]
    simp [BitVec.lt_def]
  | n + 1, h => by
    have hz : entryFrame (t (n + 1)) = 0#32 := by
      rw [h _ (by omega), entryFrame, BitVec.zero_and]
    rw [highestAddressLoop, highestAddressLoop_single h, hz]
    split
    · rfl
    · rename_i hlt
      rw [BitVec.lt_def, BitVec.toNat_ofNat] at hlt
      exact BitVec.eq_of_toNat_eq (by simp at hlt ⊢; omega)

theorem computeHighestFreeAddress_twoMiB : computeHighestFreeAddress bootTwoMiB.pageTable = 0x200000#32 := by
  have hzero : ∀ i, i ≠ 0 → bootTwoMiB.pageTable i = 0#32 := fun i hi => if_neg hi
  rw [computeHighestFreeAddress, show kernelPageTablesLen = 3071 + 1 by rfl, highestAddressLoop_single hzero]
  rfl

theorem memInitialize_twoMiB : memInitialize bootTwoMiB = .ok allocatorTwoMiB pageTableTwoMiB := by
  rw [memInitialize, computeHighestFreeAddress_twoMiB]
  rfl

def sessionTwoMiB : Session := Session.boot allocatorTwoMiB pageTableTwoMiB

def kernelOneSmall : Kernel := (kmalloc 100#32 sessionTwoMiB.kernel).state
def kernelTwoSmall : Kernel := (kmalloc 100#32 kernelOneSmall).state

theorem kmalloc_oneSmall : kmalloc 100#32 sessionTwoMiB.kernel = .ok 0xC0003000#32 kernelOneSmall := rfl
theorem kmalloc_twoSmall : kmalloc 100#32 kernelOneSmall = .ok 0xC0004000#32 kernelTwoSmall := rfl

def firstSmall : Allocation := ⟨0xC0003000#32, 100#32, allocatorTwoMiB⟩
def secondSmall : Allocation := ⟨0xC0004000#32, 100#32, kernelOneSmall.allocator⟩

end Aeon.Memory
