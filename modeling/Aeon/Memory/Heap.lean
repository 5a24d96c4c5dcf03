/-
The kernel's heap. `kmalloc` and `kfree` run on the state that memory holds and write it back, and
stores and loads go through live pointers, translated by the tables in that same memory. The pointers
behave as arrays that know nothing of each other, and no store reaches the kernel's own state. What a
run must keep clear of are the two defects of the code: a range search that takes blocks in use, and a
`kfree` that clears bits past the page of the bookkeeping.
-/
import Aeon.Lib.Arrays
import Aeon.Memory.Ram

namespace Aeon.Memory

open I386

/-! ## The machine -/

structure Machine where
  ram : Ram
  live : List Allocation

namespace Allocation

/-- The bytes of the pages `kmalloc` mapped. -/
def len (a : Allocation) : Nat := a.count * 4096

/-- The physical address of byte `j`. -/
def place (a : Allocation) (j : Nat) : KUint32 := a.frame + BitVec.ofNat 32 j

end Allocation

/-- A step: `kmalloc` where its search takes clear blocks, `kfree` of a live pointer where the bits it
clears are on the page of the bookkeeping, or an access to a byte of a live allocation. A call of the
kernel finds any words past that page. -/
inductive Machine.Step (l : MemoryLayout) (tail : PageTable) : Arrays.Call KUint8 → Machine → Machine → Prop
  | kmalloc {m : Ram} {live : List Allocation} {k k' : Kernel} {size : KSize} {v : KUint32} : k.InRam l tail m →
      MallocClear k.allocator size → kmalloc size k = .ok v k' →
      Step l tail (.alloc (Allocation.len ⟨v, size, k.allocator⟩)) ⟨m, live⟩ ⟨k'.write l m, ⟨v, size, k.allocator⟩ :: live⟩
  | kfree {m : Ram} {k k' : Kernel} (l₁ l₂ : List Allocation) (a : Allocation) : k.InRam l tail m →
      a.released + a.count ≤ 32 * bookkeepingWords → kfree a.ptr k = .ok () k' →
      Step l tail (.free l₁.length) ⟨m, l₁ ++ a :: l₂⟩ ⟨k'.write l m, l₁ ++ l₂⟩
  | store {m : Ram} (l₁ l₂ : List Allocation) (a : Allocation) {j : Nat} {x : KUint32} (v : KUint8) : j < a.len →
      translate l m (a.ptr + BitVec.ofNat 32 j) = some x →
      Step l tail (.store l₁.length j v) ⟨m, l₁ ++ a :: l₂⟩ ⟨Function.update m x v, l₁ ++ a :: l₂⟩
  | load {m : Ram} (l₁ l₂ : List Allocation) (a : Allocation) {j : Nat} {x : KUint32} : j < a.len →
      translate l m (a.ptr + BitVec.ofNat 32 j) = some x →
      Step l tail (.load l₁.length j (m x)) ⟨m, l₁ ++ a :: l₂⟩ ⟨m, l₁ ++ a :: l₂⟩

/-- The state `k` that memory holds is one of a session in which the live allocations own their blocks. -/
structure Machine.Held (l : MemoryLayout) (tail : PageTable) (b : Boot) (a₀ : MemoryAllocator) (m : Machine)
    (k : Kernel) : Prop where
  inRam : k.InRam l tail m.ram
  session : Session.Inv b a₀ ⟨k, m.live⟩
  owning : Owning ⟨k, m.live⟩
  pointers : Session.PagePointers ⟨k, m.live⟩

theorem kmalloc_tail {size : KSize} {k k' : Kernel} {v : KUint32} (hcount : k.allocator.blockCount.toNat < 2 ^ 20)
    (hk : kmalloc size k = .ok v k') {i : Nat} (hi : kernelPageTablesLen ≤ i) : k'.pageTable i = k.pageTable i := by
  obtain ⟨-, hpage, -⟩ := kmalloc_ok hcount hk
  obtain ⟨start, -, hp⟩ := page_ok hpage
  have := hp.run.fits
  exact hp.frame i (by omega)

section

variable {l : MemoryLayout} {tail : PageTable} {b : Boot} {a₀ : MemoryAllocator} {t₀ : PageTable} {m : Machine}
  {k : Kernel} (hb : memInitialize b = .ok a₀ t₀)
  (hle : (computeHighestFreeAddress b.pageTable).toNat ≤ (memGetBytes b.lowmem b.highmem).toNat)

include hb hle

/-! ## Where the allocations lie -/

/-- The blocks of a live allocation are among those the first page of the bookkeeping has bits for. -/
theorem Session.Inv.block_le {s : Session} (h : Session.Inv b a₀ s) {a : Allocation} (ha : a ∈ s.live) :
    a.block + a.count < 32 * bookkeepingWords := by
  have hfit := (h.backed ha).fits
  have hblock := (h.block_lt hb ha).1
  have hcount := blockCount_toNat hb hle
  have hmem := memGetBytes_toNat_lt b.lowmem b.highmem
  change _ + a.count < _ at hfit
  simp only [kernelPageTablesLen, pageTableLen] at hfit
  unfold scannedBlocks at hblock
  unfold bookkeepingWords
  omega

theorem Session.Inv.place_toNat {s : Session} (h : Session.Inv b a₀ s) {a : Allocation} (ha : a ∈ s.live) {j : Nat}
    (hj : j < a.len) :
    (a.place j).toNat = (computeHighestFreeAddress b.pageTable).toNat + 4096 * (1 + a.block) + j := by
  have hfirst := h.frame_toNat hb hle ha a.count_pos
  have hblock := h.block_le hb hle ha
  have hmem := memGetBytes_toNat_lt b.lowmem b.highmem
  rw [pageAt_zero] at hfirst
  unfold bookkeepingWords at hblock
  unfold Allocation.len at hj
  rw [Allocation.place, BitVec.toNat_add, hfirst, BitVec.toNat_ofNat]
  omega

/-- The bytes of the live allocations are apart. -/
theorem Machine.Held.separate (h : m.Held l tail b a₀ k) : Arrays.Separate Allocation.place Allocation.len m.live := by
  constructor
  · intro a ha i hi j hj heq
    have hpi := h.session.place_toNat hb hle ha hi
    have hpj := h.session.place_toNat hb hle ha hj
    rw [heq] at hpi
    omega
  · refine h.owning.apart.imp_of_mem fun {a a'} ha ha' hdisj => Set.disjoint_left.2 ?_
    rintro x ⟨i, hi, rfl⟩ ⟨j, hj, heq⟩
    have hpi := h.session.place_toNat hb hle ha hi
    have hpj := h.session.place_toNat hb hle ha' hj
    unfold Allocation.len at hi hj
    rw [heq] at hpi
    -- one byte, so one block
    exact Set.disjoint_left.1 hdisj ((a.mem_blocks (a.block + i / 4096)).2 ⟨by omega, by omega⟩)
      ((a'.mem_blocks (a.block + i / 4096)).2 ⟨by omega, by omega⟩)

/-- Any state that memory holds will do. -/
theorem Machine.Held.of_inRam (h : m.Held l tail b a₀ k) {k' : Kernel} (hk : k'.InRam l tail m.ram) :
    m.Held l tail b a₀ k' := by
  obtain ⟨hram, hsession, howning, hpointers⟩ := h
  obtain ⟨htable, hheader, hmap⟩ := hram.unique hk
  refine ⟨hk, ⟨hheader.trans hsession.header, hsession.taken, ?_⟩, ⟨howning.apart, fun i hi => ?_, howning.fits⟩,
    hpointers⟩
  · obtain ⟨books, hpages⟩ := hsession.pages
    exact ⟨books, show PageSpace.Inv b.pageTable ⟨k'.pageTable, _⟩ from htable ▸ hpages⟩
  · obtain ⟨a, ha, hia⟩ := hi
    have hlt := hsession.block_le hb hle ha
    have hword : k'.allocator.memMap (i / 32) = k.allocator.memMap (i / 32) := by
      apply hmap
      rw [a.mem_blocks] at hia
      omega
    rw [← howning.marked i ⟨a, ha, hia⟩, Bitmap.test, Bitmap.test, hword]

/-! ## The calls -/

omit hle in
theorem Machine.Held.kmalloc {live : List Allocation} {ram : Ram} {k' : Kernel} {size : KSize} {v : KUint32}
    (h : Machine.Held l tail b a₀ ⟨ram, live⟩ k) (hclear : MallocClear k.allocator size)
    (hk : kmalloc size k = .ok v k') :
    Machine.Held l tail b a₀ ⟨k'.write l ram, ⟨v, size, k.allocator⟩ :: live⟩ k' := by
  have hcount := blockCount_lt hb
  rw [← h.session.blockCount_eq] at hcount
  have hstep : Session.Step MallocClear FreeDisjoint ⟨k, live⟩ ⟨k', ⟨v, size, k.allocator⟩ :: live⟩ :=
    .kmalloc hclear hk
  refine ⟨Kernel.inRam_write h.inRam.directory fun i hi => ?_, h.session.step hb hstep,
    h.owning.step hb h.session hstep, h.pointers.step hb h.session (.kmalloc trivial hk)⟩
  rw [kmalloc_tail hcount hk hi, h.inRam.tail i hi]

/-- Bits on the page of the bookkeeping are cleared for the allocation at block 0 only, whose own they
are. -/
theorem freeDisjoint_of_kept {l₁ l₂ : List Allocation} {a : Allocation}
    (hi : Session.Inv b a₀ ⟨k, l₁ ++ a :: l₂⟩) (ho : Owning ⟨k, l₁ ++ a :: l₂⟩)
    (hkept : a.released + a.count ≤ 32 * bookkeepingWords) : FreeDisjoint a (l₁ ++ l₂) := by
  have hmem : a ∈ l₁ ++ a :: l₂ := by simp
  have hlt := hi.block_le hb hle hmem
  rw [hi.released_eq hb hmem] at hkept
  have hzero : a.block = 0 := by
    unfold bookkeepingWords at hlt hkept
    omega
  have hdisj := ((Pool.apart_middle Allocation.blocks l₁ l₂ a).1 ho.apart).1
  unfold Allocation.blocks at hdisj
  unfold FreeDisjoint
  rw [hzero] at hdisj ⊢
  exact hdisj

theorem Machine.Held.kfree {l₁ l₂ : List Allocation} {a : Allocation} {ram : Ram} {k' : Kernel}
    (h : Machine.Held l tail b a₀ ⟨ram, l₁ ++ a :: l₂⟩ k) (hkept : a.released + a.count ≤ 32 * bookkeepingWords)
    (hk : kfree a.ptr k = .ok () k') : Machine.Held l tail b a₀ ⟨k'.write l ram, l₁ ++ l₂⟩ k' := by
  have hstep : Session.Step MallocClear FreeDisjoint ⟨k, l₁ ++ a :: l₂⟩ ⟨k', l₁ ++ l₂⟩ :=
    .kfree (freeDisjoint_of_kept hb hle h.session h.owning hkept) hk
  refine ⟨Kernel.inRam_write h.inRam.directory fun i hi => ?_, h.session.step hb hstep,
    h.owning.step hb h.session hstep, h.pointers.step hb h.session (.kfree trivial hk)⟩
  have hback := h.session.backed (show a ∈ l₁ ++ a :: l₂ by simp)
  have hfit := hback.fits
  have hfree := hback.kfree
  change Memory.kfree a.ptr k = _ at hfree
  rw [hk] at hfree
  cases hfree
  rw [← h.inRam.tail i hi]
  exact if_neg (by omega)

variable (hbooks : l.books = computeHighestFreeAddress b.pageTable)

include hbooks

/-- All of them lie above the page of the bookkeeping. -/
theorem Machine.Held.above (h : m.Held l tail b a₀ k) {x : KUint32}
    (hx : x ∈ Pool.Owned (Arrays.region Allocation.place Allocation.len) m.live) :
    l.books.toNat + 4096 ≤ x.toNat := by
  obtain ⟨a, ha, j, hj, rfl⟩ := hx
  have := h.session.place_toNat hb hle ha hj
  rw [hbooks]
  omega

omit hb hle hbooks in
/-- An access through a live pointer finds the byte. -/
theorem Machine.Held.translate (h : m.Held l tail b a₀ k) {a : Allocation} (ha : a ∈ m.live) {j : Nat} (hj : j < a.len) :
    translate l m.ram (a.ptr + BitVec.ofNat 32 j) = some (a.place j) :=
  (h.session.backed ha).translate (h.pointers a ha) h.inRam hj

/-- A store through a live pointer leaves the kernel's state alone. -/
theorem Machine.Held.store (h : m.Held l tail b a₀ k) {x : KUint32}
    (hx : x ∈ Pool.Owned (Arrays.region Allocation.place Allocation.len) m.live) (v : KUint8) :
    Machine.Held l tail b a₀ ⟨Function.update m.ram x v, m.live⟩ k := by
  have habove := h.above hb hle hbooks hx
  refine ⟨h.inRam.congr_above fun y hy => Function.update_of_ne ?_ .., h.session, h.owning, h.pointers⟩
  rintro rfl
  omega

/-! ## Runs -/

/-- A step of the machine is one of a flat memory whose owners are the live allocations. -/
theorem Machine.Held.step (h : m.Held l tail b a₀ k) {c : Arrays.Call KUint8} {m' : Machine}
    (hs : Machine.Step l tail c m m') :
    (∃ k', m'.Held l tail b a₀ k') ∧
      Arrays.Flat.Step Allocation.place Allocation.len c ⟨m.ram, m.live⟩ ⟨m'.ram, m'.live⟩ := by
  cases hs with
  | @kmalloc ram live k₁ k' size v hram hclear hk =>
    have hnew := (h.of_inRam hb hle hram).kmalloc hb hclear hk
    refine ⟨⟨k', hnew⟩, Arrays.Flat.Step.alloc _ (hnew.separate hb hle) fun x hx => ?_⟩
    exact k'.write_above (h.above hb hle hbooks hx)
  | @kfree ram k₁ k' l₁ l₂ a hram hkept hk =>
    have hnew := (h.of_inRam hb hle hram).kfree hb hle hkept hk
    refine ⟨⟨k', hnew⟩, .free l₁ l₂ a fun x hx => ?_⟩
    exact k'.write_above (hnew.above hb hle hbooks hx)
  | @store ram l₁ l₂ a j x v hj hx =>
    have hmem : a ∈ l₁ ++ a :: l₂ := by simp
    have hplace := h.translate hmem hj
    rw [hx, Option.some.injEq] at hplace
    subst hplace
    exact ⟨⟨k, h.store hb hle hbooks ⟨a, hmem, j, hj, rfl⟩ v⟩, .store l₁ l₂ a v hj⟩
  | @load ram l₁ l₂ a j x hj hx =>
    have hplace := h.translate (show a ∈ l₁ ++ a :: l₂ by simp) hj
    rw [hx, Option.some.injEq] at hplace
    subst hplace
    exact ⟨⟨k, h⟩, .load l₁ l₂ a hj⟩

omit hle hbooks in
theorem Machine.Held.start {ram : Ram} (hram : Kernel.InRam l tail ram ⟨t₀, a₀⟩) :
    Machine.Held l tail b a₀ ⟨ram, []⟩ ⟨t₀, a₀⟩ :=
  ⟨hram, Session.Inv.init hb, Owning.boot a₀ t₀, fun a ha => by simp at ha⟩

end

end Aeon.Memory
