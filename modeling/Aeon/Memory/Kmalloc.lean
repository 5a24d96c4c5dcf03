/-
What a call of `kmalloc` does in any state a session reaches: the frames it reserves are the frames
it maps, in order; nothing any other live allocation is mapped to changes; and `unpage` of the
pointer recovers the number of pages from the entries alone.
-/
import Aeon.Memory.Session
import Aeon.Memory.Walk

namespace Aeon.Memory

/-! ## Pointers of live allocations -/

/-- Every live pointer is the address of a page. -/
def Session.PagePointers (s : Session) : Prop := ∀ a ∈ s.live, Aligned a.ptr

theorem Aligned.kernel_page {v : KUint32} (h : Aligned v) (hk : 0xC0000000 ≤ v.toNat) :
    v = Memory.pageAt kernelFirstPageAddress (tableOffset v).toNat := by
  rw [aligned_iff] at h
  have := v.isLt
  apply BitVec.eq_of_toNat_eq
  rw [pageAt_toNat, tableOffset_toNat hk, kernelFirstPageAddress, BitVec.toNat_ofNat]
  omega

section

variable {b : Boot} {a₀ : MemoryAllocator} {t₀ : PageTable} {s : Session}

theorem Session.PagePointers.step (hb : memInitialize b = .ok a₀ t₀) {s' : Session} (hi : Session.Inv b a₀ s)
    (h : s.PagePointers) (hs : Session.AnyStep s s') : s'.PagePointers := by
  cases hs with
  | @kmalloc k k' live size v _ hk =>
    intro a ha
    rcases List.mem_cons.1 ha with rfl | ha
    · have hcount := blockCount_lt hb
      rw [← hi.blockCount_eq] at hcount
      obtain ⟨-, hpage, -⟩ := kmalloc_ok hcount hk
      obtain ⟨start, hv, -⟩ := page_ok hpage
      show Aligned v
      rw [hv]
      exact Aligned.pageAt (by decide) start
    · exact h a ha
  | @kfree k k' l₁ l₂ a _ _ =>
    intro a' ha'
    apply h a'
    rcases List.mem_append.1 ha' with hm | hm <;> simp [hm]

theorem Session.PagePointers.run (hb : memInitialize b = .ok a₀ t₀)
    (h : Run.Reach Session.AnyStep (Session.boot a₀ t₀) s) : Session.Inv b a₀ s ∧ s.PagePointers :=
  Run.invariant (P := fun s => Session.Inv b a₀ s ∧ s.PagePointers) h
    ⟨Session.Inv.init hb, fun a ha => by simp [Session.boot] at ha⟩
    fun _ _ ⟨hi, hp⟩ hs => ⟨hi.step hb hs, hp.step hb hi hs⟩

/-- Byte `i` of a live allocation is a kernel address, and its entry is in use. -/
theorem Session.Inv.byte (h : Session.Inv b a₀ s) (hp : s.PagePointers) {a : Allocation} (ha : a ∈ s.live)
    {i : Nat} (hi : i < a.count * 4096) :
    KernelAddress (a.ptr + BitVec.ofNat 32 i) ∧
      entryInUse (s.kernel.pageTable (tableOffset (a.ptr + BitVec.ofNat 32 i)).toNat) = true := by
  have hback := h.backed ha
  have hptr : a.ptr = pageAt kernelFirstPageAddress a.mapping.start := (hp a ha).kernel_page hback.kernel
  obtain ⟨hka, hoff⟩ := byte_entry hback.fits hi
  rw [hptr, hoff]
  refine ⟨hka, hback.inUse (a.mapping.add_mem_range (Nat.div_lt_of_lt_mul ?_))⟩
  rwa [Nat.mul_comm] at hi

/-! ## The call -/

/-- What `kmalloc` does when it returns `v` for `n` blocks: it marks the blocks from `block` on and
maps their frames, in order, by the entries from `start` on. -/
structure Handed (s : Session) (k' : Kernel) (v : KUint32) (n block start : Nat) : Prop where
  bits : ∀ i, Bitmap.test k'.allocator.memMap i =
    (decide (block ≤ i ∧ i < block + n) || Bitmap.test s.kernel.allocator.memMap i)
  changed : ∀ i, k'.pageTable i ≠ s.kernel.pageTable i ↔ start ≤ i ∧ i < start + n
  created : ∀ i, start ≤ i → i < start + n →
    entryInUse (s.kernel.pageTable i) = false ∧ k'.pageTable i &&& ptfPresent ≠ 0#32
  frames : ∀ j < n, getPhysicalAddress (pageAt v j) k'.pageTable =
    pageAt s.kernel.allocator.minAddress (block + j)
  others : ∀ a ∈ s.live, ∀ i < a.count * 4096, ∀ (l : BootLayout) (rest : KUint32 → KUint32),
    pageWalk (l.memory k'.pageTable rest) l.pageDirectory (a.ptr + BitVec.ofNat 32 i) =
      pageWalk (l.memory s.kernel.pageTable rest) l.pageDirectory (a.ptr + BitVec.ofNat 32 i)
  unpaged : unpage v k'.pageTable = .ok (BitVec.ofNat 32 n) (clearRun k'.pageTable start n)

/-- In every state a run reaches, a `kmalloc` that returns marks `size / 4096 + 1` blocks, creates
as many entries that map their frames in order, changes no translation inside another live
allocation, and is undone by `unpage`, which returns the same number. -/
theorem kmalloc_run (hb : memInitialize b = .ok a₀ t₀) (h : Run.Reach Session.AnyStep (Session.boot a₀ t₀) s)
    {size : KSize} {v : KUint32} {k' : Kernel} (hk : kmalloc size s.kernel = .ok v k') :
    ∃ block start, Handed s k' v (size.toNat / 4096 + 1) block start := by
  obtain ⟨hi, hptrs⟩ := Session.PagePointers.run hb h
  obtain ⟨k, live⟩ := s
  have hcount := blockCount_lt hb
  rw [← hi.blockCount_eq] at hcount
  obtain ⟨hinv, -, hbits⟩ := hi.kmalloc hb hk
  obtain ⟨-, hpage, -⟩ := kmalloc_ok hcount hk
  obtain ⟨start, hv, hp⟩ := page_ok hpage
  have hback := hinv.backed (List.mem_cons_self ..)
  have hmin : Aligned k.allocator.minAddress := by
    have := aligned_minAddress hb
    rwa [← hi.minAddress_eq] at this
  have hstart : (tableOffset v).toNat = start := by
    have hfit := hp.run.fits
    have := (@kernel_ptr start (by omega) 0#32 (by decide)).2
    rwa [BitVec.add_zero, ← hv] at this
  refine ⟨_, start, hbits, fun i => ⟨fun hne => ?_, fun hin => ?_⟩, fun i h1 h2 => ?_, fun j hj => ?_,
    fun a ha i hlt l rest => ?_, ?_⟩
  · by_contra hout
    exact hne (hp.frame i (by unfold pageCount; omega))
  · have := hp.changed (k := i - start) (by unfold pageCount; omega)
    rwa [show start + (i - start) = i by omega] at this
  · have hlt : i - start < pageCount size := by unfold pageCount; omega
    rw [show i = start + (i - start) by omega]
    refine ⟨hp.run.free _ hlt, ?_⟩
    rw [hp.mapped _ hlt]
    exact mappedEntry_present
  · have hpa : Aligned (pageAt (pageAt k.allocator.minAddress (foundBlock size k.allocator).toNat) j) :=
      (hmin.pageAt _).pageAt j
    rw [hv]
    apply (hp.getPhysicalAddress (hmin.pageAt _) (.inr rfl) (i := 4096 * j) (by unfold pageCount; omega)).trans
    exact hpa.entryFrame_eq.trans (pageAt_add _ _ _)
  · obtain ⟨hka, huse⟩ := hi.byte hptrs ha hlt
    refine pageWalk_congr l rest hka (hp.frame _ ?_)
    -- the entry is in use, so the search did not take it
    by_contra hin
    have hfree := hp.run.free ((tableOffset (a.ptr + BitVec.ofNat 32 i)).toNat - start) (by omega)
    rw [show start + ((tableOffset (a.ptr + BitVec.ofNat 32 i)).toNat - start) =
      (tableOffset (a.ptr + BitVec.ofNat 32 i)).toNat by omega, huse] at hfree
    cases hfree
  · rw [← hstart]
    exact hback.unpage

end

theorem kmalloc_run_second : ∃ block start,
    Handed ⟨kernelOneSmall, [firstSmall]⟩ kernelTwoSmall 0xC0004000#32 ((100#32 : KSize).toNat / 4096 + 1)
      block start :=
  kmalloc_run memInitialize_twoMiB (.single (.kmalloc trivial kmalloc_oneSmall)) kmalloc_twoSmall

end Aeon.Memory
