/-
The bitmap and the live allocations. `kmalloc` sets the bits of the blocks it hands out; `kfree`
clears as many, but of the blocks counted from the wrong end. Where that is the same run (block 0,
and block 2^19) and no other allocation shares it, the bitmap keeps agreeing with the live
allocations.
-/
import Aeon.Lib.Pool
import Aeon.Memory.Ownership

namespace Aeon.Memory

/-- The allocation starts at block 0 or 2^19, and shares no block with another live one. -/
def FreeExact (a : Allocation) (others : List Allocation) : Prop :=
  (a.block = 0 ∨ a.block = 2 ^ 19) ∧ Disjoint a.blocks (Pool.Owned Allocation.blocks others)

/-- Every owned block is marked, and a marked block is owned or was marked from the start. -/
structure Marked (a₀ : MemoryAllocator) (s : Session) : Prop where
  owned : ∀ k ∈ Pool.Owned Allocation.blocks s.live, Bitmap.test s.kernel.allocator.memMap k = true
  only : ∀ k, Bitmap.test s.kernel.allocator.memMap k = true →
    k ∈ Pool.Owned Allocation.blocks s.live ∨ Bitmap.test a₀.memMap k = true

theorem Marked.boot (a : MemoryAllocator) (t : PageTable) : Marked a (Session.boot a t) :=
  ⟨fun k hk => by simp [Session.boot] at hk, fun _ hk => .inr hk⟩

section

variable {b : Boot} {a₀ : MemoryAllocator} {t₀ : PageTable} {s : Session}

/-- The two blocks that are their own mirror image modulo 2^20. -/
theorem mirror_eq_iff {block : Nat} (h : block < 2 ^ 20) :
    (2 ^ 20 - block) % 2 ^ 20 = block ↔ block = 0 ∨ block = 2 ^ 19 := by
  omega

theorem Marked.step (hb : memInitialize b = .ok a₀ t₀) {s' : Session} (hi : Session.Inv b a₀ s) (h : Marked a₀ s)
    (hs : Session.Step (fun _ _ => True) FreeExact s s') : Marked a₀ s' := by
  obtain ⟨howned, honly⟩ := h
  cases hs with
  | @kmalloc k k' live size v _ hk =>
    obtain ⟨-, -, hmap⟩ := hi.kmalloc hb hk
    refine ⟨marked_cons hmap howned, fun i h => ?_⟩
    rw [Pool.owned_cons]
    rw [hmap i, Bool.or_eq_true, decide_eq_true_eq] at h
    rcases h with h | h
    · exact .inl (.inl ((Allocation.mem_blocks _ _).2 h))
    · exact (honly i h).imp_left .inr
  | @kfree k k' l₁ l₂ a hfree hk =>
    obtain ⟨-, hmap⟩ := hi.kfree_ok hk
    obtain ⟨hblock, hdisj⟩ := hfree
    have hmem : a ∈ l₁ ++ a :: l₂ := by simp
    have hreleased : a.released = a.block := by
      rw [hi.released_eq hb hmem]
      exact (mirror_eq_iff (hi.block_lt hb hmem).2).2 hblock
    simp only [Pool.owned_middle] at howned honly
    refine ⟨fun i h => ?_, fun i h => ?_⟩
    · have hne : ¬(a.block ≤ i ∧ i < a.block + a.count) := fun hin =>
        Set.disjoint_left.1 hdisj ((a.mem_blocks i).2 hin) h
      rw [hmap i, hreleased, decide_eq_true hne, Bool.true_and]
      exact howned i (.inr h)
    · rw [hmap i, hreleased, Bool.and_eq_true, decide_eq_true_eq] at h
      rcases honly i h.2 with (hin | hin) | hin
      · exact absurd ((a.mem_blocks i).1 hin) h.1
      · exact .inl hin
      · exact .inr hin

/-- `kfree` clears exactly the bits of the allocation it releases when that starts at block 0 or
2^19, and at no other block. -/
theorem Marked.kfree_iff (hb : memInitialize b = .ok a₀ t₀) (hi : Session.Inv b a₀ s) (h : Marked a₀ s)
    {a : Allocation} (ha : a ∈ s.live) :
    ∃ k', kfree a.ptr s.kernel = .ok () k' ∧ k'.allocator.header = s.kernel.allocator.header ∧
      ((∀ k, Bitmap.test k'.allocator.memMap k =
          (decide (k ∉ a.blocks) && Bitmap.test s.kernel.allocator.memMap k)) ↔
        a.block = 0 ∨ a.block = 2 ^ 19) := by
  obtain ⟨k, live⟩ := s
  obtain ⟨l₁, l₂, rfl⟩ := List.append_of_mem ha
  obtain ⟨k', hk', -, halloc⟩ := hi.kfree
  have hmirror := mirror_eq_iff (hi.block_lt hb ha).2
  rw [← hi.released_eq hb ha] at hmirror
  have hbit : ∀ i, Bitmap.test k'.allocator.memMap i =
      (decide (¬(a.released ≤ i ∧ i < a.released + a.count)) && Bitmap.test k.allocator.memMap i) := fun i => by
    rw [halloc, Bitmap.test_unsetRun (by decide)]
  refine ⟨k', hk', by rw [halloc]; rfl, ⟨fun hexact => hmirror.1 ?_, fun hblock i => ?_⟩⟩
  · -- the first and the last bit of the allocation, both set, must be in the cleared run
    have hin : ∀ i ∈ a.blocks, a.released ≤ i ∧ i < a.released + a.count := fun i hi' => by
      by_contra hout
      have hset : Bitmap.test k.allocator.memMap i = true := h.owned i ⟨a, ha, hi'⟩
      have := hexact i
      rw [hbit i, decide_eq_true hout, hset, decide_eq_false (not_not.2 hi')] at this
      cases this
    have hpos := a.count_pos
    have hfirst := hin a.block ((a.mem_blocks _).2 ⟨le_refl _, by omega⟩)
    have hlast := hin (a.block + a.count - 1) ((a.mem_blocks _).2 ⟨by omega, by omega⟩)
    omega
  · rw [hbit i, hmirror.2 hblock]
    congr 1
    exact decide_eq_decide.2 Iff.rfl

/-- In every run that releases only allocations at block 0 or 2^19 which share no block, a block
whose bit `mem_initialize` left clear is marked exactly when a live allocation owns it; and in each
of its states `kfree` returns for every live allocation, with the header unchanged, and it clears
the bits of that allocation and no others exactly when it starts at block 0 or 2^19. -/
theorem marking_run (hb : memInitialize b = .ok a₀ t₀)
    (h : Run.Reach (Session.Step (fun _ _ => True) FreeExact) (Session.boot a₀ t₀) s) :
    (∀ k, Bitmap.test a₀.memMap k = false →
      (Bitmap.test s.kernel.allocator.memMap k = true ↔ k ∈ Pool.Owned Allocation.blocks s.live)) ∧
    (∀ a ∈ s.live, ∃ k', kfree a.ptr s.kernel = .ok () k' ∧
      k'.allocator.header = s.kernel.allocator.header ∧
      ((∀ k, Bitmap.test k'.allocator.memMap k =
          (decide (k ∉ a.blocks) && Bitmap.test s.kernel.allocator.memMap k)) ↔
        a.block = 0 ∨ a.block = 2 ^ 19)) := by
  obtain ⟨hi, hmark⟩ := Run.invariant (P := fun s => Session.Inv b a₀ s ∧ Marked a₀ s) h
    ⟨Session.Inv.init hb, Marked.boot a₀ t₀⟩
    fun _ _ ⟨hi, hm⟩ hs => ⟨hi.step hb hs, hm.step hb hi hs⟩
  refine ⟨fun k hk => ⟨fun hset => ?_, hmark.owned k⟩, fun a ha => hmark.kfree_iff hb hi ha⟩
  rcases hmark.only k hset with ho | ho
  · exact ho
  · rw [hk] at ho
    cases ho

end

/-- Blocks 0 and 1 are taken, and block 0 is released. -/
def kernelFirstReleased : Kernel := (kfree 0xC0003000#32 kernelTwoSmall).state

/-- The bits are right after that, and would not be with block 1 released too. -/
theorem marking_run_firstReleased :
    (∀ k, Bitmap.test kernelFirstReleased.allocator.memMap k = true ↔
      k ∈ Pool.Owned Allocation.blocks [secondSmall]) ∧
    ∃ k', kfree secondSmall.ptr kernelFirstReleased = .ok () k' ∧
      ¬∀ k, Bitmap.test k'.allocator.memMap k =
        (decide (k ∉ secondSmall.blocks) && Bitmap.test kernelFirstReleased.allocator.memMap k) := by
  have hfree : FreeExact firstSmall ([secondSmall] ++ []) := by
    refine ⟨.inl (by decide), Set.disjoint_left.2 ?_⟩
    rintro k hk ⟨a, ha, hak⟩
    obtain rfl : a = secondSmall := List.mem_singleton.1 ha
    have hfirst := (firstSmall.mem_blocks k).1 hk
    have hsecond := (secondSmall.mem_blocks k).1 hak
    change 0 ≤ k ∧ k < 0 + 1 at hfirst
    change 1 ≤ k ∧ k < 1 + 1 at hsecond
    omega
  have hreleased : Session.Step (fun _ _ => True) FreeExact ⟨kernelTwoSmall, [secondSmall] ++ firstSmall :: []⟩
      ⟨kernelFirstReleased, [secondSmall] ++ []⟩ := .kfree hfree rfl
  have h := @marking_run _ _ _ ⟨kernelFirstReleased, [secondSmall]⟩ memInitialize_twoMiB
    (.tail (.tail (.single (.kmalloc trivial kmalloc_oneSmall)) (.kmalloc trivial kmalloc_twoSmall)) hreleased)
  refine ⟨fun k => h.1 k ?_, ?_⟩
  · have hword : allocatorTwoMiB.memMap (k / 32) = 0#32 := ite_self _
    rw [Bitmap.test, hword, BitVec.getLsbD_zero]
  · obtain ⟨k', hk', -, hiff⟩ := h.2 secondSmall (List.mem_singleton_self _)
    exact ⟨k', hk', mt hiff.1 (by decide)⟩

/-- Two requests of 100 bytes take blocks 0 and 1; releasing the second leaves bit 1 set. -/
theorem marking_leak :
    ¬∀ (b : Boot) (a₀ : MemoryAllocator) (t₀ : PageTable), memInitialize b = .ok a₀ t₀ →
      ∀ s, Run.Reach Session.AnyStep (Session.boot a₀ t₀) s → ∀ k < a₀.blockCount.toNat,
        (Bitmap.test s.kernel.allocator.memMap k = true ↔ k ∈ Pool.Owned Allocation.blocks s.live) := by
  intro h
  have hrun : (Session.execAll [.kmalloc 100#32, .kmalloc 100#32, .kfree 0] sessionTwoMiB).map
      (fun s => (s.live.map (fun a => (a.block, a.count)), Bitmap.test s.kernel.allocator.memMap 1)) =
        some ([(0, 1)], true) := by
    decide +kernel
  obtain ⟨s, hs, he⟩ := Option.map_eq_some_iff.1 hrun
  obtain ⟨hlive, hbit⟩ := Prod.mk.inj he
  obtain ⟨x, hx, hxe⟩ := List.map_eq_singleton_iff.1 hlive
  obtain ⟨hblock, hcount⟩ := Prod.mk.inj hxe
  obtain ⟨a, ha, hin⟩ := (h bootTwoMiB _ _ memInitialize_twoMiB s (Session.execAll_any hs) 1 (by decide)).1 hbit
  rw [hx, List.mem_singleton] at ha
  subst ha
  have := (a.mem_blocks 1).1 hin
  omega

end Aeon.Memory
