/-
Who owns a physical frame. Two live allocations own disjoint frames as long as the range search
only takes blocks that are really clear and `kfree` only clears blocks nobody else owns; neither
is guaranteed, since the range search probes from `1 << j` instead of `j` and `kfree` subtracts the
addresses in the wrong order.
-/
import Aeon.Lib.Pool
import Aeon.Memory.Session

namespace Aeon.Memory

/-- The block a search for `size` bytes takes starts a run of clear blocks, as many as `kmalloc`
marks, that does not pass the last frame of the address space. -/
def MallocClear (a : MemoryAllocator) (size : KSize) : Prop :=
  ∀ k, Takes (blockRequest size) a k →
    k + pageCount size ≤ 2 ^ 20 ∧ ∀ j < pageCount size, Bitmap.test a.memMap (k + j) = false

/-- None of the blocks `-b, -b + 1, …` modulo 2^20, as many as the allocation at block `b` has,
belongs to another live allocation. -/
def FreeDisjoint (a : Allocation) (others : List Allocation) : Prop :=
  Disjoint (Set.Ico ((2 ^ 20 - a.block) % 2 ^ 20) ((2 ^ 20 - a.block) % 2 ^ 20 + a.count))
    (Pool.Owned Allocation.blocks others)

/-- A request of less than a block is always answered with a clear block. -/
theorem mallocClear_small {a : MemoryAllocator} {size : KSize} (ha : a.blockCount.toNat < 2 ^ 20)
    (hs : size.toNat < 4096) : MallocClear a size := by
  have hcount : pageCount size = 1 := by unfold pageCount; omega
  intro k hk
  have hlt := hk.upper
  have hoff := hk.offered
  rw [blockOffered, Bool.and_eq_true, Bool.not_eq_true'] at hoff
  refine ⟨by unfold scannedBlocks at hlt; omega, fun j hj => ?_⟩
  rw [show k + j = k by omega]
  exact hoff.1

/-- The live allocations own disjoint blocks, all of them marked, and none passes the end of the
address space. -/
structure Owning (s : Session) : Prop where
  apart : Pool.Apart Allocation.blocks s.live
  marked : ∀ k ∈ Pool.Owned Allocation.blocks s.live, Bitmap.test s.kernel.allocator.memMap k = true
  fits : ∀ a ∈ s.live, a.block + a.count ≤ 2 ^ 20

theorem Owning.boot (a : MemoryAllocator) (t : PageTable) : Owning (Session.boot a t) :=
  ⟨List.Pairwise.nil, fun k hk => by simp [Session.boot] at hk, fun a ha => by simp [Session.boot] at ha⟩

section

variable {b : Boot} {a₀ : MemoryAllocator} {t₀ : PageTable}

/-- The blocks of the live allocations stay marked when a new one's are. -/
theorem marked_cons {m m' : Nat → KUint32} {a : Allocation} {live : List Allocation}
    (hmap : ∀ i, Bitmap.test m' i = (decide (a.block ≤ i ∧ i < a.block + a.count) || Bitmap.test m i))
    (h : ∀ i ∈ Pool.Owned Allocation.blocks live, Bitmap.test m i = true) :
    ∀ i ∈ Pool.Owned Allocation.blocks (a :: live), Bitmap.test m' i = true := by
  intro i hi
  rw [hmap i]
  rw [Pool.owned_cons] at hi
  rcases hi with hi | hi
  · rw [decide_eq_true ((a.mem_blocks i).1 hi), Bool.true_or]
  · rw [h i hi, Bool.or_true]

theorem Owning.step (hb : memInitialize b = .ok a₀ t₀) {s s' : Session} (hi : Session.Inv b a₀ s) (h : Owning s)
    (hs : Session.Step MallocClear FreeDisjoint s s') : Owning s' := by
  obtain ⟨hap, hmark, hfits⟩ := h
  cases hs with
  | @kmalloc k k' live size v hclear hk =>
    obtain ⟨-, htakes, hmap⟩ := hi.kmalloc hb hk
    obtain ⟨hend, hfree⟩ := hclear _ htakes
    refine ⟨(Pool.apart_cons Allocation.blocks _ _).2 ⟨Set.disjoint_left.2 fun i h1 h2 => ?_, hap⟩,
      marked_cons hmap hmark, fun a ha => ?_⟩
    · -- a block that was clear has no owner
      obtain ⟨hle, hlt⟩ := h1
      have hcl := hfree (i - Allocation.block ⟨v, size, k.allocator⟩) (by
        change i < _ + pageCount size at hlt
        omega)
      rw [show Allocation.block ⟨v, size, k.allocator⟩ + (i - Allocation.block ⟨v, size, k.allocator⟩) = i by
        omega, hmark i h2] at hcl
      cases hcl
    · rcases List.mem_cons.1 ha with rfl | ha
      · exact hend
      · exact hfits a ha
  | @kfree k k' l₁ l₂ a hdisj hk =>
    obtain ⟨-, hmap⟩ := hi.kfree_ok hk
    rw [FreeDisjoint, ← hi.released_eq hb (List.mem_append_right _ (List.mem_cons_self ..))] at hdisj
    refine ⟨((Pool.apart_middle _ l₁ l₂ a).1 hap).2, fun i h => ?_, fun a' ha' => hfits a' ?_⟩
    · have hne : ¬(a.released ≤ i ∧ i < a.released + a.count) := fun hin => Set.disjoint_left.1 hdisj hin h
      rw [hmap i, decide_eq_true hne, Bool.true_and]
      exact hmark i (by rw [Pool.owned_middle]; exact .inr h)
    · rcases List.mem_append.1 ha' with hm | hm <;> simp [hm]

theorem frames_disjoint {a a' : Allocation} (hmin : a.before.minAddress = a'.before.minAddress)
    (ha : a.block + a.count ≤ 2 ^ 20) (ha' : a'.block + a'.count ≤ 2 ^ 20) (h : Disjoint a.blocks a'.blocks) :
    Disjoint a.frames a'.frames := by
  apply Set.disjoint_left.2
  rintro x ⟨j, hj, rfl⟩ ⟨j', hj', heq⟩
  rw [Allocation.frame, Allocation.frame, pageAt_add, pageAt_add, hmin] at heq
  have hblock := pageAt_inj (by omega) (by omega) heq
  exact Set.disjoint_left.1 h ((a.mem_blocks (a.block + j)).2 ⟨by omega, by omega⟩)
    ((a'.mem_blocks (a.block + j)).2 ⟨by omega, by omega⟩)

/-- In every run whose searches take clear blocks and whose releases clear no other allocation's
blocks, two distinct live allocations own disjoint sets of physical frames. -/
theorem ownership_run {s : Session} (hb : memInitialize b = .ok a₀ t₀)
    (h : Run.Reach (Session.Step MallocClear FreeDisjoint) (Session.boot a₀ t₀) s) :
    Pool.Apart Allocation.frames s.live := by
  obtain ⟨hi, hown⟩ := Run.invariant (P := fun s => Session.Inv b a₀ s ∧ Owning s) h
    ⟨Session.Inv.init hb, Owning.boot a₀ t₀⟩
    fun _ _ ⟨hi, ho⟩ hs => ⟨hi.step hb hs, ho.step hb hi hs⟩
  refine hown.apart.imp_of_mem fun {a a'} ha ha' hdisj => ?_
  refine frames_disjoint ?_ (hown.fits a ha) (hown.fits a' ha') hdisj
  rw [header_minAddress (hi.taken a ha).1, header_minAddress (hi.taken a' ha').1]

end

/-- Block 0 is taken and released, then blocks 0 and 1 are taken by one request, and block 2. -/
def kernelReleased : Kernel := (kfree 0xC0003000#32 kernelOneSmall).state
def kernelTwoBlocks : Kernel := (kmalloc 4096#32 kernelReleased).state
def kernelThreeBlocks : Kernel := (kmalloc 100#32 kernelTwoBlocks).state

theorem ownership_run_released :
    Pool.Apart Allocation.frames [⟨0xC0005000#32, 100#32, kernelTwoBlocks.allocator⟩,
      ⟨0xC0003000#32, 4096#32, kernelReleased.allocator⟩] := by
  have hsmall : ∀ k : Kernel, k.allocator.blockCount.toNat < 2 ^ 20 → MallocClear k.allocator 100#32 := fun k hk =>
    mallocClear_small hk (by decide)
  have hfree : FreeDisjoint firstSmall ([] ++ []) := by
    rw [FreeDisjoint, List.append_nil, Pool.owned_nil]
    exact Set.disjoint_empty _
  have hclear : MallocClear kernelReleased.allocator 4096#32 := by
    intro k hk
    obtain rfl : k = 0 := by
      by_contra hne
      exact absurd (hk.first 0 (by omega) (by omega)) (by decide)
    exact ⟨by decide, by decide⟩
  refine @ownership_run _ _ _ ⟨kernelThreeBlocks, _⟩ memInitialize_twoMiB
    (.tail (.tail (.tail (.single (.kmalloc (hsmall _ (by decide)) kmalloc_oneSmall)) ?_) (.kmalloc hclear rfl))
      (.kmalloc (hsmall _ (by decide)) rfl))
  exact @Session.Step.kfree _ _ kernelOneSmall kernelReleased [] [] firstSmall hfree rfl

/-- Two requests of 100 bytes take blocks 0 and 1; with the first released, a request of 4096 bytes
takes blocks 0 and 1. -/
theorem ownership_overlap :
    ¬∀ (b : Boot) (a₀ : MemoryAllocator) (t₀ : PageTable), memInitialize b = .ok a₀ t₀ → 32 ≤ a₀.blockCount.toNat →
      ∀ s, Run.Reach Session.AnyStep (Session.boot a₀ t₀) s → Pool.Apart Allocation.frames s.live := by
  intro h
  have hrun : (Session.execAll [.kmalloc 100#32, .kmalloc 100#32, .kfree 1, .kmalloc 4096#32] sessionTwoMiB).map
      (fun s => s.live.map fun a => (a.frame, a.count)) = some [(0x201000#32, 2), (0x202000#32, 1)] := by
    decide +kernel
  obtain ⟨s, hs, hlive⟩ := Option.map_eq_some_iff.1 hrun
  have hapart := h bootTwoMiB _ _ memInitialize_twoMiB (by decide) s (Session.execAll_any hs)
  obtain ⟨x, l, hx, hxe, hl⟩ := List.map_eq_cons_iff.1 hlive
  obtain ⟨y, l', rfl, hye, -⟩ := List.map_eq_cons_iff.1 hl
  obtain ⟨hfx, hcx⟩ := Prod.mk.inj hxe
  obtain ⟨hfy, hcy⟩ := Prod.mk.inj hye
  rw [hx] at hapart
  -- both own the frame of block 1
  have hmx : 0x202000#32 ∈ x.frames := ⟨1, by omega, by rw [hfx]; rfl⟩
  have hmy : 0x202000#32 ∈ y.frames := ⟨0, by omega, by rw [hfy]; rfl⟩
  exact Set.disjoint_left.1 (List.rel_of_pairwise_cons hapart (List.mem_cons_self ..)) hmx hmy

end Aeon.Memory
