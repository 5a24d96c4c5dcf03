/-
Frames that were mapped before the allocator started. `page` maps two pages for the 4096 bytes of
bookkeeping, but the allocator counts its blocks from one page on, so block 0 is the second
bookkeeping page; every other block lies above all that was mapped at the start.
-/
import Aeon.Memory.Session

namespace Aeon.Memory

/-- No entry that was present in the table `t` maps a frame of a live allocation. -/
def NoAlias (t : PageTable) (live : List Allocation) : Prop :=
  ∀ a ∈ live, ∀ i < kernelPageTablesLen, t i &&& ptfPresent ≠ 0#32 → entryFrame (t i) ∉ a.frames

theorem Takes.zero_iff {n : KSize} {a : MemoryAllocator} {k : Nat} (h : Takes n a k) :
    k = 0 ↔ offers n a 0 = true := by
  constructor
  · rintro rfl
    exact h.offered
  · intro hoff
    by_contra hk
    have hfirst : offers n a 0 = false := h.first 0 (le_refl 0) (by omega)
    rw [hoff] at hfirst
    cases hfirst

section

variable {b : Boot} {a₀ : MemoryAllocator} {t₀ : PageTable}

/-- The entries of the table `mem_initialize` leaves: the two bookkeeping pages at the first free
address, and below it what the boot table maps. -/
theorem bootEntries (hb : memInitialize b = .ok a₀ t₀) (hw : computeHighestFreeAddress b.pageTable ≠ 0#32) :
    (∀ k < 2, ∃ i < kernelPageTablesLen, t₀ i &&& ptfPresent ≠ 0#32 ∧
      entryFrame (t₀ i) = pageAt (computeHighestFreeAddress b.pageTable) k) ∧
    (∀ i < kernelPageTablesLen,
      (∃ k < 2, entryFrame (t₀ i) = pageAt (computeHighestFreeAddress b.pageTable) k) ∨
      (entryFrame (t₀ i)).toNat + 4096 ≤ (computeHighestFreeAddress b.pageTable).toNat) := by
  obtain ⟨v, hpage, -⟩ := memInitialize_ok hb
  obtain ⟨start, -, hp⟩ := page_ok hpage
  rw [show pageCount 4096#32 = 2 by rfl] at hp
  have hfit := hp.run.fits
  have hframe : ∀ k < 2, entryFrame (t₀ (start + k)) = pageAt (computeHighestFreeAddress b.pageTable) k :=
    fun k hk => by
      rw [hp.mapped k hk, entryFrame_mappedEntry ((computeHighestFreeAddress_aligned b.pageTable).pageAt k) (.inr rfl)]
  refine ⟨fun k hk => ⟨start + k, by omega, ?_, hframe k hk⟩, fun i hi => ?_⟩
  · rw [hp.mapped k hk]
    exact mappedEntry_present
  · by_cases hin : i < start ∨ start + 2 ≤ i
    · rw [hp.frame i hin]
      exact .inr (lt_computeHighestFreeAddress b.pageTable hw hi)
    · refine .inl ⟨i - start, by omega, ?_⟩
      have := hframe (i - start) (by omega)
      rwa [show start + (i - start) = i by omega] at this

/-- In every run after a boot whose first free address does not wrap, no live frame is mapped by an
entry that was present when `mem_initialize` returned, exactly when none of the live allocations
was made while its search offered block 0. -/
theorem noAlias_run {s : Session} (hb : memInitialize b = .ok a₀ t₀)
    (hw : computeHighestFreeAddress b.pageTable ≠ 0#32)
    (hle : (computeHighestFreeAddress b.pageTable).toNat ≤ (memGetBytes b.lowmem b.highmem).toNat)
    (h : Run.Reach Session.AnyStep (Session.boot a₀ t₀) s) :
    NoAlias t₀ s.live ↔ ∀ a ∈ s.live, offers (blockRequest a.size) a.before 0 = false := by
  have hi := Session.Inv.run hb h
  obtain ⟨hbooks, hboot⟩ := bootEntries hb hw
  constructor
  · intro hno a ha
    by_contra hoff
    rw [Bool.not_eq_false] at hoff
    -- block 0 is the second bookkeeping page
    have hzero : a.block = 0 := (hi.taken a ha).2.zero_iff.2 hoff
    obtain ⟨i, hlt, hpresent, heq⟩ := hbooks 1 (by omega)
    refine hno a ha i hlt hpresent ⟨0, a.count_pos, ?_⟩
    apply BitVec.eq_of_toNat_eq
    rw [heq, hi.frame_toNat hb hle ha a.count_pos, hzero, pageAt_toNat]
    have := memGetBytes_toNat_lt b.lowmem b.highmem
    omega
  · intro hoff a ha i hlt _ hin
    obtain ⟨j, hj, heq⟩ := hin
    have hne : a.block ≠ 0 := fun hzero => by
      have := (hi.taken a ha).2.zero_iff.1 hzero
      rw [hoff a ha] at this
      cases this
    have hframe := hi.frame_toNat hb hle ha hj
    have hmem := memGetBytes_toNat_lt b.lowmem b.highmem
    rcases hboot i hlt with ⟨k, hk, hbk⟩ | hbelow
    · rw [← heq, hbk, pageAt_toNat] at hframe
      omega
    · rw [heq, hframe] at hbelow
      omega

end

theorem noAlias_run_second : NoAlias pageTableTwoMiB [secondSmall] := by
  have hrun : Run.Reach Session.AnyStep (Session.boot allocatorTwoMiB pageTableTwoMiB)
      ⟨(kfree firstSmall.ptr kernelTwoSmall).state, [secondSmall]⟩ :=
    .tail (.tail (.single (.kmalloc trivial kmalloc_oneSmall)) (.kmalloc trivial kmalloc_twoSmall))
      (@Session.Step.kfree _ _ kernelTwoSmall _ [secondSmall] [] firstSmall trivial rfl)
  refine (noAlias_run memInitialize_twoMiB ?_ ?_ hrun).2 fun a ha => ?_
  · rw [computeHighestFreeAddress_twoMiB]
    decide
  · rw [computeHighestFreeAddress_twoMiB]
    decide
  · rw [List.mem_singleton.1 ha]
    rfl

/-- The first request of 100 bytes gets the frame of the second bookkeeping page. -/
theorem alias_bookkeeping :
    ¬∀ (b : Boot) (a₀ : MemoryAllocator) (t₀ : PageTable), memInitialize b = .ok a₀ t₀ →
      a₀.minAddress ≤ a₀.maxAddress →
      ∀ s, Run.Reach Session.AnyStep (Session.boot a₀ t₀) s → NoAlias t₀ s.live := by
  intro h
  have hno := h bootTwoMiB _ _ memInitialize_twoMiB (by decide) ⟨kernelOneSmall, [firstSmall]⟩
    (.single (.kmalloc trivial kmalloc_oneSmall))
  exact hno firstSmall (List.mem_singleton_self _) 2 (by decide) (by decide +kernel) ⟨0, by decide, by decide +kernel⟩

end Aeon.Memory
