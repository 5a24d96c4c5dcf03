/-
Runs of `page`, `page_unaligned` and `unpage` over the kernel tables. The live mappings are the
owners of a pool whose slots are the table entries: each call of a run is a step of the pool, so
the mappings' ranges stay disjoint, and since every mapping is a chain that ends at its own last
entry, `unpage` undoes exactly the call that returned its pointer.
-/
import Aeon.Lib.Pool
import Aeon.Memory.PagingSpec

namespace Aeon.Memory

/-! ## Mappings -/

/-- A mapping: the pointer its owner was given, the size asked for, and the frame and flags its
entries were made from. -/
structure Mapping where
  ptr : KUint32
  size : KSize
  frame : KUint32
  flags : KUint32

namespace Mapping

variable (m : Mapping)

/-- The index of the first entry. -/
def start : Nat := (tableOffset m.ptr).toNat

def count : Nat := pageCount m.size

def range : Set Nat := Set.Ico m.start (m.start + m.count)

theorem mem_range (i : Nat) : i ∈ m.range ↔ m.start ≤ i ∧ i < m.start + m.count := Iff.rfl

theorem add_mem_range {k : Nat} (h : k < m.count) : m.start + k ∈ m.range :=
  (m.mem_range _).2 ⟨by omega, by omega⟩

end Mapping

/-- The table holds a mapping's entries as `page` wrote them. -/
structure Backed (t : PageTable) (m : Mapping) : Prop where
  kernel : 0xC0000000 ≤ m.ptr.toNat
  fits : m.start + m.count < kernelPageTablesLen
  aligned : Aligned m.frame
  flags : KernelFlags m.flags
  entries : ∀ k < m.count, t (m.start + k) = mappedEntry (pageAt m.frame k) m.flags (k + 1 == m.count)

theorem Backed.frame_eq {t t' : PageTable} {m : Mapping} (h : Backed t m) (ht : ∀ i ∈ m.range, t' i = t i) :
    Backed t' m :=
  ⟨h.kernel, h.fits, h.aligned, h.flags, fun k hk => by rw [ht _ (m.add_mem_range hk), h.entries k hk]⟩

theorem Backed.inUse {t : PageTable} {m : Mapping} (h : Backed t m) {i : Nat} (hi : i ∈ m.range) :
    entryInUse (t i) = true := by
  obtain ⟨h1, h2⟩ := (m.mem_range i).1 hi
  have := h.entries (i - m.start) (by omega)
  rw [show m.start + (i - m.start) = i by omega] at this
  rw [this]
  exact mappedEntry_inUse

theorem Backed.chain {t : PageTable} {m : Mapping} (h : Backed t m) : Chain t m.start m.count := by
  refine ⟨pageCount_pos _, fun k hk => ?_, fun k hk => ?_⟩
  · rw [h.entries k hk]
    exact mappedEntry_not_locked (h.aligned.pageAt k) h.flags
  · rw [h.entries k hk]
    exact mappedEntry_endOfBlock (h.aligned.pageAt k) h.flags

theorem Backed.unpage {t : PageTable} {m : Mapping} (h : Backed t m) :
    unpage m.ptr t = .ok (BitVec.ofNat 32 m.count) (clearRun t m.start m.count) :=
  unpage_chain h.kernel h.chain (le_of_lt h.fits)

/-! ## Pointers -/

theorem pageAt_kernel_toNat {start : Nat} (h : start < kernelPageTablesLen) :
    (pageAt kernelFirstPageAddress start).toNat = 0xC0000000 + 4096 * start := by
  rw [pageAt_toNat, kernelFirstPageAddress]
  simp only [kernelPageTablesLen, pageTableLen] at h
  simp only [BitVec.toNat_ofNat]
  omega

theorem kernel_ptr {start : Nat} (h : start < kernelPageTablesLen) {offset : KUint32}
    (ho : offset.toNat < 4096) :
    0xC0000000 ≤ (pageAt kernelFirstPageAddress start + offset).toNat ∧
      (tableOffset (pageAt kernelFirstPageAddress start + offset)).toNat = start := by
  have hp := pageAt_kernel_toNat h
  have hs : (pageAt kernelFirstPageAddress start + offset).toNat = 0xC0000000 + 4096 * start + offset.toNat := by
    rw [BitVec.toNat_add, hp]
    simp only [kernelPageTablesLen, pageTableLen] at h
    omega
  refine ⟨by omega, ?_⟩
  rw [tableOffset_toNat (by omega), hs]
  omega

theorem pageAlign_eq (pa : KUint32) : pageAlign pa = entryFrame pa := by
  rw [pageAlign, align, entryFrame, show -(0x1000#32) = ~~~0xfff#32 by decide]

theorem pageAlign_offset_lt (pa : KUint32) : (pa - pageAlign pa).toNat < 4096 := by
  have hf := entryFrame_toNat pa
  have := pa.isLt
  rw [pageAlign_eq, BitVec.toNat_sub, hf]
  omega

/-! ## Runs -/

/-- The kernel tables and the live mappings. -/
structure PageSpace where
  table : PageTable
  live : List Mapping

/-- The entries in use. -/
def used (t : PageTable) : Set Nat := {i | entryInUse (t i) = true}

/-- The page space as a pool of entries. -/
def PageSpace.pool (s : PageSpace) : Pool.State Mapping Nat := ⟨used s.table, s.live⟩

/-- A call that returns: `page` with an aligned address, `page_unaligned` with any, `unpage` with
the pointer of a live mapping. -/
inductive PageSpace.Step : PageSpace → PageSpace → Prop
  | page {t t' : PageTable} {live : List Mapping} {pa flags v : KUint32} {size : KSize} :
      Aligned pa → KernelFlags flags → page pa size flags t = .ok v t' →
      Step ⟨t, live⟩ ⟨t', ⟨v, size, pa, flags⟩ :: live⟩
  | pageUnaligned {t t' : PageTable} {live : List Mapping} {pa flags v : KUint32} {size : KSize} :
      KernelFlags flags → pageUnaligned pa size flags t = .ok v t' →
      Step ⟨t, live⟩ ⟨t', ⟨v, size, pageAlign pa, flags⟩ :: live⟩
  | unpage {t t' : PageTable} {l₁ l₂ : List Mapping} {m : Mapping} {n : KUint32} :
      unpage m.ptr t = .ok n t' → Step ⟨t, l₁ ++ m :: l₂⟩ ⟨t', l₁ ++ l₂⟩

/-- The invariant of a page space that started as `start`: every live mapping is backed, the
entries in use are a pool owned by the live mappings, and any other entry is as at the start or
was free and is zero. -/
structure PageSpace.Inv (start : PageTable) (s : PageSpace) : Prop where
  backed : ∀ m ∈ s.live, Backed s.table m
  pool : Pool.Inv Mapping.range (used start) s.pool
  rest : ∀ i, i ∉ Pool.Owned Mapping.range s.live →
    s.table i = start i ∨ (s.table i = 0#32 ∧ entryInUse (start i) = false)

theorem PageSpace.Inv.init (start : PageTable) : PageSpace.Inv start ⟨start, []⟩ :=
  ⟨fun _ h => by simp at h, Pool.Inv.init _, fun _ _ => .inl rfl⟩

theorem Paged.backed {t t' : PageTable} {m : Mapping} (hp : Paged t t' m.frame m.flags m.start m.count)
    (hk : 0xC0000000 ≤ m.ptr.toNat) (ha : Aligned m.frame) (hf : KernelFlags m.flags) : Backed t' m :=
  ⟨hk, hp.run.fits, ha, hf, hp.mapped⟩

theorem Paged.frame_range {t t' : PageTable} {m : Mapping} (hp : Paged t t' m.frame m.flags m.start m.count)
    {i : Nat} (hi : i ∉ m.range) : t' i = t i := by
  rw [m.mem_range] at hi
  exact hp.frame i (by omega)

theorem Paged.free_range {t t' : PageTable} {m : Mapping} (hp : Paged t t' m.frame m.flags m.start m.count)
    {i : Nat} (hi : i ∈ m.range) : entryInUse (t i) = false := by
  obtain ⟨h1, h2⟩ := (m.mem_range i).1 hi
  have := hp.run.free (i - m.start) (by omega)
  rwa [show m.start + (i - m.start) = i by omega] at this

/-- A new mapping on free entries is a step of the pool and keeps the invariant. -/
theorem PageSpace.Inv.paged {start t t' : PageTable} {live : List Mapping} {m : Mapping}
    (h : PageSpace.Inv start ⟨t, live⟩) (hp : Paged t t' m.frame m.flags m.start m.count)
    (hb : Backed t' m) :
    PageSpace.Inv start ⟨t', m :: live⟩ ∧
      Pool.Step Mapping.range (PageSpace.pool ⟨t, live⟩) (PageSpace.pool ⟨t', m :: live⟩) := by
  have hdisj : Disjoint m.range (used t) :=
    Set.disjoint_left.2 fun i hi hu => by
      have := hp.free_range hi
      rw [used, Set.mem_ofPred_eq, this] at hu
      cases hu
  have hused : used t' = used t ∪ m.range := by
    ext i
    by_cases hi : i ∈ m.range
    · simp [used, hi, hb.inUse hi]
    · simp [used, hi, hp.frame_range hi]
  have hstep : Pool.Step Mapping.range (PageSpace.pool ⟨t, live⟩) (PageSpace.pool ⟨t', m :: live⟩) := by
    rw [PageSpace.pool, PageSpace.pool, hused]
    exact .alloc m hdisj
  refine ⟨⟨fun m' hm' => ?_, h.pool.step hstep, fun i hi => ?_⟩, hstep⟩
  · rcases List.mem_cons.1 hm' with rfl | hm'
    · exact hb
    · -- the entries of an older mapping are in use, so the new one is elsewhere
      have hold := h.backed m' hm'
      refine hold.frame_eq fun i hi => hp.frame_range fun hm => ?_
      exact Set.disjoint_left.1 hdisj hm (hold.inUse hi)
  · rw [Pool.owned_cons, Set.mem_union, not_or] at hi
    show t' i = start i ∨ (t' i = 0#32 ∧ _)
    rw [hp.frame_range hi.1]
    exact h.rest i hi.2

/-- Releasing a live mapping is a step of the pool and keeps the invariant. -/
theorem PageSpace.Inv.cleared {start t : PageTable} {l₁ l₂ : List Mapping} {m : Mapping}
    (h : PageSpace.Inv start ⟨t, l₁ ++ m :: l₂⟩) :
    PageSpace.Inv start ⟨clearRun t m.start m.count, l₁ ++ l₂⟩ ∧
      Pool.Step Mapping.range (PageSpace.pool ⟨t, l₁ ++ m :: l₂⟩)
        (PageSpace.pool ⟨clearRun t m.start m.count, l₁ ++ l₂⟩) := by
  have hin : ∀ i ∈ m.range, clearRun t m.start m.count i = 0#32 := fun i hi => by
    rw [clearRun, if_pos ((m.mem_range i).1 hi)]
  have hout : ∀ i ∉ m.range, clearRun t m.start m.count i = t i := fun i hi => by
    rw [clearRun, if_neg (fun h => hi ((m.mem_range i).2 h))]
  have hused : used (clearRun t m.start m.count) = used t \ m.range := by
    ext i
    by_cases hi : i ∈ m.range
    · simp [used, hi, hin i hi, entryInUse_zero]
    · simp [used, hi, hout i hi]
  have hstep : Pool.Step Mapping.range (PageSpace.pool ⟨t, l₁ ++ m :: l₂⟩)
      (PageSpace.pool ⟨clearRun t m.start m.count, l₁ ++ l₂⟩) := by
    rw [PageSpace.pool, PageSpace.pool, hused]
    exact .free l₁ l₂ m
  have hap := ((Pool.apart_middle Mapping.range l₁ l₂ m).1 h.pool.apart).1
  refine ⟨⟨fun m' hm' => ?_, h.pool.step hstep, fun i hi => ?_⟩, hstep⟩
  · have hmem : m' ∈ l₁ ++ m :: l₂ := by
      rcases List.mem_append.1 hm' with hm | hm <;> simp [hm]
    refine (h.backed m' hmem).frame_eq fun i hi => hout i fun hm => ?_
    exact Set.disjoint_left.1 hap hm ⟨m', hm', hi⟩
  · by_cases him : i ∈ m.range
    · -- a released entry was free at the start
      refine .inr ⟨hin i him, ?_⟩
      by_contra hu
      rw [Bool.not_eq_false] at hu
      exact Set.disjoint_left.1 h.pool.baseFree hu ⟨m, List.mem_append_right _ (List.mem_cons_self ..), him⟩
    · show clearRun t m.start m.count i = start i ∨ (clearRun t m.start m.count i = 0#32 ∧ _)
      rw [hout i him]
      exact h.rest i (by rw [Pool.owned_middle, Set.mem_union, not_or]; exact ⟨him, hi⟩)

theorem paged_of_page (offset : KUint32) {pa flags v : KUint32} {size : KSize} {t t' : PageTable}
    {m : Mapping} (h : page pa size flags t = .ok v t') (ho : offset.toNat < 4096)
    (hm : m = ⟨v + offset, size, pa, flags⟩) :
    0xC0000000 ≤ m.ptr.toNat ∧ Paged t t' m.frame m.flags m.start m.count := by
  obtain ⟨start, rfl, hp⟩ := page_ok h
  have hlt : start < kernelPageTablesLen := by have := hp.run.fits; omega
  obtain ⟨hk, hs⟩ := kernel_ptr hlt ho
  rw [← hs] at hp
  subst hm
  exact ⟨hk, hp⟩

theorem PageSpace.Inv.step {start : PageTable} {s s' : PageSpace} (h : PageSpace.Inv start s)
    (hs : PageSpace.Step s s') : PageSpace.Inv start s' ∧ Pool.Step Mapping.range s.pool s'.pool := by
  cases hs with
  | @page t t' live pa flags v size ha hf hp =>
    obtain ⟨hk, hpaged⟩ := paged_of_page 0#32 hp (by simp) (by rw [BitVec.add_zero v])
    have hb := hpaged.backed hk ha hf
    exact h.paged hpaged hb
  | @pageUnaligned t t' live pa flags v size hf hp =>
    obtain ⟨w, hw, rfl⟩ := pageUnaligned_ok.1 hp
    obtain ⟨hk, hpaged⟩ := paged_of_page _ hw (pageAlign_offset_lt pa) rfl
    exact h.paged hpaged (hpaged.backed hk (by rw [pageAlign_eq]; exact aligned_entryFrame pa) hf)
  | @unpage t t' l₁ l₂ m n hu =>
    have hb := h.backed m (by simp)
    rw [hb.unpage] at hu
    cases hu
    exact h.cleared

theorem PageSpace.Inv.run {start : PageTable} {s : PageSpace} (h : Run.Reach PageSpace.Step ⟨start, []⟩ s) :
    PageSpace.Inv start s ∧ Run.Reach (Pool.Step Mapping.range) ⟨used start, []⟩ s.pool :=
  Run.simulation PageSpace.pool h (PageSpace.Inv.init start) fun _ _ => PageSpace.Inv.step

/-- A call that makes a mapping changes exactly the entries of its range. -/
theorem PageSpace.Step.created {t t' : PageTable} {live : List Mapping} {m : Mapping}
    (h : PageSpace.Step ⟨t, live⟩ ⟨t', m :: live⟩) (i : Nat) : t' i ≠ t i ↔ i ∈ m.range := by
  have key : Paged t t' m.frame m.flags m.start m.count := by
    generalize hb : (⟨t', m :: live⟩ : PageSpace) = s' at h
    cases h with
    | page _ _ hp =>
      cases hb
      exact (paged_of_page 0#32 hp (by simp) (by rw [BitVec.add_zero])).2
    | @pageUnaligned _ _ _ pa _ _ _ _ hp =>
      cases hb
      obtain ⟨w, hw, rfl⟩ := pageUnaligned_ok.1 hp
      exact (paged_of_page _ hw (pageAlign_offset_lt pa) rfl).2
    | unpage _ =>
      -- `unpage` leaves one mapping fewer, not one more
      have := congrArg (List.length ∘ PageSpace.live) hb
      simp at this
      omega
  constructor
  · intro hne
    by_contra hi
    exact hne (key.frame_range hi)
  · intro hi
    obtain ⟨h1, h2⟩ := (m.mem_range i).1 hi
    have := key.changed (k := i - m.start) (by omega)
    rwa [show m.start + (i - m.start) = i by omega] at this

/-- In every run of `page`, `page_unaligned` and `unpage` from a table whose free entries are
zero: the live mappings' ranges are disjoint, inside the table and on entries free at the start;
exactly the last entry of each is marked; a call that makes a mapping changes exactly its range,
unpaging it returns its page count and clears exactly that range; and with no live mapping left
the table is as it started. -/
theorem pageSpace_run (start : PageTable)
    (hz : ∀ i < kernelPageTablesLen, entryInUse (start i) = false → start i = 0#32) (s : PageSpace)
    (h : Run.Reach PageSpace.Step ⟨start, []⟩ s) :
    Pool.Apart Mapping.range s.live ∧
    (∀ m ∈ s.live, m.start + m.count ≤ kernelPageTablesLen ∧
      (∀ i ∈ m.range, entryInUse (start i) = false) ∧
      (∀ k < m.count, s.table (m.start + k) &&& ptfAeonEndOfBlock ≠ 0#32 ↔ k + 1 = m.count) ∧
      unpage m.ptr s.table =
        .ok (BitVec.ofNat 32 (m.size.toNat / 4096 + 1)) (clearRun s.table m.start m.count)) ∧
    (∀ m t', PageSpace.Step s ⟨t', m :: s.live⟩ → ∀ i, t' i ≠ s.table i ↔ i ∈ m.range) ∧
    (s.live = [] → ∀ i < kernelPageTablesLen, s.table i = start i) := by
  obtain ⟨hinv, -⟩ := PageSpace.Inv.run h
  refine ⟨hinv.pool.apart, fun m hm => ?_, fun m t' hs => hs.created, fun hnil i hi => ?_⟩
  · have hb := hinv.backed m hm
    refine ⟨le_of_lt hb.fits, fun i hi => ?_, fun k hk => ?_, hb.unpage⟩
    · by_contra hu
      rw [Bool.not_eq_false] at hu
      exact Set.disjoint_left.1 hinv.pool.baseFree hu ⟨m, hm, hi⟩
    · have := hb.chain.marked k hk
      rw [← bne_iff_ne, this, beq_iff_eq]
  · rcases hinv.rest i (by simp [hnil]) with he | ⟨he, hfree⟩
    · exact he
    · rw [he, hz i hi hfree]

/-- The empty table after one call of `page` for 100 bytes at frame `0x5000`. -/
def onePage : PageTable := Function.update (Function.update (fun _ => 0#32) 0 0x5003#32) 0 0x5403#32

theorem page_onePage : page 0x5000#32 100#32 ptfReadWrite (fun _ => 0#32) = .ok 0xC0000000#32 onePage :=
  rfl

/-- A mapping of two pages after it, the first one released, and its entry taken again. -/
def twoMappings : PageTable := (pageUnaligned 0x8010#32 5000#32 ptfReadWrite onePage).state
def firstReleased : PageTable := (unpage 0xC0000000#32 twoMappings).state
def entryReused : PageTable := (page 0x6000#32 100#32 ptfReadWrite firstReleased).state

theorem pageSpace_run_entryReused :
    Pool.Apart Mapping.range [⟨0xC0000000#32, 100#32, 0x6000#32, ptfReadWrite⟩,
      ⟨0xC0001010#32, 5000#32, 0x8000#32, ptfReadWrite⟩] ∧
    unpage 0xC0001010#32 entryReused = .ok 2#32 (clearRun entryReused 1 2) := by
  have h₁ : PageSpace.Step ⟨fun _ => 0#32, []⟩ ⟨onePage, [⟨0xC0000000#32, 100#32, 0x5000#32, ptfReadWrite⟩]⟩ :=
    .page (by decide) (by decide) page_onePage
  have h₂ : PageSpace.Step ⟨onePage, [⟨0xC0000000#32, 100#32, 0x5000#32, ptfReadWrite⟩]⟩
      ⟨twoMappings, [⟨0xC0001010#32, 5000#32, 0x8000#32, ptfReadWrite⟩] ++
        ⟨0xC0000000#32, 100#32, 0x5000#32, ptfReadWrite⟩ :: []⟩ :=
    .pageUnaligned (by decide) (show pageUnaligned 0x8010#32 _ _ _ = .ok _ _ from rfl)
  have h₃ : PageSpace.Step ⟨twoMappings, [⟨0xC0001010#32, 5000#32, 0x8000#32, ptfReadWrite⟩] ++
        ⟨0xC0000000#32, 100#32, 0x5000#32, ptfReadWrite⟩ :: []⟩
      ⟨firstReleased, [⟨0xC0001010#32, 5000#32, 0x8000#32, ptfReadWrite⟩] ++ []⟩ :=
    .unpage (show unpage 0xC0000000#32 _ = .ok 1#32 _ from rfl)
  have h₄ : PageSpace.Step ⟨firstReleased, [⟨0xC0001010#32, 5000#32, 0x8000#32, ptfReadWrite⟩]⟩
      ⟨entryReused, [⟨0xC0000000#32, 100#32, 0x6000#32, ptfReadWrite⟩,
        ⟨0xC0001010#32, 5000#32, 0x8000#32, ptfReadWrite⟩]⟩ :=
    .page (by decide) (by decide) rfl
  have h := pageSpace_run (fun _ => 0#32) (fun _ _ _ => rfl) _ (.tail (.tail (.tail (.single h₁) h₂) h₃) h₄)
  exact ⟨h.1, (h.2.1 _ (List.mem_cons_of_mem _ (List.mem_cons_self ..))).2.2.2⟩

end Aeon.Memory
