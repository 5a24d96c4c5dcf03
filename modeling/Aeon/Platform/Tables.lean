/-
All that `_start` leaves up to the page directory. The two loops write their own tables and nothing
else, so the other tables stay as the loader cleared them, the directory has the four entries that are
set, and the bootloader's registers are kept for `kernel_main`.
-/
import Aeon.Platform.Boot

namespace Aeon.Platform

open I386 Memory

/-! ## What the loops write -/

/-- Where `_start` is, up to the directory setup, and what `edi` is there: an entry of the table that is
being written. -/
inductive Writing (img : BootImage) (s : State) : Prop
  | first : s.pc ≤ 4 → (s.pc ≠ 0 → s.gpr .edi = img.table 1) → Writing img s
  | identity (k : Nat) : 5 ≤ s.pc → s.pc ≤ 12 → k ≤ 1024 → s.gpr .edi = img.table 1 + BitVec.ofNat 32 (4 * k) →
      (s.pc = 6 → s.less = decide (k < 1024)) → (7 ≤ s.pc → s.pc ≤ 11 → k < 1024) → Writing img s
  | second : 13 ≤ s.pc → s.pc ≤ 14 → (s.pc = 14 → s.gpr .edi = img.table 2) → Writing img s
  | kernel (k : Nat) : 15 ≤ s.pc → s.pc ≤ 24 → k ≤ img.endPage → s.gpr .edi = img.table 2 + BitVec.ofNat 32 (4 * k) →
      s.gpr .esi = BitVec.ofNat 32 (4096 * if s.pc = 23 then k + 1 else k) →
      (s.pc = 18 → s.less = decide (k < img.endPage)) → (s.pc = 16 → s.less = decide (k < 256)) →
      (19 ≤ s.pc → s.pc ≤ 23 → k < img.endPage) → Writing img s
  | done : 25 ≤ s.pc → Writing img s

theorem Writing.step {img : BootImage} {s s' : State} (h : Writing img s) (hs : Step (start img) s s') :
    Writing img s' := by
  obtain ⟨op, hop, rfl⟩ := hs
  obtain ⟨pc, less, gpr, memory⟩ := s
  have hbounds := img.endPage_bounds
  cases h with
  | first h1 h2 =>
    simp only at h1 h2 hop
    have hzero : img.table 1 = img.table 1 + BitVec.ofNat 32 (4 * 0) := (BitVec.add_zero _).symm
    interval_cases pc <;> cases hop
    · exact .first (Nat.le_of_ble_eq_true rfl) fun _ => rfl
    · exact .first (Nat.le_of_ble_eq_true rfl) fun _ => h2 (by omega)
    · exact .first (Nat.le_of_ble_eq_true rfl) fun _ => h2 (by omega)
    · exact .first (Nat.le_of_ble_eq_true rfl) fun _ => h2 (by omega)
    · refine .identity 0 ?_ ?_ ?_ ((h2 (by omega)).trans hzero) ?_ ?_ <;> simp [Op.exec, State.next]
  | identity k h1 h2 h3 h4 h5 h6 =>
    simp only at h1 h2 h4 h5 h6 hop
    have hless : (gpr .edi).slt (img.table 1 + 4096#32) = decide (k < 1024) := by
      have := img.table_toNat (show 1 ≤ 4 by omega)
      have := img.low
      rw [h4, slt_iff (by bv_omega) (by bv_omega)]
      exact decide_eq_decide.2 (by bv_omega)
    interval_cases pc <;> cases hop
    · refine .identity k ?_ ?_ h3 h4 ?_ ?_ <;> simp [Op.exec, State.next, hless]
    · rw [Op.exec, h5 rfl]
      by_cases hk : k < 1024
      · rw [if_pos (decide_eq_true hk)]
        refine .identity k ?_ ?_ h3 h4 ?_ ?_ <;> simp [State.next, hk]
      · rw [if_neg (by simp [hk])]
        refine .second ?_ ?_ ?_ <;> simp
    · refine .identity k ?_ ?_ h3 h4 ?_ ?_ <;> simp [Op.exec, State.next, State.setGpr, h6]
    · refine .identity k ?_ ?_ h3 h4 ?_ ?_ <;> simp [Op.exec, State.next, State.setGpr, h6]
    · refine .identity k ?_ ?_ h3 h4 ?_ ?_ <;> simp [Op.exec, State.next, h6]
    · refine .identity k ?_ ?_ h3 h4 ?_ ?_ <;> simp [Op.exec, State.next, State.setGpr, h6]
    · have hk := h6 (by omega) (by omega)
      refine .identity (k + 1) ?_ ?_ (by omega) ?_ ?_ ?_
      · simp [Op.exec, State.next, State.setGpr]
      · simp [Op.exec, State.next, State.setGpr]
      · show gpr .edi + 4#32 = _
        rw [h4]
        bv_omega
      · simp [Op.exec, State.next, State.setGpr]
      · simp [Op.exec, State.next, State.setGpr]
    · simp only [Op.exec]
      split
      · refine .second ?_ ?_ ?_ <;> simp [State.next, State.setGpr]
      · refine .identity k ?_ ?_ h3 h4 ?_ ?_ <;> simp
  | second h1 h2 h3 =>
    simp only at h1 h2 h3 hop
    interval_cases pc <;> cases hop
    · refine .second ?_ ?_ fun _ => rfl <;> simp [Op.exec, State.next, State.setGpr]
    · refine .kernel 0 ?_ ?_ (by omega) ((h3 rfl).trans (BitVec.add_zero _).symm) ?_ ?_ ?_ ?_ <;>
        simp [Op.exec, State.next, State.setGpr]
  | kernel k h1 h2 h3 h4 h5 h6 h7 h8 =>
    simp only at h1 h2 h4 h5 h6 h7 h8 hop
    have hlow : pc ≠ 23 → (gpr .esi).toNat = 4096 * k := fun hne => by
      rw [h5, if_neg hne, BitVec.toNat_ofNat]
      omega
    have hend := img.kernelEnd_eq
    have hstart : kernelStart.toNat = 4096 * 256 := rfl
    interval_cases pc <;> cases hop
    · have hless : (gpr .esi).slt kernelStart = decide (k < 256) := by
        have := hlow (by omega)
        rw [slt_iff (by omega) (by omega)]
        exact decide_eq_decide.2 (by omega)
      refine .kernel k ?_ ?_ h3 h4 h5 ?_ ?_ ?_ <;> simp [Op.exec, State.next, hless]
    · rw [Op.exec, h7 rfl]
      by_cases hk : k < 256
      · rw [if_pos (decide_eq_true hk)]
        refine .kernel k ?_ ?_ h3 h4 h5 ?_ ?_ ?_ <;> simp
        omega
      · rw [if_neg (by simp [hk])]
        refine .kernel k ?_ ?_ h3 h4 h5 ?_ ?_ ?_ <;> simp [State.next]
    · have hless : (gpr .esi).slt img.kernelEnd = decide (k < img.endPage) := by
        have := hlow (by omega)
        rw [slt_iff (by omega) (by omega)]
        exact decide_eq_decide.2 (by omega)
      refine .kernel k ?_ ?_ h3 h4 h5 ?_ ?_ ?_ <;> simp [Op.exec, State.next, hless]
    · rw [Op.exec, h6 rfl]
      by_cases hk : k < img.endPage
      · rw [if_pos (decide_eq_true hk)]
        refine .kernel k ?_ ?_ h3 h4 h5 ?_ ?_ ?_ <;> simp [State.next, hk]
      · rw [if_neg (by simp [hk])]
        exact .done (le_refl _)
    · refine .kernel k ?_ ?_ h3 h4 h5 ?_ ?_ ?_ <;> simp [Op.exec, State.next, State.setGpr, h8]
    · refine .kernel k ?_ ?_ h3 h4 h5 ?_ ?_ ?_ <;> simp [Op.exec, State.next, State.setGpr, h8]
    · refine .kernel k ?_ ?_ h3 h4 h5 ?_ ?_ ?_ <;> simp [Op.exec, State.next, h8]
    · refine .kernel k ?_ ?_ h3 h4 ?_ ?_ ?_ ?_
      · simp [Op.exec, State.next, State.setGpr]
      · simp [Op.exec, State.next, State.setGpr]
      · show gpr .esi + 4096#32 = BitVec.ofNat 32 (4096 * (k + 1))
        rw [h5, if_neg (by omega)]
        bv_omega
      · simp [Op.exec, State.next, State.setGpr]
      · simp [Op.exec, State.next, State.setGpr]
      · simp [Op.exec, State.next, State.setGpr, h8]
    · have hk := h8 (by omega) (by omega)
      refine .kernel (k + 1) ?_ ?_ (by omega) ?_ h5 ?_ ?_ ?_
      · simp [Op.exec, State.next, State.setGpr]
      · simp [Op.exec, State.next, State.setGpr]
      · show gpr .edi + 4#32 = _
        rw [h4]
        bv_omega
      · simp [Op.exec, State.next, State.setGpr]
      · simp [Op.exec, State.next, State.setGpr]
      · simp [Op.exec, State.next, State.setGpr]
    · simp only [Op.exec]
      split
      · exact .done (by simp [State.next, State.setGpr])
      · refine .kernel k ?_ ?_ h3 h4 h5 ?_ ?_ ?_ <;> simp
  | done h1 =>
    simp only at h1 hop
    have hlt : pc < 30 := (List.getElem?_eq_some_iff.1 hop).1
    interval_cases pc <;> cases hop <;> exact .done (by simp [Op.exec, State.next])

/-- Up to the directory setup only the two maps are written. -/
theorem Writing.kept {img : BootImage} {s s' : State} (h : Writing img s) (hs : Step (start img) s s') (hpc : s.pc ≤ 25)
    {n : Nat} (hn : n ≤ 4) (h1 : 1 ≠ n) (h2 : 2 ≠ n) {entries : Nat → KUint32}
    (ht : Table s.memory (img.table n) entries) : Table s'.memory (img.table n) entries := by
  obtain ⟨op, hop, rfl⟩ := hs
  obtain ⟨pc, less, gpr, memory⟩ := s
  have hbounds := img.endPage_bounds
  rw [Op.exec_memory]
  cases hstored : op.stored ⟨pc, less, gpr, memory⟩ with
  | none => exact ht
  | some w =>
    cases h with
    | first _ he =>
      simp only at hpc he hop
      have hzero : img.table 1 = img.table 1 + BitVec.ofNat 32 (4 * 0) := (BitVec.add_zero _).symm
      interval_cases pc <;> cases hop <;> cases hstored
      show Table (writeWord memory (gpr .edi) _) _ _
      rw [he (by omega), hzero]
      exact img.table_other hn (by omega) h1 ht (by omega) _
    | identity k hl hu _ he _ hk =>
      simp only at hpc hl hu he hk hop
      interval_cases pc <;> cases hop <;> cases hstored
      show Table (writeWord memory (gpr .edi) _) _ _
      rw [he]
      exact img.table_other hn (by omega) h1 ht (hk (by omega) (by omega)) _
    | second hl hu _ =>
      simp only at hpc hl hu hop
      interval_cases pc <;> cases hop <;> cases hstored
    | kernel k hl hu _ he _ _ _ hk =>
      simp only at hpc hl hu he hk hop
      interval_cases pc <;> cases hop <;> cases hstored
      have hend := hk (by omega) (by omega)
      show Table (writeWord memory (gpr .edi) _) _ _
      rw [he]
      exact img.table_other hn (by omega) h2 ht (by omega) _
    | done hl =>
      simp only at hpc hl hop
      obtain rfl : pc = 25 := by omega
      cases hop
      rw [Op.stored, Option.some.injEq] at hstored
      subst hstored
      exact img.table_other hn (by omega) h2 ht (show 1023 < 1024 by omega) _

/-- The directory setup runs to the end. -/
theorem Writing.past {img : BootImage} {s s' : State} (hs : Step (start img) s s') (hpc : 25 ≤ s.pc) :
    s'.pc = s.pc + 1 := by
  obtain ⟨op, hop, rfl⟩ := hs
  obtain ⟨pc, less, gpr, memory⟩ := s
  have hlt : pc < 30 := (List.getElem?_eq_some_iff.1 hop).1
  simp only at hpc hop
  interval_cases pc <;> cases hop <;> rfl

section

variable {img : BootImage} {s s' : State}

/-- The tables that are not maps, in every run up to the directory setup. -/
theorem start_kept (hpc : s.pc = 0) (h : Steps (start img) s s') (hpc' : s'.pc ≤ 26) {n : Nat} (hn : n ≤ 4)
    (h1 : 1 ≠ n) (h2 : 2 ≠ n) {entries : Nat → KUint32} (ht : Table s.memory (img.table n) entries) :
    Table s'.memory (img.table n) entries := by
  have hinv := Run.invariant (P := fun s' => Writing img s' ∧ (s'.pc ≤ 26 → Table s'.memory (img.table n) entries)) h
    ⟨.first (by omega) fun hne => absurd hpc hne, fun _ => ht⟩ ?_
  · exact hinv.2 hpc'
  · rintro a b ⟨ha, hta⟩ hab
    refine ⟨ha.step hab, fun hb => ?_⟩
    have hle : a.pc ≤ 25 := by
      by_contra hgt
      have := Writing.past hab (by omega)
      omega
    exact ha.kept hab hle hn h1 h2 (hta (by omega))

/-! ## The directory -/

/-- The directory `_start` sets up: its first entry is the kernel's map for now. -/
def bootDirectory (img : BootImage) (i : Nat) : KUint32 :=
  if i = 0 then img.table 2 + BootLayout.pdf else img.directoryEntry i

theorem bootDirectory_eq (img : BootImage) :
    Function.update (Function.update (Function.update (Function.update (fun _ => 0#32) 0 (img.table 2 + BootLayout.pdf))
      768 (img.table 2 + BootLayout.pdf)) 769 (img.table 3 + BootLayout.pdf)) 770 (img.table 4 + BootLayout.pdf) =
      bootDirectory img := by
  funext i
  simp only [bootDirectory, BootLayout.directoryEntry, Function.update_apply]
  grind

/-- The directory setup from a cleared directory. -/
theorem directory_set (hpc : s.pc = 26) (hd : Table s.memory (img.table 0) fun _ => 0#32) :
    ∃ s', Steps (start img) s s' ∧ s'.pc = 30 ∧ Table s'.memory img.pageDirectory (bootDirectory img) ∧
      ∀ {n : Nat} {entries : Nat → KUint32}, 0 < n → n ≤ 4 →
        Table s.memory (img.table n) entries → Table s'.memory (img.table n) entries := by
  obtain ⟨s', hs', hpc', htables⟩ := @directory_run img s hpc
  obtain ⟨pc, less, gpr, memory⟩ := s
  simp only at hpc
  subst hpc
  have hblock := @Steps.block (start img)
    [.storeImm (img.table 2 + BootLayout.pdf) img.pageDirectory,
     .storeImm (img.table 2 + BootLayout.pdf) (img.pageDirectory + BitVec.ofNat 32 (4 * 768)),
     .storeImm (img.table 3 + BootLayout.pdf) (img.pageDirectory + BitVec.ofNat 32 (4 * 769)),
     .storeImm (img.table 4 + BootLayout.pdf) (img.pageDirectory + BitVec.ofNat 32 (4 * 770))]
    ⟨26, less, gpr, memory⟩ (by simp [Op.straight]) rfl
  obtain rfl := hs'.end_unique hblock hpc' rfl
  refine ⟨_, hs', rfl, ?_, htables⟩
  rw [img.table_zero] at hd
  have h0 := hd.write (show 0 < 1024 by omega) (img.table 2 + BootLayout.pdf)
  rw [Nat.mul_zero, BitVec.add_zero img.pageDirectory] at h0
  rw [← bootDirectory_eq]
  exact ((h0.write (show 768 < 1024 by omega) _).write (show 769 < 1024 by omega) _).write (show 770 < 1024 by omega) _

/-! ## The whole run -/

/-- The maps whole, the other tables and the directory, and the bootloader's registers. -/
structure Started (img : BootImage) (eax ebx : KUint32) (s : State) : Prop where
  directory : Table s.memory img.pageDirectory (bootDirectory img)
  identity : Table s.memory (img.table 1) identityEntry
  kernel : Table s.memory (img.table 2) (Function.update (kernelTable img.endPage) 1023 vgaEntry)
  empty : ∀ n, 3 ≤ n → n ≤ 4 → Table s.memory (img.table n) fun _ => 0#32
  magic : s.gpr .eax = eax
  info : s.gpr .ebx = ebx

/-- The counts in `ecx` for which no loop is cut short, of a kernel of one page at least. -/
def CountsThrough (img : BootImage) (ecx : KUint32) : Prop :=
  256 < img.endPage ∧ (ecx.toNat = 0 ∨ ecx.toNat = 1024 ∨ 1024 + img.endPage ≤ ecx.toNat)

theorem start_started (hpc : s.pc = 0) (hz : ∀ n ≤ 4, Table s.memory (img.table n) fun _ => 0#32)
    (hecx : CountsThrough img (s.gpr .ecx)) :
    ∃ s', Steps (start img) s s' ∧ s'.pc = 30 ∧ Started img (s.gpr .eax) (s.gpr .ebx) s' := by
  obtain ⟨hpages, hecx⟩ := hecx
  obtain ⟨hwritten, hpassed⟩ := (count_iff img (s.gpr .ecx).isLt).2 (by tauto)
  have hpassed : passed img (s.gpr .ecx).toNat = img.endPage := by omega
  obtain ⟨hn, hn'⟩ := rounds_le (s.gpr .ecx).isLt
  obtain ⟨s₁, hs₁, hpc₁, h₁⟩ := Identity.enter hpc (hz 1 (by omega)) (hz 2 (by omega))
  obtain ⟨s₂, hs₂, hpc₂, h₂⟩ := h₁.finish hpc₁ hn hn'
  obtain ⟨s₃, hs₃, hpc₃, h₃⟩ := KernelMap.enter h₂ hpc₂
  have hleft : rounds (s.gpr .ecx).toNat - min 1024 (rounds (s.gpr .ecx).toNat) < 2 ^ 32 := by omega
  obtain ⟨hm, hm'⟩ := rounds_le hleft
  obtain ⟨s₄, hs₄, hpc₄, h₄⟩ := h₃.finish hpc₃ hm hm'
  have hrun₄ := hs₁.trans (hs₂.trans (hs₃.trans hs₄))
  obtain ⟨-, -, -, hid, hker⟩ := h₄
  change Table _ _ (identityTable (written _)) at hid
  change Table _ _ (kernelTable (passed img _)) at hker
  rw [hwritten] at hid
  rw [hpassed] at hker
  obtain ⟨pc, less, gpr, memory⟩ := s₄
  simp only at hpc₄ hid hker
  subst hpc₄
  have hstore := @Steps.op (start img) ⟨25, less, gpr, memory⟩ _ rfl
  have hrun₅ := hrun₄.trans hstore
  have hkept : ∀ n ≤ 4, 1 ≠ n → 2 ≠ n →
      Table (writeWord memory (img.table 2 + BitVec.ofNat 32 (4 * 1023)) vgaEntry) (img.table n) fun _ => 0#32 :=
    fun n hn h1 h2 => start_kept hpc hrun₅ (le_refl _) hn h1 h2 (hz n hn)
  obtain ⟨s', hs', hpc', hd, htables⟩ := @directory_set img
    ⟨26, less, gpr, writeWord memory (img.table 2 + BitVec.ofNat 32 (4 * 1023)) vgaEntry⟩ rfl
    (hkept 0 (by omega) (by omega) (by omega))
  have hrun := hrun₅.trans hs'
  refine ⟨s', hrun, hpc', hd, ?_, ?_, fun n h3 h4 => htables (by omega) h4 (hkept n h4 (by omega) (by omega)), ?_, ?_⟩
  · refine (htables (by omega) (by omega) (img.table_other (by omega) (by omega) (by omega) hid (by omega) _)).congr
      fun i hi => ?_
    unfold identityTable
    rw [if_pos hi]
  · exact htables (by omega) (by omega) (hker.write (by omega) _)
  · exact Steps.gpr (by simp [start, Op.dest]) hrun
  · exact Steps.gpr (by simp [start, Op.dest]) hrun

end

end Aeon.Platform
