/-
Page-table entries as words: 4 KiB-aligned frames with the flag bits below them, and what each
test of `paging.c` reads from an entry that `page` wrote.
-/
import Aeon.Memory.Paging

namespace Aeon.Memory

/-! ## Aligned addresses -/

def Aligned (x : KUint32) : Prop := x &&& 0xfff#32 = 0#32

theorem and_fff_toNat (x : KUint32) : (x &&& 0xfff#32).toNat = x.toNat % 4096 := by
  rw [BitVec.toNat_and]
  exact Nat.and_two_pow_sub_one_eq_mod x.toNat 12

theorem aligned_iff (x : KUint32) : Aligned x ↔ x.toNat % 4096 = 0 := by
  rw [Aligned, ← and_fff_toNat, ← BitVec.toNat_inj]
  rfl

instance (x : KUint32) : Decidable (Aligned x) := inferInstanceAs (Decidable (_ = _))

theorem Aligned.add {x y : KUint32} (hx : Aligned x) (hy : Aligned y) : Aligned (x + y) := by
  rw [aligned_iff] at *
  rw [BitVec.toNat_add]
  omega

/-- The address of page `k` after `x`. -/
def pageAt (x : KUint32) (k : Nat) : KUint32 := x + BitVec.ofNat 32 (4096 * k)

theorem pageAt_toNat (x : KUint32) (k : Nat) : (pageAt x k).toNat = (x.toNat + 4096 * k) % 2 ^ 32 := by
  simp [pageAt]

@[simp] theorem pageAt_zero (x : KUint32) : pageAt x 0 = x := by simp [pageAt]

theorem pageAt_succ (x : KUint32) (k : Nat) : pageAt (x + pageSize) k = pageAt x (k + 1) := by
  apply BitVec.eq_of_toNat_eq
  rw [pageAt_toNat, pageAt_toNat, BitVec.toNat_add, pageSize]
  simp only [BitVec.toNat_ofNat]
  omega

theorem pageAt_inj {x : KUint32} {j k : Nat} (hj : j < 2 ^ 20) (hk : k < 2 ^ 20) (h : pageAt x j = pageAt x k) :
    j = k := by
  have := congrArg BitVec.toNat h
  rw [pageAt_toNat, pageAt_toNat] at this
  have := x.isLt
  omega

theorem pageAt_add (x : KUint32) (j k : Nat) : pageAt (pageAt x j) k = pageAt x (j + k) := by
  apply BitVec.eq_of_toNat_eq
  rw [pageAt_toNat, pageAt_toNat, pageAt_toNat]
  omega

theorem Aligned.pageAt {x : KUint32} (h : Aligned x) (k : Nat) : Aligned (pageAt x k) := by
  rw [aligned_iff] at *
  rw [pageAt_toNat]
  omega

theorem Aligned.and_low {x m : KUint32} (h : Aligned x) (hm : 0xfff#32 &&& m = m) : x &&& m = 0#32 := by
  rw [← hm, ← BitVec.and_assoc, h]
  exact BitVec.zero_and

theorem Aligned.entryFrame_eq {x : KUint32} (h : Aligned x) : entryFrame x = x := by
  have hx : x = (x &&& 0xfff#32) ||| (x &&& ~~~0xfff#32) := by
    rw [← BitVec.and_or_distrib_left, BitVec.or_not_self, BitVec.and_allOnes]
  rw [h, BitVec.zero_or] at hx
  exact hx.symm

theorem aligned_entryFrame (x : KUint32) : Aligned (entryFrame x) := by
  rw [Aligned, entryFrame, BitVec.and_assoc]
  simp

theorem entryFrame_toNat (x : KUint32) : (entryFrame x).toNat = x.toNat - x.toNat % 4096 := by
  have hx : x = entryFrame x ||| (x &&& 0xfff#32) := by
    rw [entryFrame, ← BitVec.and_or_distrib_left, BitVec.or_comm, BitVec.or_not_self, BitVec.and_allOnes]
  have hd : entryFrame x &&& (x &&& 0xfff#32) = 0#32 := by
    rw [BitVec.and_comm x, ← BitVec.and_assoc, aligned_entryFrame]
    exact BitVec.zero_and
  have hs : x = entryFrame x + (x &&& 0xfff#32) := by
    rw [BitVec.add_eq_or_of_and_eq_zero _ _ hd]; exact hx
  have ha := (aligned_iff _).1 (aligned_entryFrame x)
  have hf := and_fff_toNat x
  have hn : x.toNat = (entryFrame x + (x &&& 0xfff#32)).toNat := congrArg BitVec.toNat hs
  rw [BitVec.toNat_add, hf] at hn
  have := (entryFrame x).isLt
  have := x.isLt
  omega

/-! ## What `page` writes -/

/-- The flags the callers of `page` pass for a kernel mapping. -/
def KernelFlags (flags : KUint32) : Prop := flags = 0#32 ∨ flags = ptfReadWrite

instance (flags : KUint32) : Decidable (KernelFlags flags) := inferInstanceAs (Decidable (_ ∨ _))

/-- The entry `page` leaves for the frame `pa`: the last one of a mapping is marked. -/
def mappedEntry (pa flags : KUint32) (last : Bool) : KUint32 :=
  if last then pa ||| flags ||| ptfPresent ||| ptfAeonEndOfBlock else pa ||| flags ||| ptfPresent

section

variable {pa flags : KUint32} {last : Bool}

theorem mappedEntry_present : mappedEntry pa flags last &&& ptfPresent ≠ 0#32 := by
  have h : (mappedEntry pa flags last &&& ptfPresent).getLsbD 0 = true := by
    cases last <;> simp [mappedEntry, ptfPresent]
  intro h0
  rw [h0] at h
  simp at h

theorem mappedEntry_inUse : entryInUse (mappedEntry pa flags last) = true := by
  have h := @mappedEntry_present pa flags last
  simp [entryInUse, h]

variable (hpa : Aligned pa) (hf : KernelFlags flags)

include hpa

theorem mappedEntry_and {m : KUint32} (hm : 0xfff#32 &&& m = m) :
    mappedEntry pa flags last &&& m = mappedEntry 0#32 flags last &&& m := by
  cases last <;> simp [mappedEntry, BitVec.and_or_distrib_right, hpa.and_low hm]

include hf

theorem mappedEntry_not_locked : mappedEntry pa flags last &&& ptfAeonLocked = 0#32 := by
  rw [mappedEntry_and hpa (by decide)]
  rcases hf with rfl | rfl <;> cases last <;> decide

theorem mappedEntry_endOfBlock : (mappedEntry pa flags last &&& ptfAeonEndOfBlock != 0#32) = last := by
  rw [mappedEntry_and hpa (by decide)]
  rcases hf with rfl | rfl <;> cases last <;> decide

theorem entryFrame_mappedEntry : entryFrame (mappedEntry pa flags last) = pa := by
  have h : entryFrame (mappedEntry pa flags last) = entryFrame pa ||| entryFrame (mappedEntry 0#32 flags last) := by
    cases last <;> simp [mappedEntry, entryFrame, BitVec.and_or_distrib_right, BitVec.or_assoc]
  rw [h, hpa.entryFrame_eq]
  rcases hf with rfl | rfl <;> cases last <;>
    simp [mappedEntry, entryFrame, ptfPresent, ptfAeonEndOfBlock, ptfReadWrite]

end

theorem entryInUse_zero : entryInUse 0#32 = false := by decide

theorem entryInUse_of_locked {e : KUint32} (h : e &&& ptfAeonLocked ≠ 0#32) : entryInUse e = true := by
  simp [entryInUse, h]

end Aeon.Memory
