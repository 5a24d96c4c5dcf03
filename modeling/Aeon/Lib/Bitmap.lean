/-
Bitmaps over words of `w` bits: bit `k` is bit `k % w` of word `k / w`. Setting and clearing bits,
one at a time or in runs, read back bit by bit; a bitmap is determined by its bits.
-/
import Mathlib.Tactic

namespace Bitmap

variable {w : Nat}

def test (m : Nat → BitVec w) (k : Nat) : Bool := (m (k / w)).getLsbD (k % w)

def set (m : Nat → BitVec w) (k : Nat) : Nat → BitVec w :=
  Function.update m (k / w) (m (k / w) ||| BitVec.twoPow w (k % w))

def unset (m : Nat → BitVec w) (k : Nat) : Nat → BitVec w :=
  Function.update m (k / w) (m (k / w) &&& ~~~BitVec.twoPow w (k % w))

theorem div_mod_inj {j k : Nat} : j / w = k / w ∧ j % w = k % w ↔ j = k := by
  constructor
  · rintro ⟨hd, hm⟩
    rw [← Nat.div_add_mod j w, hd, hm, Nat.div_add_mod]
  · rintro rfl
    exact ⟨rfl, rfl⟩

theorem mod_inj_of_div {j k : Nat} (hd : j / w = k / w) : k % w = j % w ↔ j = k := by
  constructor
  · exact fun hm => div_mod_inj.1 ⟨hd, hm.symm⟩
  · rintro rfl
    rfl

theorem test_set (hw : 0 < w) (m : Nat → BitVec w) (k j : Nat) :
    test (set m k) j = (decide (j = k) || test m j) := by
  unfold test set
  have hlt := Nat.mod_lt k hw
  by_cases hd : j / w = k / w
  · rw [hd, Function.update_self, BitVec.getLsbD_or, BitVec.getLsbD_twoPow, Bool.or_comm, decide_eq_true hlt,
      Bool.true_and]
    congr 1
    exact decide_eq_decide.2 (mod_inj_of_div hd)
  · have hne : j ≠ k := fun h => hd (h ▸ rfl)
    rw [Function.update_of_ne hd, decide_eq_false hne, Bool.false_or]

theorem test_unset (hw : 0 < w) (m : Nat → BitVec w) (k j : Nat) :
    test (unset m k) j = (decide (j ≠ k) && test m j) := by
  unfold test unset
  have hlt := Nat.mod_lt k hw
  by_cases hd : j / w = k / w
  · rw [hd, Function.update_self, BitVec.getLsbD_and, BitVec.getLsbD_not, BitVec.getLsbD_twoPow, Bool.and_comm,
      decide_eq_true (Nat.mod_lt j hw), decide_eq_true hlt, Bool.true_and, Bool.true_and, ← decide_not]
    congr 1
    exact decide_eq_decide.2 (not_congr (mod_inj_of_div hd))
  · have hne : j ≠ k := fun h => hd (h ▸ rfl)
    rw [Function.update_of_ne hd, decide_eq_true hne, Bool.true_and]

/-- Set `n` bits from `k` on. -/
def setRun : (n k : Nat) → (Nat → BitVec w) → Nat → BitVec w
  | 0, _, m => m
  | n + 1, k, m => setRun n (k + 1) (set m k)

/-- Clear `n` bits from `k` on. -/
def unsetRun : (n k : Nat) → (Nat → BitVec w) → Nat → BitVec w
  | 0, _, m => m
  | n + 1, k, m => unsetRun n (k + 1) (unset m k)

theorem test_setRun (hw : 0 < w) (j : Nat) : ∀ (n k : Nat) (m : Nat → BitVec w),
    test (setRun n k m) j = (decide (k ≤ j ∧ j < k + n) || test m j)
  | 0, k, m => by
    rw [setRun, decide_eq_false (by omega), Bool.false_or]
  | n + 1, k, m => by
    rw [setRun, test_setRun hw j n (k + 1), test_set hw, ← Bool.or_assoc, ← Bool.decide_or]
    congr 2
    exact propext (by omega)

theorem test_unsetRun (hw : 0 < w) (j : Nat) : ∀ (n k : Nat) (m : Nat → BitVec w),
    test (unsetRun n k m) j = (decide (¬(k ≤ j ∧ j < k + n)) && test m j)
  | 0, k, m => by
    rw [unsetRun, decide_eq_true (by omega), Bool.true_and]
  | n + 1, k, m => by
    rw [unsetRun, test_unsetRun hw j n (k + 1), test_unset hw, ← Bool.and_assoc, ← Bool.decide_and]
    congr 2
    exact propext (by omega)

end Bitmap
