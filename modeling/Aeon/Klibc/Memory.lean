/-
`klibc/memory.c` over a byte-addressed memory: `memcpy`, which copies upwards, two bytes a round,
`memset16` and `memset`, with what each leaves of every byte.
-/
import Aeon.Klibc.Types
import Mathlib.Data.Set.Lattice
import Mathlib.Order.CompletePartialOrder

namespace Aeon

/-- Physical memory as 32-bit pointers see it. -/
abbrev Ram := KUint32 → KUint8

/-- `*(kuint16_t *) p = v`. -/
def writeU16 (m : Ram) (p : KUint32) (v : KUint16) : Ram :=
  Function.update (Function.update m p (v.extractLsb' 0 8)) (p + 1#32) (v.extractLsb' 8 8)

theorem u16_bytes (v : KUint16) : v.extractLsb' 8 8 ++ v.extractLsb' 0 8 = v :=
  (BitVec.extractLsb'_append_extractLsb'_eq_extractLsb' (show 8 = 0 + 8 by rfl)).trans BitVec.extractLsb'_eq_self

/-! ## `memcpy` -/

def memcpyLoop : (count : Nat) → (dst8 src8 : KUint32) → Ram → Ram
  | 0, _, _, m => m
  | count + 1, dst8, src8, m =>
    let m₁ := Function.update m dst8 (m src8)
    let m₂ := Function.update m₁ (dst8 + 1#32) (m₁ (src8 + 1#32))
    memcpyLoop count (dst8 + 2#32) (src8 + 2#32) m₂

/-- `memcpy`, which returns `dest`. -/
def memcpy (dest src : KUint32) (count : KSize) (m : Ram) : Ram :=
  if count &&& 1#32 ≠ 0#32 then
    memcpyLoop (count / 2#32).toNat (dest + 1#32) (src + 1#32) (Function.update m dest (m src))
  else memcpyLoop (count / 2#32).toNat dest src m

/-- One byte after the other, upwards. -/
def copyBytes : (count : Nat) → (dst src : KUint32) → Ram → Ram
  | 0, _, _, m => m
  | count + 1, dst, src, m => copyBytes count (dst + 1#32) (src + 1#32) (Function.update m dst (m src))

theorem memcpyLoop_eq_copyBytes (n : Nat) (dst src : KUint32) (m : Ram) :
    memcpyLoop n dst src m = copyBytes (2 * n) dst src m := by
  induction n generalizing dst src m with
  | zero => rfl
  | succ n ih =>
    rw [memcpyLoop, ih, show 2 * (n + 1) = 2 * n + 1 + 1 by omega, copyBytes, copyBytes,
      BitVec.add_assoc, BitVec.add_assoc]
    rfl

/-- The odd byte first and then the pairs: `memcpy` copies one byte after the other. -/
theorem memcpy_eq_copyBytes (dest src : KUint32) (count : KSize) (m : Ram) :
    memcpy dest src count m = copyBytes count.toNat dest src m := by
  have hhalf : (count / 2#32).toNat = count.toNat / 2 := BitVec.toNat_udiv
  have hodd : (count &&& 1#32 ≠ 0#32) ↔ count.toNat % 2 = 1 := by
    rw [ne_eq, ← BitVec.toNat_inj, BitVec.toNat_and]
    norm_num [Nat.and_one_is_mod]
  rw [memcpy, memcpyLoop_eq_copyBytes, memcpyLoop_eq_copyBytes, hhalf]
  split
  · next h =>
    have hcount : count.toNat = 2 * (count.toNat / 2) + 1 := by have := hodd.1 h; omega
    conv_rhs => rw [hcount, copyBytes]
  · next h =>
    have hcount : count.toNat = 2 * (count.toNat / 2) := by have := mt hodd.2 h; omega
    conv_rhs => rw [hcount]

theorem copyBytes_succ (n : Nat) (dst src : KUint32) (m : Ram) :
    copyBytes (n + 1) dst src m =
      Function.update (copyBytes n dst src m) (dst + BitVec.ofNat 32 n)
        (copyBytes n dst src m (src + BitVec.ofNat 32 n)) := by
  induction n generalizing dst src m with
  | zero => simp [copyBytes]
  | succ n ih =>
    have hassoc : ∀ p : KUint32, p + 1#32 + BitVec.ofNat 32 n = p + BitVec.ofNat 32 (n + 1) := fun p => by
      rw [BitVec.add_assoc, BitVec.add_comm 1#32, ← BitVec.ofNat_add]
    rw [copyBytes, ih, hassoc, hassoc]
    rfl

/-- Ranges that do not wrap, with the destination below the source or apart from it: the bytes of
the source as they were, and no other byte changed. -/
theorem copyBytes_apply {n : Nat} {dst src : KUint32} (m : Ram) (hdst : dst.toNat + n ≤ 2 ^ 32)
    (hsrc : src.toNat + n ≤ 2 ^ 32) (h : dst.toNat ≤ src.toNat ∨ src.toNat + n ≤ dst.toNat) (a : KUint32) :
    copyBytes n dst src m a = if (a - dst).toNat < n then m (src + (a - dst)) else m a := by
  induction n generalizing a with
  | zero => rfl
  | succ n ih =>
    have ih := ih (by omega) (by omega) (by omega)
    have hread : ¬ (src + BitVec.ofNat 32 n - dst).toNat < n := by
      rw [BitVec.toNat_sub, BitVec.toNat_add, BitVec.toNat_ofNat]
      omega
    rw [copyBytes_succ, Function.update_apply, ih (src + _), if_neg hread]
    split
    · next ha =>
      have hoff : a - dst = BitVec.ofNat 32 n := by rw [ha, BitVec.add_comm, BitVec.add_sub_cancel]
      have hn : (a - dst).toNat < n + 1 := by rw [hoff, BitVec.toNat_ofNat]; omega
      rw [if_pos hn, hoff]
    · next ha =>
      have hne : (a - dst).toNat ≠ n := fun hn => ha (by
        rw [← hn, BitVec.ofNat_toNat, BitVec.setWidth_eq, BitVec.add_comm, BitVec.sub_add_cancel])
      rw [ih]
      congr 1
      simp only [eq_iff_iff]
      omega

theorem memcpy_apply {dest src : KUint32} {count : KSize} (m : Ram) (hdst : dest.toNat + count.toNat ≤ 2 ^ 32)
    (hsrc : src.toNat + count.toNat ≤ 2 ^ 32)
    (h : dest.toNat ≤ src.toNat ∨ src.toNat + count.toNat ≤ dest.toNat) (a : KUint32) :
    memcpy dest src count m a =
      if (a - dest).toNat < count.toNat then m (src + (a - dest)) else m a := by
  rw [memcpy_eq_copyBytes, copyBytes_apply m hdst hsrc h]

/-- The `n` bytes from `p` on. -/
def byteRange (p : KUint32) (n : Nat) : Set KUint32 := {a | ∃ i < n, a = p + BitVec.ofNat 32 i}

/-- Where the destination starts inside the source range, the two ranges share its first byte. -/
theorem le_or_le_of_disjoint {dst src : KUint32} {n : Nat}
    (h : Disjoint (byteRange dst n) (byteRange src n) ∨ dst ≤ src) :
    dst.toNat ≤ src.toNat ∨ src.toNat + n ≤ dst.toNat := by
  rcases h with hdisjoint | hle
  · by_contra hinside
    have hdst : dst ∈ byteRange dst n := ⟨0, by omega, by simp⟩
    have hsrc : dst ∈ byteRange src n := ⟨dst.toNat - src.toNat, by omega, by bv_omega⟩
    exact Set.disjoint_left.1 hdisjoint hdst hsrc
  · exact Or.inl (BitVec.le_def.1 hle)

/-- The destination gets the bytes that the source held, also where the two overlap with the
destination in front, and no other byte changes. -/
theorem memcpy_copies (m : Ram) {dest src : KUint32} {count : KSize} (hdest : dest.toNat + count.toNat ≤ 2 ^ 32)
    (hsrc : src.toNat + count.toNat ≤ 2 ^ 32)
    (h : Disjoint (byteRange dest count.toNat) (byteRange src count.toNat) ∨ dest ≤ src) :
    (∀ i < count.toNat, memcpy dest src count m (dest + BitVec.ofNat 32 i) = m (src + BitVec.ofNat 32 i)) ∧
      ∀ a ∉ byteRange dest count.toNat, memcpy dest src count m a = m a := by
  have hcopy := memcpy_apply m hdest hsrc (le_or_le_of_disjoint h)
  constructor
  · intro i hi
    have hoff : dest + BitVec.ofNat 32 i - dest = BitVec.ofNat 32 i := by
      rw [BitVec.add_comm, BitVec.add_sub_cancel]
    rw [hcopy, hoff, if_pos]
    rw [BitVec.toNat_ofNat]
    omega
  · intro a ha
    rw [hcopy, if_neg]
    intro hlt
    apply ha
    exact ⟨(a - dest).toNat, hlt, by bv_omega⟩

/-- Every byte is the low byte of its address. -/
def addressRam : Ram := fun a => a.setWidth 8

/-- Three bytes moved down by one. -/
theorem memcpy_copies_down :
    (∀ i < 3, memcpy 0x1000#32 0x1001#32 3#32 addressRam (0x1000#32 + BitVec.ofNat 32 i) =
      addressRam (0x1001#32 + BitVec.ofNat 32 i)) ∧
      ∀ a ∉ byteRange 0x1000#32 3, memcpy 0x1000#32 0x1001#32 3#32 addressRam a = addressRam a :=
  @memcpy_copies addressRam 0x1000#32 0x1001#32 3#32 (by decide) (by decide) (Or.inr (by decide))

/-! ## `memset16` -/

def memset16Loop : (num : Nat) → (p : KUint32) → (value : KUint16) → Ram → Ram
  | 0, _, _, m => m
  | num + 1, p, value, m => memset16Loop num (p + 2#32) value (writeU16 m p value)

/-- `memset16`, which returns `ptr`. -/
def memset16 (ptr : KUint32) (value : KUint16) (num : KSize) (m : Ram) : Ram :=
  memset16Loop num.toNat ptr value m

theorem writeU16_apply (m : Ram) (p : KUint32) (v : KUint16) (a : KUint32) :
    writeU16 m p v a = if (a - p).toNat < 2 then v.extractLsb' (8 * ((a - p).toNat % 2)) 8 else m a := by
  rw [writeU16, Function.update_apply, Function.update_apply]
  by_cases h1 : a = p + 1#32
  · rw [if_pos h1, show a - p = 1#32 by bv_omega]
    rfl
  · by_cases h0 : a = p
    · rw [if_neg h1, if_pos h0, show a - p = 0#32 by bv_omega]
      rfl
    · rw [if_neg h1, if_neg h0, if_neg (by bv_omega)]

/-- The entries that are filled, byte by byte, and the bytes that stay. -/
theorem memset16Loop_apply {n : Nat} (p : KUint32) (v : KUint16) (m : Ram) (hn : 2 * n ≤ 2 ^ 32) (a : KUint32) :
    memset16Loop n p v m a =
      if (a - p).toNat < 2 * n then v.extractLsb' (8 * ((a - p).toNat % 2)) 8 else m a := by
  induction n generalizing p m with
  | zero => rfl
  | succ n ih =>
    have hoff : (a - (p + 2#32)).toNat = (2 ^ 32 - 2 + (a - p).toNat) % 2 ^ 32 := by
      rw [show a - (p + 2#32) = a - p - 2#32 by bv_omega, BitVec.toNat_sub]
      rfl
    rw [memset16Loop, ih _ _ (by omega), writeU16_apply, hoff]
    have ho := (a - p).isLt
    by_cases hfirst : (a - p).toNat < 2
    · rw [if_neg (by omega), if_pos hfirst, if_pos (by omega)]
    · rw [if_neg hfirst, show (2 ^ 32 - 2 + (a - p).toNat) % 2 ^ 32 = (a - p).toNat - 2 by omega,
        show ((a - p).toNat - 2) % 2 = (a - p).toNat % 2 by omega]
      congr 1
      simp only [eq_iff_iff]
      omega

theorem memset16_apply {num : KSize} (ptr : KUint32) (v : KUint16) (m : Ram) (hn : 2 * num.toNat ≤ 2 ^ 32)
    (a : KUint32) : memset16 ptr v num m a =
      if (a - ptr).toNat < 2 * num.toNat then v.extractLsb' (8 * ((a - ptr).toNat % 2)) 8 else m a :=
  memset16Loop_apply ptr v m hn a

/-! ## `memset` -/

def memsetLoop : (num : Nat) → (p : KUint32) → (value : KUint8) → Ram → Ram
  | 0, _, _, m => m
  | num + 1, p, value, m => memsetLoop num (p + 1#32) value (Function.update m p value)

/-- `memset`, which returns `ptr`; of the `int` it stores the low byte. -/
def memset (ptr : KUint32) (value : KUint32) (num : KSize) (m : Ram) : Ram :=
  memsetLoop num.toNat ptr (value.setWidth 8) m

theorem memsetLoop_apply {n : Nat} (p : KUint32) (v : KUint8) (m : Ram) (hn : n ≤ 2 ^ 32) (a : KUint32) :
    memsetLoop n p v m a = if (a - p).toNat < n then v else m a := by
  induction n generalizing p m with
  | zero => rfl
  | succ n ih =>
    rw [memsetLoop, ih _ _ (by omega), Function.update_apply]
    by_cases hp : a = p
    · rw [if_pos hp, ite_self, if_pos (by bv_omega)]
    · have hoff : (a - (p + 1#32)).toNat = (a - p).toNat - 1 := by bv_omega
      rw [if_neg hp, hoff]
      congr 1
      simp only [eq_iff_iff]
      have : (a - p).toNat ≠ 0 := by bv_omega
      omega

theorem memset_apply (ptr v : KUint32) (num : KSize) (m : Ram) (a : KUint32) :
    memset ptr v num m a = if (a - ptr).toNat < num.toNat then v.setWidth 8 else m a :=
  memsetLoop_apply ptr _ m num.isLt.le a

end Aeon
