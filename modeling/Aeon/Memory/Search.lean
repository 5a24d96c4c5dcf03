/-
What the block searches find, and which bits of the bitmap they test on the way. A range search
comes to the clear blocks in order and, for each, counts the clear bits from `1 << j` on in its
word, where it means bit `j`: the count neither finds every run nor only runs, and it may leave the
bitmap.
-/
import Mathlib.Data.Nat.Count
import Aeon.Memory.AllocatorSpec

namespace Aeon.Memory

/-! ## The bits a search tests -/

def countTests (a : MemoryAllocator) (size startBit : KUint32) : (fuel : Nat) → (count free : KUint32) → List Nat
  | 0, _, _ => []
  | fuel + 1, count, free =>
    if size < count then []
    else
      let next := if memMemoryMapTest (startBit + count) a then free else free + 1#32
      (startBit + count).toNat ::
        if next = size then [] else countTests a size startBit fuel (count + 1#32) next

def rangeTests (a : MemoryAllocator) (size : KUint32) (i j : Nat) : List Nat :=
  let bit : KUint32 := 1#32 <<< j
  countTests a size (BitVec.ofNat 32 (i * 32) + bit) (countFuel size) 0#32 0#32

/-- The bits of word `i` that `scanBits` tests; a clear bit `j` goes on to test `probes j`. -/
def bitTests (i : Nat) (word : KUint32) (accept : Nat → Bool) (probes : Nat → List Nat) : (rem j : Nat) → List Nat
  | 0, _ => []
  | rem + 1, j =>
    (i * 32 + j) ::
      if word &&& (1#32 <<< j) == 0#32 then
        probes j ++ if accept j then [] else bitTests i word accept probes rem (j + 1)
      else bitTests i word accept probes rem (j + 1)

def wordTests (memMap : Nat → KUint32) (accept : Nat → Nat → Bool) (probes : Nat → Nat → List Nat) :
    (rem i : Nat) → List Nat
  | 0, _ => []
  | rem + 1, i =>
    if memMap i = 0xffffffff#32 then wordTests memMap accept probes rem (i + 1)
    else
      bitTests i (memMap i) (accept i) (probes i) 32 0 ++
        match scanBits (memMap i) (accept i) 32 0 with
        | some _ => []
        | none => wordTests memMap accept probes rem (i + 1)

/-- The bits `mem_find_first_free_block_range` tests, in order. -/
def searchTests (size : KSize) (a : MemoryAllocator) : List Nat :=
  if size = 1#32 then wordTests a.memMap (fun _ _ => true) (fun _ _ => []) (a.blockCount / 32#32).toNat 0
  else wordTests a.memMap (rangeCheck a size) (rangeTests a size) (a.blockCount / 32#32).toNat 0

/-! ## The blocks a search comes to -/

/-- `k` is in the range, and a search from `lo` on that stops at the first index offered gets to it. -/
structure Reached (offered : Nat → Bool) (lo hi k : Nat) : Prop where
  lower : lo ≤ k
  upper : k < hi
  before : ∀ j, lo ≤ j → j < k → offered j = false

theorem reached_append {offered : Nat → Bool} {lo mid hi k : Nat} (h1 : lo ≤ mid) (h2 : mid ≤ hi) :
    Reached offered lo hi k ↔
      Reached offered lo mid k ∨ (∀ j, lo ≤ j → j < mid → offered j = false) ∧ Reached offered mid hi k := by
  constructor
  · rintro ⟨hlo, hhi, hbefore⟩
    by_cases hm : k < mid
    · exact .inl ⟨hlo, hm, hbefore⟩
    · exact .inr ⟨fun j hj hlt => hbefore j hj (by omega), by omega, hhi, fun j hj => hbefore j (by omega)⟩
  · rintro (⟨hlo, hhi, hbefore⟩ | ⟨hskip, hlo, hhi, hbefore⟩)
    · exact ⟨hlo, by omega, hbefore⟩
    · refine ⟨by omega, hhi, fun j hj hlt => ?_⟩
      by_cases hm : j < mid
      · exact hskip j hj hm
      · exact hbefore j (by omega) hlt

theorem reached_succ {offered : Nat → Bool} {lo hi k : Nat} (h : lo < hi) :
    Reached offered lo hi k ↔ k = lo ∨ offered lo = false ∧ Reached offered (lo + 1) hi k := by
  rw [@reached_append _ lo (lo + 1) hi k (by omega) h]
  constructor
  · rintro (⟨h1, h2, -⟩ | ⟨hskip, hr⟩)
    · exact .inl (by omega)
    · exact .inr ⟨hskip lo (le_refl _) (by omega), hr⟩
  · rintro (rfl | ⟨hlo, hr⟩)
    · exact .inl ⟨le_refl _, by omega, fun j h1 h2 => absurd h2 (by omega)⟩
    · refine .inr ⟨fun j h1 h2 => ?_, hr⟩
      rwa [show j = lo by omega]

theorem mem_bitTests {i x : Nat} {word : KUint32} {accept : Nat → Bool} {probes : Nat → List Nat} :
    ∀ {rem j : Nat}, j + rem ≤ 32 →
      (x ∈ bitTests i word accept probes rem j ↔
        ∃ r, Reached (fun q => !word.getLsbD q && accept q) j (j + rem) r ∧
          (x = i * 32 + r ∨ word.getLsbD r = false ∧ x ∈ probes r))
  | 0, j, _ => by
    refine ⟨fun h => by simp [bitTests] at h, ?_⟩
    rintro ⟨r, ⟨h1, h2, -⟩, -⟩
    omega
  | rem + 1, j, hj => by
    have ih := @mem_bitTests i x word accept probes rem (j + 1) (by omega)
    rw [show j + 1 + rem = j + (rem + 1) by omega] at ih
    have hsucc : (∃ r, Reached (fun q => !word.getLsbD q && accept q) j (j + (rem + 1)) r ∧
        (x = i * 32 + r ∨ word.getLsbD r = false ∧ x ∈ probes r)) ↔
        (x = i * 32 + j ∨ word.getLsbD j = false ∧ x ∈ probes j) ∨
          (!word.getLsbD j && accept j) = false ∧ x ∈ bitTests i word accept probes rem (j + 1) := by
      rw [ih]
      simp only [reached_succ (show j < j + (rem + 1) by omega)]
      constructor
      · rintro ⟨r, rfl | ⟨hoff, hr⟩, hx⟩
        · exact .inl hx
        · exact .inr ⟨hoff, r, hr, hx⟩
      · rintro (hx | ⟨hoff, r, hr, hx⟩)
        · exact ⟨j, .inl rfl, hx⟩
        · exact ⟨r, .inr ⟨hoff, hr⟩, hx⟩
    rw [hsucc, bitTests, and_bit_eq_zero _ (by omega), List.mem_cons]
    cases word.getLsbD j with
    | true => simp
    | false => cases accept j <;> simp [or_assoc]

theorem scanBits_none_iff {word : KUint32} {accept : Nat → Bool} :
    scanBits word accept 32 0 = none ↔ ∀ j < 32, (!word.getLsbD j && accept j) = false := by
  constructor
  · intro h j hj
    exact scanBits_none (by omega) h j (Nat.zero_le _) (by omega)
  · intro h
    cases hs : scanBits word accept 32 0 with
    | none => rfl
    | some r =>
      obtain ⟨-, hr, hclear, hacc, -⟩ := scanBits_some (by omega) hs
      have := h r (by omega)
      rw [hclear, hacc] at this
      cases this

section

variable {memMap : Nat → KUint32} {accept : Nat → Nat → Bool} {probes : Nat → Nat → List Nat} {x : Nat}

theorem word_block {i k : Nat} (h1 : i * 32 ≤ k) (h2 : k < (i + 1) * 32) : k = i * 32 + k % 32 ∧ k / 32 = i := by
  omega

theorem scanBits_word {i : Nat} : scanBits (memMap i) (accept i) 32 0 = none ↔
    ∀ k, i * 32 ≤ k → k < (i + 1) * 32 → blockOffered memMap accept k = false := by
  rw [scanBits_none_iff]
  constructor
  · intro h k h1 h2
    rw [(word_block h1 h2).1, blockOffered_word memMap accept (Nat.mod_lt _ (by omega))]
    exact h _ (Nat.mod_lt _ (by omega))
  · intro h j hj
    rw [← blockOffered_word memMap accept hj]
    exact h _ (by omega) (by omega)

/-- The tests in one word: the bits the search comes to, and the probes of the clear ones. -/
theorem mem_word {i : Nat} : x ∈ bitTests i (memMap i) (accept i) (probes i) 32 0 ↔
    ∃ k, Reached (blockOffered memMap accept) (i * 32) ((i + 1) * 32) k ∧
      (x = k ∨ Bitmap.test memMap k = false ∧ x ∈ probes (k / 32) (k % 32)) := by
  rw [mem_bitTests (by omega), Nat.zero_add]
  constructor
  · rintro ⟨r, ⟨-, hlt, hbefore⟩, hx⟩
    have hd : (i * 32 + r) / 32 = i ∧ (i * 32 + r) % 32 = r := by omega
    refine ⟨i * 32 + r, ⟨by omega, by omega, fun j h1 h2 => ?_⟩, ?_⟩
    · rw [(word_block h1 (by omega)).1, blockOffered_word memMap accept (Nat.mod_lt _ (by omega))]
      exact hbefore _ (Nat.zero_le _) (by omega)
    · rw [Bitmap.test, hd.1, hd.2]
      exact hx
  · rintro ⟨k, ⟨h1, h2, hbefore⟩, hx⟩
    obtain ⟨hk, hd⟩ := word_block h1 h2
    refine ⟨k % 32, ⟨Nat.zero_le _, Nat.mod_lt _ (by omega), fun j _ hlt => ?_⟩, ?_⟩
    · have := hbefore (i * 32 + j) (by omega) (by omega)
      rwa [blockOffered_word memMap accept (by omega)] at this
    · rw [Bitmap.test, hd] at hx
      rwa [← hk]

/-- The tests of a search of the words from `i` on; the words without a clear bit are skipped. -/
theorem mem_wordTests : ∀ {rem i : Nat},
    (x ∈ wordTests memMap accept probes rem i ↔
      ∃ k, Reached (blockOffered memMap accept) (i * 32) ((i + rem) * 32) k ∧ memMap (k / 32) ≠ 0xffffffff#32 ∧
        (x = k ∨ Bitmap.test memMap k = false ∧ x ∈ probes (k / 32) (k % 32)))
  | 0, i => by
    refine ⟨fun h => by simp [wordTests] at h, ?_⟩
    rintro ⟨k, ⟨h1, h2, -⟩, -⟩
    omega
  | rem + 1, i => by
    have ih := @mem_wordTests rem (i + 1)
    rw [show i + 1 + rem = i + (rem + 1) by omega] at ih
    have hsplit (k : Nat) := @reached_append (blockOffered memMap accept) (i * 32) ((i + 1) * 32)
      ((i + (rem + 1)) * 32) k (by omega) (by omega)
    simp only [hsplit, or_and_right, exists_or]
    rw [wordTests]
    by_cases hfull : memMap i = 0xffffffff#32
    · rw [if_pos hfull, ih]
      have hskip : ∀ j, i * 32 ≤ j → j < (i + 1) * 32 → blockOffered memMap accept j = false := fun j h1 h2 =>
        blockOffered_full accept (by rw [(word_block h1 h2).2, hfull])
      constructor
      · rintro ⟨k, hr, hne, hx⟩
        exact .inr ⟨k, ⟨hskip, hr⟩, hne, hx⟩
      · rintro (⟨k, hr, hne, -⟩ | ⟨k, ⟨-, hr⟩, hne, hx⟩)
        · rw [(word_block hr.lower hr.upper).2] at hne
          exact absurd hfull hne
        · exact ⟨k, hr, hne, hx⟩
    · rw [if_neg hfull, List.mem_append, mem_word]
      refine or_congr (exists_congr fun k => and_congr_right fun hr => ?_) ?_
      · rw [(word_block hr.lower hr.upper).2]
        exact (and_iff_right hfull).symm
      · cases hs : scanBits (memMap i) (accept i) 32 0 with
        | some r =>
          refine ⟨fun h => by simp at h, ?_⟩
          rintro ⟨k, ⟨hskip, -⟩, -⟩
          rw [scanBits_word.2 hskip] at hs
          cases hs
        | none =>
          simp only [ih]
          constructor
          · rintro ⟨k, hr, hx⟩
            exact ⟨k, ⟨scanBits_word.1 hs, hr⟩, hx⟩
          · rintro ⟨k, ⟨-, hr⟩, hx⟩
            exact ⟨k, hr, hx⟩

end

/-! ## The count -/

/-- The clear bits among the `c` from `s` on, modulo 2^32. -/
def clearCount (memMap : Nat → KUint32) (s c : Nat) : Nat :=
  Nat.count (fun i => Bitmap.test memMap ((s + i) % 2 ^ 32) = false) c

section

variable (memMap : Nat → KUint32) (s : Nat)

theorem clearCount_succ (c : Nat) : clearCount memMap s (c + 1) =
    clearCount memMap s c + if Bitmap.test memMap ((s + c) % 2 ^ 32) = false then 1 else 0 :=
  Nat.count_succ _ c

theorem clearCount_le (c : Nat) : clearCount memMap s c ≤ c := Nat.count_le _

theorem clearCount_mono {c d : Nat} (h : c ≤ d) : clearCount memMap s c ≤ clearCount memMap s d :=
  Nat.count_monotone _ h

theorem clearCount_eq_iff {c : Nat} (h : s + c ≤ 2 ^ 32) :
    clearCount memMap s c = c ↔ ∀ i < c, Bitmap.test memMap (s + i) = false := by
  unfold clearCount
  rw [Nat.count_iff_forall]
  refine forall₂_congr fun i hi => ?_
  rw [Nat.mod_eq_of_lt (by omega)]

/-- Every 2^32 bits count at least one clear bit, if there is one. -/
theorem clearCount_rounds {k : Nat} (hk : k < 2 ^ 32) (hclear : Bitmap.test memMap k = false) :
    ∀ q, q ≤ clearCount memMap s (2 ^ 32 * q)
  | 0 => Nat.zero_le _
  | q + 1 => by
    have ih := clearCount_rounds hk hclear q
    -- the block itself comes up in every round
    have hround : Nat.count (fun i => Bitmap.test memMap ((s + (2 ^ 32 * q + i)) % 2 ^ 32) = false) (2 ^ 32) ≠ 0 := by
      refine Nat.count_ne_iff_exists.2 ⟨(k + 2 ^ 32 - s % 2 ^ 32) % 2 ^ 32, Nat.mod_lt _ (by omega), ?_⟩
      rwa [show (s + (2 ^ 32 * q + (k + 2 ^ 32 - s % 2 ^ 32) % 2 ^ 32)) % 2 ^ 32 = k by omega]
    unfold clearCount at ih ⊢
    rw [Nat.mul_succ, Nat.count_add]
    omega

end

section

variable (a : MemoryAllocator) (size startBit : KUint32)

/-- The next value of `free` in the counting loop is the count one bit further on. -/
theorem clearCount_next (c : Nat) :
    (if memMemoryMapTest (startBit + BitVec.ofNat 32 c) a then BitVec.ofNat 32 (clearCount a.memMap startBit.toNat c)
      else BitVec.ofNat 32 (clearCount a.memMap startBit.toNat c) + 1#32) =
    BitVec.ofNat 32 (clearCount a.memMap startBit.toNat (c + 1)) := by
  have hbit : (startBit + BitVec.ofNat 32 c).toNat = (startBit.toNat + c) % 2 ^ 32 := by simp
  rw [memMemoryMapTest_eq, hbit, clearCount_succ]
  cases Bitmap.test a.memMap ((startBit.toNat + c) % 2 ^ 32) with
  | true => simp
  | false => simp [BitVec.ofNat_add]

theorem clearCount_eq_size {c : Nat} (h : clearCount a.memMap startBit.toNat c < size.toNat) :
    BitVec.ofNat 32 (clearCount a.memMap startBit.toNat (c + 1)) = size ↔
      clearCount a.memMap startBit.toNat (c + 1) = size.toNat := by
  have hsucc := clearCount_succ a.memMap startBit.toNat c
  have := size.isLt
  rw [← BitVec.toNat_inj, BitVec.toNat_ofNat]
  split at hsucc <;> omega

/-- Short of `size` the count stays below it. -/
theorem clearCount_succ_lt {c : Nat} (h : clearCount a.memMap startBit.toNat c < size.toNat)
    (hne : clearCount a.memMap startBit.toNat (c + 1) ≠ size.toNat) :
    clearCount a.memMap startBit.toNat (c + 1) < size.toNat := by
  have hsucc := clearCount_succ a.memMap startBit.toNat c
  split at hsucc <;> omega

/-- The rounds the counting loop can make: it stops at the first `count` above `size`, or with the
fuel. -/
structure Rounds (fuel c last : Nat) : Prop where
  le : c ≤ last
  stay : ∀ i < last, BitVec.ofNat 32 i ≤ size
  stop : last = c + fuel ∨ last < c + fuel ∧ size < BitVec.ofNat 32 last

variable {a size startBit}

theorem Rounds.next {fuel c last : Nat} (h : Rounds size (fuel + 1) c last) (hne : c ≠ last) :
    ¬size < BitVec.ofNat 32 c ∧ Rounds size fuel (c + 1) last := by
  obtain ⟨hle, hstay, hstop⟩ := h
  refine ⟨BitVec.not_lt.2 (hstay c (by omega)), by omega, hstay, ?_⟩
  rcases hstop with hs | ⟨hs, hlt⟩
  · exact .inl (by omega)
  · exact .inr ⟨by omega, hlt⟩

/-- With rounds to spare, the loop has stopped by itself. -/
theorem Rounds.stopped {fuel c : Nat} (h : Rounds size (fuel + 1) c c) : size < BitVec.ofNat 32 c := by
  rcases h.stop with hs | ⟨-, hs⟩
  · omega
  · exact hs

/-- The counting loop accepts exactly when the rounds it can make count `size` clear bits. -/
theorem countFree_eq {last : Nat} : ∀ {fuel c : Nat}, Rounds size fuel c last →
    clearCount a.memMap startBit.toNat c < size.toNat →
    countFree a size startBit fuel (BitVec.ofNat 32 c) (BitVec.ofNat 32 (clearCount a.memMap startBit.toNat c)) =
      decide (size.toNat ≤ clearCount a.memMap startBit.toNat last)
  | 0, c, h, hlt => by
    have hc : last = c := by
      have := h.le
      rcases h.stop with hs | ⟨hs, -⟩ <;> omega
    rw [countFree, hc]
    exact (decide_eq_false (by omega)).symm
  | fuel + 1, c, h, hlt => by
    rw [countFree]
    by_cases hc : c = last
    · subst hc
      rw [if_pos h.stopped]
      exact (decide_eq_false (by omega)).symm
    · obtain ⟨hgo, hnext⟩ := h.next hc
      rw [if_neg hgo]
      simp only [clearCount_next]
      by_cases heq : clearCount a.memMap startBit.toNat (c + 1) = size.toNat
      · rw [if_pos ((clearCount_eq_size a size startBit hlt).2 heq)]
        exact (decide_eq_true (heq ▸ clearCount_mono a.memMap _ hnext.le)).symm
      · rw [if_neg (mt (clearCount_eq_size a size startBit hlt).1 heq), ← BitVec.ofNat_add]
        exact countFree_eq hnext (clearCount_succ_lt a size startBit hlt heq)

/-- The counting loop tests a bit for each round it makes before it has counted `size`. -/
theorem mem_countTests {last x : Nat} : ∀ {fuel c : Nat}, Rounds size fuel c last →
    clearCount a.memMap startBit.toNat c < size.toNat →
    (x ∈ countTests a size startBit fuel (BitVec.ofNat 32 c) (BitVec.ofNat 32 (clearCount a.memMap startBit.toNat c)) ↔
      ∃ i, c ≤ i ∧ i < last ∧ clearCount a.memMap startBit.toNat i < size.toNat ∧ x = (startBit.toNat + i) % 2 ^ 32)
  | 0, c, h, hlt => by
    have hc : last ≤ c := by
      rcases h.stop with hs | ⟨hs, -⟩ <;> omega
    refine ⟨fun hx => by simp [countTests] at hx, ?_⟩
    rintro ⟨i, h1, h2, -⟩
    omega
  | fuel + 1, c, h, hlt => by
    rw [countTests]
    by_cases hc : c = last
    · subst hc
      rw [if_pos h.stopped]
      refine ⟨fun hx => by simp at hx, ?_⟩
      rintro ⟨i, h1, h2, -⟩
      omega
    · obtain ⟨hgo, hnext⟩ := h.next hc
      have hle := hnext.le
      have hbit : (startBit + BitVec.ofNat 32 c).toNat = (startBit.toNat + c) % 2 ^ 32 := by simp
      rw [if_neg hgo]
      simp only [clearCount_next]
      rw [List.mem_cons, hbit]
      have hrest : (x ∈ if BitVec.ofNat 32 (clearCount a.memMap startBit.toNat (c + 1)) = size then []
          else countTests a size startBit fuel (BitVec.ofNat 32 c + 1#32)
            (BitVec.ofNat 32 (clearCount a.memMap startBit.toNat (c + 1)))) ↔
          ∃ i, c + 1 ≤ i ∧ i < last ∧ clearCount a.memMap startBit.toNat i < size.toNat ∧
            x = (startBit.toNat + i) % 2 ^ 32 := by
        by_cases heq : clearCount a.memMap startBit.toNat (c + 1) = size.toNat
        · rw [if_pos ((clearCount_eq_size a size startBit hlt).2 heq)]
          refine ⟨fun hx => by simp at hx, ?_⟩
          rintro ⟨i, h1, -, h3, -⟩
          have := clearCount_mono a.memMap startBit.toNat h1
          omega
        · rw [if_neg (mt (clearCount_eq_size a size startBit hlt).1 heq), ← BitVec.ofNat_add]
          exact mem_countTests hnext (clearCount_succ_lt a size startBit hlt heq)
      rw [hrest]
      constructor
      · rintro (rfl | ⟨i, h1, hx⟩)
        · exact ⟨c, le_refl _, by omega, hlt, rfl⟩
        · exact ⟨i, by omega, hx⟩
      · rintro ⟨i, h1, h2, h3, rfl⟩
        rcases Nat.eq_or_lt_of_le h1 with rfl | h1
        · exact .inl rfl
        · exact .inr ⟨i, h1, h2, h3, rfl⟩

end

/-! ## The check of a range search -/

/-- Where the range search starts to count for block `k`. -/
def probeStart (k : Nat) : Nat := (k / 32 * 32 + 2 ^ (k % 32)) % 2 ^ 32

/-- The count of a search for `n` blocks accepts block `k`: `n` clear bits among the `n + 1` from
`probeStart k` on. A search for one block does not count. -/
def Passes (n : KSize) (a : MemoryAllocator) (k : Nat) : Prop :=
  n = 1#32 ∨ n = 0xffffffff#32 ∨ n.toNat ≤ clearCount a.memMap (probeStart k) (n.toNat + 1)

/-- The rounds of a count of the bits for `n` blocks. -/
def countRounds (n : KSize) : Nat := if n = 0xffffffff#32 then 2 ^ 64 else n.toNat + 1

theorem rounds_start (n : KSize) : Rounds n (countFuel n) 0 (countRounds n) := by
  unfold countFuel countRounds
  split
  · rename_i hmax
    subst hmax
    refine ⟨Nat.zero_le _, fun i _ => ?_, .inl (Nat.zero_add _).symm⟩
    have := (BitVec.ofNat 32 i).isLt
    rw [BitVec.le_def, show (0xffffffff#32).toNat = 2 ^ 32 - 1 by rfl]
    omega
  · rename_i hmax
    have hlt : n.toNat < 2 ^ 32 - 1 := by
      have := n.isLt
      have hne : n.toNat ≠ 2 ^ 32 - 1 := fun h => hmax (BitVec.eq_of_toNat_eq h)
      omega
    refine ⟨Nat.zero_le _, fun i hi => ?_, .inr ⟨by omega, ?_⟩⟩
    · rw [BitVec.le_def, BitVec.toNat_ofNat]
      omega
    · rw [BitVec.lt_def, BitVec.toNat_ofNat]
      omega

section

variable {n : KSize} {a : MemoryAllocator} {k : Nat}

theorem startBit_toNat (k : Nat) :
    (BitVec.ofNat 32 (k / 32 * 32) + (1#32 <<< (k % 32)) : KUint32).toNat = probeStart k := by
  have hpow : (1#32 <<< (k % 32) : KUint32).toNat = 2 ^ (k % 32) := by
    have hlt : 2 ^ (k % 32) < 2 ^ 32 := Nat.pow_lt_pow_right (by omega) (Nat.mod_lt _ (by omega))
    rw [BitVec.toNat_shiftLeft, show (1#32).toNat = 1 by rfl, Nat.shiftLeft_eq, Nat.one_mul, Nat.mod_eq_of_lt hlt]
  rw [BitVec.toNat_add, hpow, BitVec.toNat_ofNat, Nat.mod_add_mod, probeStart]

theorem rangeCheck_iff (hn : 0 < n.toNat) (h1 : n ≠ 1#32) (hk : k < 2 ^ 32) (hclear : Bitmap.test a.memMap k = false) :
    rangeCheck a n (k / 32) (k % 32) = true ↔ Passes n a k := by
  have heq := @countFree_eq a n (BitVec.ofNat 32 (k / 32 * 32) + 1#32 <<< (k % 32)) _ _ 0 (rounds_start n)
    (by rw [clearCount, Nat.count_zero]; exact hn)
  rw [startBit_toNat, clearCount, Nat.count_zero] at heq
  rw [rangeCheck, heq, decide_eq_true_eq, Passes, or_iff_right h1, countRounds]
  split
  · rename_i hmax
    -- the largest size is reached, however few bits are clear
    have hrounds := clearCount_rounds a.memMap (probeStart k) hk hclear (2 ^ 32)
    rw [show 2 ^ 32 * 2 ^ 32 = 2 ^ 64 by rfl] at hrounds
    have := n.isLt
    exact iff_of_true (by omega) (.inl hmax)
  · rename_i hmax
    rw [or_iff_right hmax]

theorem mem_rangeTests (hn : 0 < n.toNat) {x : Nat} : x ∈ rangeTests a n (k / 32) (k % 32) ↔
    ∃ i < countRounds n, clearCount a.memMap (probeStart k) i < n.toNat ∧ x = (probeStart k + i) % 2 ^ 32 := by
  have heq := @mem_countTests a n (BitVec.ofNat 32 (k / 32 * 32) + 1#32 <<< (k % 32)) _ x _ 0 (rounds_start n)
    (by rw [clearCount, Nat.count_zero]; exact hn)
  rw [startBit_toNat, clearCount, Nat.count_zero] at heq
  rw [rangeTests, heq]
  simp only [Nat.zero_le, true_and]

/-- The bits the count for block `k` tests are bits of managed blocks: the first `n`, and the one
after them unless those are all clear. -/
structure ProbesFit (n : KSize) (a : MemoryAllocator) (k : Nat) : Prop where
  fits : probeStart k + n.toNat ≤ a.blockCount.toNat
  last : probeStart k + n.toNat < a.blockCount.toNat ∨
    ∀ i < n.toNat, Bitmap.test a.memMap (probeStart k + i) = false

theorem probesFit_iff (hn : 0 < n.toNat) :
    (∀ x ∈ rangeTests a n (k / 32) (k % 32), x < a.blockCount.toNat) ↔ ProbesFit n a k := by
  have hcount := a.blockCount.isLt
  have hle := clearCount_le a.memMap (probeStart k)
  have hstart : probeStart k < 2 ^ 32 := Nat.mod_lt _ (by omega)
  have hrounds : n.toNat < countRounds n ∧ (n ≠ 0xffffffff#32 → countRounds n = n.toNat + 1) := by
    have := n.isLt
    unfold countRounds
    split
    · exact ⟨by omega, fun h => absurd ‹_› h⟩
    · exact ⟨by omega, fun _ => rfl⟩
  simp only [mem_rangeTests hn, forall_exists_index, and_imp]
  constructor
  · intro h
    have hprobe (i : Nat) (hi : i < n.toNat) : (probeStart k + i) % 2 ^ 32 < a.blockCount.toNat :=
      h _ i (by omega) (by have := hle i; omega) rfl
    have hfits : probeStart k + n.toNat ≤ a.blockCount.toNat := by
      by_contra hgt
      have hfirst := hprobe 0 hn
      have := hprobe (a.blockCount.toNat - probeStart k) (by omega)
      omega
    refine ⟨hfits, ?_⟩
    by_cases hall : clearCount a.memMap (probeStart k) n.toNat = n.toNat
    · exact .inr ((clearCount_eq_iff a.memMap _ (by omega)).1 hall)
    · have := h _ n.toNat hrounds.1 (by have := hle n.toNat; omega) rfl
      exact .inl (by omega)
  · rintro ⟨hfits, hlast⟩ x i hi hlt rfl
    by_cases hin : i < n.toNat
    · omega
    · -- past the first `n` bits only when those are not all clear
      have hsome : clearCount a.memMap (probeStart k) n.toNat < n.toNat :=
        lt_of_le_of_lt (clearCount_mono a.memMap _ (by omega)) hlt
      have hend : probeStart k + n.toNat < a.blockCount.toNat := by
        refine hlast.resolve_right fun hall => ?_
        have := (clearCount_eq_iff a.memMap _ (by omega)).2 hall
        omega
      have hmax : n ≠ 0xffffffff#32 := by
        rintro rfl
        rw [show (0xffffffff#32 : KUint32).toNat = 2 ^ 32 - 1 by rfl] at hend
        omega
      have := hrounds.2 hmax
      omega

end

/-! ## What the search promises -/

/-- `n` managed blocks from `b` on, all of them clear. -/
structure ClearRun (a : MemoryAllocator) (b n : Nat) : Prop where
  fits : b + n ≤ a.blockCount.toNat
  clear : ∀ i < n, Bitmap.test a.memMap (b + i) = false

/-- A search for `n` blocks comes to block `k`: it lies in a whole word of the bitmap, is clear, and
no clear block before it was accepted. -/
structure Examined (n : KSize) (a : MemoryAllocator) (k : Nat) : Prop where
  lt : k < scannedBlocks a
  clear : Bitmap.test a.memMap k = false
  first : ∀ j < k, Bitmap.test a.memMap j = false → ¬Passes n a j

/-- A block the search for `n` blocks returns starts `n` clear managed blocks, and the bits it tests
are those of managed blocks. -/
structure SearchSafe (n : KSize) (a : MemoryAllocator) : Prop where
  found : memFindFirstFreeBlockRange n a ≠ outOfMemory →
    ClearRun a (memFindFirstFreeBlockRange n a).toNat n.toNat
  tests : ∀ x ∈ searchTests n a, x < a.blockCount.toNat

section

variable {n : KSize} {a : MemoryAllocator} {k : Nat}

theorem find_toNat (h : Takes n a k) : memFindFirstFreeBlockRange n a ≠ outOfMemory ∧
    (memFindFirstFreeBlockRange n a).toNat = k := by
  have hne := find_of_offered h.upper h.offered
  refine ⟨hne, ?_⟩
  have h' := takes_of_find hne
  rcases Nat.lt_trichotomy (memFindFirstFreeBlockRange n a).toNat k with hlt | heq | hlt
  · have := h.first _ (Nat.zero_le _) hlt
    rw [h'.offered] at this
    cases this
  · exact heq
  · have := h'.first _ (Nat.zero_le _) hlt
    rw [h.offered] at this
    cases this

theorem searchTests_one : ∀ x ∈ searchTests 1#32 a, x < a.blockCount.toNat := by
  intro x hx
  rw [searchTests, if_pos rfl, div_32_toNat] at hx
  obtain ⟨k, hreach, -, rfl | ⟨-, hx⟩⟩ := mem_wordTests.1 hx
  · have := hreach.upper
    omega
  · simp at hx

variable (hn : 0 < n.toNat)

include hn

theorem offers_iff (hk : k < 2 ^ 32) :
    offers n a k = true ↔ Bitmap.test a.memMap k = false ∧ Passes n a k := by
  rw [offers, blockOffered, Bool.and_eq_true, Bool.not_eq_true', Bool.or_eq_true, beq_iff_eq]
  refine and_congr_right fun hclear => ?_
  by_cases h1 : n = 1#32
  · exact iff_of_true (.inl h1) (.inl h1)
  · rw [or_iff_right h1, rangeCheck_iff hn h1 hk hclear]

theorem offers_eq_false (hk : k < 2 ^ 32) :
    offers n a k = false ↔ (Bitmap.test a.memMap k = false → ¬Passes n a k) := by
  rw [← Bool.not_eq_true, offers_iff hn hk, not_and]

theorem examined_iff :
    Examined n a k ↔ Bitmap.test a.memMap k = false ∧ Reached (offers n a) 0 (scannedBlocks a) k := by
  have hscan := scannedBlocks_lt a
  constructor
  · rintro ⟨hlt, hclear, hfirst⟩
    exact ⟨hclear, Nat.zero_le _, hlt, fun j _ hj => (offers_eq_false hn (by omega)).2 (hfirst j hj)⟩
  · rintro ⟨hclear, -, hlt, hbefore⟩
    exact ⟨hlt, hclear, fun j hj => (offers_eq_false hn (by omega)).1 (hbefore j (Nat.zero_le _) hj)⟩

/-- The block a search takes is the one it comes to that is accepted. -/
theorem takes_iff : Takes n a k ↔ Examined n a k ∧ Passes n a k := by
  have hscan := scannedBlocks_lt a
  rw [examined_iff hn]
  constructor
  · rintro ⟨h1, h2, hoff, hfirst⟩
    obtain ⟨hclear, hpass⟩ := (offers_iff hn (by omega)).1 hoff
    exact ⟨⟨hclear, h1, h2, hfirst⟩, hpass⟩
  · rintro ⟨⟨hclear, h1, h2, hfirst⟩, hpass⟩
    exact ⟨h1, h2, (offers_iff hn (by omega)).2 ⟨hclear, hpass⟩, hfirst⟩

/-- A range search tests the bits of managed blocks exactly when the probes of each block it comes
to are. -/
theorem searchTests_range (h1 : n ≠ 1#32) :
    (∀ x ∈ searchTests n a, x < a.blockCount.toNat) ↔ ∀ k, Examined n a k → ProbesFit n a k := by
  have hoffers : blockOffered a.memMap (rangeCheck a n) = offers n a := by
    funext j
    rw [offers, beq_eq_false_iff_ne.2 h1]
    rfl
  have hmem (x : Nat) := @mem_wordTests a.memMap (rangeCheck a n) (rangeTests a n) x (a.blockCount / 32#32).toNat 0
  rw [hoffers, div_32_toNat, Nat.zero_add, Nat.zero_mul] at hmem
  rw [searchTests, if_neg h1, div_32_toNat]
  constructor
  · intro h k hk
    obtain ⟨hclear, hreach⟩ := (examined_iff hn).1 hk
    refine (probesFit_iff hn).1 fun x hx => h x ((hmem x).2 ⟨k, hreach, fun hfull => ?_, .inr ⟨hclear, hx⟩⟩)
    -- a full word has no clear bit
    rw [Bitmap.test, hfull, show 0xffffffff#32 = BitVec.allOnes 32 by decide, BitVec.getLsbD_allOnes,
      decide_eq_true (Nat.mod_lt _ (by omega))] at hclear
    cases hclear
  · intro h x hx
    obtain ⟨k, hreach, -, rfl | ⟨hclear, hx⟩⟩ := (hmem x).1 hx
    · have := hreach.upper
      omega
    · exact (probesFit_iff hn).2 (h k ((examined_iff hn).2 ⟨hclear, hreach⟩)) x hx

/-- The search is safe for one block; for more exactly when, at every block it comes to, the count
stays within the managed blocks and accepts only the first of `n` clear ones. -/
theorem searchSafe_iff : SearchSafe n a ↔
    n = 1#32 ∨ ∀ k, Examined n a k → ProbesFit n a k ∧ (Passes n a k → ClearRun a k n.toNat) := by
  by_cases h1 : n = 1#32
  · subst h1
    refine iff_of_true ⟨fun hne => ?_, searchTests_one⟩ (.inl rfl)
    have htakes := takes_of_find hne
    have hlt := htakes.upper
    have hclear := ((takes_iff hn).1 htakes).1.clear
    unfold scannedBlocks at hlt
    refine ⟨by rw [show (1#32).toNat = 1 by rfl]; omega, fun i hi => ?_⟩
    rw [show (1#32).toNat = 1 by rfl] at hi
    rwa [show i = 0 by omega]
  · rw [or_iff_right h1]
    constructor
    · rintro ⟨hfound, htests⟩ k hk
      refine ⟨(searchTests_range hn h1).1 htests k hk, fun hpass => ?_⟩
      obtain ⟨hne, hk'⟩ := find_toNat ((takes_iff hn).2 ⟨hk, hpass⟩)
      rw [← hk']
      exact hfound hne
    · intro h
      refine ⟨fun hne => ?_, (searchTests_range hn h1).2 fun k hk => (h k hk).1⟩
      obtain ⟨hk, hpass⟩ := (takes_iff hn).1 (takes_of_find hne)
      exact (h _ hk).2 hpass

end

/-- Blocks 0, 1 and 3 of each word are used. -/
def fragmented : MemoryAllocator where
  minAddress := 0x201000#32
  maxAddress := 0x220000#32
  blockCount := 32#32
  memMap := fun _ => 0xb#32

/-- No block is used. -/
def allClear : MemoryAllocator := { fragmented with memMap := fun _ => 0#32 }

/-- The search for two blocks comes to block 0 alone. -/
theorem searchSafe_allClear : SearchSafe 2#32 allClear := by
  have hpasses : Passes 2#32 allClear 0 := .inr (.inr (by decide))
  refine (searchSafe_iff (by decide)).2 (.inr fun k hk => ?_)
  obtain rfl : k = 0 := by
    by_contra hne
    exact hk.first 0 (by omega) (by decide) hpasses
  exact ⟨⟨by decide, .inl (by decide)⟩, fun _ => ⟨by decide, by decide⟩⟩

/-- For two blocks the search returns block 2, though block 3 is used. -/
theorem searchSafe_two : ¬∀ (n : KSize) (a : MemoryAllocator), 0 < n.toNat → SearchSafe n a := by
  intro h
  have hfind : memFindFirstFreeBlockRange 2#32 fragmented = 2#32 := by decide
  have hrun := (h 2#32 fragmented (by decide)).found (by rw [hfind]; decide)
  rw [hfind] at hrun
  exact absurd (hrun.clear 1 (by decide)) (by decide)

/-! ## What the search misses -/

/-- The search for `n` blocks fails, and `kmalloc` with it, only when no `n` managed blocks in a row
are clear. -/
structure SearchComplete (n : KSize) (a : MemoryAllocator) : Prop where
  search : (∃ b, ClearRun a b n.toNat) → memFindFirstFreeBlockRange n a ≠ outOfMemory
  kmalloc : ∀ (size : KSize) (k k' : Kernel), k.allocator = a → blockRequest size = n →
    kmalloc size k = .halt (.panic "Out of physical memory.") k' → ¬∃ b, ClearRun a b n.toNat

theorem kmalloc_outOfMemory {size : KSize} {k k' : Kernel}
    (h : kmalloc size k = .halt (.panic "Out of physical memory.") k') :
    foundBlock size k.allocator = outOfMemory := by
  by_contra hne
  rw [kmalloc_eq, if_neg hne] at h
  -- the other panic of `kmalloc` is that of `page`
  cases hp : page ((markBlocks size k.allocator).minAddress + foundBlock size k.allocator * memBlockSize) size
      ptfReadWrite k.pageTable with
  | ok v t =>
    rw [hp] at h
    cases h
  | halt e t =>
    obtain ⟨rfl, -⟩ := page_halt hp
    rw [hp, Outcome.lift, Outcome.halt.injEq, Halt.panic.injEq] at h
    exact absurd h.1 (by decide)

/-- The search misses no run exactly when there is none, or a block of a whole word of the bitmap is
clear and accepted. -/
theorem searchComplete_iff {n : KSize} {a : MemoryAllocator} (hn : 0 < n.toNat) : SearchComplete n a ↔
    (∃ k < scannedBlocks a, Bitmap.test a.memMap k = false ∧ Passes n a k) ∨ ¬∃ b, ClearRun a b n.toNat := by
  have hscan := scannedBlocks_lt a
  constructor
  · rintro ⟨hsearch, -⟩
    by_cases hrun : ∃ b, ClearRun a b n.toNat
    · have htakes := takes_of_find (hsearch hrun)
      obtain ⟨hk, hpass⟩ := (takes_iff hn).1 htakes
      exact .inl ⟨_, hk.lt, hk.clear, hpass⟩
    · exact .inr hrun
  · rintro (⟨k, hk, hclear, hpass⟩ | hnone)
    · have hne := find_of_offered hk ((offers_iff hn (by omega)).2 ⟨hclear, hpass⟩)
      refine ⟨fun _ => hne, ?_⟩
      rintro size k k' rfl rfl hhalt
      exact absurd (kmalloc_outOfMemory hhalt) hne
    · exact ⟨fun h => absurd h hnone, fun _ _ _ _ _ _ => hnone⟩

theorem searchComplete_fragmented : SearchComplete 2#32 fragmented :=
  (searchComplete_iff (by decide)).2 (.inl ⟨2, by decide, by decide, .inr (.inr (by decide))⟩)

/-- Of 33 blocks only the last one, in a partial word of the bitmap, is clear. -/
def partialWord : MemoryAllocator where
  minAddress := 0x201000#32
  maxAddress := 0x221000#32
  blockCount := 33#32
  memMap := fun i => if i = 0 then 0xffffffff#32 else 0#32

theorem searchComplete_partialWord :
    ¬∀ (n : KSize) (a : MemoryAllocator), 0 < n.toNat → SearchComplete n a := by
  intro h
  have hrun : ClearRun partialWord 32 1 := ⟨by decide, by decide⟩
  exact (h 1#32 partialWord (by decide)).search ⟨32, hrun⟩ (by decide)

end Aeon.Memory
