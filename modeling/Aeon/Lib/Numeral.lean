/-
Positional numerals: lists of digits, the most significant first, and the texts that spell them.
Every number has exactly one numeral without a leading zero; with leading zeros it fills any wider
field.
-/
import Mathlib.Data.Nat.Digits.Lemmas

namespace Numeral

/-- The positional value in base `b`. -/
def value (b : Nat) (ds : List Nat) : Nat := ds.foldl (fun n d => n * b + d) 0

/-- A numeral of base `b`: a digit at least, every digit below the base, and no leading zero unless
it is the numeral of zero. -/
structure Canonical (b : Nat) (ds : List Nat) : Prop where
  ne_nil : ds ≠ []
  lt : ∀ d ∈ ds, d < b
  lead : ds.head? = some 0 → ds = [0]

def digits (b n : Nat) : List Nat := if n = 0 then [0] else (Nat.digits b n).reverse

theorem value_eq_ofDigits (b : Nat) (ds : List Nat) : value b ds = Nat.ofDigits b ds.reverse := by
  unfold value
  rw [← List.foldr_reverse]
  generalize ds.reverse = l
  induction l with
  | nil => rfl
  | cons d l ih => rw [List.foldr_cons, ih, Nat.ofDigits_cons, Nat.mul_comm, Nat.add_comm]

@[simp] theorem value_singleton (b d : Nat) : value b [d] = d := by simp [value]

theorem value_append (b : Nat) (ds : List Nat) (d : Nat) : value b (ds ++ [d]) = value b ds * b + d := by
  unfold value
  rw [List.foldl_append]
  rfl

theorem value_digits (b n : Nat) : value b (digits b n) = n := by
  unfold digits
  split
  · rename_i h
    rw [h, value_singleton]
  · rw [value_eq_ofDigits, List.reverse_reverse, Nat.ofDigits_digits]

variable {b : Nat}

theorem canonical_digits (hb : 1 < b) (n : Nat) : Canonical b (digits b n) := by
  unfold digits
  split
  · exact ⟨List.cons_ne_nil _ _, by simpa using Nat.zero_lt_of_lt hb, fun _ => rfl⟩
  · rename_i hn
    have hne : Nat.digits b n ≠ [] := Nat.digits_ne_nil_iff_ne_zero.2 hn
    refine ⟨by simpa using hne, fun d hd => Nat.digits_lt_base hb (List.mem_reverse.1 hd), fun h => ?_⟩
    rw [List.head?_reverse, List.getLast?_eq_getLast_of_ne_nil hne, Option.some.injEq] at h
    exact absurd h (Nat.getLast_digit_ne_zero b hn)

/-- The numeral of a number is unique. -/
theorem Canonical.eq_digits (hb : 1 < b) {ds : List Nat} (h : Canonical b ds) : ds = digits b (value b ds) := by
  by_cases h0 : ds = [0]
  · rw [h0, value_singleton]
    rfl
  have hne : ds.reverse ≠ [] := by simpa using h.ne_nil
  have hrev : Nat.digits b (value b ds) = ds.reverse := by
    rw [value_eq_ofDigits]
    refine Nat.digits_ofDigits b hb _ (fun d hd => h.lt d (List.mem_reverse.1 hd)) fun _ hz => h0 (h.lead ?_)
    rw [List.getLast_reverse] at hz
    rw [List.head?_eq_some_head h.ne_nil, hz]
  have hv : value b ds ≠ 0 := fun hz => by
    rw [hz, Nat.digits_zero] at hrev
    exact hne hrev.symm
  unfold digits
  rw [if_neg hv, hrev, List.reverse_reverse]

theorem digits_of_lt {n : Nat} (h : n < b) : digits b n = [n] := by
  unfold digits
  split
  · rename_i hn
    rw [hn]
  · rename_i hn
    rw [Nat.digits_of_lt b n hn h, List.reverse_singleton]

theorem digits_of_le (hb : 1 < b) {n : Nat} (h : b ≤ n) : digits b n = digits b (n / b) ++ [n % b] := by
  have hq : n / b ≠ 0 := (Nat.div_pos h (by omega)).ne'
  unfold digits
  rw [if_neg (by omega), if_neg hq, Nat.digits_def' hb (by omega), List.reverse_cons]

/-- Below `b ^ k` there are at most `k` digits. -/
theorem length_digits_le (hb : 1 < b) {n k : Nat} (hk : 1 ≤ k) (h : n < b ^ k) : (digits b n).length ≤ k := by
  unfold digits
  split
  · exact hk
  · rw [List.length_reverse]
    exact (Nat.digits_length_le_iff hb n).2 h

/-! ## A field of fixed width -/

/-- The last `w` digits of a number, leading zeros included. -/
def fixed (b : Nat) : (w n : Nat) → List Nat
  | 0, _ => []
  | w + 1, n => fixed b w (n / b) ++ [n % b]

@[simp] theorem length_fixed (b : Nat) : ∀ w n : Nat, (fixed b w n).length = w
  | 0, _ => rfl
  | w + 1, n => by rw [fixed, List.length_append, length_fixed b w]; rfl

theorem fixed_lt (hb : 0 < b) : ∀ w n : Nat, ∀ d ∈ fixed b w n, d < b
  | w + 1, n, d, hd => by
    rw [fixed, List.mem_append, List.mem_singleton] at hd
    rcases hd with hd | rfl
    · exact fixed_lt hb w _ d hd
    · exact Nat.mod_lt _ hb

theorem value_fixed (b : Nat) : ∀ {w n : Nat}, n < b ^ w → value b (fixed b w n) = n
  | 0, n, h => by
    rw [Nat.pow_zero, Nat.lt_one_iff] at h
    rw [h]
    rfl
  | w + 1, n, h => by
    rw [fixed, value_append, value_fixed b, Nat.div_add_mod']
    exact Nat.div_lt_of_lt_mul (by rwa [Nat.pow_succ, Nat.mul_comm] at h)

theorem fixed_zero (b : Nat) : ∀ w : Nat, fixed b w 0 = List.replicate w 0
  | 0 => rfl
  | w + 1 => by rw [fixed, Nat.zero_div, Nat.zero_mod, fixed_zero b w, List.replicate_succ']

/-- The numeral, right-aligned in a field of zeros. -/
theorem fixed_eq_padded (hb : 1 < b) : ∀ (w : Nat) {n : Nat}, n < b ^ (w + 1) →
    fixed b (w + 1) n = List.replicate (w + 1 - (digits b n).length) 0 ++ digits b n
  | 0, n, h => by
    have hn : n < b := by simpa using h
    rw [digits_of_lt hn, fixed, fixed, Nat.mod_eq_of_lt hn]
    rfl
  | w + 1, n, h => by
    rw [fixed]
    by_cases hn : n < b
    · rw [digits_of_lt hn, Nat.div_eq_of_lt hn, Nat.mod_eq_of_lt hn, fixed_zero]
      rfl
    · have hq : n / b < b ^ (w + 1) := Nat.div_lt_of_lt_mul (by rwa [Nat.pow_succ, Nat.mul_comm] at h)
      rw [digits_of_le hb (by omega), fixed_eq_padded hb w hq, List.length_append, List.append_assoc,
        List.length_singleton, Nat.add_sub_add_right]

/-! ## Numerals as text -/

section Text

variable {α : Type} (digit : Nat → α)

/-- The text is the numeral of `n`, each digit written with `digit`. -/
def Spells (b n : Nat) (text : List α) : Prop :=
  ∃ ds, Canonical b ds ∧ value b ds = n ∧ text = ds.map digit

theorem spells_iff (hb : 1 < b) {n : Nat} {text : List α} :
    Spells digit b n text ↔ text = (digits b n).map digit := by
  constructor
  · rintro ⟨ds, hc, rfl, rfl⟩
    rw [← hc.eq_digits hb]
  · rintro rfl
    exact ⟨_, canonical_digits hb n, value_digits b n, rfl⟩

theorem map_injOn {digit : Nat → α} (hinj : Set.InjOn digit {d | d < b}) : ∀ ds es : List Nat,
    (∀ d ∈ ds, d < b) → (∀ e ∈ es, e < b) → ds.map digit = es.map digit → ds = es
  | [], es, _, _, h => (List.map_eq_nil_iff.1 h.symm).symm
  | d :: ds, [], _, _, h => by cases h
  | d :: ds, e :: es, hd, he, h => by
    obtain ⟨hde, hrest⟩ := List.cons.inj h
    obtain ⟨hd, hds⟩ := List.forall_mem_cons.1 hd
    obtain ⟨he, hes⟩ := List.forall_mem_cons.1 he
    rw [hinj hd he hde, map_injOn hinj ds es hds hes hrest]

/-- A text spells one number only. -/
theorem Spells.right_unique {digit : Nat → α} (hinj : Set.InjOn digit {d | d < b}) {n m : Nat} {text : List α}
    (hn : Spells digit b n text) (hm : Spells digit b m text) : n = m := by
  obtain ⟨ds, hds, rfl, rfl⟩ := hn
  obtain ⟨es, hes, rfl, heq⟩ := hm
  rw [map_injOn hinj ds es hds.lt hes.lt heq]

/-- The text is the numeral of `n` with leading zeros, `w` digits in all. -/
def SpellsFixed (b w n : Nat) (text : List α) : Prop :=
  ∃ ds, ds.length = w ∧ (∀ d ∈ ds, d < b) ∧ value b ds = n ∧ text = ds.map digit

theorem spellsFixed (hb : 0 < b) {w n : Nat} (h : n < b ^ w) : SpellsFixed digit b w n ((fixed b w n).map digit) :=
  ⟨_, length_fixed b w n, fixed_lt hb w n, value_fixed b h, rfl⟩

/-- The text is the numeral of an integer: a sign for a negative one, and the numeral of its size. -/
def SpellsInt (minus : α) (b : Nat) (z : Int) (text : List α) : Prop :=
  if z < 0 then ∃ rest, Spells digit b z.natAbs rest ∧ text = minus :: rest
  else Spells digit b z.natAbs text

theorem exists_spellsInt (minus : α) (hb : 1 < b) (z : Int) : ∃ text, SpellsInt digit minus b z text := by
  unfold SpellsInt
  have hspells := (spells_iff digit hb (n := z.natAbs)).2 rfl
  split
  · exact ⟨_, _, hspells, rfl⟩
  · exact ⟨_, hspells⟩

end Text

end Numeral
