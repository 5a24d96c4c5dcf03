/-
Strings and numerals of `klibc`: NUL-terminated strings with `strlen`, and `itoa` and `itoa_s` of
`stdlib.c`, which need at most 32 entries of the static digit buffer for every base from 2 on.
-/
import Aeon.Klibc.Types

namespace Aeon

/-! ## Strings -/

/-- A NUL-terminated string in memory; the bytes past the NUL are whatever follows it. -/
structure CString where
  bytes : Nat → KUint8
  strlen : Nat
  nul : bytes strlen = 0#8
  before : ∀ i < strlen, bytes i ≠ 0#8

/-- The loop of `strlen` from byte `i` on. -/
def strlenLoop (str : Nat → KUint8) : (fuel i : Nat) → Option Nat
  | 0, _ => none
  | fuel + 1, i => if str i ≠ 0#8 then strlenLoop str fuel (i + 1) else some i

theorem CString.strlenLoop_eq (s : CString) : ∀ (fuel i : Nat), i ≤ s.strlen → s.strlen < i + fuel →
    strlenLoop s.bytes fuel i = some s.strlen
  | 0, i, _, h => absurd h (by omega)
  | fuel + 1, i, hle, hlt => by
    rw [strlenLoop]
    by_cases hi : i = s.strlen
    · rw [hi, if_neg (not_not.2 s.nul)]
    · rw [if_pos (s.before i (by omega)), s.strlenLoop_eq fuel (i + 1) (by omega) (by omega)]

def ascii (c : Char) : KUint8 := BitVec.ofNat 8 c.toNat

/-- A string constant, with zeros after it. -/
def CString.ofList (l : List KUint8) (h : 0#8 ∉ l) : CString where
  bytes := fun i => l.getD i 0#8
  strlen := l.length
  nul := by simp
  before := fun i hi => by
    rw [List.getD_eq_getElem?_getD, List.getElem?_eq_getElem hi, Option.getD_some]
    intro h0
    exact h (h0 ▸ List.getElem_mem hi)

/-- The characters of `l` stand in the string from byte `i` on. -/
def CString.At (s : CString) : (i : Nat) → List KUint8 → Prop
  | _, [] => True
  | i, b :: l => s.bytes i = b ∧ s.At (i + 1) l

theorem CString.at_append (s : CString) : ∀ (l l' : List KUint8) (i : Nat),
    s.At i (l ++ l') ↔ s.At i l ∧ s.At (i + l.length) l'
  | [], l', i => by simp [CString.At]
  | b :: l, l', i => by
    rw [List.cons_append, CString.At, CString.At, s.at_append l l' (i + 1), List.length_cons, and_assoc,
      show i + 1 + l.length = i + (l.length + 1) by omega]

/-- The string is `l`; what follows its NUL is arbitrary. -/
structure CString.Spells (s : CString) (l : List KUint8) : Prop where
  length : s.strlen = l.length
  chars : s.At 0 l

theorem CString.spells_ofList {l : List KUint8} (h : 0#8 ∉ l) : (CString.ofList l h).Spells l := by
  refine ⟨rfl, ?_⟩
  have key : ∀ (m : List KUint8) (i : Nat), (∀ j < m.length, l.getD (i + j) 0#8 = m.getD j 0#8) →
      (CString.ofList l h).At i m := by
    intro m
    induction m with
    | nil => exact fun _ _ => trivial
    | cons b m ih =>
      intro i hm
      refine ⟨hm 0 (by simp), ih (i + 1) fun j hj => ?_⟩
      have := hm (j + 1) (by simp [hj])
      rwa [show i + 1 + j = i + (j + 1) by omega]
  exact key l 0 fun j _ => by rw [Nat.zero_add]

/-! ## Numerals -/

def bchars : List KUint8 :=
  [0x30#8, 0x31#8, 0x32#8, 0x33#8, 0x34#8, 0x35#8, 0x36#8, 0x37#8,
   0x38#8, 0x39#8, 0x41#8, 0x42#8, 0x43#8, 0x44#8, 0x45#8, 0x46#8]

/-- The digits that `itoa` puts into `tbuf`, the least significant first, with `room` entries left;
one more than fits is a write outside the buffer. -/
def itoaLoop (base : KUint32) : (room : Nat) → (value : KUint32) → Option (List KUint8)
  | 0, value => if value = 0#32 then some [] else none
  | room + 1, value =>
    if value = 0#32 then some []
    else (itoaLoop base room (value / base)).map (bchars.getD (value % base).toNat 0#8 :: ·)

/-- `itoa`: the string it leaves in `str`. -/
def itoa (value base : KUint32) : Option (List KUint8) :=
  if value = 0#32 ∨ 16 < base.toInt then some [0x30#8]
  else (itoaLoop base 32 value).map List.reverse

/-- `itoa_s`. The value is unsigned, so the test for a negative one is never true; for a base above
16 it returns `NULL`. -/
def itoaS (value base : KUint32) : Option (List KUint8) :=
  if 16 < base.toInt then none
  else if value < 0#32 then (itoa (value * (-1#32)) base).map (0x2D#8 :: ·)
  else itoa value base

/-- The buffer has room for a value below `base ^ room`. -/
theorem itoaLoop_isSome {base : KUint32} (hb : 2 ≤ base.toNat) : ∀ (room : Nat) {value : KUint32},
    value.toNat < base.toNat ^ room → (itoaLoop base room value).isSome = true
  | 0, value, h => by
    have hz : value = 0#32 := BitVec.eq_of_toNat_eq (by simpa using h)
    rw [itoaLoop, if_pos hz]
    rfl
  | room + 1, value, h => by
    rw [itoaLoop]
    split
    · rfl
    · rw [Option.isSome_map]
      apply itoaLoop_isSome hb room
      rw [BitVec.toNat_udiv]
      exact Nat.div_lt_of_lt_mul (by rwa [Nat.pow_succ, Nat.mul_comm] at h)

theorem itoa_isSome {base : KUint32} (hb : 2 ≤ base.toNat) (value : KUint32) : (itoa value base).isSome = true := by
  rw [itoa]
  split
  · rfl
  · rw [Option.isSome_map]
    apply itoaLoop_isSome hb 32
    calc value.toNat < 2 ^ 32 := value.isLt
      _ ≤ base.toNat ^ 32 := Nat.pow_le_pow_left hb 32

theorem itoaS_isSome (value : KUint32) : (itoaS value 10#32).isSome = true := by
  rw [itoaS, if_neg (by decide), if_neg (by rw [BitVec.lt_def]; simp)]
  exact itoa_isSome (by decide) value

example : itoa 0x1AF#32 16#32 = some [ascii '1', ascii 'A', ascii 'F'] := by decide

end Aeon
