/-
`itoa` on its two arrays: the digit loop fills the static buffer from the least significant digit,
the second loop copies it backwards into `str`. What stands in `str` is the numeral of the value.
-/
import Aeon.Klibc.Stdlib
import Aeon.Lib.Numeral
import Mathlib.Data.List.GetD

namespace Aeon

/-! ## The two loops -/

/-- `while (value != 0)`, with `pos` digits in `tbuf` and `room` entries left: `pos` and the buffer
after it, or a write outside the buffer. -/
def itoaFill (base : KUint32) : (room pos : Nat) → (value : KUint32) → (tbuf : Nat → KUint8) →
    Option (Nat × (Nat → KUint8))
  | 0, pos, value, tbuf => if value = 0#32 then some (pos, tbuf) else none
  | room + 1, pos, value, tbuf =>
    if value = 0#32 then some (pos, tbuf)
    else itoaFill base room (pos + 1) (value / base)
      (Function.update tbuf pos (bchars.getD (value % base).toNat 0#8))

/-- `for (opos = 0; opos < top; pos--, opos++)`, with `rem` digits to go. -/
def itoaCopy (tbuf : Nat → KUint8) : (rem opos pos : Nat) → (str : Nat → KUint8) → (Nat → KUint8)
  | 0, _, _, str => str
  | rem + 1, opos, pos, str =>
    itoaCopy tbuf rem (opos + 1) (pos - 1) (Function.update str opos (tbuf pos))

/-- `itoa`: the digit buffer and `str` after it. -/
def itoaInto (value base : KUint32) (tbuf str : Nat → KUint8) :
    Option ((Nat → KUint8) × (Nat → KUint8)) :=
  if value = 0#32 ∨ 16 < base.toInt then
    some (tbuf, Function.update (Function.update str 0 0x30#8) 1 0#8)
  else
    (itoaFill base 32 0 value tbuf).map fun (top, tbuf) =>
      (tbuf, Function.update (itoaCopy tbuf top 0 (top - 1) str) top 0#8)

/-! ## What they leave -/

/-- `str` with the text and a NUL at its start. -/
def writeString (text : List KUint8) (str : Nat → KUint8) : Nat → KUint8 :=
  fun i => if i < text.length then text.getD i 0#8 else if i = text.length then 0#8 else str i

/-- The fill succeeds where the list of its digits exists, and puts them from `pos` on. -/
theorem itoaFill_eq (base : KUint32) : ∀ (room pos : Nat) (value : KUint32) (tbuf : Nat → KUint8),
    itoaFill base room pos value tbuf = (itoaLoop base room value).map fun ds =>
      (pos + ds.length, fun i => if pos ≤ i then ds.getD (i - pos) (tbuf i) else tbuf i)
  | 0, pos, value, tbuf => by
    unfold itoaFill itoaLoop
    split <;> simp
  | room + 1, pos, value, tbuf => by
    unfold itoaFill itoaLoop
    split
    · simp
    · rw [itoaFill_eq base room, Option.map_map]
      congr 1
      funext ds
      refine Prod.ext (by simp; omega) (funext fun i => ?_)
      simp only [Function.comp_apply]
      rcases Nat.lt_trichotomy i pos with h | rfl | h
      · rw [if_neg (by omega), if_neg (by omega), Function.update_of_ne (by omega)]
      · rw [if_neg (by omega), if_pos (by omega), Function.update_self, Nat.sub_self, List.getD_cons_zero]
      · rw [if_pos (by omega), if_pos (by omega), Function.update_of_ne (by omega),
          show i - pos = i - (pos + 1) + 1 by omega, List.getD_cons_succ]

theorem itoaCopy_apply (tbuf : Nat → KUint8) : ∀ (rem opos : Nat) (str : Nat → KUint8) (i : Nat),
    itoaCopy tbuf rem opos (rem - 1) str i =
      if opos ≤ i ∧ i < opos + rem then tbuf (rem - 1 - (i - opos)) else str i
  | 0, opos, str, i => by rw [itoaCopy, if_neg (by omega)]
  | rem + 1, opos, str, i => by
    rw [itoaCopy, show rem + 1 - 1 - 1 = rem - 1 by omega, itoaCopy_apply tbuf rem]
    rcases Nat.lt_trichotomy i opos with h | rfl | h
    · rw [if_neg (by omega), if_neg (by omega), Function.update_of_ne (by omega)]
    · rw [if_neg (by omega), if_pos (by omega), Function.update_self, Nat.sub_self, Nat.sub_zero]
    · rw [Function.update_of_ne (by omega)]
      by_cases hi : i < opos + (rem + 1)
      · rw [if_pos (by omega), if_pos (by omega)]
        congr 1
        omega
      · rw [if_neg (by omega), if_neg (by omega)]

theorem itoaLoop_length {base : KUint32} : ∀ {room : Nat} {value : KUint32} {ds : List KUint8},
    itoaLoop base room value = some ds → ds.length ≤ room
  | 0, value, ds, h => by
    unfold itoaLoop at h
    split at h
    · cases h
      exact le_refl _
    · cases h
  | room + 1, value, ds, h => by
    unfold itoaLoop at h
    split at h
    · cases h
      exact Nat.zero_le _
    · obtain ⟨es, hes, rfl⟩ := Option.map_eq_some_iff.1 h
      have := itoaLoop_length hes
      rw [List.length_cons]
      omega

/-- The arrays hold what the lists say: `itoa` writes its string into `str`, and nothing past the
32 entries of the digit buffer. -/
theorem itoaInto_of_itoa {value base : KUint32} {text : List KUint8} (h : itoa value base = some text)
    (tbuf str : Nat → KUint8) :
    ∃ tbuf', itoaInto value base tbuf str = some (tbuf', writeString text str) ∧
      ∀ i, 32 ≤ i → tbuf' i = tbuf i := by
  unfold itoa at h
  unfold itoaInto
  split at h
  · rename_i hz
    rw [if_pos hz]
    cases h
    refine ⟨tbuf, ?_, fun _ _ => rfl⟩
    rw [Option.some.injEq, Prod.mk.injEq]
    refine ⟨rfl, funext fun i => ?_⟩
    unfold writeString
    rcases i with _ | _ | i <;> rfl
  · rename_i hz
    rw [if_neg hz]
    obtain ⟨ds, hds, rfl⟩ := Option.map_eq_some_iff.1 h
    have hlen := itoaLoop_length hds
    rw [itoaFill_eq, hds, Option.map_some, Option.map_some]
    simp only [Nat.zero_le, if_true, Nat.sub_zero, Nat.zero_add, Option.some.injEq, Prod.mk.injEq]
    refine ⟨_, ⟨rfl, funext fun i => ?_⟩, fun i hi => List.getD_eq_default _ _ (by omega)⟩
    unfold writeString
    rw [List.length_reverse]
    rcases Nat.lt_trichotomy i ds.length with hi | rfl | hi
    · rw [if_pos hi, Function.update_of_ne (by omega), itoaCopy_apply, if_pos (by omega),
        List.getD_eq_getElem _ _ (by omega), List.getD_eq_getElem _ _ (by simpa), List.getElem_reverse]
      congr 1
    · rw [Function.update_self, if_neg (by omega), if_pos rfl]
    · rw [Function.update_of_ne (by omega), itoaCopy_apply, if_neg (by omega), if_neg (by omega),
        if_neg (by omega)]

/-! ## The numeral -/

/-- The digits `0` to `9` and `A` to `F`. -/
def digitChar (d : Nat) : KUint8 :=
  if d < 10 then ascii '0' + BitVec.ofNat 8 d else ascii 'A' + BitVec.ofNat 8 (d - 10)

theorem bchars_getD {d : Nat} (h : d < 16) : bchars.getD d 0#8 = digitChar d := by
  interval_cases d <;> rfl

theorem digitChar_injOn {b : Nat} (hb : b ≤ 16) : Set.InjOn digitChar {d | d < b} := by
  intro d hd e he h
  have hd : d < 16 := lt_of_lt_of_le hd hb
  have he : e < 16 := lt_of_lt_of_le he hb
  revert h
  interval_cases d <;> interval_cases e <;> decide

theorem digitChar_ne_zero {d : Nat} (h : d < 16) : digitChar d ≠ 0#8 := by
  interval_cases d <;> decide

theorem itoaLoop_digits {base : KUint32} (hb : 2 ≤ base.toNat) (hb' : base.toNat ≤ 16) :
    ∀ {room : Nat} {value : KUint32} {ds : List KUint8}, itoaLoop base room value = some ds →
      value ≠ 0#32 → ds.reverse = (Numeral.digits base.toNat value.toNat).map digitChar
  | 0, value, ds, h, hv => by
    rw [itoaLoop, if_neg hv] at h
    cases h
  | room + 1, value, ds, h, hv => by
    have hpos : value.toNat ≠ 0 := fun h => hv (BitVec.eq_of_toNat_eq h)
    rw [itoaLoop, if_neg hv] at h
    obtain ⟨es, hes, rfl⟩ := Option.map_eq_some_iff.1 h
    rw [BitVec.toNat_umod, bchars_getD ((Nat.mod_lt _ (by omega)).trans_le hb'), List.reverse_cons]
    by_cases hq : value / base = 0#32
    · -- the last digit
      have hlt : value.toNat < base.toNat := by
        have := congrArg BitVec.toNat hq
        rw [BitVec.toNat_udiv, BitVec.toNat_ofNat] at this
        exact (Nat.div_eq_zero_iff.1 this).resolve_left (by omega)
      rw [hq] at hes
      have : es = [] := by
        cases room <;> · rw [itoaLoop, if_pos rfl] at hes; exact (Option.some.inj hes).symm
      rw [this, Numeral.digits_of_lt hlt, Nat.mod_eq_of_lt hlt]
      rfl
    · have hle : base.toNat ≤ value.toNat := by
        by_contra hlt
        refine hq (BitVec.eq_of_toNat_eq ?_)
        rw [BitVec.toNat_udiv, Nat.div_eq_of_lt (by omega)]
        rfl
      rw [itoaLoop_digits hb hb' hes hq, BitVec.toNat_udiv, Numeral.digits_of_le (by omega) hle,
        List.map_append, List.map_singleton]

/-- For every base up to 16 `itoa` returns the numeral. -/
theorem itoa_eq_digits {base : KUint32} (hb : 2 ≤ base.toNat) (hb' : base.toNat ≤ 16) (value : KUint32) :
    itoa value base = some ((Numeral.digits base.toNat value.toNat).map digitChar) := by
  have hint : ¬ 16 < base.toInt := by
    rw [BitVec.toInt_eq_toNat_of_lt (by omega)]
    omega
  obtain ⟨text, htext⟩ := Option.isSome_iff_exists.1 (itoa_isSome hb value)
  rw [htext]
  unfold itoa at htext
  by_cases hv : value = 0#32
  · rw [if_pos (Or.inl hv)] at htext
    rw [← Option.some.inj htext, hv]
    rfl
  · rw [if_neg (not_or.2 ⟨hv, hint⟩)] at htext
    obtain ⟨ds, hds, rfl⟩ := Option.map_eq_some_iff.1 htext
    rw [itoaLoop_digits hb hb' hds hv]

theorem nul_notMem_of_spells {b n : Nat} (hb : b ≤ 16) {text : List KUint8}
    (h : Numeral.Spells digitChar b n text) : 0#8 ∉ text := by
  obtain ⟨ds, hc, -, rfl⟩ := h
  intro hmem
  obtain ⟨d, hd, hz⟩ := List.mem_map.1 hmem
  exact digitChar_ne_zero ((hc.lt d hd).trans_le hb) hz

/-- What stands before the first NUL is the text. -/
theorem writeString_inj {text text' : List KUint8} (h : 0#8 ∉ text) (h' : 0#8 ∉ text') {str : Nat → KUint8}
    (heq : writeString text str = writeString text' str) : text = text' := by
  have hval : ∀ {s : List KUint8} {i : Nat}, 0#8 ∉ s → i < s.length → s.getD i 0#8 ≠ 0#8 := fun hs hi hz => by
    rw [List.getD_eq_getElem _ _ hi] at hz
    exact hs (hz ▸ List.getElem_mem hi)
  have hlen : text.length = text'.length := by
    rcases Nat.lt_trichotomy text.length text'.length with hlt | hlen | hlt
    · have := congrFun heq text.length
      unfold writeString at this
      rw [if_neg (by omega), if_pos rfl, if_pos hlt] at this
      exact absurd this.symm (hval h' hlt)
    · exact hlen
    · have := congrFun heq text'.length
      unfold writeString at this
      rw [if_neg (lt_irrefl text'.length), if_pos rfl, if_pos hlt] at this
      exact absurd this (hval h hlt)
  refine List.ext_getElem hlen fun i hi hi' => ?_
  have := congrFun heq i
  unfold writeString at this
  rwa [if_pos hi, if_pos hi', List.getD_eq_getElem _ _ hi, List.getD_eq_getElem _ _ hi'] at this

/-- `itoa` terminates inside its digit buffer and leaves the numeral of the value in `str`, from
which the value can be read back. -/
theorem itoaInto_numeral {base : KUint32} (hb : 2 ≤ base.toNat) (hb' : base.toNat ≤ 16) (value : KUint32)
    (tbuf str : Nat → KUint8) :
    ∃ tbuf' text, itoaInto value base tbuf str = some (tbuf', writeString text str) ∧
      (∀ i, 32 ≤ i → tbuf' i = tbuf i) ∧ 1 ≤ text.length ∧ text.length ≤ 32 ∧ 0#8 ∉ text ∧
      Numeral.Spells digitChar base.toNat value.toNat text ∧
      ∀ (value' : KUint32) (tbuf₁ tbuf₂ str₁ : Nat → KUint8),
        itoaInto value' base tbuf₁ str₁ = some (tbuf₂, writeString text str₁) → value' = value := by
  have hbase : 1 < base.toNat := by omega
  have hspells (v : KUint32) :
      Numeral.Spells digitChar base.toNat v.toNat ((Numeral.digits base.toNat v.toNat).map digitChar) :=
    (Numeral.spells_iff digitChar hbase).2 rfl
  obtain ⟨tbuf', hinto, hframe⟩ := itoaInto_of_itoa (itoa_eq_digits hb hb' value) tbuf str
  refine ⟨tbuf', _, hinto, hframe, ?_, ?_, nul_notMem_of_spells hb' (hspells value), hspells value, ?_⟩
  · rw [List.length_map]
    exact List.length_pos_iff.2 (Numeral.canonical_digits hbase _).ne_nil
  · rw [List.length_map]
    apply Numeral.length_digits_le hbase (by omega)
    calc value.toNat < 2 ^ 32 := value.isLt
      _ ≤ base.toNat ^ 32 := Nat.pow_le_pow_left hb 32
  · intro value' tbuf₁ tbuf₂ str₁ h
    obtain ⟨tbuf₃, hinto', -⟩ := itoaInto_of_itoa (itoa_eq_digits hb hb' value') tbuf₁ str₁
    rw [hinto', Option.some.injEq, Prod.mk.injEq] at h
    have htext := writeString_inj (nul_notMem_of_spells hb' (hspells value'))
      (nul_notMem_of_spells hb' (hspells value)) h.2
    have hs := hspells value'
    rw [htext] at hs
    exact BitVec.eq_of_toNat_eq (hs.right_unique (digitChar_injOn hb') (hspells value))

/-- Base 2, the one that needs all 32 entries. -/
theorem itoaInto_numeral_binary :
    ∃ tbuf' text, itoaInto 0xFFFFFFFF#32 2#32 (fun _ => 0#8) (fun _ => 0#8) =
      some (tbuf', writeString text fun _ => 0#8) ∧ text.length ≤ 32 := by
  obtain ⟨tbuf', text, h, -, -, hlen, -⟩ := itoaInto_numeral (by decide : 2 ≤ (2#32).toNat) (by decide)
    0xFFFFFFFF#32 (fun _ => 0#8) fun _ => 0#8
  exact ⟨tbuf', text, h, hlen⟩

end Aeon
