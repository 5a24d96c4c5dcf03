/-
The bytes of its format that `kvprintf` looks at. A directive reads ahead without a test for the
end of the string; only a `%0` that ends the format makes it read past the NUL, and of a chain of
them at the end every other one is taken for the width of the one before it.
-/
import Mathlib.Algebra.Group.Nat.Even
import Aeon.Display.Format
import Aeon.Lib.Run

namespace Aeon.Display

/-! ## The reads of an iteration -/

/-- The indices an iteration at `i` reads: the character, then those of both `switch`es. -/
def iterReads (fmt : CString) (i : Nat) : List Nat :=
  i :: if fmt.bytes i = ascii '%' then
      (i + 1) :: if fmt.bytes (i + 1) = ascii '0' then [i + 2, i + 3] else [i + 1]
    else []

/-- An iteration depends on no other byte. -/
theorem kvprintfIter_congr {n : Nat} {fmt fmt' : CString} {va : VaList} {c : Cursor}
    (h : ∀ x ∈ iterReads fmt c.i, fmt'.bytes x = fmt.bytes x) :
    kvprintfIter n fmt' va c = kvprintfIter n fmt va c := by
  have h0 : fmt'.bytes c.i = fmt.bytes c.i := h _ (List.mem_cons_self ..)
  by_cases hp : fmt.bytes c.i = ascii '%'
  · rw [iterReads, if_pos hp] at h
    have h1 : fmt'.bytes (c.i + 1) = fmt.bytes (c.i + 1) := h _ (by simp)
    rw [kvprintfIter, kvprintfIter, h0, if_pos hp, if_pos hp, readWidth, readWidth, h1]
    by_cases hz : fmt.bytes (c.i + 1) = ascii '0'
    · rw [if_pos hz] at h
      have h2 : fmt'.bytes (c.i + 2) = fmt.bytes (c.i + 2) := h _ (by simp)
      have h3 : fmt'.bytes (c.i + 2 + 1) = fmt.bytes (c.i + 2 + 1) := h _ (by simp)
      rw [if_pos hz, if_pos hz, h2]
      simp only [directive, h3]
    · rw [if_neg hz, if_neg hz]
      simp only [directive, h1]
  · rw [kvprintfIter, kvprintfIter, h0, if_neg hp, if_neg hp]

/-! ## The indices the loop comes to -/

/-- The letters of the directives that take an argument. -/
def kinds : List KUint8 := [ascii 's', ascii 'i', ascii 'd', ascii 'x', ascii 'c']

/-- The index after the directive whose letter is read at `i + 1`. -/
def pastKind (fmt : CString) (i : Nat) : Nat := if fmt.bytes (i + 1) ∈ kinds then i + 2 else i + 1

/-- The value of `i` after an iteration. -/
def nextIndex (fmt : CString) (i : Nat) : Nat :=
  if fmt.bytes i = ascii '%' then
    if fmt.bytes (i + 1) = ascii '0' then pastKind fmt (i + 2) else pastKind fmt i
  else i + 1

theorem mem_kinds (b : KUint8) : b ∈ kinds ↔
    b = ascii 's' ∨ (b = ascii 'i' ∨ b = ascii 'd') ∨ b = ascii 'x' ∨ b = ascii 'c' := by
  simp only [kinds, List.mem_cons, List.not_mem_nil, or_false]
  tauto

theorem directive_i {n : Nat} {fmt : CString} {va : VaList} {c c' : Cursor} {out : List Emitted}
    (h : directive n fmt va c = some (out, c')) : c'.i = pastKind fmt c.i := by
  rw [pastKind]
  simp only [mem_kinds]
  simp only [directive] at h
  split at h
  · rename_i hs
    cases h
    rw [if_pos (.inl hs)]
  · split at h
    · rename_i hd
      obtain ⟨str, -, hc⟩ := Option.map_eq_some_iff.1 h
      cases hc
      rw [if_pos (.inr (.inl hd))]
    · split at h
      · rename_i hx
        obtain ⟨str, -, hc⟩ := Option.map_eq_some_iff.1 h
        cases hc
        rw [if_pos (.inr (.inr (.inl hx)))]
      · split at h
        · rename_i hc
          cases h
          rw [if_pos (.inr (.inr (.inr hc)))]
        · rename_i hs hd hx hc
          cases h
          rw [if_neg (by simp only [hs, hd, hx, hc, or_self, not_false_iff])]

theorem kvprintfIter_i {n : Nat} {fmt : CString} {va : VaList} {c c' : Cursor} {out : List Emitted}
    (h : kvprintfIter n fmt va c = some (out, c')) : c'.i = nextIndex fmt c.i := by
  rw [kvprintfIter] at h
  rw [nextIndex]
  split at h
  · rename_i hp
    rw [directive_i h, if_pos hp, readWidth]
    split <;> rfl
  · rename_i hp
    cases h
    rw [if_neg hp]

section

variable (fmt : CString)

theorem pastKind_gt (i : Nat) : i < pastKind fmt i := by
  unfold pastKind
  split <;> omega

theorem nextIndex_gt (i : Nat) : i < nextIndex fmt i := by
  have h1 := pastKind_gt fmt i
  have h2 := pastKind_gt fmt (i + 2)
  unfold nextIndex
  split
  · split <;> omega
  · omega

/-- The index at the start of iteration `k`. -/
def indexAt (k : Nat) : Nat := (nextIndex fmt)^[k] 0

theorem indexAt_succ (k : Nat) : indexAt fmt (k + 1) = nextIndex fmt (indexAt fmt k) :=
  Function.iterate_succ_apply' _ _ _

theorem indexAt_strictMono : StrictMono (indexAt fmt) :=
  strictMono_nat_of_lt_succ fun k => by
    rw [indexAt_succ]
    exact nextIndex_gt fmt _

/-- Each index lies in exactly one iteration. -/
theorem exists_covering : ∀ p, ∃ k, indexAt fmt k ≤ p ∧ p < indexAt fmt (k + 1)
  | 0 => ⟨0, le_refl _, by rw [indexAt_succ]; exact nextIndex_gt fmt _⟩
  | p + 1 => by
    obtain ⟨k, hle, hlt⟩ := exists_covering p
    by_cases h : p + 1 < indexAt fmt (k + 1)
    · exact ⟨k, by omega, h⟩
    · refine ⟨k + 1, by omega, ?_⟩
      have := indexAt_strictMono fmt (Nat.lt_succ_self (k + 1))
      change indexAt fmt (k + 1) < indexAt fmt (k + 1 + 1) at this
      omega

/-- The loop comes to index `p`. -/
def Visits (p : Nat) : Prop := ∃ k, indexAt fmt k = p

/-- A `%0` at index `p`. -/
def PercentZero (p : Nat) : Prop := fmt.bytes p = ascii '%' ∧ fmt.bytes (p + 1) = ascii '0'

instance (p : Nat) : Decidable (PercentZero fmt p) := inferInstanceAs (Decidable (_ ∧ _))

/-- A `%` inside an iteration starts it, or is taken for the width digit of a `%0`. -/
theorem percent_covered {q p : Nat} (hp : fmt.bytes p = ascii '%') (hle : q ≤ p) (hlt : p < nextIndex fmt q) :
    q = p ∨ q + 2 = p ∧ PercentZero fmt q := by
  have hzero : fmt.bytes p ≠ ascii '0' := by
    rw [hp]
    decide
  have hkind : fmt.bytes p ∉ kinds := by
    rw [hp]
    decide
  unfold nextIndex pastKind at hlt
  split at hlt
  · rename_i hq
    split at hlt
    · rename_i hz
      have h1 : p ≠ q + 1 := fun h => hzero (h ▸ hz)
      split at hlt
      · rename_i hk
        have h3 : p ≠ q + 2 + 1 := fun h => hkind (h ▸ hk)
        by_cases h : q = p
        · exact .inl h
        · exact .inr ⟨by omega, hq, hz⟩
      · by_cases h : q = p
        · exact .inl h
        · exact .inr ⟨by omega, hq, hz⟩
    · split at hlt
      · rename_i hk
        have h1 : p ≠ q + 1 := fun h => hkind (h ▸ hk)
        exact .inl (by omega)
      · exact .inl (by omega)
  · exact .inl (by omega)

/-- The loop comes to a `%` unless it has come to a `%0` just before it. -/
theorem visits_percent {p : Nat} (hp : fmt.bytes p = ascii '%') :
    Visits fmt p ↔ ¬∃ q, q + 2 = p ∧ Visits fmt q ∧ PercentZero fmt q := by
  constructor
  · rintro ⟨k, hk⟩ ⟨q, hq, ⟨j, rfl⟩, hpct, hz⟩
    have hjk : j < k := (indexAt_strictMono fmt).lt_iff_lt.1 (by omega)
    have hmono := (indexAt_strictMono fmt).monotone (Nat.succ_le_of_lt hjk)
    have hnext : indexAt fmt j + 2 < nextIndex fmt (indexAt fmt j) := by
      rw [nextIndex, if_pos hpct, if_pos hz]
      exact pastKind_gt fmt _
    rw [Nat.succ_eq_add_one, indexAt_succ] at hmono
    omega
  · intro hno
    obtain ⟨k, hle, hlt⟩ := exists_covering fmt p
    rw [indexAt_succ] at hlt
    rcases percent_covered fmt hp hle hlt with h | ⟨h, hz⟩
    · exact ⟨k, h⟩
    · exact absurd ⟨_, h, ⟨k, rfl⟩, hz⟩ hno

/-! ## The end of the format -/

/-- How many `%0` end the first `p` characters, one after the other. -/
def trailingPercentZeros : Nat → Nat
  | p + 2 => if PercentZero fmt p then trailingPercentZeros p + 1 else 0
  | _ => 0

/-- The loop comes to a `%0` that ends at `p` when an odd number of them does. -/
theorem visits_trailing : ∀ p, (∃ q, q + 2 = p ∧ Visits fmt q ∧ PercentZero fmt q) ↔
    ¬Even (trailingPercentZeros fmt p)
  | 0 => by simp [trailingPercentZeros]
  | 1 => by simp [trailingPercentZeros]
  | p + 2 => by
    have hq : (∃ q, q + 2 = p + 2 ∧ Visits fmt q ∧ PercentZero fmt q) ↔ Visits fmt p ∧ PercentZero fmt p := by
      simp
    rw [hq, trailingPercentZeros]
    by_cases hz : PercentZero fmt p
    · rw [if_pos hz, and_iff_left hz, visits_percent fmt hz.1, visits_trailing p, Nat.even_add_one]
    · rw [if_neg hz]
      simp [hz]

theorem lt_strlen {i : Nat} (hi : i ≤ fmt.strlen) (hne : fmt.bytes i ≠ 0#8) : i < fmt.strlen := by
  by_contra hge
  rw [show i = fmt.strlen by omega] at hne
  exact hne fmt.nul

/-- The reads of an iteration stay in the string, except at a `%0` that ends it. -/
theorem iterReads_inside {i : Nat} (hi : i < fmt.strlen) :
    (∀ x ∈ iterReads fmt i, x ≤ fmt.strlen) ↔ ¬(i + 2 = fmt.strlen ∧ PercentZero fmt i) := by
  unfold iterReads
  by_cases hp : fmt.bytes i = ascii '%'
  · by_cases hz : fmt.bytes (i + 1) = ascii '0'
    · have h1 := lt_strlen fmt (show i + 1 ≤ fmt.strlen by omega) (by rw [hz]; decide)
      rw [if_pos hp, if_pos hz]
      constructor
      · rintro h ⟨heq, -⟩
        have := h (i + 3) (by simp)
        omega
      · intro h x hx
        have hne : i + 2 ≠ fmt.strlen := fun heq => h ⟨heq, hp, hz⟩
        simp only [List.mem_cons, List.not_mem_nil, or_false] at hx
        omega
    · rw [if_pos hp, if_neg hz]
      refine iff_of_true (fun x hx => ?_) fun h => hz h.2.2
      simp only [List.mem_cons, List.not_mem_nil, or_false] at hx
      omega
  · rw [if_neg hp]
    refine iff_of_true (fun x hx => ?_) fun h => hp h.2.1
    rw [List.mem_singleton] at hx
    omega

end

/-! ## Runs of the loop -/

/-- An iteration of the loop. -/
def LoopStep (n : Nat) (fmt : CString) (va : VaList) (c c' : Cursor) : Prop :=
  c.i < fmt.strlen ∧ ∃ out, kvprintfIter n fmt va c = some (out, c')

section

variable {n : Nat} {fmt : CString} {va : VaList}

theorem loop_visits {c : Cursor} (h : Run.Reach (LoopStep n fmt va) Cursor.start c) : Visits fmt c.i :=
  Run.invariant (P := fun c => Visits fmt c.i) h ⟨0, rfl⟩ fun c c' ⟨k, hk⟩ ⟨_, out, hout⟩ =>
    ⟨k + 1, by rw [indexAt_succ, hk, kvprintfIter_i hout]⟩

/-- The loop gets to every index of its sequence inside the string. -/
theorem exists_loop_at : ∀ k, indexAt fmt k < fmt.strlen →
    ∃ c, Run.Reach (LoopStep n fmt va) Cursor.start c ∧ c.i = indexAt fmt k
  | 0, _ => ⟨Cursor.start, .refl, rfl⟩
  | k + 1, hk => by
    have hlt := indexAt_strictMono fmt (Nat.lt_succ_self k)
    obtain ⟨c, hreach, hc⟩ := exists_loop_at k (lt_trans hlt hk)
    obtain ⟨⟨out, c'⟩, hout⟩ := Option.isSome_iff_exists.1 (kvprintfIter_isSome n fmt va c)
    refine ⟨c', hreach.tail ⟨by rw [hc]; exact lt_trans hlt hk, out, hout⟩, ?_⟩
    rw [kvprintfIter_i hout, hc, indexAt_succ]

/-- The loop of `kvprintf` reads its format up to the NUL only, exactly when an even number of `%0`
ends it. -/
theorem reads_inside_iff (n : Nat) (fmt : CString) (va : VaList) :
    (∀ c, Run.Reach (LoopStep n fmt va) Cursor.start c → c.i < fmt.strlen →
      ∀ x ∈ iterReads fmt c.i, x ≤ fmt.strlen) ↔ Even (trailingPercentZeros fmt fmt.strlen) := by
  rw [← not_iff_not, ← visits_trailing]
  constructor
  · intro h
    push Not at h
    obtain ⟨c, hreach, hlt, x, hx, hgt⟩ := h
    have hnot : ¬∀ x ∈ iterReads fmt c.i, x ≤ fmt.strlen := fun h => absurd (h x hx) (by omega)
    rw [iterReads_inside fmt hlt, not_not] at hnot
    exact ⟨c.i, hnot.1, loop_visits hreach, hnot.2⟩
  · rintro ⟨q, hq, ⟨k, rfl⟩, hz⟩ h
    obtain ⟨c, hreach, hc⟩ := @exists_loop_at n fmt va k (by omega)
    have hlt : c.i < fmt.strlen := by omega
    rw [← hc] at hq hz
    exact (iterReads_inside fmt hlt).1 (h c hreach hlt) ⟨hq, hz⟩

end

/-- The format `"%0"`. -/
def percentZero : CString := CString.ofList ("%0".toList.map ascii) (by decide)

/-- The format `"%0"` makes the second `switch` read past the NUL. -/
theorem reads_percentZero :
    ¬∀ (n : Nat) (fmt : CString) (va : VaList) (c : Cursor), Run.Reach (LoopStep n fmt va) Cursor.start c →
      c.i < fmt.strlen → ∀ x ∈ iterReads fmt c.i, x ≤ fmt.strlen := by
  intro h
  have := h 1 percentZero ⟨fun _ => 0#32, fun _ => []⟩ Cursor.start .refl (by decide) 3 (by decide)
  exact absurd this (by decide)

end Aeon.Display
