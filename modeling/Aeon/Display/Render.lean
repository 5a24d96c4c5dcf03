/-
What `kvprintf` prints: on a format of literals and unpadded directives, the literals and the
renderings of the arguments one after the other, each argument taken once and the mutex released;
and where `%d` and `%i` print the signed numeral.
-/
import Aeon.Display.Pieces
import Aeon.Display.Interrupted
import Aeon.Klibc.Itoa

namespace Aeon.Display

/-! ## Renderings -/

def NumKind.base : NumKind → Nat
  | .d => 10
  | .i => 10
  | .x => 16

/-- The numeral of a word: unsigned, with upper-case digits. -/
def NumKind.rendering (kind : NumKind) (word : KUint32) : List KUint8 :=
  (Numeral.digits kind.base word.toNat).map digitChar

def Piece.rendering (cstring : KUint32 → List KUint8) (word : KUint32) : Piece → List KUint8
  | lit c => [c.char]
  | str => cstring word
  | chr => [word.setWidth 8]
  | num kind => kind.rendering word
  | padded _ kind => kind.rendering word

/-- The renderings of a format's pieces, one argument for each directive. -/
def rendering (cstring : KUint32 → List KUint8) : List Piece → List KUint32 → List KUint8
  | [], _ => []
  | p :: f, args => p.rendering cstring (args.headD 0#32) ++ rendering cstring f (args.drop p.args)

/-- A format without padding and its arguments: one for each directive, and none negative that goes
to a `%d` or a `%i`. -/
inductive Matching : List Piece → List KUint32 → Prop
  | nil : Matching [] []
  | lit {c : Literal} {f : List Piece} {args : List KUint32} : Matching f args → Matching (.lit c :: f) args
  | str {f : List Piece} {word : KUint32} {args : List KUint32} : Matching f args →
      Matching (.str :: f) (word :: args)
  | chr {f : List Piece} {word : KUint32} {args : List KUint32} : Matching f args →
      Matching (.chr :: f) (word :: args)
  | dec {kind : NumKind} {f : List Piece} {word : KUint32} {args : List KUint32} : kind ≠ .x → 0 ≤ word.toInt →
      Matching f args → Matching (.num kind :: f) (word :: args)
  | hex {f : List Piece} {word : KUint32} {args : List KUint32} : Matching f args →
      Matching (.num .x :: f) (word :: args)

theorem Matching.length {f : List Piece} {args : List KUint32} (h : Matching f args) :
    args.length = argCount f := by
  induction h with
  | nil => rfl
  | lit _ ih => rw [argCount_cons, ih]; exact (Nat.zero_add _).symm
  | str _ ih | chr _ ih | dec _ _ _ ih | hex _ ih =>
    rw [argCount_cons, List.length_cons, ih, Nat.add_comm]
    rfl

/-! ## Numbers -/

/-- A word that `itoa_s` gets is never negative to it. -/
theorem itoaS_eq_digits (word : KUint32) :
    itoaS word 10#32 = some ((Numeral.digits 10 word.toNat).map digitChar) := by
  unfold itoaS
  rw [if_neg (by decide), if_neg (by rw [BitVec.lt_def]; exact Nat.not_lt_zero _)]
  exact itoa_eq_digits (by decide) (by decide) word

theorem NumKind.numeral_eq (kind : NumKind) (word : KUint32) : kind.numeral word = kind.rendering word := by
  cases kind with
  | d | i =>
    rw [NumKind.numeral, itoaS_eq_digits]
    rfl
  | x =>
    rw [NumKind.numeral, @itoa_eq_digits 16#32 (by decide) (by decide)]
    rfl

theorem lowByte (word : KUint32) : (word &&& ~~~0xFFFFFF00#32).setWidth 8 = word.setWidth 8 := by
  ext i hi
  simp only [BitVec.getElem_setWidth, BitVec.getLsbD_and, BitVec.getLsbD_not]
  interval_cases i <;> simp

/-- The characters of an unpadded piece. -/
theorem Piece.bytes_zero (cstring : KUint32 → List KUint8) (word : KUint32) (p : Piece) :
    p.bytes cstring 0 word = p.rendering cstring word := by
  cases p with
  | lit _ | str => rfl
  | chr => rw [bytes, rendering, lowByte]
  | num kind | padded _ kind => rw [bytes, rendering, pad_zero, kind.numeral_eq]

theorem render_unpadded {va : VaList} {ap : Nat} {p : Piece} {f : List Piece} (hw : p.width 0 = 0) :
    render va 0 ap (p :: f) = p.rendering va.cstring (va.words ap) ++ render va 0 (ap + p.args) f := by
  rw [render, hw, Piece.bytes_zero]

/-- The words from argument `ap` on are `args`. -/
def VaList.Holds (va : VaList) (ap : Nat) (args : List KUint32) : Prop :=
  ∀ i (hi : i < args.length), va.words (ap + i) = args[i]

theorem VaList.Holds.cons {va : VaList} {ap : Nat} {word : KUint32} {args : List KUint32}
    (h : va.Holds ap (word :: args)) : va.words ap = word ∧ va.Holds (ap + 1) args := by
  refine ⟨h 0 (Nat.succ_pos _), fun i hi => ?_⟩
  rw [Nat.add_assoc, Nat.add_comm 1 i]
  exact h (i + 1) (Nat.succ_lt_succ hi)

theorem Matching.render {f : List Piece} {args : List KUint32} (h : Matching f args) {va : VaList} : ∀ {ap : Nat},
    va.Holds ap args → Display.render va 0 ap f = rendering va.cstring f args := by
  induction h with
  | nil => exact fun _ => rfl
  | lit _ ih =>
    intro ap hva
    rw [render_unpadded rfl, rendering]
    exact congrArg _ (ih hva)
  | str _ ih | chr _ ih | dec _ _ _ ih | hex _ ih =>
    intro ap hva
    obtain ⟨hfirst, hrest⟩ := hva.cons
    rw [render_unpadded rfl, rendering, hfirst]
    exact congrArg _ (ih hrest)

/-! ## A call on its own -/

/-- A step of a call that nothing interrupts. -/
def Call.Alone (a b : Call × Shared) : Prop := Call.Step a.1 a.2 b.1 b.2

theorem Call.Step.alone {t t' : Call} {s s' : Shared} (h : Call.Step t s t' s') : Call.Alone (t, s) (t', s') := h

theorem Call.alone_rightUnique : Relator.RightUnique Call.Alone := by
  rintro ⟨t, s⟩ ⟨t₁, s₁⟩ ⟨t₂, s₂⟩ h₁ h₂
  unfold Call.Alone at h₁ h₂
  cases h₁ with
  | test _ => cases h₂; rfl
  | set => cases h₂; rfl
  | emit => cases h₂; rfl
  | iterate hc hiter =>
    cases h₂ with
    | iterate _ hiter' =>
      rw [hiter, Option.some.injEq, Prod.mk.injEq] at hiter'
      obtain ⟨rfl, rfl⟩ := hiter'
      rfl
    | unlock hend => omega
  | unlock hend =>
    cases h₂ with
    | iterate hc _ => omega
    | unlock _ => rfl

section

variable {fmt : CString} {va : VaList} {s : Shared}

/-- The pending calls of an iteration are made one after the other. -/
theorem Call.emits (c : Cursor) : ∀ (es : List Emitted) (s : Shared),
    Run.Reach Call.Alone (⟨fmt, va, .format es c⟩, s)
      (⟨fmt, va, .format [] c⟩, { s with output := s.output ++ es })
  | [], s => by rw [List.append_nil]
  | e :: es, s => by
    have hrest := Call.emits c es { s with output := s.output ++ [e] }
    rw [List.append_assoc] at hrest
    exact .head Call.Step.emit.alone hrest

/-- The steps of the loop of `kvprintf`. -/
theorem Call.loops : ∀ {fuel : Nat} {c last : Cursor} {out : List Emitted} {s : Shared},
    kvprintfLoop s.numDisplays fmt va fuel c = some (out, last) →
    Run.Reach Call.Alone (⟨fmt, va, .format [] c⟩, s)
      (⟨fmt, va, .format [] last⟩, { s with output := s.output ++ out })
  | 0, c, last, out, s, h => by
    cases h
    rw [List.append_nil]
  | fuel + 1, c, last, out, s, h => by
    unfold kvprintfLoop at h
    split at h
    · rename_i hc
      obtain ⟨⟨es, c'⟩, hiter, h⟩ := Option.bind_eq_some_iff.1 h
      obtain ⟨⟨rest, last⟩, hrest, h⟩ := Option.map_eq_some_iff.1 h
      cases h
      have hloop := @Call.loops fuel c' last rest { s with output := s.output ++ es } hrest
      rw [List.append_assoc] at hloop
      exact .head (Call.Step.iterate hc hiter).alone ((Call.emits c' es s).trans hloop)
    · cases h
      rw [List.append_nil]

/-- A call that finds the mutex free makes the calls of its loop and leaves it free. -/
theorem Call.ends (hs : s.locked = 0#8) {last : Cursor} {out : List Emitted}
    (h : kvprintfLoop s.numDisplays fmt va fmt.strlen Cursor.start = some (out, last))
    (hlast : fmt.strlen ≤ last.i) :
    Run.Ends Call.Alone (⟨fmt, va, .lock⟩, s) (⟨fmt, va, .returned⟩, ⟨0#8, s.numDisplays, s.output ++ out⟩) := by
  refine Run.Ends.of_reach Call.alone_rightUnique ?_ fun a ha => by cases ha
  have hloop := @Call.loops fmt va fmt.strlen Cursor.start last out { s with locked := 1#8 } h
  have hlock : Run.Reach Call.Alone (⟨fmt, va, .lock⟩, s)
      (⟨fmt, va, .format [] Cursor.start⟩, { s with locked := 1#8 }) :=
    .head (Call.Step.test hs).alone (.single Call.Step.set.alone)
  exact (hlock.trans hloop).tail (Call.Step.unlock hlast).alone

end

/-- On a format of literals and unpadded directives `kvprintf` sends every display the literals and
the renderings of the arguments, takes every argument once, and leaves the mutex unlocked. -/
theorem kvprintf_renders {f : List Piece} {args : List KUint32} (hm : Matching f args) {fmt : CString}
    (h : fmt.Spells (f.flatMap Piece.text)) {va : VaList} (hva : va.Holds 0 args) {s : Shared}
    (hs : s.locked = 0#8) :
    ∃ out last, kvprintfLoop s.numDisplays fmt va fmt.strlen Cursor.start = some (out, last) ∧
      last.ap = args.length ∧
      (∀ d, sent d out = if d < s.numDisplays then rendering va.cstring f args else []) ∧
      Run.Ends Call.Alone (⟨fmt, va, .lock⟩, s) (⟨fmt, va, .returned⟩, ⟨0#8, s.numDisplays, s.output ++ out⟩) := by
  have hloop := kvprintfLoop_start s.numDisplays va h
  refine ⟨_, _, hloop, hm.length.symm, fun d => ?_, Call.ends hs hloop (le_refl _)⟩
  rw [sent_calls, hm.render hva]

def colon : Literal := ⟨ascii ':', by decide, by decide⟩

/-- `"%d:%x"` and its arguments. -/
def colonFormat : List Piece := [.num .d, .lit colon, .num .x]
def colonArgs : VaList := .ofArgs [25#32, 0xFFFFFFFF#32] fun _ => []

theorem kvprintf_renders_colon : ∃ out last,
    kvprintfLoop 2 (formatString colonFormat) colonArgs 5 Cursor.start = some (out, last) ∧ last.ap = 2 ∧
    sent 1 out = rendering (fun _ => []) colonFormat [25#32, 0xFFFFFFFF#32] ∧
    Run.Ends Call.Alone (⟨formatString colonFormat, colonArgs, .lock⟩, ⟨0#8, 2, []⟩)
      (⟨formatString colonFormat, colonArgs, .returned⟩, ⟨0#8, 2, out⟩) := by
  have hva : colonArgs.Holds 0 [25#32, 0xFFFFFFFF#32] := by
    intro i hi
    rw [Nat.zero_add]
    exact List.getD_eq_getElem _ _ hi
  obtain ⟨out, last, hloop, hap, hsent, hends⟩ := @kvprintf_renders colonFormat _
    (@Matching.dec .d _ _ _ (by decide) (by decide) (.lit (.hex .nil))) _ (formatString_spells _) _ hva ⟨0#8, 2, []⟩ rfl
  exact ⟨out, last, hloop, hap, hsent 1, hends⟩

/-! ## Signed numbers -/

/-- The arguments with the word `c` as argument `k`. -/
def VaList.set (va : VaList) (k : Nat) (c : KUint32) : VaList :=
  { va with words := Function.update va.words k c }

/-- With `c` as argument `k` every display is sent the signed numeral of `c` between two texts, and
no other integer gives the same output. -/
def PrintsSigned (n : Nat) (fmt : CString) (va : VaList) (k : Nat) (before after : List KUint8) (c : KUint32) :
    Prop :=
  ∃ out text, kvprintf n fmt (va.set k c) = some out ∧ (∀ d < n, sent d out = before ++ text ++ after) ∧
    Numeral.SpellsInt digitChar (ascii '-') 10 c.toInt text ∧
    ∀ c' ≠ c, ∀ out', kvprintf n fmt (va.set k c') = some out' → ∀ d < n, sent d out' ≠ sent d out

/-- A plain `%d` or `%i` prints the numeral of the word, taken as unsigned. -/
theorem kvprintf_num {kind : NumKind} (hk : kind ≠ .x) {f₁ f₂ : List Piece} (hw : lastWidth 0 f₁ = 0)
    {fmt : CString} (h : fmt.Spells ((f₁ ++ .num kind :: f₂).flatMap Piece.text)) (va : VaList) (n : Nat)
    (c : KUint32) :
    ∃ out, kvprintf n fmt (va.set (argCount f₁) c) = some out ∧ ∀ d < n, sent d out =
      render va 0 0 f₁ ++ (Numeral.digits 10 c.toNat).map digitChar ++ render va 0 (argCount f₁ + 1) f₂ := by
  refine ⟨_, kvprintf_pieces n _ h, fun d hd => ?_⟩
  have hbefore : render (va.set (argCount f₁) c) 0 0 f₁ = render va 0 0 f₁ :=
    @render_congr va (va.set (argCount f₁) c) rfl _ _ 0 0 fun i hi => Function.update_of_ne (by omega) ..
  have hafter : render (va.set (argCount f₁) c) 0 (argCount f₁ + 1) f₂ = render va 0 (argCount f₁ + 1) f₂ :=
    @render_congr va (va.set (argCount f₁) c) rfl _ _ (argCount f₁ + 1) _ fun i _ => Function.update_of_ne (by omega) ..
  have hbase : kind.base = 10 := by
    cases kind with
    | d | i => rfl
    | x => exact absurd rfl hk
  have hword : (va.set (argCount f₁) c).words (argCount f₁) = c := Function.update_self ..
  rw [sent_calls, if_pos hd, render_append, hw, Nat.zero_add, render_unpadded rfl, hbefore, hword, Piece.rendering,
    NumKind.rendering, hbase, List.append_assoc]
  exact congrArg _ (congrArg _ hafter)

theorem digitChar_ne_minus {d : Nat} (h : d < 16) : digitChar d ≠ ascii '-' := by
  interval_cases d <;> decide

theorem spells_decimal (c : KUint32) :
    Numeral.Spells digitChar 10 c.toNat ((Numeral.digits 10 c.toNat).map digitChar) :=
  (Numeral.spells_iff digitChar (by omega)).2 rfl

/-- A negative number is not spelled by digits alone. -/
theorem not_spellsInt_digits {z : Int} (hz : z < 0) (m : Nat) :
    ¬ Numeral.SpellsInt digitChar (ascii '-') 10 z ((Numeral.digits 10 m).map digitChar) := by
  unfold Numeral.SpellsInt
  rw [if_pos hz]
  rintro ⟨rest, -, h⟩
  have hmem : ascii '-' ∈ (Numeral.digits 10 m).map digitChar := by
    rw [h]
    exact List.mem_cons_self
  obtain ⟨d, hd, hminus⟩ := List.mem_map.1 hmem
  exact digitChar_ne_minus (((Numeral.canonical_digits (by omega) m).lt d hd).trans (by omega)) hminus

/-- `%d` and `%i` print the signed numeral exactly for the integers that are not negative, or when
nothing is displayed. -/
theorem kvprintf_signed_iff {kind : NumKind} (hk : kind ≠ .x) {f₁ f₂ : List Piece} (hw : lastWidth 0 f₁ = 0)
    {fmt : CString} (h : fmt.Spells ((f₁ ++ .num kind :: f₂).flatMap Piece.text)) (va : VaList) (n : Nat)
    (c : KUint32) :
    PrintsSigned n fmt va (argCount f₁) (render va 0 0 f₁) (render va 0 (argCount f₁ + 1) f₂) c ↔
      n = 0 ∨ 0 ≤ c.toInt := by
  obtain ⟨out, hout, hsent⟩ := kvprintf_num hk hw h va n c
  constructor
  · rintro ⟨out', text, hout', hsent', hspells, -⟩
    rw [hout, Option.some.injEq] at hout'
    subst hout'
    by_contra hneg
    obtain ⟨hn, hneg⟩ := not_or.1 hneg
    have htext := (hsent' 0 (by omega)).symm.trans (hsent 0 (by omega))
    rw [List.append_cancel_left (List.append_cancel_right htext)] at hspells
    exact not_spellsInt_digits (by omega) _ hspells
  · intro hc
    have hdistinct : ∀ c' ≠ c, ∀ out', kvprintf n fmt (va.set (argCount f₁) c') = some out' →
        ∀ d < n, sent d out' ≠ sent d out := by
      intro c' hne out' hout' d hd heq
      obtain ⟨out'', hout'', hsent'⟩ := kvprintf_num hk hw h va n c'
      rw [hout', Option.some.injEq] at hout''
      subst hout''
      rw [hsent d hd, hsent' d hd] at heq
      have htext := List.append_cancel_left (List.append_cancel_right heq)
      exact hne (BitVec.eq_of_toNat_eq
        (Numeral.Spells.right_unique (digitChar_injOn (by omega)) (htext ▸ spells_decimal c') (spells_decimal c)))
    rcases hc with rfl | hc
    · obtain ⟨text, htext⟩ := Numeral.exists_spellsInt digitChar (ascii '-') (by omega : 1 < 10) c.toInt
      exact ⟨out, text, hout, fun d hd => absurd hd (Nat.not_lt_zero d), htext, hdistinct⟩
    · refine ⟨out, _, hout, hsent, ?_, hdistinct⟩
      unfold Numeral.SpellsInt
      rw [if_neg (by omega), show c.toInt.natAbs = c.toNat by rw [BitVec.toInt_eq_toNat_cond] at hc ⊢; omega]
      exact spells_decimal c

theorem kvprintf_signed_seven :
    PrintsSigned 1 (formatString [.num .d]) (.ofArgs [] fun _ => []) 0 [] [] 7#32 :=
  (@kvprintf_signed_iff .d (by decide) [] [] rfl _ (formatString_spells [.num .d]) (.ofArgs [] fun _ => []) 1
    7#32).2 (.inr (by decide))

/-- The word of `-1` is printed as 4294967295. -/
theorem kvprintf_minus_one :
    ¬ PrintsSigned 1 (formatString [.num .d]) (.ofArgs [] fun _ => []) 0 [] [] 0xFFFFFFFF#32 := by
  rintro ⟨out, text, hout, hsent, hspells, -⟩
  obtain ⟨out', hout', hsent'⟩ := @kvprintf_num .d (by decide) [] [] rfl _ (formatString_spells [.num .d])
    (.ofArgs [] fun _ => []) 1 0xFFFFFFFF#32
  have heq : out' = out := Option.some.inj (hout'.symm.trans hout)
  have htext := (hsent 0 (by omega)).symm.trans (heq ▸ hsent' 0 (by omega))
  rw [List.append_cancel_left (List.append_cancel_right htext)] at hspells
  exact not_spellsInt_digits (by decide) _ hspells

end Aeon.Display
