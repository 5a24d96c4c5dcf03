/-
`kvprintf` on well-formed formats: strings made of literal characters and directives. An iteration
of the loop takes one piece, and what the displays are sent is a fold over the pieces with two
pieces of state, the argument and the padding width. The width of a `%0N` directive is never reset,
so it pads the plain numbers after it as well.
-/
import Aeon.Display.Format

namespace Aeon.Display

/-! ## Pieces of a format -/

inductive NumKind where
  | d
  | i
  | x
  deriving DecidableEq

def NumKind.letter : NumKind → KUint8
  | .d => ascii 'd'
  | .i => ascii 'i'
  | .x => ascii 'x'

/-- The numeral `kvprintf` prints for an argument, before padding. -/
def NumKind.numeral : NumKind → KUint32 → List KUint8
  | .d, word => (itoaS word 10#32).getD []
  | .i, word => (itoaS word 10#32).getD []
  | .x, word => (itoa word 16#32).getD []

/-- A character that stands for itself. -/
structure Literal where
  char : KUint8
  notPercent : char ≠ ascii '%'
  notNul : char ≠ 0#8

inductive Piece where
  | lit (c : Literal)
  | str
  | chr
  | num (kind : NumKind)
  | padded (width : Fin 10) (kind : NumKind)

def digit (width : Fin 10) : KUint8 := BitVec.ofNat 8 (0x30 + width)

namespace Piece

def text : Piece → List KUint8
  | lit c => [c.char]
  | str => [ascii '%', ascii 's']
  | chr => [ascii '%', ascii 'c']
  | num kind => [ascii '%', kind.letter]
  | padded width kind => [ascii '%', ascii '0', digit width, kind.letter]

/-- The number of arguments the piece takes. -/
def args : Piece → Nat
  | lit _ => 0
  | _ => 1

/-- The padding width from the piece on, `w` being the one before it. -/
def width (w : Int) : Piece → Int
  | padded width _ => width
  | _ => w

/-- The calls for a piece whose argument is `word`, with the padding width `w`. -/
def calls (n : Nat) (cstring : KUint32 → List KUint8) (w : Int) (word : KUint32) : Piece → List Emitted
  | lit c => displayPutc n c.char
  | str => displayPuts n (cstring word)
  | chr => displayPutc n ((word &&& ~~~0xFFFFFF00#32).setWidth 8)
  | num kind => displayPadded n w (kind.numeral word)
  | padded _ kind => displayPadded n w (kind.numeral word)

theorem text_length_pos : ∀ p : Piece, 0 < p.text.length
  | lit _ | str | chr | num _ | padded _ _ => by simp [text]

theorem nul_not_mem_text : ∀ p : Piece, 0#8 ∉ p.text
  | lit c => by simpa [text] using c.notNul.symm
  | str => by decide
  | chr => by decide
  | num kind => by cases kind <;> decide
  | padded width kind => by
    revert width
    cases kind <;> decide

end Piece

/-! ## One iteration -/

section

variable {n : Nat} {fmt : CString} {va : VaList} {c : Cursor}

theorem directive_num {kind : NumKind} (h : fmt.bytes (c.i + 1) = kind.letter) : directive n fmt va c =
    some (displayPadded n c.numWidth (kind.numeral (va.words c.ap)), { c with i := c.i + 2, ap := c.ap + 1 }) := by
  obtain ⟨dec, hdec⟩ := Option.isSome_iff_exists.1 (itoaS_isSome (va.words c.ap))
  obtain ⟨hex, hhex⟩ := Option.isSome_iff_exists.1 (@itoa_isSome 16#32 (by decide) (va.words c.ap))
  simp only [directive, h]
  cases kind
  · rw [if_neg (by decide), if_pos (by decide)]
    simp [NumKind.numeral, hdec]
  · rw [if_neg (by decide), if_pos (by decide)]
    simp [NumKind.numeral, hdec]
  · rw [if_neg (by decide), if_neg (by decide), if_pos (by decide)]
    simp [NumKind.numeral, hhex]

theorem digit_width : ∀ width : Fin 10, (digit width).toInt - (ascii '0').toInt = width := by decide

theorem readWidth_plain {b : KUint8} (h : fmt.bytes (c.i + 1) = b) (hb : b ≠ ascii '0') : readWidth fmt c = c := by
  rw [readWidth, h, if_neg hb]

/-- An iteration takes one piece. -/
theorem kvprintfIter_piece (p : Piece) (h : fmt.At c.i p.text) : kvprintfIter n fmt va c =
    some (p.calls n va.cstring (p.width c.numWidth) (va.words c.ap),
      ⟨c.i + p.text.length, p.width c.numWidth, c.ap + p.args⟩) := by
  cases p with
  | lit ch =>
    obtain ⟨h0, -⟩ := h
    rw [kvprintfIter, h0, if_neg ch.notPercent]
    rfl
  | str =>
    obtain ⟨h0, h1, -⟩ := h
    rw [kvprintfIter, if_pos h0, readWidth_plain h1 (by decide)]
    simp only [directive, h1]
    rfl
  | chr =>
    obtain ⟨h0, h1, -⟩ := h
    rw [kvprintfIter, if_pos h0, readWidth_plain h1 (by decide)]
    simp only [directive, h1]
    rfl
  | num kind =>
    obtain ⟨h0, h1, -⟩ := h
    rw [kvprintfIter, if_pos h0, readWidth_plain h1 (by cases kind <;> decide), directive_num h1]
    rfl
  | padded width kind =>
    obtain ⟨h0, h1, h2, h3, -⟩ := h
    rw [kvprintfIter, if_pos h0, readWidth, if_pos h1, directive_num h3, h2, digit_width]
    rfl

end

/-! ## The loop -/

/-- The calls for the pieces of a format, from the padding width `w` and argument `ap` on. -/
def calls (n : Nat) (va : VaList) : (w : Int) → (ap : Nat) → List Piece → List Emitted
  | _, _, [] => []
  | w, ap, p :: f => p.calls n va.cstring (p.width w) (va.words ap) ++ calls n va (p.width w) (ap + p.args) f

def argCount (f : List Piece) : Nat := (f.map Piece.args).sum

theorem argCount_cons (p : Piece) (f : List Piece) : argCount (p :: f) = p.args + argCount f := List.sum_cons

/-- The padding width after the pieces of a format, `w` being the one before. -/
def lastWidth : Int → List Piece → Int
  | w, [] => w
  | w, p :: f => lastWidth (p.width w) f

/-- From the start of its last pieces the loop makes the calls for them, and reads their arguments. -/
theorem kvprintfLoop_pieces {n : Nat} {fmt : CString} {va : VaList} : ∀ {f : List Piece} {fuel : Nat} {c : Cursor},
    fmt.At c.i (f.flatMap Piece.text) → c.i + (f.flatMap Piece.text).length = fmt.strlen →
    fmt.strlen ≤ c.i + fuel →
    kvprintfLoop n fmt va fuel c =
      some (calls n va c.numWidth c.ap f, ⟨fmt.strlen, lastWidth c.numWidth f, c.ap + argCount f⟩)
  | [], fuel, c, _, hend, _ => by
    rw [List.flatMap_nil, List.length_nil, Nat.add_zero] at hend
    have hlast : (⟨fmt.strlen, lastWidth c.numWidth [], c.ap + argCount []⟩ : Cursor) = c := by
      rw [← hend]
      rfl
    rw [hlast]
    cases fuel with
    | zero => rfl
    | succ fuel =>
      rw [kvprintfLoop, if_neg (by omega)]
      rfl
  | p :: f, fuel, c, hat, hend, hfuel => by
    have hpos := p.text_length_pos
    rw [List.flatMap_cons, CString.at_append] at hat
    rw [List.flatMap_cons, List.length_append] at hend
    cases fuel with
    | zero => omega
    | succ fuel =>
      have hrest := @kvprintfLoop_pieces n fmt va f fuel
        ⟨c.i + p.text.length, p.width c.numWidth, c.ap + p.args⟩ hat.2 (by rw [← hend]; exact Nat.add_assoc _ _ _)
        (show fmt.strlen ≤ c.i + p.text.length + fuel by omega)
      rw [kvprintfLoop, if_pos (by omega), kvprintfIter_piece p hat.1, Option.bind_some]
      simp only [hrest, Option.map_some, calls, lastWidth, argCount_cons, Nat.add_assoc]

/-- The loop on a whole well-formed format. -/
theorem kvprintfLoop_start (n : Nat) {fmt : CString} (va : VaList) {f : List Piece}
    (h : fmt.Spells (f.flatMap Piece.text)) : kvprintfLoop n fmt va fmt.strlen Cursor.start =
      some (calls n va 0 0 f, ⟨fmt.strlen, lastWidth 0 f, argCount f⟩) := by
  have hlen : Cursor.start.i + (f.flatMap Piece.text).length = fmt.strlen := by
    rw [h.length]
    exact Nat.zero_add _
  rw [kvprintfLoop_pieces h.chars hlen (Nat.le_add_left ..)]
  simp [Cursor.start]

/-- `kvprintf` of a well-formed format. -/
theorem kvprintf_pieces (n : Nat) {fmt : CString} (va : VaList) {f : List Piece}
    (h : fmt.Spells (f.flatMap Piece.text)) : kvprintf n fmt va = some (calls n va 0 0 f) := by
  rw [kvprintf, kvprintfLoop_start n va h]
  rfl

/-! ## What a display is sent -/

def DisplayCall.bytes : DisplayCall → List KUint8
  | .putc c => [c]
  | .puts str => str

/-- The characters that display `d` is sent. -/
def sent (d : Nat) (out : List Emitted) : List KUint8 :=
  out.flatMap fun e => if e.display = d then e.call.bytes else []

theorem sent_append (d : Nat) (out out' : List Emitted) : sent d (out ++ out') = sent d out ++ sent d out' :=
  List.flatMap_append

/-- A call made of every display reaches display `d` once, if it is registered. -/
theorem sent_broadcast (d : Nat) (call : DisplayCall) : ∀ n,
    sent d ((List.range n).map fun i => ⟨i, call⟩) = if d < n then call.bytes else []
  | 0 => rfl
  | n + 1 => by
    rw [List.range_succ, List.map_append, sent_append, sent_broadcast d call n]
    by_cases h : d = n
    · subst h
      simp [sent]
    · have hne : n ≠ d := fun h' => h h'.symm
      by_cases hlt : d < n
      · rw [if_pos hlt, if_pos (by omega)]
        simp [sent, hne]
      · rw [if_neg hlt, if_neg (by omega)]
        simp [sent, hne]

/-- A numeral padded with zeros to width `w`. -/
def pad (w : Int) (str : List KUint8) : List KUint8 :=
  List.replicate (w - str.length).toNat (ascii '0') ++ str

theorem sent_displayPadded (d n : Nat) (w : Int) (str : List KUint8) :
    sent d (displayPadded n w str) = if d < n then pad w str else [] := by
  have hzeros : ∀ k, sent d (List.replicate k (displayPutc n (ascii '0'))).flatten =
      if d < n then List.replicate k (ascii '0') else [] := by
    intro k
    induction k with
    | zero => simp [sent]
    | succ k ih =>
      rw [List.replicate_succ, List.flatten_cons, sent_append, ih, displayPutc, sent_broadcast]
      split <;> rfl
  rw [displayPadded, sent_append, hzeros, displayPuts, sent_broadcast]
  split <;> rfl

/-- The characters of a piece whose argument is `word`, with the padding width `w`. -/
def Piece.bytes (cstring : KUint32 → List KUint8) (w : Int) (word : KUint32) : Piece → List KUint8
  | lit c => [c.char]
  | str => cstring word
  | chr => [(word &&& ~~~0xFFFFFF00#32).setWidth 8]
  | num kind => pad w (kind.numeral word)
  | padded _ kind => pad w (kind.numeral word)

theorem sent_calls_piece (d n : Nat) (cstring : KUint32 → List KUint8) (w : Int) (word : KUint32) (p : Piece) :
    sent d (p.calls n cstring w word) = if d < n then p.bytes cstring w word else [] := by
  cases p
  · exact sent_broadcast d _ n
  · exact sent_broadcast d _ n
  · exact sent_broadcast d _ n
  · exact sent_displayPadded d n w _
  · exact sent_displayPadded d n w _

/-- The characters of the pieces of a format. -/
def render (va : VaList) : (w : Int) → (ap : Nat) → List Piece → List KUint8
  | _, _, [] => []
  | w, ap, p :: f => p.bytes va.cstring (p.width w) (va.words ap) ++ render va (p.width w) (ap + p.args) f

theorem sent_calls (d n : Nat) (va : VaList) : ∀ (f : List Piece) (w : Int) (ap : Nat),
    sent d (calls n va w ap f) = if d < n then render va w ap f else []
  | [], _, _ => by simp [calls, render, sent]
  | p :: f, w, ap => by
    rw [calls, sent_append, sent_calls_piece, sent_calls d n va f]
    split <;> rfl

/-! ## Two formats in a row -/

/-- The arguments of a call, with the memory their pointers point to. -/
def VaList.ofArgs (args : List KUint32) (cstring : KUint32 → List KUint8) : VaList :=
  ⟨fun i => args.getD i 0#32, cstring⟩

theorem render_append (va : VaList) : ∀ (f₁ f₂ : List Piece) (w : Int) (ap : Nat),
    render va w ap (f₁ ++ f₂) = render va w ap f₁ ++ render va (lastWidth w f₁) (ap + argCount f₁) f₂
  | [], f₂, w, ap => by simp [render, lastWidth, argCount]
  | p :: f₁, f₂, w, ap => by
    rw [List.cons_append, render, render, render_append va f₁, List.append_assoc, lastWidth, argCount_cons,
      Nat.add_assoc]

/-- Only the arguments a format takes matter to it. -/
theorem render_congr {va va' : VaList} (hc : va'.cstring = va.cstring) : ∀ {f : List Piece} {w : Int} {ap ap' : Nat},
    (∀ i < argCount f, va'.words (ap' + i) = va.words (ap + i)) → render va' w ap' f = render va w ap f
  | [], _, _, _, _ => rfl
  | p :: f, w, ap, ap', h => by
    rw [argCount_cons] at h
    have hrest : render va' (p.width w) (ap' + p.args) f = render va (p.width w) (ap + p.args) f := by
      refine render_congr hc fun i hi => ?_
      rw [Nat.add_assoc, Nat.add_assoc]
      exact h _ (Nat.add_lt_add_left hi _)
    have hfirst : p.bytes va'.cstring (p.width w) (va'.words ap') = p.bytes va.cstring (p.width w) (va.words ap) := by
      rw [hc]
      cases p with
      | lit _ => rfl
      | _ =>
        have := h 0 (by simp [Piece.args])
        rw [Nat.add_zero, Nat.add_zero] at this
        rw [this]
    rw [render, render, hfirst, hrest]

/-- The pieces of a format from argument `ap` on come out the same with the padding width `w` as
with none: the numerals of its plain numbers before its first padded one have `w` characters. -/
def Unaffected (va : VaList) (w : Int) : (ap : Nat) → List Piece → Prop
  | _, [] => True
  | _, .padded _ _ :: _ => True
  | ap, .num kind :: f => w ≤ (kind.numeral (va.words ap)).length ∧ Unaffected va w (ap + 1) f
  | ap, p :: f => Unaffected va w (ap + p.args) f

theorem pad_eq_self {w : Int} {str : List KUint8} : pad w str = str ↔ w ≤ str.length := by
  rw [pad]
  constructor
  · intro h
    have := congrArg List.length h
    rw [List.length_append, List.length_replicate] at this
    omega
  · intro h
    rw [show (w - str.length).toNat = 0 by omega]
    rfl

theorem pad_zero (str : List KUint8) : pad 0 str = str := pad_eq_self.2 (Int.natCast_nonneg _)

/-- A padding width never makes the output shorter. -/
theorem render_length_le (va : VaList) (w : Int) : ∀ (f : List Piece) (ap : Nat),
    (render va 0 ap f).length ≤ (render va w ap f).length
  | [], _ => le_refl _
  | .padded _ _ :: f, ap => le_refl _
  | .num kind :: f, ap => by
    have ih := render_length_le va w f (ap + 1)
    simp only [render, Piece.bytes, Piece.width, Piece.args, List.length_append, pad_zero]
    rw [pad, List.length_append]
    omega
  | .lit _ :: f, ap | .str :: f, ap | .chr :: f, ap => by
    have ih := render_length_le va w f
    simp only [render, Piece.bytes, Piece.width, Piece.args, List.length_append]
    exact Nat.add_le_add_left (ih _) _

theorem render_eq_iff (va : VaList) (w : Int) : ∀ (f : List Piece) (ap : Nat),
    render va w ap f = render va 0 ap f ↔ Unaffected va w ap f
  | [], _ => by simp [render, Unaffected]
  | .padded _ _ :: f, ap => by simp [render, Unaffected, Piece.bytes, Piece.width]
  | .num kind :: f, ap => by
    have ih := render_eq_iff va w f (ap + 1)
    have hle := render_length_le va w f (ap + 1)
    simp only [render, Unaffected, Piece.bytes, Piece.width, Piece.args, pad_zero]
    constructor
    · intro h
      -- nothing can make up for a padding zero
      have hlen := congrArg List.length h
      simp only [List.length_append, pad, List.length_replicate] at hlen
      have hw : w ≤ (kind.numeral (va.words ap)).length := by omega
      rw [pad_eq_self.2 hw] at h
      exact ⟨hw, ih.1 (List.append_cancel_left h)⟩
    · rintro ⟨hw, hrest⟩
      rw [pad_eq_self.2 hw, ih.2 hrest]
  | .lit _ :: f, ap | .str :: f, ap | .chr :: f, ap => by
    have ih := render_eq_iff va w f
    simp only [render, Unaffected, Piece.bytes, Piece.width, Piece.args, List.append_cancel_left_eq]
    exact ih _

/-- The output of a call whose format is two well-formed formats in a row is that of the calls for
each, on every display, exactly when no display is registered or no number of the second format is
padded to the last width of the first. -/
theorem kvprintf_append_iff (n : Nat) (cstring : KUint32 → List KUint8) {f₁ f₂ : List Piece} {a₁ a₂ : List KUint32}
    (ha : a₁.length = argCount f₁) {fmt₁ fmt₂ fmt : CString} (h₁ : fmt₁.Spells (f₁.flatMap Piece.text))
    (h₂ : fmt₂.Spells (f₂.flatMap Piece.text)) (h : fmt.Spells ((f₁ ++ f₂).flatMap Piece.text)) :
    (∃ out₁ out₂ out, kvprintf n fmt₁ (.ofArgs a₁ cstring) = some out₁ ∧
      kvprintf n fmt₂ (.ofArgs a₂ cstring) = some out₂ ∧ kvprintf n fmt (.ofArgs (a₁ ++ a₂) cstring) = some out ∧
      ∀ d, sent d out = sent d out₁ ++ sent d out₂) ↔
    n = 0 ∨ Unaffected (.ofArgs a₂ cstring) (lastWidth 0 f₁) 0 f₂ := by
  have hfirst : render (.ofArgs (a₁ ++ a₂) cstring) 0 0 f₁ = render (.ofArgs a₁ cstring) 0 0 f₁ := by
    refine @render_congr (.ofArgs a₁ cstring) (.ofArgs (a₁ ++ a₂) cstring) rfl f₁ 0 0 0 fun i hi => ?_
    simp only [VaList.ofArgs, Nat.zero_add, List.getD_eq_getElem?_getD]
    rw [List.getElem?_append_left (by omega)]
  have hsecond : render (.ofArgs (a₁ ++ a₂) cstring) (lastWidth 0 f₁) (0 + argCount f₁) f₂ =
      render (.ofArgs a₂ cstring) (lastWidth 0 f₁) 0 f₂ := by
    refine @render_congr (.ofArgs a₂ cstring) (.ofArgs (a₁ ++ a₂) cstring) rfl f₂ _ 0 _ fun i _ => ?_
    simp only [VaList.ofArgs, Nat.zero_add, List.getD_eq_getElem?_getD, ← ha]
    rw [List.getElem?_append_right (by omega), Nat.add_sub_cancel_left]
  simp only [kvprintf_pieces n _ h₁, kvprintf_pieces n _ h₂, kvprintf_pieces n _ h, Option.some.injEq,
    exists_and_left, exists_eq_left', sent_calls, render_append, hfirst, hsecond]
  rw [← render_eq_iff]
  constructor
  · intro hd
    by_cases hn : n = 0
    · exact .inl hn
    · have := hd 0
      rw [if_pos (by omega), if_pos (by omega), if_pos (by omega)] at this
      exact .inr (List.append_cancel_left this)
  · rintro (rfl | heq) d
    · simp
    · rw [heq]
      split <;> rfl

/-- The string of a well-formed format. -/
def formatString (f : List Piece) : CString :=
  CString.ofList (f.flatMap Piece.text) fun h => by
    obtain ⟨p, -, hp⟩ := List.mem_flatMap.1 h
    exact p.nul_not_mem_text hp

theorem formatString_spells (f : List Piece) : (formatString f).Spells (f.flatMap Piece.text) :=
  CString.spells_ofList _

/-- `"%02x"` followed by `"%d"` with a number of two digits. -/
theorem kvprintf_append_wide : ∃ out₁ out₂ out,
    kvprintf 1 (formatString [.padded 2 .x]) (.ofArgs [7#32] fun _ => []) = some out₁ ∧
    kvprintf 1 (formatString [.num .d]) (.ofArgs [42#32] fun _ => []) = some out₂ ∧
    kvprintf 1 (formatString [.padded 2 .x, .num .d]) (.ofArgs [7#32, 42#32] fun _ => []) = some out ∧
    ∀ d, sent d out = sent d out₁ ++ sent d out₂ :=
  (@kvprintf_append_iff 1 (fun _ => []) [.padded 2 .x] [.num .d] [7#32] [42#32] rfl _ _ _ (formatString_spells _)
    (formatString_spells _) (formatString_spells _)).2 (.inr ⟨by decide, trivial⟩)

/-- `"%02d"` followed by `"%d"`: the second number is padded too. -/
theorem kvprintf_append_padded :
    ¬∀ (n : Nat) (cstring : KUint32 → List KUint8) (f₁ f₂ : List Piece) (a₁ a₂ : List KUint32),
      a₁.length = argCount f₁ → a₂.length = argCount f₂ →
      ∀ fmt₁ fmt₂ fmt : CString, fmt₁.Spells (f₁.flatMap Piece.text) → fmt₂.Spells (f₂.flatMap Piece.text) →
        fmt.Spells ((f₁ ++ f₂).flatMap Piece.text) →
        ∃ out₁ out₂ out, kvprintf n fmt₁ (.ofArgs a₁ cstring) = some out₁ ∧
          kvprintf n fmt₂ (.ofArgs a₂ cstring) = some out₂ ∧ kvprintf n fmt (.ofArgs (a₁ ++ a₂) cstring) = some out ∧
          ∀ d, sent d out = sent d out₁ ++ sent d out₂ := by
  intro h
  obtain ⟨out₁, out₂, out, h₁, h₂, h, hd⟩ := h 1 (fun _ => []) [.padded 2 .d] [.num .d] [7#32] [7#32] rfl rfl _ _ _
    (formatString_spells _) (formatString_spells _) (formatString_spells _)
  rw [kvprintf_pieces 1 _ (formatString_spells _), Option.some.injEq] at h₁ h₂ h
  have := hd 0
  rw [← h₁, ← h₂, ← h] at this
  exact absurd this (by decide)

end Aeon.Display
