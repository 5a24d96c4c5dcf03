/-
What `textmode_puts` leaves on the screen, against a terminal that lays the text out lazily in
lines of 80 and shows the last 24. The rows of the region, the one past the screen included, are a
window on an endless tape of lines: a line break moves the window on once the cursor has reached
the last row in use.
-/
import Aeon.Display.Cursor

namespace Aeon.Display

open Terminal

/-! ## The reference terminal -/

/-- `fgcol | bgcol << 4` as `textmode_init` sets them. -/
def screenColor : KUint8 := colorWhite ||| colorBlack <<< 4

/-- The cell of a screen that shows the last 24 lines from row 0 on and is blank elsewhere. -/
def referenceCell (l : ScreenLayout) (r c : Nat) : KUint16 :=
  screenColor ++ ((l.visible 24)[r]?.bind (·[c]?)).getD (ascii ' ')

/-! ## The tape -/

/-- Line `q` of the tape: its characters as the driver stores them, and blanks; the cells of line 25
past its end are those that row 25, which is never cleared, has had from the start. -/
def tapeCell (edge : Nat → KUint16) (l : ScreenLayout) (q c : Nat) : KUint16 :=
  match l.char q c with
  | some b => textmodeCreateEntry b screenColor
  | none => if q = 25 then edge c else textmodeCreateEntry (ascii ' ') screenColor

theorem tapeCell_newline (edge : Nat → KUint16) (l : ScreenLayout) (q c : Nat) :
    tapeCell edge l.newline q c = tapeCell edge l q c := by
  rw [tapeCell, tapeCell, l.char_newline]

theorem tapeCell_append (edge : Nat → KUint16) (l : ScreenLayout) (x : KUint8) (h : l.current.length < 80)
    (q c : Nat) : tapeCell edge (l.append x h) q c =
      if q = l.done.length ∧ c = l.current.length then textmodeCreateEntry x screenColor else tapeCell edge l q c := by
  rw [tapeCell, l.char_append]
  by_cases hx : q = l.done.length ∧ c = l.current.length
  · rw [if_pos hx, if_pos hx]
  · rw [if_neg hx, if_neg hx, tapeCell]

/-- The driver after it has printed a layout. -/
structure Shows (edge : Nat → KUint16) (t : Textmode) (l : ScreenLayout) : Prop where
  cx : t.console.cx = BitVec.ofNat 16 l.current.length
  cy : t.console.cy = BitVec.ofNat 16 (min l.done.length 23)
  entity : t.console.entity = screenColor
  cells : ∀ r ≤ 25, ∀ c < 80, cell t.memory r c = tapeCell edge l (r + (l.done.length - 23)) c

variable {edge : Nat → KUint16} {t : Textmode} {l : ScreenLayout}

theorem Shows.start (t : Textmode) :
    Shows (cell t.memory 25) (textmodeClear (textmodeInit t)) Layout.empty where
  cx := rfl
  cy := rfl
  entity := rfl
  cells := by
    intro r hr c hc
    rw [cell_textmodeClear _ hr hc, tapeCell, Layout.char_empty,
      show (Layout.empty : ScreenLayout).done.length = 0 from rfl]
    by_cases h25 : r < 25
    · rw [if_pos h25]
      exact (if_neg (by omega)).symm
    · obtain rfl : r = 25 := by omega
      rfl

theorem Shows.follows (h : Shows edge t l) : Follows t.console l := ⟨h.cx, h.cy⟩

/-- A line break: to the next row, or the window moves on and the row that comes into it is blank. -/
theorem Shows.newline (h : Shows edge t l) {c : KUint8} (hbreak : 80#16 ≤ t.console.cx ∨ c = ascii '\n') :
    Shows edge (keepRow (breakLine c t)) l.newline := by
  have hlines := l.length_lines
  have hscrolls := h.follows.scrolls_iff hbreak
  have hmemory : (breakLine c t).memory = t.memory := by rw [breakLine, if_pos hbreak]
  obtain ⟨hcx, hcy⟩ := h.follows.newline hbreak
  refine ⟨hcx, hcy, ((entity_keepRow _).trans (entity_breakLine c t)).trans h.entity, fun r hr k hk => ?_⟩
  rw [tapeCell_newline, l.done_newline, hlines]
  unfold keepRow
  by_cases hlast : l.done.length < 23
  · rw [if_neg (by rw [hscrolls]; omega), hmemory, show l.done.length + 1 - 23 = l.done.length - 23 by omega]
    exact h.cells r hr k hk
  · rw [if_pos (by rw [hscrolls]; omega)]
    change cell (textmodeScrollup (breakLine c t)).memory r k = _
    rw [cell_textmodeScrollup _ hr hk]
    by_cases h25 : r < 25
    · rw [if_pos h25, hmemory, h.cells (r + 1) h25 k hk]
      congr 1
      omega
    · rw [if_neg h25, entity_breakLine, tapeCell, l.char_of_lt (by omega)]
      exact (congrArg _ h.entity).trans (if_neg (by omega)).symm

theorem setWidth_ofNat {n : Nat} (h : n < 2 ^ 16) : (BitVec.ofNat 16 n).setWidth 32 = BitVec.ofNat 32 n := by
  apply BitVec.eq_of_toNat_eq
  rw [BitVec.toNat_setWidth, BitVec.toNat_ofNat, BitVec.toNat_ofNat]
  omega

theorem Shows.append (h : Shows edge t l) (c : KUint8) (hlt : l.current.length < 80) :
    Shows edge (storeChar c t) (l.append c hlt) := by
  have hptr : cellPtr (t.console.cy.setWidth 32) (t.console.cx.setWidth 32) =
      vgaMemory + BitVec.ofNat 32 (160 * min l.done.length 23 + 2 * l.current.length) := by
    rw [h.cx, h.cy, setWidth_ofNat (by omega), setWidth_ofNat (by omega), cellPtr_eq]
  have hmemory : (storeChar c t).memory = writeU16 t.memory
      (vgaMemory + BitVec.ofNat 32 (160 * min l.done.length 23 + 2 * l.current.length))
      (textmodeCreateEntry c screenColor) := by
    rw [← hptr, ← h.entity]
    rfl
  refine ⟨?_, h.cy, h.entity, fun r hr k hk => ?_⟩
  · rw [l.current_append, List.length_append, List.length_singleton, BitVec.ofNat_add, ← h.cx]
    rfl
  · rw [hmemory, cell_writeU16 _ _ (by omega) hlt hr hk, tapeCell_append, l.done_append, h.cells r hr k hk]
    congr 1
    simp only [eq_iff_iff]
    omega

theorem Shows.putc (h : Shows edge t l) {c : KUint8} (hc : c ≠ 0#8) :
    Shows edge (textmodePutc c t) (feedChar l c) := by
  rw [textmodePutc, if_neg hc, feedChar, Layout.feed]
  by_cases hnl : c = ascii '\n'
  · rw [if_pos hnl, if_pos hnl]
    exact h.newline (.inr hnl)
  · rw [if_neg hnl, if_neg hnl]
    by_cases hroom : l.current.length < 80
    · obtain ⟨hbreak, hkeep⟩ := h.follows.noBreak (by rw [h.follows.cx_ge]; tauto)
      rw [dif_pos hroom, hbreak, hkeep]
      exact h.append c hroom
    · rw [dif_neg hroom]
      exact (h.newline (.inl (h.follows.cx_ge.2 hroom))).append c (by rw [Layout.current_newline]; decide)

theorem Shows.puts (h : Shows edge t l) (s : List KUint8) :
    Shows edge (textmodePuts s t) ((s.takeWhile (· ≠ 0#8)).foldl feedChar l) := by
  induction s generalizing t l with
  | nil => exact h
  | cons c s ih =>
    rw [textmodePuts]
    by_cases hc : c = 0#8
    · rw [if_pos hc, List.takeWhile_cons_of_neg (by simpa using hc)]
      exact h
    · rw [if_neg hc, List.takeWhile_cons_of_pos (by simpa using hc)]
      exact ih (h.putc hc)

theorem shows_puts (t : Textmode) (str : List KUint8) :
    Shows (cell t.memory 25) (textmodePuts str (textmodeClear (textmodeInit t))) (layoutOf str) :=
  (Shows.start t).puts str

/-! ## The screen -/

theorem textmodeCreateEntry_eq_iff (b : KUint8) :
    textmodeCreateEntry b screenColor = screenColor ++ b ↔ b < 0x80#8 := by
  revert b
  decide

/-- A visible cell is the one of the reference terminal when it shows a character below `0x80`, or
none and is not an edge cell that has never been blank. -/
theorem Shows.cell_eq_iff (h : Shows edge t l) {r c : Nat} (hr : r < 25) (hc : c < 80) :
    cell t.memory r c = referenceCell l r c ↔
      (∀ b, l.char (r + (l.done.length - 23)) c = some b → b < 0x80#8) ∧
        (l.char (r + (l.done.length - 23)) c = none → r + (l.done.length - 23) = 25 →
          edge c = screenColor ++ ascii ' ') := by
  have hchar : (l.visible 24)[r]?.bind (·[c]?) = l.char (r + (l.done.length - 23)) c := by
    rw [l.visible_getElem?, show l.done.length + 1 - 24 = l.done.length - 23 by omega]
    rfl
  rw [h.cells r hr.le c hc, tapeCell, referenceCell, hchar]
  generalize r + (l.done.length - 23) = q
  cases l.char q c with
  | some b => simp [textmodeCreateEntry_eq_iff]
  | none =>
    by_cases hq : q = 25
    · simp [hq]
    · have hblank := (textmodeCreateEntry_eq_iff (ascii ' ')).2 (by decide)
      simpa [hq] using hblank

/-- The screen is the reference terminal's exactly when no shown byte has its high bit set and, as
long as line 25 is on the screen, what row 25 held before does not show past the end of that line. -/
theorem screen_iff (t : Textmode) (str : List KUint8) :
    (∀ r < 25, ∀ c < 80, cell (textmodePuts str (textmodeClear (textmodeInit t))).memory r c =
        referenceCell (layoutOf str) r c) ↔
      (∀ line ∈ (layoutOf str).visible 24, ∀ b ∈ line, b < 0x80#8) ∧
        (24 ≤ (layoutOf str).done.length → (layoutOf str).done.length ≤ 48 →
          ∀ c < 80, (layoutOf str).char 25 c = none → cell t.memory 25 c = screenColor ++ ascii ' ') := by
  have h := shows_puts t str
  generalize layoutOf str = l at h ⊢
  rw [Layout.forall_visible_iff, show l.done.length + 1 - 24 = l.done.length - 23 by omega]
  constructor
  · intro hscreen
    refine ⟨fun r hr c hc b hb => ?_, fun h24 h48 c hc hnone => ?_⟩
    · have hr25 : r < 25 := by omega
      exact ((h.cell_eq_iff hr25 hc).1 (hscreen r hr25 c hc)).1 b hb
    · -- line 25 is in row `25 - S` after `S` scrolls
      have hrow : 25 - (l.done.length - 23) + (l.done.length - 23) = 25 := by omega
      have hr25 : 25 - (l.done.length - 23) < 25 := by omega
      refine ((h.cell_eq_iff hr25 hc).1 (hscreen _ hr25 c hc)).2 ?_ hrow
      rw [hrow]
      exact hnone
  · rintro ⟨hplain, hedge⟩ r hr c hc
    refine (h.cell_eq_iff hr hc).2 ⟨fun b hb => ?_, fun hnone hrow => ?_⟩
    · by_cases hr24 : r < 24
      · exact hplain r hr24 c hc b hb
      · rw [l.char_of_lt (by omega)] at hb
        cases hb
    · rw [hrow] at hnone
      exact hedge (by omega) (by omega) c hc hnone

/-- A byte from `0x80` on: its sign bit ends up in the colour. -/
theorem screen_highByte : ¬ ∀ (t : Textmode) (str : List KUint8), ∀ r < 25, ∀ c < 80,
    cell (textmodePuts str (textmodeClear (textmodeInit t))).memory r c = referenceCell (layoutOf str) r c := by
  intro h
  have hcell := h ⟨fun _ => 0#8, ⟨0#16, 0#16, 0#8, 0#8⟩, []⟩ [0xE9#8] 0 (by decide) 0 (by decide)
  rw [(shows_puts _ [0xE9#8]).cell_eq_iff (by decide) (by decide)] at hcell
  exact absurd (hcell.1 0xE9#8 rfl) (by decide)

end Aeon.Display
