/-
`drivers/display/textmode.c`: the VGA text driver, with the memory it writes, the console of its
static `display` and the bytes it sends to the ports of the CRTC. Below the driver, what clearing,
scrolling and storing a character do to each character cell.
-/
import Aeon.Klibc.Memory
import Aeon.Klibc.Stdlib

namespace Aeon.Display

/-! ## The driver -/

def vgaMemory : KUint32 := 0xB8000#32
abbrev textmodeWidth : Nat := 80
abbrev textmodeHeight : Nat := 25

def colorBlack : KUint8 := 0#8
def colorWhite : KUint8 := 15#8

structure Console where
  cx : KUint16
  cy : KUint16
  bgcol : KUint8
  fgcol : KUint8

/-- Memory, `display.console`, and what was sent to which port. -/
structure Textmode where
  memory : Ram
  console : Console
  ports : List (KUint16 × KUint8)

def textmodeMakeColor (fg bg : KUint8) : KUint8 := fg ||| bg <<< 4

/-- `textmode_create_entry`: the conversion of the signed `c` extends its sign. -/
def textmodeCreateEntry (c color : KUint8) : KUint16 := c.signExtend 16 ||| color.setWidth 16 <<< 8

/-- `textmode_make_color (display.console.fgcol, display.console.bgcol)`. -/
def Console.entity (con : Console) : KUint8 := textmodeMakeColor con.fgcol con.bgcol

/-- The pointer `VGA_MEMORY + index` with the `index` of column `x` in row `y`. -/
def cellPtr (y x : KUint32) : KUint32 := vgaMemory + (y * 2#32 * 80#32 + x * 2#32)

/-- Row `y + 1` copied to row `y`. -/
def scrollRow (m : Ram) (y : Nat) : Ram :=
  memcpy (vgaMemory + BitVec.ofNat 32 (y * textmodeWidth * 2))
    (vgaMemory + BitVec.ofNat 32 ((y + 1) * textmodeWidth * 2)) (BitVec.ofNat 32 (textmodeWidth * 2)) m

def textmodeScrollup (t : Textmode) : Textmode :=
  { t with
    memory := memset16 (vgaMemory + BitVec.ofNat 32 (textmodeHeight * textmodeWidth * 2))
      (textmodeCreateEntry (ascii ' ') t.console.entity) (BitVec.ofNat 32 (textmodeWidth * 2))
      ((List.range textmodeHeight).foldl scrollRow t.memory) }

/-- The inner loop of `textmode_clear`, up to column `n`. -/
def clearRow (entry : KUint16) (n : Nat) (m : Ram) (y : Nat) : Ram :=
  (List.range n).foldl (fun m x => writeU16 m (cellPtr (BitVec.ofNat 32 y) (BitVec.ofNat 32 x)) entry) m

def textmodeClear (t : Textmode) : Textmode :=
  { t with
    memory := (List.range textmodeHeight).foldl
      (clearRow (textmodeCreateEntry (ascii ' ') t.console.entity) textmodeWidth) t.memory
    console := { t.console with cx := 0#16, cy := 0#16 } }

def outportb (port : KUint16) (value : KUint8) (t : Textmode) : Textmode :=
  { t with ports := t.ports ++ [(port, value)] }

def textmodeUpdateCursor (x y : KUint32) (t : Textmode) : Textmode :=
  let pos : KUint16 := (y * 80#32 + x).setWidth 16
  outportb 0x3D5#16 ((pos >>> 8 &&& 0xFF#16).setWidth 8) <| outportb 0x3D4#16 0x0E#8 <|
    outportb 0x3D5#16 ((pos &&& 0xFF#16).setWidth 8) <| outportb 0x3D4#16 0x0F#8 t

/-- The first `if` of `textmode_putc` after the check for NUL: a line break. -/
def breakLine (c : KUint8) (t : Textmode) : Textmode :=
  if 80#16 ≤ t.console.cx ∨ c = ascii '\n' then
    { t with console := { t.console with cx := 0#16, cy := t.console.cy + 1#16 } }
  else t

/-- The second `if` of `textmode_putc`: past the last row it uses, the screen scrolls. -/
def keepRow (t : Textmode) : Textmode :=
  if 24#16 ≤ t.console.cy then
    { textmodeScrollup t with console := { t.console with cy := t.console.cy - 1#16 } }
  else t

/-- The rest of `textmode_putc`: the character is stored at the cursor. -/
def storeChar (c : KUint8) (t : Textmode) : Textmode :=
  let con := t.console
  textmodeUpdateCursor ((con.cx + 1#16).setWidth 32) (con.cy.setWidth 32)
    { t with
      memory := writeU16 t.memory (cellPtr (con.cy.setWidth 32) (con.cx.setWidth 32))
        (textmodeCreateEntry c con.entity)
      console := { con with cx := con.cx + 1#16 } }

def textmodePutc (c : KUint8) (t : Textmode) : Textmode :=
  if c = 0#8 then t
  else
    let t := keepRow (breakLine c t)
    if c = ascii '\n' then t else storeChar c t

/-- `textmode_puts`, of a list of bytes that ends at its end or at a NUL. -/
def textmodePuts : List KUint8 → Textmode → Textmode
  | [], t => t
  | c :: s, t => if c = 0#8 then t else textmodePuts s (textmodePutc c t)

/-- `textmode_init`, as far as the console goes. -/
def textmodeInit (t : Textmode) : Textmode := { t with console := ⟨0#16, 0#16, colorBlack, colorWhite⟩ }

/-! ## Bytes and cells of the screen -/

/-- Byte `j` from `VGA_MEMORY` on. -/
def vgaByte (m : Ram) (j : Nat) : KUint8 := m (vgaMemory + BitVec.ofNat 32 j)

/-- The cell in row `r` and column `c`. -/
def cell (m : Ram) (r c : Nat) : KUint16 := vgaByte m (160 * r + 2 * c + 1) ++ vgaByte m (160 * r + 2 * c)

theorem toNat_vga_sub {j o : Nat} (hj : j < 2 ^ 16) (ho : o < 2 ^ 16) :
    (vgaMemory + BitVec.ofNat 32 j - (vgaMemory + BitVec.ofNat 32 o)).toNat =
      if o ≤ j then j - o else 2 ^ 32 + j - o := by
  rw [BitVec.toNat_sub, BitVec.toNat_add, BitVec.toNat_add, BitVec.toNat_ofNat, BitVec.toNat_ofNat,
    show vgaMemory.toNat = 0xB8000 from rfl]
  split <;> omega

theorem cellPtr_eq {y x : Nat} : cellPtr (BitVec.ofNat 32 y) (BitVec.ofNat 32 x) =
    vgaMemory + BitVec.ofNat 32 (160 * y + 2 * x) := by
  rw [cellPtr]
  congr 1
  apply BitVec.eq_of_toNat_eq
  simp only [BitVec.toNat_add, BitVec.toNat_mul, BitVec.toNat_ofNat]
  omega

theorem vgaByte_writeU16 (m : Ram) {o j : Nat} (v : KUint16) (hj : j < 2 ^ 16) (ho : o < 2 ^ 16) :
    vgaByte (writeU16 m (vgaMemory + BitVec.ofNat 32 o) v) j =
      if o ≤ j ∧ j < o + 2 then v.extractLsb' (8 * (j - o)) 8 else vgaByte m j := by
  rw [vgaByte, writeU16_apply, toNat_vga_sub hj ho]
  by_cases hoj : o ≤ j
  · rw [if_pos hoj]
    by_cases hlt : j - o < 2
    · rw [if_pos hlt, if_pos (by omega), Nat.mod_eq_of_lt hlt]
    · rw [if_neg hlt, if_neg (by omega)]
      rfl
  · rw [if_neg hoj, if_neg (by omega), if_neg (by omega)]
    rfl

/-! ## Cells -/

theorem cell_writeU16 (m : Ram) (v : KUint16) {r c r' c' : Nat} (hr : r ≤ 25) (hc : c < 80) (hr' : r' ≤ 25)
    (hc' : c' < 80) : cell (writeU16 m (vgaMemory + BitVec.ofNat 32 (160 * r + 2 * c)) v) r' c' =
      if r' = r ∧ c' = c then v else cell m r' c' := by
  rw [cell, vgaByte_writeU16 m v (by omega) (by omega), vgaByte_writeU16 m v (by omega) (by omega)]
  by_cases h : r' = r ∧ c' = c
  · obtain ⟨rfl, rfl⟩ := h
    rw [if_pos (by omega), if_pos (by omega), if_pos ⟨rfl, rfl⟩, Nat.add_sub_cancel_left, Nat.sub_self]
    exact BitVec.extractLsb'_append_extractLsb'
  · rw [if_neg (by omega), if_neg (by omega), if_neg h]
    rfl

/-- A copied row: row `y` has what row `y + 1` had. -/
theorem vgaByte_scrollRow (m : Ram) {y j : Nat} (hy : y < 25) (hj : j < 2 ^ 16) :
    vgaByte (scrollRow m y) j =
      if 160 * y ≤ j ∧ j < 160 * (y + 1) then vgaByte m (j + 160) else vgaByte m j := by
  have hrow : ∀ k, k * textmodeWidth * 2 = 160 * k := fun k => by rw [textmodeWidth]; omega
  have hptr : ∀ k ≤ 25, (vgaMemory + BitVec.ofNat 32 (160 * k)).toNat = 0xB8000 + 160 * k := fun k hk => by
    rw [BitVec.toNat_add, BitVec.toNat_ofNat, show vgaMemory.toNat = 0xB8000 from rfl]
    omega
  have hcount : (BitVec.ofNat 32 (textmodeWidth * 2)).toNat = 160 := rfl
  rw [vgaByte, scrollRow, hrow, hrow, memcpy_apply m (by rw [hptr y (by omega), hcount]; omega)
    (by rw [hptr (y + 1) hy, hcount]; omega) (by rw [hptr y (by omega), hptr (y + 1) hy]; omega), hcount]
  have hoff := toNat_vga_sub hj (show 160 * y < 2 ^ 16 by omega)
  by_cases hyj : 160 * y ≤ j
  · rw [if_pos hyj] at hoff
    rw [hoff]
    by_cases hlt : j - 160 * y < 160
    · rw [if_pos hlt, if_pos (by omega), vgaByte]
      congr 1
      apply BitVec.eq_of_toNat_eq
      rw [BitVec.toNat_add, hptr (y + 1) hy, hoff, BitVec.toNat_add, BitVec.toNat_ofNat,
        show vgaMemory.toNat = 0xB8000 from rfl]
      omega
    · rw [if_neg hlt, if_neg (by omega)]
      rfl
  · rw [if_neg hyj] at hoff
    rw [hoff, if_neg (by omega), if_neg (by omega)]
    rfl

theorem vgaByte_scrollRows (m : Ram) {k j : Nat} (hk : k ≤ 25) (hj : j + 160 < 2 ^ 16) :
    vgaByte ((List.range k).foldl scrollRow m) j = if j < 160 * k then vgaByte m (j + 160) else vgaByte m j := by
  induction k generalizing j with
  | zero => rfl
  | succ k ih =>
    have ih := fun j hj => @ih j (by omega) hj
    rw [List.range_succ, List.foldl_append, List.foldl_cons, List.foldl_nil,
      vgaByte_scrollRow _ hk (by omega)]
    by_cases hrow : 160 * k ≤ j ∧ j < 160 * (k + 1)
    · -- row `k + 1` is still as it was: only the rows before row `k` have been written
      rw [if_pos hrow, ih (j + 160) (by omega), if_neg (by omega), if_pos hrow.2]
    · rw [if_neg hrow, ih j hj]
      congr 1
      simp only [eq_iff_iff]
      omega

theorem vgaByte_memset16 (m : Ram) (v : KUint16) {j : Nat} (hj : j < 2 ^ 16) :
    vgaByte (memset16 (vgaMemory + BitVec.ofNat 32 4000) v 160#32 m) j =
      if 4000 ≤ j ∧ j < 4320 then v.extractLsb' (8 * ((j - 4000) % 2)) 8 else vgaByte m j := by
  rw [vgaByte, memset16_apply _ _ _ (by decide), toNat_vga_sub hj (by omega),
    show 2 * (160#32).toNat = 320 from rfl]
  by_cases hoj : 4000 ≤ j
  · rw [if_pos hoj]
    by_cases hlt : j - 4000 < 320
    · rw [if_pos hlt, if_pos (by omega)]
    · rw [if_neg hlt, if_neg (by omega)]
      rfl
  · rw [if_neg hoj, if_neg (by omega), if_neg (by omega)]
    rfl

/-- Scrolling: each visible row has what the row below it had, and the row past the screen is
blank. -/
theorem cell_textmodeScrollup (t : Textmode) {r c : Nat} (hr : r ≤ 25) (hc : c < 80) :
    cell (textmodeScrollup t).memory r c =
      if r < 25 then cell t.memory (r + 1) c else textmodeCreateEntry (ascii ' ') t.console.entity := by
  have hbyte : ∀ j < 4160, vgaByte (textmodeScrollup t).memory j =
      if 4000 ≤ j then (textmodeCreateEntry (ascii ' ') t.console.entity).extractLsb' (8 * ((j - 4000) % 2)) 8
      else vgaByte t.memory (j + 160) := by
    intro j hj
    rw [textmodeScrollup, show textmodeHeight * textmodeWidth * 2 = 4000 from rfl,
      show textmodeWidth * 2 = 160 from rfl, vgaByte_memset16 _ _ (by omega),
      vgaByte_scrollRows _ le_rfl (by omega)]
    by_cases hlast : 4000 ≤ j
    · rw [if_pos (by omega), if_pos hlast]
    · rw [if_neg (by omega), if_pos (by omega), if_neg hlast]
  rw [cell, hbyte _ (by omega), hbyte _ (by omega)]
  by_cases h25 : r < 25
  · rw [if_neg (by omega), if_neg (by omega), if_pos h25, cell]
    congr 2 <;> omega
  · rw [if_pos (by omega), if_pos (by omega), if_neg h25, show (160 * r + 2 * c + 1 - 4000) % 2 = 1 by omega,
      show (160 * r + 2 * c - 4000) % 2 = 0 by omega]
    exact BitVec.extractLsb'_append_extractLsb'

theorem cell_clearRow (entry : KUint16) (m : Ram) {y n r c : Nat} (hy : y ≤ 25) (hn : n ≤ 80) (hr : r ≤ 25)
    (hc : c < 80) : cell (clearRow entry n m y) r c = if r = y ∧ c < n then entry else cell m r c := by
  induction n with
  | zero => rw [if_neg (by omega)]; rfl
  | succ n ih =>
    have hstep : clearRow entry (n + 1) m y =
        writeU16 (clearRow entry n m y) (cellPtr (BitVec.ofNat 32 y) (BitVec.ofNat 32 n)) entry := by
      rw [clearRow, clearRow, List.range_succ, List.foldl_append, List.foldl_cons, List.foldl_nil]
    rw [hstep, cellPtr_eq, cell_writeU16 _ _ hy (by omega) hr hc, ih (by omega)]
    by_cases h : r = y ∧ c = n
    · rw [if_pos h, if_pos (by omega)]
    · rw [if_neg h]
      congr 1
      simp only [eq_iff_iff]
      omega

theorem cell_clearRows (entry : KUint16) (m : Ram) {k r c : Nat} (hk : k ≤ 25) (hr : r ≤ 25) (hc : c < 80) :
    cell ((List.range k).foldl (clearRow entry 80) m) r c = if r < k then entry else cell m r c := by
  induction k with
  | zero => rfl
  | succ k ih =>
    rw [List.range_succ, List.foldl_append, List.foldl_cons, List.foldl_nil,
      cell_clearRow _ _ (by omega) le_rfl hr hc, ih (by omega)]
    by_cases h : r = k
    · rw [if_pos ⟨h, hc⟩, if_pos (by omega)]
    · rw [if_neg (by omega)]
      congr 1
      simp only [eq_iff_iff]
      omega

/-- Clearing: every visible cell is blank, and no other cell of the region changes. -/
theorem cell_textmodeClear (t : Textmode) {r c : Nat} (hr : r ≤ 25) (hc : c < 80) :
    cell (textmodeClear t).memory r c =
      if r < 25 then textmodeCreateEntry (ascii ' ') t.console.entity else cell t.memory r c :=
  cell_clearRows _ _ le_rfl hr hc

end Aeon.Display
