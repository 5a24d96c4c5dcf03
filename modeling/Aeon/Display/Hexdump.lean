/-
`khexdump` of `lib/hexdump.c`: a table of the bytes of an array, sixteen a row, in hexadecimal and
as text, printed with one `kprintf` for every cell. What it prints determines the bytes.
-/
import Aeon.Display.Render

namespace Aeon.Display

/-! ## Printing -/

/-- A computation that prints: the calls of the displays it makes, and its result. -/
def Printing (α : Type) := Option (List Emitted × α)

instance : Monad Printing where
  pure a := some ([], a)
  bind x f := Option.bind x fun (out, a) => Option.map (fun (rest, b) => (out ++ rest, b)) (f a)

/-- `kprintf` with `n` displays registered. No format here has a `%s`. -/
def kprintf (n : Nat) (fmt : CString) (args : List KUint32) : Printing Unit :=
  (kvprintf n fmt (.ofArgs args fun _ => [])).map fun out => (out, ())

/-- `isprint` of `ctype.c`. -/
def isprint (ch : KUint32) : Bool := 0x20 ≤ ch.toInt && ch.toInt ≤ 0x7e

/-! ## The formats -/

def chars (s : String) : List KUint8 := s.toList.map ascii

def ruleText : List KUint8 :=
  chars "--------|------------------------------------------------|----------------|\n"
def titleText : List KUint8 :=
  chars " offset |00 01 02 03 04 05 06 07 08 09 0A 0B 0C 0D 0E 0F |0123456789ABCDEF|\n"
def footerText : List KUint8 :=
  chars "---------------------------------------------------------------------------\n"

/-- A character that a format prints as it stands. -/
def Plain (b : KUint8) : Prop := b ≠ ascii '%' ∧ b ≠ 0#8

instance (b : KUint8) : Decidable (Plain b) := inferInstanceAs (Decidable (_ ∧ _))

/-- A string constant without directives. -/
def plainString (l : List KUint8) (h : ∀ b ∈ l, Plain b) : CString := CString.ofList l fun h0 => (h _ h0).2 rfl

theorem plain_ruleText : ∀ b ∈ ruleText, Plain b := by simp [ruleText, chars, Plain, ascii]
theorem plain_titleText : ∀ b ∈ titleText, Plain b := by simp [titleText, chars, Plain, ascii]
theorem plain_footerText : ∀ b ∈ footerText, Plain b := by simp [footerText, chars, Plain, ascii]

def ruleFmt : CString := plainString ruleText plain_ruleText
def titleFmt : CString := plainString titleText plain_titleText
def footerFmt : CString := plainString footerText plain_footerText
def offsetFmt : CString := CString.ofList (chars "%08x|") (by decide)
def cellFmt : CString := CString.ofList (chars "%02x ") (by decide)
def noCellFmt : CString := plainString (chars "   ") (by decide)
def barFmt : CString := plainString (chars "|") (by decide)
def charFmt : CString := CString.ofList (chars "%c") (by decide)
def dotFmt : CString := plainString (chars ".") (by decide)
def spaceFmt : CString := plainString (chars " ") (by decide)
def rowEndFmt : CString := plainString (chars "|\n") (by decide)

/-! ## `khexdump` -/

section

variable (n : Nat) (data : Nat → KUint8)

/-- `for (c = 0; c < 16 && i < len;)`: `c` and `i` after it. -/
def dumpCells (len : KSize) : (rem : Nat) → (c i : KSize) → Printing (KSize × KSize)
  | 0, c, i => pure (c, i)
  | rem + 1, c, i =>
    if c < 16#32 ∧ i < len then do
      kprintf n cellFmt [(data i.toNat).setWidth 32]
      dumpCells len rem (c + 1#32) (i + 1#32)
    else pure (c, i)

/-- `for (; c < 16; ++c)`, with the blanks of one column as the format. -/
def dumpBlanks (fmt : CString) : (rem : Nat) → (c : KSize) → Printing Unit
  | 0, _ => pure ()
  | rem + 1, c =>
    if c < 16#32 then do
      kprintf n fmt []
      dumpBlanks fmt rem (c + 1#32)
    else pure ()

/-- The body of the text loop. -/
def dumpChar (byte : KUint8) : Printing Unit :=
  if isprint (byte.setWidth 32) then kprintf n charFmt [byte.signExtend 32] else kprintf n dotFmt []

/-- `for (c = 0; c < written; ++c)`: `c` after it. -/
def dumpText (start written : KSize) : (rem : Nat) → (c : KSize) → Printing KSize
  | 0, c => pure c
  | rem + 1, c =>
    if c < written then do
      dumpChar n (data (start + c).toNat)
      dumpText start written rem (c + 1#32)
    else pure c

/-- The body of the outer loop: `i` after it. -/
def dumpRow (len i : KSize) : Printing KSize := do
  let start := i
  kprintf n offsetFmt [i]
  let (c, i) ← dumpCells n data len 16 0#32 i
  let written := c
  dumpBlanks n noCellFmt 16 c
  kprintf n barFmt []
  let c ← dumpText n data start written 16 0#32
  dumpBlanks n spaceFmt 16 c
  kprintf n rowEndFmt []
  pure i

/-- `for (; i < len;)`. -/
def dumpRows (len : KSize) : (fuel : Nat) → (i : KSize) → Printing Unit
  | 0, _ => none
  | fuel + 1, i =>
    if i < len then do
      let i ← dumpRow n data len i
      dumpRows len fuel i
    else pure ()

/-- `khexdump`. Each row takes at least one byte, so `len` rounds and the last test are enough. -/
def khexdump (len : KSize) : Printing Unit := do
  kprintf n ruleFmt []
  kprintf n titleFmt []
  kprintf n ruleFmt []
  dumpRows n data len (len.toNat + 1) 0#32
  kprintf n footerFmt []

end

/-! ## What is printed -/

/-- The computation completes with result `a`, and every display has been sent `text`. -/
def Prints {α : Type} (n : Nat) (x : Printing α) (text : List KUint8) (a : α) : Prop :=
  ∃ out, x = some (out, a) ∧ ∀ d < n, sent d out = text

section

variable {α β : Type} {n : Nat}

theorem prints_pure (a : α) : Prints n (pure a) [] a := ⟨[], rfl, fun _ _ => rfl⟩

theorem Prints.bind {x : Printing α} {f : α → Printing β} {text text' : List KUint8} {a : α} {b : β}
    (hx : Prints n x text a) (hf : Prints n (f a) text' b) : Prints n (x >>= f) (text ++ text') b := by
  obtain ⟨out, rfl, hout⟩ := hx
  obtain ⟨rest, hrest, hrest'⟩ := hf
  refine ⟨out ++ rest, ?_, fun d hd => ?_⟩
  · change Option.map _ (f a) = _
    rw [hrest]
    rfl
  · rw [sent_append, hout d hd, hrest' d hd]

theorem prints_kprintf {f : List Piece} {fmt : CString} (h : fmt.Spells (f.flatMap Piece.text))
    (args : List KUint32) : Prints n (kprintf n fmt args) (render (.ofArgs args fun _ => []) 0 0 f) () := by
  refine ⟨_, by rw [kprintf, kvprintf_pieces n _ h]; rfl, fun d hd => ?_⟩
  rw [sent_calls, if_pos hd]

theorem prints_plain {l : List KUint8} (h : ∀ b ∈ l, Plain b) : Prints n (kprintf n (plainString l h) []) l () := by
  -- a piece for each character
  have hpieces : ∀ (l : List KUint8), (∀ b ∈ l, Plain b) → ∃ f : List Piece, f.flatMap Piece.text = l ∧
      ∀ va, render va 0 0 f = l := by
    intro l
    induction l with
    | nil => exact fun _ => ⟨[], rfl, fun _ => rfl⟩
    | cons b l ih =>
      intro h
      obtain ⟨hb, hl⟩ := List.forall_mem_cons.1 h
      obtain ⟨f, htext, hrender⟩ := ih hl
      refine ⟨.lit ⟨b, hb.1, hb.2⟩ :: f, by rw [List.flatMap_cons, htext]; rfl, fun va => ?_⟩
      rw [render_unpadded rfl, Piece.args, hrender]
      rfl
  obtain ⟨f, htext, hrender⟩ := hpieces l h
  have hspells : (plainString l h).Spells (f.flatMap Piece.text) := by
    rw [htext]
    exact CString.spells_ofList _
  have hprints := @prints_kprintf n f _ hspells []
  rwa [hrender] at hprints

end

/-! ## Cells -/

/-- The last `w` hexadecimal digits of a number. -/
def hex (w n : Nat) : List KUint8 := (Numeral.fixed 16 w n).map digitChar

theorem pad_rendering {w : Nat} {word : KUint32} (h : word.toNat < 16 ^ (w + 1)) :
    pad (w + 1) (NumKind.x.rendering word) = hex (w + 1) word.toNat := by
  unfold hex
  rw [Numeral.fixed_eq_padded (by omega) w h, List.map_append, List.map_replicate, pad, NumKind.rendering,
    List.length_map, NumKind.base, show ((w : Int) + 1 - (Numeral.digits 16 word.toNat).length).toNat =
      w + 1 - (Numeral.digits 16 word.toNat).length by omega]
  rfl

theorem render_padded (va : VaList) (width : Fin 10) (kind : NumKind) (f : List Piece) :
    render va 0 0 (.padded width kind :: f) =
      pad width (kind.rendering (va.words 0)) ++ render va width 1 f := by
  rw [render, Piece.bytes, kind.numeral_eq]
  rfl

variable {n : Nat} {data : Nat → KUint8}

/-- A format of one padded `%x` and a character after it. -/
theorem prints_hex {w : Nat} (hw : w + 1 < 10) {c : Literal} {fmt : CString}
    (h : fmt.Spells ([.padded ⟨w + 1, hw⟩ .x, .lit c].flatMap Piece.text)) {word : KUint32}
    (hword : word.toNat < 16 ^ (w + 1)) :
    Prints n (kprintf n fmt [word]) (hex (w + 1) word.toNat ++ [c.char]) () := by
  have hprints := @prints_kprintf n _ fmt h [word]
  rw [render_padded] at hprints
  rw [← pad_rendering hword]
  exact hprints

theorem prints_offset (i : KSize) : Prints n (kprintf n offsetFmt [i]) (hex 8 i.toNat ++ [ascii '|']) () := by
  have hword : i.toNat < 16 ^ (7 + 1) := by have := i.isLt; omega
  exact @prints_hex n 7 (by omega) ⟨ascii '|', by decide, by decide⟩ _ (CString.spells_ofList _) i hword

/-- The two digits of a byte and a blank. -/
def byteGroup (b : KUint8) : List KUint8 := hex 2 b.toNat ++ [ascii ' ']

theorem prints_byteGroup (b : KUint8) : Prints n (kprintf n cellFmt [b.setWidth 32]) (byteGroup b) () := by
  have hb : (b.setWidth 32).toNat = b.toNat := by
    rw [BitVec.toNat_setWidth]
    omega
  have hword : (b.setWidth 32).toNat < 16 ^ (1 + 1) := by
    rw [hb]
    exact b.isLt
  have hprints := @prints_hex n 1 (by omega) ⟨ascii ' ', by decide, by decide⟩ cellFmt
    (CString.spells_ofList _) _ hword
  rwa [hb] at hprints

/-- What stands for a byte in the text field. -/
def textChar (b : KUint8) : KUint8 := if 0x20 ≤ b.toNat ∧ b.toNat ≤ 0x7e then b else ascii '.'

theorem isprint_iff (b : KUint8) : isprint (b.setWidth 32) = true ↔ 0x20 ≤ b.toNat ∧ b.toNat ≤ 0x7e := by
  have hb : (b.setWidth 32).toInt = b.toNat := by
    have := b.isLt
    rw [BitVec.toInt_eq_toNat_cond, BitVec.toNat_setWidth]
    omega
  unfold isprint
  rw [hb, Bool.and_eq_true, decide_eq_true_eq, decide_eq_true_eq]
  omega

theorem prints_dumpChar (b : KUint8) : Prints n (dumpChar n b) [textChar b] () := by
  unfold dumpChar textChar
  by_cases h : 0x20 ≤ b.toNat ∧ b.toNat ≤ 0x7e
  · rw [if_pos ((isprint_iff b).2 h), if_pos h]
    have hprints := @prints_kprintf n [.chr] charFmt (CString.spells_ofList _) [b.signExtend 32]
    rw [render_unpadded rfl, Piece.rendering] at hprints
    have hlow : (b.signExtend 32).setWidth 8 = b := by
      ext i hi
      have hi' : i < 32 := by omega
      simp [BitVec.getElem_signExtend, hi, hi']
    have hword : (VaList.ofArgs [b.signExtend 32] fun _ => []).words 0 = b.signExtend 32 := rfl
    rwa [hword, hlow] at hprints
  · rw [if_neg fun hp => h ((isprint_iff b).1 hp), if_neg h]
    exact prints_plain _

/-! ## The loops -/

/-- A counter that is below a bound does not wrap. -/
theorem toNat_succ {i m : KSize} (h : i < m) : (i + 1#32).toNat = i.toNat + 1 := by
  rw [BitVec.lt_def] at h
  rw [BitVec.toNat_add, BitVec.toNat_ofNat]
  omega

theorem prints_dumpCells {len : KSize} : ∀ {rem : Nat} {c i : KSize}, c.toNat + rem = 16 → i.toNat ≤ len.toNat →
    ∃ c' i' : KSize, Prints n (dumpCells n data len rem c i)
        ((List.range' i.toNat (min rem (len.toNat - i.toNat))).flatMap fun j => byteGroup (data j)) (c', i') ∧
      c'.toNat = c.toNat + min rem (len.toNat - i.toNat) ∧ i'.toNat = i.toNat + min rem (len.toNat - i.toNat)
  | 0, c, i, hc, hi => by
    rw [Nat.zero_min]
    exact ⟨c, i, prints_pure _, rfl, rfl⟩
  | rem + 1, c, i, hc, hi => by
    unfold dumpCells
    by_cases hlt : i < len
    · have hc16 : c < 16#32 := by rw [BitVec.lt_def, BitVec.toNat_ofNat]; omega
      have hc1 := toNat_succ hc16
      have hi1 := toNat_succ hlt
      rw [BitVec.lt_def] at hlt
      obtain ⟨c', i', hprints, hc', hi'⟩ := @prints_dumpCells len rem (c + 1#32) (i + 1#32) (by omega) (by omega)
      have hmin : min (rem + 1) (len.toNat - i.toNat) = min rem (len.toNat - (i + 1#32).toNat) + 1 := by omega
      rw [if_pos ⟨hc16, hlt⟩, hmin, List.range'_succ, List.flatMap_cons, ← hi1]
      exact ⟨c', i', (prints_byteGroup _).bind hprints, by omega, by omega⟩
    · rw [BitVec.lt_def] at hlt
      rw [if_neg fun h => hlt h.2, Nat.sub_eq_zero_of_le (by omega), Nat.min_zero]
      exact ⟨c, i, prints_pure _, rfl, rfl⟩

theorem prints_dumpBlanks {l : List KUint8} (hl : ∀ b ∈ l, Plain b) : ∀ {rem : Nat} {c : KSize},
    16 ≤ c.toNat + rem →
      Prints n (dumpBlanks n (plainString l hl) rem c) (List.replicate (16 - c.toNat) l).flatten ()
  | 0, c, hc => by
    rw [Nat.sub_eq_zero_of_le (by omega)]
    exact prints_pure _
  | rem + 1, c, hc => by
    unfold dumpBlanks
    by_cases hlt : c < 16#32
    · have hc1 := toNat_succ hlt
      rw [if_pos hlt]
      rw [BitVec.lt_def, BitVec.toNat_ofNat] at hlt
      rw [show 16 - c.toNat = 16 - (c + 1#32).toNat + 1 by omega, List.replicate_succ, List.flatten_cons]
      exact (prints_plain hl).bind (prints_dumpBlanks hl (by omega))
    · rw [if_neg hlt]
      rw [BitVec.lt_def, BitVec.toNat_ofNat] at hlt
      rw [Nat.sub_eq_zero_of_le (by omega)]
      exact prints_pure _

theorem prints_dumpText {start written : KSize} (hw : start.toNat + written.toNat < 2 ^ 32) :
    ∀ {rem : Nat} {c : KSize}, c.toNat ≤ written.toNat → written.toNat ≤ c.toNat + rem →
      Prints n (dumpText n data start written rem c)
        ((List.range' (start.toNat + c.toNat) (written.toNat - c.toNat)).map fun j => textChar (data j)) written
  | 0, c, hle, hc => by
    have : c = written := BitVec.eq_of_toNat_eq (by omega)
    rw [this, Nat.sub_self]
    exact prints_pure _
  | rem + 1, c, hle, hc => by
    unfold dumpText
    by_cases hlt : c < written
    · have hc1 := toNat_succ hlt
      rw [if_pos hlt]
      rw [BitVec.lt_def] at hlt
      have hsum : (start + c).toNat = start.toNat + c.toNat := by
        rw [BitVec.toNat_add]
        omega
      rw [show written.toNat - c.toNat = written.toNat - (c + 1#32).toNat + 1 by omega, List.range'_succ,
        List.map_cons, hsum, Nat.add_assoc, ← hc1]
      exact (prints_dumpChar _).bind (prints_dumpText hw (by omega) (by omega))
    · rw [if_neg hlt]
      rw [BitVec.lt_def] at hlt
      have : c = written := BitVec.eq_of_toNat_eq (by omega)
      rw [this, Nat.sub_self]
      exact prints_pure _

/-! ## Rows -/

/-- A row of the table: the offset, the groups of the bytes, and the text. -/
structure Row where
  offset : List KUint8
  groups : List (List KUint8)
  text : List KUint8

def Row.print (r : Row) : List KUint8 :=
  r.offset ++ [ascii '|'] ++ r.groups.flatten ++ [ascii '|'] ++ r.text ++ [ascii '|', ascii '\n']

/-- The row from byte `i` on, of an array of `len` bytes: sixteen columns. -/
def dumpedRow (data : Nat → KUint8) (len i : Nat) : Row where
  offset := hex 8 i
  groups := (List.range' i 16).map fun j => if j < len then byteGroup (data j) else chars "   "
  text := (List.range' i 16).map fun j => if j < len then textChar (data j) else ascii ' '

/-- Sixteen columns from `i` on are those of the bytes that are left, and blanks. -/
theorem columns {α : Type} (f : Nat → α) (blank : α) {i len m : Nat} (hm : m = min 16 (len - i)) :
    (List.range' i 16).map (fun j => if j < len then f j else blank) =
      (List.range' i m).map f ++ List.replicate (16 - m) blank := by
  have hsplit : List.range' i 16 = List.range' i m ++ List.range' (i + m) (16 - m) := by
    rw [List.range'_append_1, show m + (16 - m) = 16 by omega]
  rw [hsplit, List.map_append]
  congr 1
  · refine List.map_congr_left fun j hj => ?_
    have := List.mem_range'_1.1 hj
    rw [if_pos (by omega)]
  · refine List.eq_replicate_iff.2 ⟨by simp, fun b hb => ?_⟩
    obtain ⟨j, hj, rfl⟩ := List.mem_map.1 hb
    have := List.mem_range'_1.1 hj
    rw [if_neg (by omega)]

theorem prints_dumpRow {len i : KSize} (hi : i < len) :
    ∃ i' : KSize, Prints n (dumpRow n data len i) (dumpedRow data len.toNat i.toNat).print i' ∧
      i'.toNat = i.toNat + min 16 (len.toNat - i.toNat) := by
  rw [BitVec.lt_def] at hi
  obtain ⟨c, i', hcells, hc, hi'⟩ := @prints_dumpCells n data len 16 0#32 i rfl (by omega)
  rw [BitVec.toNat_ofNat, Nat.zero_mod, Nat.zero_add] at hc
  have hblanks := @prints_dumpBlanks n (chars "   ") (by decide) 16 c (by omega)
  have htext := @prints_dumpText n data i c (by have := len.isLt; omega) 16 0#32 (Nat.zero_le _) (by simp; omega)
  have hspaces := @prints_dumpBlanks n (chars " ") (by decide) 16 c (by omega)
  rw [BitVec.toNat_ofNat, Nat.zero_mod, Nat.add_zero, Nat.sub_zero] at htext
  refine ⟨i', ?_, hi'⟩
  have hrow : (dumpedRow data len.toNat i.toNat).print =
      (hex 8 i.toNat ++ [ascii '|']) ++
        ((List.range' i.toNat (min 16 (len.toNat - i.toNat))).flatMap (fun j => byteGroup (data j)) ++
          ((List.replicate (16 - c.toNat) (chars "   ")).flatten ++ (chars "|" ++
            ((List.range' i.toNat c.toNat).map (fun j => textChar (data j)) ++
              ((List.replicate (16 - c.toNat) (chars " ")).flatten ++ (chars "|\n" ++ [])))))) := by
    have hspace (k : Nat) : (List.replicate k (chars " ")).flatten = List.replicate k (ascii ' ') :=
      List.flatten_replicate_singleton
    unfold Row.print dumpedRow
    simp only [columns _ _ hc, hspace, List.flatten_append, ← List.flatMap_def, List.append_assoc, hc]
    rfl
  rw [hrow]
  unfold dumpRow
  exact (prints_offset i).bind (hcells.bind (hblanks.bind ((@prints_plain n (chars "|") (by decide)).bind
    (htext.bind (hspaces.bind ((@prints_plain n (chars "|\n") (by decide)).bind (prints_pure i')))))))

/-- The rows from number `k` on. -/
def dumpedRows (data : Nat → KUint8) (len k count : Nat) : List Row :=
  (List.range' k count).map fun k => dumpedRow data len (16 * k)

theorem prints_dumpRows {len : KSize} : ∀ {fuel k : Nat} {i : KSize}, i.toNat = min (16 * k) len.toNat →
    len.toNat < i.toNat + fuel →
      Prints n (dumpRows n data len fuel i)
        ((dumpedRows data len.toNat k ((len.toNat + 15) / 16 - k)).flatMap Row.print) ()
  | 0, k, i, hi, hf => by omega
  | fuel + 1, k, i, hi, hf => by
    unfold dumpRows
    by_cases hlt : i < len
    · obtain ⟨i', hrow, hi'⟩ := @prints_dumpRow n data len i hlt
      rw [if_pos hlt]
      rw [BitVec.lt_def] at hlt
      have hk : i.toNat = 16 * k := by omega
      have hrest := @prints_dumpRows len fuel (k + 1) i' (by omega) (by omega)
      rw [show (len.toNat + 15) / 16 - k = (len.toNat + 15) / 16 - (k + 1) + 1 by omega, dumpedRows, List.range'_succ,
        List.map_cons, List.flatMap_cons, ← hk]
      exact hrow.bind hrest
    · rw [if_neg hlt]
      rw [BitVec.lt_def] at hlt
      rw [show (len.toNat + 15) / 16 - k = 0 by omega]
      exact prints_pure _

theorem prints_khexdump (len : KSize) : Prints n (khexdump n data len)
    (ruleText ++ titleText ++ ruleText ++
      (dumpedRows data len.toNat 0 ((len.toNat + 15) / 16)).flatMap Row.print ++ footerText) () := by
  have hrows := @prints_dumpRows n data len (len.toNat + 1) 0 0#32 (by simp) (by simp)
  have hrule := @prints_plain n _ plain_ruleText
  have htitle := @prints_plain n _ plain_titleText
  have hfooter := @prints_plain n _ plain_footerText
  simp only [List.append_assoc]
  exact hrule.bind (htitle.bind (hrule.bind (hrows.bind hfooter)))

/-! ## Reading the table back -/

def hexVal (c : KUint8) : Option Nat := (List.range 16).find? fun d => digitChar d == c

/-- The bytes of the two-digit groups of a field; a group of blanks is none. -/
def readField : List KUint8 → List KUint8
  | hi :: lo :: _ :: rest =>
    match hexVal hi, hexVal lo with
    | some h, some l => BitVec.ofNat 8 (16 * h + l) :: readField rest
    | _, _ => readField rest
  | _ => []

theorem hexVal_digitChar {d : Nat} (h : d < 16) : hexVal (digitChar d) = some d := by
  interval_cases d <;> decide

theorem readField_byteGroup (b : KUint8) (rest : List KUint8) :
    readField (byteGroup b ++ rest) = b :: readField rest := by
  have hb := b.isLt
  have hcell : byteGroup b = [digitChar (b.toNat / 16), digitChar (b.toNat % 16), ascii ' '] := by
    unfold byteGroup hex Numeral.fixed
    rw [Numeral.fixed, Numeral.fixed, List.nil_append, Nat.mod_eq_of_lt (by omega : b.toNat / 16 < 16)]
    rfl
  have hbyte : BitVec.ofNat 8 (16 * (b.toNat / 16) + b.toNat % 16) = b := by
    rw [Nat.div_add_mod, BitVec.ofNat_toNat, BitVec.setWidth_eq]
  rw [hcell]
  simp only [List.cons_append, List.nil_append, readField, hexVal_digitChar (by omega : b.toNat / 16 < 16),
    hexVal_digitChar (by omega : b.toNat % 16 < 16), hbyte]

theorem readField_blanks : ∀ k : Nat, readField (List.replicate k (chars "   ")).flatten = []
  | 0 => rfl
  | k + 1 => by
    rw [List.replicate_succ, List.flatten_cons]
    exact readField_blanks k

theorem readField_cells (l rest : List KUint8) : readField (l.flatMap byteGroup ++ rest) = l ++ readField rest := by
  induction l with
  | nil => rfl
  | cons b l ih => rw [List.flatMap_cons, List.append_assoc, readField_byteGroup, ih, List.cons_append]

theorem readField_dumpedRow (len i : Nat) : readField (dumpedRow data len i).groups.flatten =
    (List.range' i (min 16 (len - i))).map data := by
  unfold dumpedRow
  have hcells : (List.range' i (min 16 (len - i))).map (fun j => byteGroup (data j)) =
      ((List.range' i (min 16 (len - i))).map data).map byteGroup := by rw [List.map_map]; rfl
  rw [columns _ _ rfl, List.flatten_append, hcells, ← List.flatMap_def, readField_cells, readField_blanks,
    List.append_nil]

/-- Sixteen at a time, all of them are read. -/
theorem readField_dumpedRows (len : Nat) : ∀ count : Nat,
    (dumpedRows data len 0 count).flatMap (fun r => readField r.groups.flatten) =
      (List.range (min (16 * count) len)).map data
  | 0 => by simp [dumpedRows]
  | count + 1 => by
    have hsum : min (16 * count) len + min 16 (len - 16 * count) = min (16 * (count + 1)) len := by omega
    have hstep : dumpedRows data len 0 (count + 1) =
        dumpedRows data len 0 count ++ [dumpedRow data len (16 * count)] := by
      simp [dumpedRows, List.range'_concat]
    have hlast : List.range' (16 * count) (min 16 (len - 16 * count)) =
        List.range' (min (16 * count) len) (min 16 (len - 16 * count)) := by
      rcases Nat.le_total (16 * count) len with h | h
      · rw [Nat.min_eq_left h]
      · rw [Nat.sub_eq_zero_of_le h, Nat.min_zero]
        rfl
    rw [hstep, List.flatMap_append, readField_dumpedRows len count, List.flatMap_singleton, readField_dumpedRow,
      ← List.map_append, ← hsum, List.range_eq_range', List.range_eq_range', ← List.range'_append_1, Nat.zero_add,
      hlast]

/-! ## The dump -/

/-- Row `k` of the dump of an array of `len` bytes. -/
structure Row.Shows (r : Row) (data : Nat → KUint8) (len k : Nat) : Prop where
  offset : Numeral.SpellsFixed digitChar 16 8 (16 * k) r.offset
  field : r.groups.length = 16 ∧ (∀ g ∈ r.groups, g.length = 3) ∧ r.groups.flatten.length = 48
  unused : ∀ c < 16, len ≤ 16 * k + c → r.groups[c]? = some (chars "   ")
  text_length : r.text.length = 16
  text : ∀ c < 16, r.text[c]? = some
    (if 16 * k + c < len then
      let b := data (16 * k + c)
      if 0x20 ≤ b.toNat ∧ b.toNat ≤ 0x7e then b else ascii '.'
    else ascii ' ')

theorem length_byteGroup (b : KUint8) : (byteGroup b).length = 3 := by
  unfold byteGroup hex
  rw [List.length_append, List.length_map, Numeral.length_fixed]
  rfl

theorem dumpedRow_shows (data : Nat → KUint8) {len k : Nat} (hk : 16 * k < 2 ^ 32) :
    (dumpedRow data len (16 * k)).Shows data len k := by
  have hgroups : ∀ g ∈ (dumpedRow data len (16 * k)).groups, g.length = 3 := by
    intro g hg
    obtain ⟨j, -, rfl⟩ := List.mem_map.1 hg
    split
    · exact length_byteGroup _
    · rfl
  have hcount : (dumpedRow data len (16 * k)).groups.length = 16 := by
    rw [dumpedRow, List.length_map, List.length_range']
  have hcolumn (c : Nat) (hc : c < 16) : (List.range' (16 * k) 16)[c]? = some (16 * k + c) := by
    rw [List.getElem?_range' hc, Nat.one_mul]
  refine ⟨Numeral.spellsFixed digitChar (by omega) (by omega), ⟨hcount, hgroups, ?_⟩, fun c hc hlen => ?_, ?_,
    fun c hc => ?_⟩
  · rw [List.length_flatten, List.map_congr_left hgroups, List.map_const', List.sum_replicate, hcount]
    rfl
  · rw [dumpedRow, List.getElem?_map, hcolumn c hc, Option.map_some, if_neg (by omega)]
  · rw [dumpedRow, List.length_map, List.length_range']
  · rw [dumpedRow, List.getElem?_map, hcolumn c hc, Option.map_some]
    rfl

/-- `khexdump` prints a row for every sixteen bytes between its header and its footer, and the
groups of the rows read back are the bytes. -/
theorem khexdump_faithful (n : Nat) (data : Nat → KUint8) (len : KSize) :
    ∃ (out : List Emitted) (rows : List Row), khexdump n data len = some (out, ()) ∧
      (∀ d < n, sent d out =
        ruleText ++ titleText ++ ruleText ++ rows.flatMap Row.print ++ footerText) ∧
      rows.length = (len.toNat + 15) / 16 ∧
      (∀ k (hk : k < rows.length), rows[k].Shows data len.toNat k) ∧
      rows.flatMap (fun r => readField r.groups.flatten) = (List.range len.toNat).map data := by
  obtain ⟨out, hout, hsent⟩ := @prints_khexdump n data len
  refine ⟨out, _, hout, hsent, ?_, fun k hk => ?_, ?_⟩
  · rw [dumpedRows, List.length_map, List.length_range']
  · have hlen := len.isLt
    simp only [dumpedRows, List.length_map, List.length_range'] at hk
    simp only [dumpedRows, List.getElem_map, List.getElem_range', Nat.one_mul, Nat.zero_add]
    exact dumpedRow_shows data (by omega)
  · rw [readField_dumpedRows, show min (16 * ((len.toNat + 15) / 16)) len.toNat = len.toNat by omega]

end Aeon.Display
