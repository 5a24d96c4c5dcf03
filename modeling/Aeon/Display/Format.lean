/-
The formatter of `drivers/display/display.c`: the registered displays, and the loop of `kvprintf`,
each iteration of which turns a character or a directive of the format into calls of the displays.
-/
import Aeon.Klibc.Stdlib

namespace Aeon.Display

/-! ## Displays -/

/-- A call of a display's `putc` or `puts`. -/
inductive DisplayCall where
  | putc (c : KUint8)
  | puts (str : List KUint8)
  deriving DecidableEq

/-- A call of one of the displays `s_displays[0]`, `s_displays[1]`, … -/
structure Emitted where
  display : Nat
  call : DisplayCall
  deriving DecidableEq

/-- `display_puts`, with `n` displays registered. -/
def displayPuts (n : Nat) (str : List KUint8) : List Emitted := (List.range n).map fun i => ⟨i, .puts str⟩

def displayPutc (n : Nat) (c : KUint8) : List Emitted := (List.range n).map fun i => ⟨i, .putc c⟩

/-! ## `kvprintf` -/

/-- The variable arguments: the words `va_arg` reads one after the other, and the string a pointer
among them points to. -/
structure VaList where
  words : Nat → KUint32
  cstring : KUint32 → List KUint8

/-- The loop's variables: the index into the format, `num_width`, and the number of arguments read. -/
structure Cursor where
  i : Nat
  numWidth : Int
  ap : Nat
  deriving DecidableEq

def Cursor.start : Cursor := ⟨0, 0, 0⟩

/-- A number that was formatted to `str`, padded with zeros to `numWidth`. -/
def displayPadded (n : Nat) (numWidth : Int) (str : List KUint8) : List Emitted :=
  (List.replicate (numWidth - str.length).toNat (displayPutc n (ascii '0'))).flatten ++ displayPuts n str

/-- The first `switch` on a directive: `%0` and the width digit after it. -/
def readWidth (fmt : CString) (c : Cursor) : Cursor :=
  if fmt.bytes (c.i + 1) = ascii '0' then
    { c with i := c.i + 2, numWidth := (fmt.bytes (c.i + 2)).toInt - (ascii '0').toInt }
  else c

/-- The second `switch`. Each directive leaves `i` one past itself; of an unknown one only the `%` is
skipped. -/
def directive (n : Nat) (fmt : CString) (va : VaList) (c : Cursor) : Option (List Emitted × Cursor) :=
  let next : Cursor := { c with i := c.i + 2, ap := c.ap + 1 }
  let kind := fmt.bytes (c.i + 1)
  let word := va.words c.ap
  if kind = ascii 's' then some (displayPuts n (va.cstring word), next)
  else if kind = ascii 'i' ∨ kind = ascii 'd' then
    (itoaS word 10#32).map fun str => (displayPadded n c.numWidth str, next)
  else if kind = ascii 'x' then
    (itoa word 16#32).map fun str => (displayPadded n c.numWidth str, next)
  else if kind = ascii 'c' then some (displayPutc n ((word &&& ~~~0xFFFFFF00#32).setWidth 8), next)
  else some ([], { c with i := c.i + 1 })

/-- One iteration of the loop of `kvprintf`, at `i < strlen (fmt)`. -/
def kvprintfIter (n : Nat) (fmt : CString) (va : VaList) (c : Cursor) : Option (List Emitted × Cursor) :=
  if fmt.bytes c.i = ascii '%' then directive n fmt va (readWidth fmt c)
  else some (displayPutc n (fmt.bytes c.i), { c with i := c.i + 1 })

/-- The loop of `kvprintf` from `c` on. Each iteration moves `i` on, so `strlen (fmt)` rounds of fuel
are enough. -/
def kvprintfLoop (n : Nat) (fmt : CString) (va : VaList) : (fuel : Nat) → Cursor → Option (List Emitted × Cursor)
  | 0, c => some ([], c)
  | fuel + 1, c =>
    if c.i < fmt.strlen then
      (kvprintfIter n fmt va c).bind fun (out, c') =>
        (kvprintfLoop n fmt va fuel c').map fun (rest, last) => (out ++ rest, last)
    else some ([], c)

/-- `kvprintf`: the calls it makes of the displays. -/
def kvprintf (n : Nat) (fmt : CString) (va : VaList) : Option (List Emitted) :=
  (kvprintfLoop n fmt va fmt.strlen Cursor.start).map Prod.fst

theorem directive_isSome (n : Nat) (fmt : CString) (va : VaList) (c : Cursor) :
    (directive n fmt va c).isSome = true := by
  simp only [directive]
  split
  · rfl
  · split
    · rw [Option.isSome_map]
      exact itoaS_isSome _
    · split
      · rw [Option.isSome_map]
        exact itoa_isSome (by decide) _
      · split <;> rfl

/-- An iteration always completes: the digits of a number fit the buffer of `itoa`. -/
theorem kvprintfIter_isSome (n : Nat) (fmt : CString) (va : VaList) (c : Cursor) :
    (kvprintfIter n fmt va c).isSome = true := by
  rw [kvprintfIter]
  split
  · exact directive_isSome n fmt va _
  · rfl

end Aeon.Display
