/-
The cursor the VGA shows: the position last programmed into the CRTC against the position of the
console, over runs of calls. Only storing a character programs it, so the two stay in step as long
as no call ends in a line break and the screen is not cleared once something has been printed.
-/
import Aeon.Display.Calls

namespace Aeon.Display

/-! ## The CRTC -/

/-- The index register of the CRTC and its two cursor registers, 0x0E and 0x0F. -/
structure Crtc where
  index : KUint8
  cursorHigh : KUint8
  cursorLow : KUint8

/-- A byte sent to a port: 0x3D4 selects a register, 0x3D5 writes it. -/
def Crtc.outb (crtc : Crtc) : KUint16 × KUint8 → Crtc
  | (port, value) =>
    if port = 0x3D4#16 then { crtc with index := value }
    else if port = 0x3D5#16 ∧ crtc.index = 0x0E#8 then { crtc with cursorHigh := value }
    else if port = 0x3D5#16 ∧ crtc.index = 0x0F#8 then { crtc with cursorLow := value }
    else crtc

def Crtc.position (crtc : Crtc) : Nat := 256 * crtc.cursorHigh.toNat + crtc.cursorLow.toNat

/-- The CRTC after what the driver has sent to the ports. -/
def Textmode.crtc (t : Textmode) (crtc : Crtc) : Crtc := t.ports.foldl Crtc.outb crtc

/-- The cursor last programmed is where the console stands. -/
def Synced (crtc : Crtc) (t : Textmode) : Prop :=
  (t.crtc crtc).position = t.console.cy.toNat * 80 + t.console.cx.toNat

theorem position_bytes (pos : KUint16) (index : KUint8) :
    Crtc.position ⟨index, (pos >>> 8 &&& 0xFF#16).setWidth 8, (pos &&& 0xFF#16).setWidth 8⟩ = pos.toNat := by
  have hpos := pos.isLt
  have hbyte (x : Nat) : x &&& 0xFF = x % 2 ^ 8 := Nat.and_two_pow_sub_one_eq_mod x 8
  unfold Crtc.position
  simp only [BitVec.toNat_setWidth, BitVec.toNat_and, BitVec.toNat_ushiftRight, BitVec.toNat_ofNat,
    Nat.shiftRight_eq_div_pow, show 0xFF % 2 ^ 16 = 0xFF from rfl, hbyte]
  omega

theorem crtc_textmodeUpdateCursor (x y : KUint32) (t : Textmode) (crtc : Crtc) :
    ((textmodeUpdateCursor x y t).crtc crtc).position = ((y * 80#32 + x).setWidth 16 : KUint16).toNat := by
  unfold Textmode.crtc textmodeUpdateCursor outportb
  dsimp only
  simp only [List.append_assoc, List.foldl_append, List.foldl_cons, List.foldl_nil]
  rw [← position_bytes ((y * 80#32 + x).setWidth 16) 0x0E#8]
  rfl

/-! ## One character -/

variable {t : Textmode} {l : ScreenLayout} {crtc : Crtc}

/-- Storing a character programs the cursor. -/
theorem Follows.synced_storeChar (h : Follows t.console l) (hlt : l.current.length < 80) (c : KUint8) :
    Synced crtc (storeChar c t) := by
  have hx : (t.console.cx + 1#16).toNat = l.current.length + 1 := by
    rw [h.cx, BitVec.toNat_add, BitVec.toNat_ofNat, BitVec.toNat_ofNat]
    omega
  have hy : t.console.cy.toNat = min l.done.length 23 := by
    rw [h.cy, BitVec.toNat_ofNat]
    omega
  unfold Synced storeChar
  dsimp only
  rw [crtc_textmodeUpdateCursor]
  change _ = t.console.cy.toNat * 80 + (t.console.cx + 1#16).toNat
  simp only [BitVec.toNat_setWidth, BitVec.toNat_add, BitVec.toNat_mul, BitVec.toNat_ofNat] at hx ⊢
  omega

theorem Follows.synced_putc (h : Follows t.console l) {c : KUint8} (h0 : c ≠ 0#8) (hnl : c ≠ ascii '\n') :
    Synced crtc (textmodePutc c t) := by
  unfold textmodePutc
  rw [if_neg h0, if_neg hnl]
  exact (h.lineFor hnl).1.synced_storeChar (lineFor_lt l) c

/-- A text whose last character is printed leaves the two in step. -/
theorem Follows.synced_putChars (h : Follows t.console l) {s : List KUint8} {c : KUint8} (h0 : c ≠ 0#8)
    (hnl : c ≠ ascii '\n') : Synced crtc (Display.putChars (s ++ [c]) t) := by
  induction s generalizing t l with
  | nil => exact h.synced_putc h0 hnl
  | cons b s ih => exact ih (h.putChars (s := [b])).1

/-! ## Runs -/

/-- The call prints a character other than NUL. -/
def TextCall.prints (call : TextCall) : Bool := call.text.any (· != 0#8)

/-- The call is one that leaves the cursor of the CRTC where the console is: its text, up to its
NUL, does not end in a line break, and it is not a `textmode_clear` after something was printed. -/
def TextCall.KeepsCursor (printed : Bool) : TextCall → Prop
  | putc c => c ≠ ascii '\n'
  | puts s => (s.takeWhile (· ≠ 0#8)).getLast? ≠ some (ascii '\n')
  | clear => printed = false

instance (printed : Bool) : (call : TextCall) → Decidable (call.KeepsCursor printed)
  | .putc c => inferInstanceAs (Decidable (c ≠ ascii '\n'))
  | .puts s => inferInstanceAs (Decidable ((s.takeWhile (· ≠ 0#8)).getLast? ≠ some (ascii '\n')))
  | .clear => inferInstanceAs (Decidable (printed = false))

/-- Every call of a run does, `printed` being whether something was printed before it. -/
def KeepCursor : (printed : Bool) → List TextCall → Prop
  | _, [] => True
  | printed, call :: calls => call.KeepsCursor printed ∧ KeepCursor (printed || call.prints) calls

theorem Follows.synced_call (h : Follows t.console l) {call : TextCall} {printed : Bool}
    (hkeeps : call.KeepsCursor printed) (hsync : printed = true → Synced crtc t)
    (hprinted : (printed || call.prints) = true) : Synced crtc (call.run t) := by
  cases call with
  | putc c =>
    by_cases h0 : c = 0#8
    · have hrun : TextCall.run (.putc c) t = t := if_pos h0
      rw [hrun]
      apply hsync
      simpa [TextCall.prints, TextCall.text, h0] using hprinted
    · exact h.synced_putc h0 hkeeps
  | puts s =>
    rw [TextCall.run_puts]
    have hlast : (s.takeWhile (· ≠ 0#8)).getLast? ≠ some (ascii '\n') := hkeeps
    have hplain : ∀ c ∈ s.takeWhile (· ≠ 0#8), c ≠ 0#8 := fun c hc => by
      simpa using List.all_eq_true.1 (List.all_takeWhile (l := s)) c hc
    rcases List.eq_nil_or_concat' (s.takeWhile (· ≠ 0#8)) with hnil | ⟨text, c, htext⟩
    · rw [hnil]
      apply hsync
      rwa [TextCall.prints, TextCall.text, hnil, List.any_nil, Bool.or_false] at hprinted
    · rw [htext] at hlast hplain ⊢
      rw [List.getLast?_concat] at hlast
      exact h.synced_putChars (hplain c List.mem_concat_self) fun hnl => hlast (congrArg some hnl)
  | clear =>
    have hnone : printed = false := hkeeps
    rw [hnone] at hprinted
    cases hprinted

theorem Follows.synced_run : ∀ {calls : List TextCall} {t : Textmode} {l : ScreenLayout} {printed : Bool},
    Follows t.console l → KeepCursor printed calls → (printed = true → Synced crtc t) →
      (printed || calls.any TextCall.prints) = true → Synced crtc (runCalls calls t)
  | [], t, l, printed, _, _, hsync, hprinted => hsync (by simpa using hprinted)
  | call :: calls, t, l, printed, h, hkeep, hsync, hprinted => by
    obtain ⟨hcall, hrest⟩ := hkeep
    apply (h.call call).1.synced_run hrest (h.synced_call hcall hsync)
    rwa [List.any_cons, ← Bool.or_assoc] at hprinted

theorem KeepCursor.take : ∀ {calls pre : List TextCall} {printed : Bool}, KeepCursor printed calls →
    pre <+: calls → KeepCursor printed pre
  | [], pre, printed, _, hpre => by
    rw [List.prefix_nil.1 hpre]
    trivial
  | call :: calls, pre, printed, h, hpre => by
    rcases List.prefix_cons_iff.1 hpre with rfl | ⟨pre, rfl, hpre'⟩
    · trivial
    · exact ⟨h.1, KeepCursor.take h.2 hpre'⟩

/-- In a run whose calls all keep it, the cursor of the CRTC is where the console is after every
call, from the first that has printed something on. -/
theorem crtc_synced {calls : List TextCall} (h : KeepCursor false calls) (t : Textmode) (crtc : Crtc)
    {pre : List TextCall} (hpre : pre <+: calls) (hprinted : pre.any TextCall.prints = true) :
    let t' := runCalls pre (textmodeInit t)
    (t'.crtc crtc).position = t'.console.cy.toNat * 80 + t'.console.cx.toNat :=
  (follows_textmodeInit t).synced_run (h.take hpre) (fun hfalse => absurd hfalse (by decide)) hprinted

/-- `"Aeon"`, a NUL, and one character more. -/
theorem crtc_synced_text :
    let t' := runCalls [.puts ("Aeon".toList.map ascii), .putc 0#8, .putc (ascii '!')]
      (textmodeInit ⟨fun _ => 0#8, ⟨0#16, 0#16, 0#8, 0#8⟩, []⟩)
    (t'.crtc ⟨0#8, 0#8, 0#8⟩).position = t'.console.cy.toNat * 80 + t'.console.cx.toNat :=
  @crtc_synced [.puts ("Aeon".toList.map ascii), .putc 0#8, .putc (ascii '!')]
    ⟨by decide, by decide, by decide, trivial⟩ _ _ _ List.prefix_rfl (by decide)

/-- After a line break the cursor is still behind the last character. -/
theorem crtc_stale : ¬ ∀ (t : Textmode) (crtc : Crtc) (calls : List TextCall), calls.any TextCall.prints = true →
    let t' := runCalls calls (textmodeInit t)
    (t'.crtc crtc).position = t'.console.cy.toNat * 80 + t'.console.cx.toNat := by
  intro h
  have hpos := h ⟨fun _ => 0#8, ⟨0#16, 0#16, 0#8, 0#8⟩, []⟩ ⟨0#8, 0#8, 0#8⟩ [.putc (ascii 'A'), .putc (ascii '\n')]
    (by decide)
  revert hpos
  decide

end Aeon.Display
