/-
`kprintf` down to the screen: runs of calls with well-formed formats, each of which takes the mutex,
formats its arguments and sends the result to the displays, one of which is the text driver. What
the screen shows after a run is the last 24 lines of everything that was printed.
-/
import Aeon.Display.Render
import Aeon.Display.Calls
import Mathlib.Data.List.TakeWhile

namespace Aeon.Display

open Terminal

/-! ## From the formatter to the driver -/

/-- `textmode_init` puts `textmode_putc` and `textmode_puts` behind the two pointers. -/
def DisplayCall.textCall : DisplayCall → TextCall
  | .putc c => .putc c
  | .puts str => .puts str

/-- What display `d` is called with, if it is the text driver. -/
def textCalls (d : Nat) (out : List Emitted) : List TextCall :=
  (out.filter (·.display = d)).map (·.call.textCall)

/-- No string goes on past its NUL. -/
def DisplayCall.Ended : DisplayCall → Prop
  | .putc _ => True
  | .puts str => 0#8 ∉ str

/-- The driver lays out what it is sent, less the NULs. -/
theorem callsLayout_textCalls (d : Nat) : ∀ {out : List Emitted} (l : ScreenLayout), (∀ e ∈ out, e.call.Ended) →
    callsLayout (textCalls d out) l = ((sent d out).filter (· ≠ 0#8)).foldl feedChar l
  | [], _, _ => rfl
  | e :: out, l, h => by
    obtain ⟨he, hout⟩ := List.forall_mem_cons.1 h
    have ih := fun l => callsLayout_textCalls d l hout
    unfold textCalls sent at ih ⊢
    rw [List.flatMap_cons]
    by_cases hd : e.display = d
    · rw [List.filter_cons_of_pos (by simpa using hd), if_pos hd, List.map_cons, List.filter_append, List.foldl_append,
        ← ih]
      unfold callsLayout
      rw [List.foldl_cons]
      congr 1
      obtain ⟨display, call⟩ := e
      cases call with
      | putc c => rfl
      | puts str =>
        have htake : str.takeWhile (· ≠ 0#8) = str := by
          rw [List.takeWhile_eq_self_iff]
          intro b hb
          have hne : b ≠ 0#8 := fun h0 => he (h0 ▸ hb)
          simpa using hne
        show List.foldl feedChar l ((str.takeWhile (· ≠ 0#8)).filter (· ≠ 0#8)) = _
        rw [htake]
        rfl
    · rw [List.filter_cons_of_neg (by simpa using hd), if_neg hd, List.nil_append, ih]

theorem textCalls_ne_clear {d : Nat} {out : List Emitted} {call : TextCall} (h : call ∈ textCalls d out) :
    call ≠ .clear := by
  obtain ⟨e, -, rfl⟩ := List.mem_map.1 h
  cases e.call with
  | putc _ => rintro ⟨⟩
  | puts _ => rintro ⟨⟩

section

variable {edge : Nat → KUint16} {t : Textmode} {l : ScreenLayout}

theorem Shows.call (h : Shows edge t l) {call : TextCall} (hcall : call ≠ .clear) :
    Shows edge (call.run t) (call.layout l) := by
  cases call with
  | putc c =>
    by_cases hc : c = 0#8
    · have hrun : TextCall.run (.putc c) t = t := if_pos hc
      have hlayout : TextCall.layout (.putc c) l = l := by simp [TextCall.layout, TextCall.text, hc]
      rw [hrun, hlayout]
      exact h
    · have hlayout : TextCall.layout (.putc c) l = feedChar l c := by simp [TextCall.layout, TextCall.text, hc]
      rw [hlayout]
      exact h.putc hc
  | puts s =>
    have hlayout : TextCall.layout (.puts s) l = (s.takeWhile (· ≠ 0#8)).foldl feedChar l := by
      have hfilter : (s.takeWhile (· ≠ 0#8)).filter (· ≠ 0#8) = s.takeWhile (· ≠ 0#8) :=
        List.filter_eq_self.2 fun b hb => @List.mem_takeWhile_imp _ (· ≠ 0#8) s b hb
      show List.foldl feedChar l ((s.takeWhile (· ≠ 0#8)).filter (· ≠ 0#8)) = _
      rw [hfilter]
    rw [hlayout]
    exact h.puts s
  | clear => exact absurd rfl hcall

/-- Without a clear in between, the screen goes on showing the layout. -/
theorem Shows.calls : ∀ {calls : List TextCall} {t : Textmode} {l : ScreenLayout}, Shows edge t l →
    (∀ call ∈ calls, call ≠ .clear) → Shows edge (Display.runCalls calls t) (callsLayout calls l)
  | [], _, _, h, _ => h
  | call :: calls, _, _, h, hcalls => by
    obtain ⟨hcall, hcalls⟩ := List.forall_mem_cons.1 hcalls
    exact (h.call hcall).calls hcalls

end

/-! ## Strings -/

theorem digitChar_ne_nul {d : Nat} (h : d < 16) : digitChar d ≠ 0#8 := by
  interval_cases d <;> decide

theorem NumKind.nul_notMem_rendering (kind : NumKind) (word : KUint32) : 0#8 ∉ kind.rendering word := by
  have hbase : 1 < kind.base ∧ kind.base ≤ 16 := by cases kind <;> decide
  intro h
  obtain ⟨d, hd, hnul⟩ := List.mem_map.1 h
  exact digitChar_ne_nul (((Numeral.canonical_digits hbase.1 word.toNat).lt d hd).trans_le hbase.2) hnul

section

variable {cstring : KUint32 → List KUint8}

theorem ended_displayPadded (n : Nat) (w : Int) (kind : NumKind) (word : KUint32) :
    ∀ e ∈ displayPadded n w (kind.numeral word), e.call.Ended := by
  intro e he
  unfold displayPadded displayPutc displayPuts at he
  rcases List.mem_append.1 he with he | he
  · obtain ⟨zeros, hzeros, he⟩ := List.mem_flatten.1 he
    rw [List.eq_of_mem_replicate hzeros] at he
    obtain ⟨i, -, rfl⟩ := List.mem_map.1 he
    trivial
  · obtain ⟨i, -, rfl⟩ := List.mem_map.1 he
    rw [kind.numeral_eq]
    exact kind.nul_notMem_rendering word

theorem Piece.ended_calls (hc : ∀ word, 0#8 ∉ cstring word) (n : Nat) (w : Int) (word : KUint32) (p : Piece) :
    ∀ e ∈ p.calls n cstring w word, e.call.Ended := by
  cases p with
  | lit c | chr =>
    intro e he
    obtain ⟨i, -, rfl⟩ := List.mem_map.1 he
    trivial
  | str =>
    intro e he
    obtain ⟨i, -, rfl⟩ := List.mem_map.1 he
    exact hc word
  | num kind | padded _ kind => exact ended_displayPadded n w kind word

theorem ended_calls {va : VaList} (hc : ∀ word, 0#8 ∉ va.cstring word) (n : Nat) :
    ∀ (f : List Piece) (w : Int) (ap : Nat), ∀ e ∈ calls n va w ap f, e.call.Ended
  | [], _, _, _, he => by cases he
  | p :: f, w, ap, e, he => by
    unfold calls at he
    rcases List.mem_append.1 he with he | he
    · exact p.ended_calls hc n _ _ e he
    · exact ended_calls hc n f _ _ e he

end

/-! ## Formats with string constants -/

/-- Every character stands for itself. -/
def Verbatim (s : String) : Prop := ∀ c ∈ s.toList, ascii c ≠ ascii '%' ∧ ascii c ≠ 0#8

instance (s : String) : Decidable (Verbatim s) :=
  List.decidableBAll (fun c => ascii c ≠ ascii '%' ∧ ascii c ≠ 0#8) s.toList

/-- The part of a format that is a string constant. -/
def literals (s : String) : List Piece :=
  s.toList.filterMap fun c => if h : ascii c ≠ ascii '%' ∧ ascii c ≠ 0#8 then some (.lit ⟨ascii c, h.1, h.2⟩) else none

def bytesOf (s : String) : List KUint8 := s.toList.map ascii

section

variable {s : String} {f : List Piece} {args : List KUint32}

theorem literals_eq (h : Verbatim s) : ∃ cs : List Literal, literals s = cs.map Piece.lit ∧ cs.map Literal.char = bytesOf s := by
  unfold literals bytesOf
  unfold Verbatim at h
  generalize s.toList = l at h
  induction l with
  | nil => exact ⟨[], rfl, rfl⟩
  | cons c l ih =>
    obtain ⟨hc, hl⟩ := List.forall_mem_cons.1 h
    obtain ⟨cs, hcs, hchars⟩ := ih hl
    refine ⟨⟨ascii c, hc.1, hc.2⟩ :: cs, ?_, ?_⟩
    · rw [List.filterMap_cons_some (dif_pos hc), hcs]
      rfl
    · rw [List.map_cons, List.map_cons, hchars]

theorem VaList.ofArgs_holds (args : List KUint32) (cstring : KUint32 → List KUint8) :
    (VaList.ofArgs args cstring).Holds 0 args := by
  intro i hi
  simp [VaList.ofArgs, hi]

theorem Matching.literals (h : Verbatim s) (hf : Matching f args) : Matching (Display.literals s ++ f) args := by
  obtain ⟨cs, hcs, -⟩ := literals_eq h
  rw [hcs]
  clear hcs
  induction cs with
  | nil => exact hf
  | cons c cs ih => exact .lit ih

end

/-! ## Runs -/

/-- A call of `kprintf` with a well-formed format; the strings among its arguments end at their
NULs. -/
structure KprintfCall where
  pieces : List Piece
  fmt : CString
  spells : fmt.Spells (pieces.flatMap Piece.text)
  va : VaList
  strings : ∀ word, 0#8 ∉ va.cstring word

/-- What it prints. -/
def KprintfCall.text (c : KprintfCall) : List KUint8 := render c.va 0 0 c.pieces

/-- The call of `kvprintf` it makes. -/
def KprintfCall.call (c : KprintfCall) (phase : Phase) : Call := ⟨c.fmt, c.va, phase⟩

/-- One call after the other, each of them to its end. -/
inductive KprintfRun : Shared → List KprintfCall → Shared → Prop
  | nil {s : Shared} : KprintfRun s [] s
  | cons {s s' s'' : Shared} {c : KprintfCall} {cs : List KprintfCall} :
      Run.Ends Call.Alone (c.call .lock, s) (c.call .returned, s') → KprintfRun s' cs s'' → KprintfRun s (c :: cs) s''

/-- Everything that the calls print. -/
def printed (cs : List KprintfCall) : List KUint8 := cs.flatMap KprintfCall.text

/-- The calls put `text` on each of `n` displays. -/
structure Sends (n : Nat) (text : List KUint8) (out : List Emitted) : Prop where
  ended : ∀ e ∈ out, e.call.Ended
  sent : ∀ d < n, Display.sent d out = text

section

variable {n : Nat} {text text' : List KUint8} {out out' : List Emitted}

theorem Sends.nil : Sends n [] [] := ⟨fun _ he => (by cases he), fun _ _ => rfl⟩

theorem Sends.append (h : Sends n text out) (h' : Sends n text' out') : Sends n (text ++ text') (out ++ out') := by
  refine ⟨fun e he => ?_, fun d hd => by rw [sent_append, h.sent d hd, h'.sent d hd]⟩
  rcases List.mem_append.1 he with he | he
  · exact h.ended e he
  · exact h'.ended e he

theorem sends_calls {va : VaList} (hstrings : ∀ word, 0#8 ∉ va.cstring word) (f : List Piece) :
    Sends n (render va 0 0 f) (calls n va 0 0 f) :=
  ⟨ended_calls hstrings n f 0 0, fun d hd => by rw [sent_calls, if_pos hd]⟩

end

/-- A run comes to its end with the mutex free; every display has been sent all that was printed. -/
theorem kprintfRun_ends : ∀ (cs : List KprintfCall) {s : Shared}, s.locked = 0#8 →
    ∃ out, KprintfRun s cs ⟨0#8, s.numDisplays, s.output ++ out⟩ ∧ Sends s.numDisplays (printed cs) out
  | [], s, hs => by
    refine ⟨[], ?_, Sends.nil⟩
    obtain ⟨locked, numDisplays, output⟩ := s
    subst hs
    rw [List.append_nil]
    exact .nil
  | c :: cs, s, hs => by
    have hloop := kvprintfLoop_start s.numDisplays c.va c.spells
    obtain ⟨out, hrun, hsends⟩ :=
      @kprintfRun_ends cs ⟨0#8, s.numDisplays, s.output ++ calls s.numDisplays c.va 0 0 c.pieces⟩ rfl
    refine ⟨calls s.numDisplays c.va 0 0 c.pieces ++ out, ?_, (sends_calls c.strings c.pieces).append hsends⟩
    rw [← List.append_assoc]
    exact .cons (Call.ends hs hloop (le_refl _)) hrun

/-! ## The screen -/

/-- Row `r` of the screen shows line 25, and column `c` is past the end of that line: the cell is one
of the row below the screen, which only scrolling ever brings up. -/
def Unprinted (l : ScreenLayout) (r c : Nat) : Prop :=
  r + (l.done.length - 23) = 25 ∧ l.char 25 c = none

instance (l : ScreenLayout) (r c : Nat) : Decidable (Unprinted l r c) := inferInstanceAs (Decidable (_ ∧ _))

theorem Shows.cell_eq {edge : Nat → KUint16} {t : Textmode} {l : ScreenLayout} (h : Shows edge t l)
    (hascii : ∀ q c b, l.char q c = some b → b < 0x80#8) {r c : Nat} (hr : r < 25) (hc : c < 80) :
    cell t.memory r c = if Unprinted l r c then edge c else referenceCell l r c := by
  by_cases hedge : Unprinted l r c
  · rw [if_pos hedge, h.cells r hr.le c hc, tapeCell, hedge.1, hedge.2]
    rfl
  · rw [if_neg hedge, h.cell_eq_iff hr hc]
    refine ⟨hascii _ _, fun hnone hrow => ?_⟩
    rw [hrow] at hnone
    exact absurd ⟨hrow, hnone⟩ hedge

/-- The text driver shows what its display is sent, from `textmode_init` and `textmode_clear` on. -/
theorem Sends.screen {n d : Nat} {text : List KUint8} {out : List Emitted} (h : Sends n text out) (hd : d < n)
    (t : Textmode) : Follows (runCalls (textCalls d out) (textmodeClear (textmodeInit t))).console (printedLayout text) ∧
      ((∀ b ∈ text, b < 0x80#8) → ∀ r < 25, ∀ c < 80,
        cell (runCalls (textCalls d out) (textmodeClear (textmodeInit t))).memory r c =
          if Unprinted (printedLayout text) r c then cell t.memory 25 c
          else referenceCell (printedLayout text) r c) := by
  have hlayout := callsLayout_textCalls d Layout.empty h.ended
  rw [h.sent d hd] at hlayout
  have hshows := (Shows.start t).calls (fun call => @textCalls_ne_clear d out call)
  rw [hlayout] at hshows
  refine ⟨hshows.follows, fun hascii r hr c hc => hshows.cell_eq ?_ hr hc⟩
  refine Layout.foldl_forall_char (fun q c b hb => ?_) fun b hb => hascii b (List.mem_of_mem_filter hb)
  rw [Layout.char_empty] at hb
  cases hb

/-- What `kprintf` prints is on the screen. From `textmode_init` and `textmode_clear` on, and with the
mutex free, a run of calls comes to its end and leaves the mutex free and the cursor at the end of the
text. Where all of the text is ASCII, every cell has what a terminal of 24 lines shows of it; only past
the end of line 25 shows what was in memory below the screen. -/
theorem kprintf_screen {s : Shared} (hs : s.locked = 0#8) {d : Nat} (hd : d < s.numDisplays) (t : Textmode)
    (cs : List KprintfCall) : ∃ out, KprintfRun s cs ⟨0#8, s.numDisplays, s.output ++ out⟩ ∧
      Follows (runCalls (textCalls d out) (textmodeClear (textmodeInit t))).console (printedLayout (printed cs)) ∧
      ((∀ b ∈ printed cs, b < 0x80#8) → ∀ r < 25, ∀ c < 80,
        cell (runCalls (textCalls d out) (textmodeClear (textmodeInit t))).memory r c =
          if Unprinted (printedLayout (printed cs)) r c then cell t.memory 25 c
          else referenceCell (printedLayout (printed cs)) r c) := by
  obtain ⟨out, hrun, hsends⟩ := kprintfRun_ends cs hs
  exact ⟨out, hrun, hsends.screen hd t⟩

/-- `kprintf ("%04x", 0xAE)`. -/
def kprintfAE : KprintfCall where
  pieces := [.padded 4 .x]
  fmt := formatString [.padded 4 .x]
  spells := formatString_spells _
  va := .ofArgs [0xAE#32] fun _ => []
  strings := by simp [VaList.ofArgs]

/-- A screen of zeros. -/
def zeroScreen : Textmode := ⟨fun _ => 0#8, ⟨0#16, 0#16, 0#8, 0#8⟩, []⟩

theorem kprintf_screen_twice : ∃ out,
    KprintfRun ⟨0#8, 1, []⟩ [kprintfAE, kprintfAE] ⟨0#8, 1, out⟩ ∧
      Follows (runCalls (textCalls 0 out) (textmodeClear (textmodeInit zeroScreen))).console
        (printedLayout (printed [kprintfAE, kprintfAE])) ∧
      cell (runCalls (textCalls 0 out) (textmodeClear (textmodeInit zeroScreen))).memory 0 6 =
        screenColor ++ ascii 'A' := by
  obtain ⟨out, hrun, hfollows, hcell⟩ :=
    @kprintf_screen ⟨0#8, 1, []⟩ rfl 0 (by decide) zeroScreen [kprintfAE, kprintfAE]
  have hshown := hcell (by decide) 0 (by decide) 6 (by decide)
  rw [if_neg (by decide)] at hshown
  exact ⟨out, hrun, hfollows, hshown.trans (by decide)⟩

end Aeon.Display
