/-
Runs of calls of the text driver: `textmode_putc`, `textmode_puts` and `textmode_clear` in any
order, the bytes of memory they write, and when all of them lie on the screen.
-/
import Aeon.Display.Screen

namespace Aeon.Display

open Terminal

/-! ## Calls -/

inductive TextCall where
  | putc (c : KUint8)
  | puts (s : List KUint8)
  | clear

namespace TextCall

def run : TextCall → Textmode → Textmode
  | putc c, t => textmodePutc c t
  | puts s, t => textmodePuts s t
  | clear, t => textmodeClear t

/-- The characters a call hands to `textmode_putc`. -/
def text : TextCall → List KUint8
  | putc c => [c]
  | puts s => s.takeWhile (· ≠ 0#8)
  | clear => []

def events : TextCall → Textmode → List Event
  | clear, _ => [.clear]
  | call, t => putCharsEvents call.text t

/-- The layout on the screen after a call. -/
def layout : TextCall → ScreenLayout → ScreenLayout
  | clear, _ => Layout.empty
  | call, l => (call.text.filter (· ≠ 0#8)).foldl feedChar l

end TextCall

def runCalls (calls : List TextCall) (t : Textmode) : Textmode := calls.foldl (fun t call => call.run t) t

def callsEvents : List TextCall → Textmode → List Event
  | [], _ => []
  | call :: calls, t => call.events t ++ callsEvents calls (call.run t)

/-- The text since the last `textmode_clear`, laid out. -/
def callsLayout (calls : List TextCall) (l : ScreenLayout) : ScreenLayout :=
  calls.foldl (fun l call => call.layout l) l

theorem textmodePuts_eq : ∀ (s : List KUint8) (t : Textmode),
    textmodePuts s t = putChars (s.takeWhile (· ≠ 0#8)) t
  | [], _ => rfl
  | c :: s, t => by
    unfold textmodePuts
    by_cases hc : c = 0#8
    · rw [if_pos hc, List.takeWhile_cons_of_neg (by simpa using hc)]
      rfl
    · rw [if_neg hc, List.takeWhile_cons_of_pos (by simpa using hc), textmodePuts_eq]
      rfl

theorem TextCall.run_puts (s : List KUint8) (t : Textmode) :
    TextCall.run (.puts s) t = Display.putChars (s.takeWhile (· ≠ 0#8)) t := textmodePuts_eq s t

/-- The cursor goes with the layout, and the screen scrolls once for each line past line 23. -/
theorem Follows.call {t : Textmode} {l : ScreenLayout} (h : Follows t.console l) (call : TextCall) :
    Follows (call.run t).console (call.layout l) ∧
      (l.done.length ≤ 23 → (Event.scroll ∉ call.events t ↔ (call.layout l).done.length ≤ 23)) := by
  have htext (s : List KUint8) (hl : l.done.length ≤ 23) :
      Event.scroll ∉ putCharsEvents s t ↔ ((s.filter (· ≠ 0#8)).foldl feedChar l).done.length ≤ 23 := by
    have hscrolls := (h.putChars (s := s)).2.1
    rw [← List.count_eq_zero]
    omega
  cases call with
  | putc c => exact ⟨(h.putChars (s := [c])).1, htext [c]⟩
  | puts s =>
    rw [TextCall.run_puts]
    exact ⟨h.putChars.1, htext _⟩
  | clear =>
    refine ⟨⟨rfl, rfl⟩, fun _ => iff_of_true ?_ (Nat.zero_le _)⟩
    unfold TextCall.events
    simp

/-- No call scrolls exactly when at no point more than 23 lines are complete. -/
theorem Follows.scroll_notMem_iff : ∀ {calls : List TextCall} {t : Textmode} {l : ScreenLayout},
    Follows t.console l → l.done.length ≤ 23 →
      (Event.scroll ∉ callsEvents calls t ↔ ∀ pre, pre <+: calls → (callsLayout pre l).done.length ≤ 23)
  | [], t, l, _, hl => by
    refine iff_of_true List.not_mem_nil fun pre hpre => ?_
    rw [List.prefix_nil.1 hpre]
    exact hl
  | call :: calls, t, l, h, hl => by
    obtain ⟨hfollows, hscroll⟩ := h.call call
    rw [callsEvents, List.mem_append, not_or, hscroll hl]
    constructor
    · rintro ⟨hcall, hrest⟩ pre hpre
      rcases List.prefix_cons_iff.1 hpre with rfl | ⟨pre, rfl, hpre'⟩
      · exact hl
      · exact (hfollows.scroll_notMem_iff hcall).1 hrest pre hpre'
    · intro hall
      have hcall : (call.layout l).done.length ≤ 23 := hall [call] (List.prefix_append [call] calls)
      refine ⟨hcall, (hfollows.scroll_notMem_iff hcall).2 fun pre hpre => ?_⟩
      exact hall (call :: pre) ((List.prefix_cons_inj call).2 hpre)

/-! ## The bytes written -/

def wordWrites (p : KUint32) : List KUint32 := [p, p + 1#32]

/-- The bytes `memcpy` writes. -/
def memcpyWrites (dest : KUint32) (count : KSize) : List KUint32 :=
  (List.range count.toNat).map fun k => dest + BitVec.ofNat 32 k

/-- The bytes the loop of `memset16` writes: `num` words. -/
def memset16Writes : (num : Nat) → (p : KUint32) → List KUint32
  | 0, _ => []
  | num + 1, p => wordWrites p ++ memset16Writes num (p + 2#32)

def scrollupWrites : List KUint32 :=
  (List.range textmodeHeight).flatMap (fun y => memcpyWrites (vgaMemory + BitVec.ofNat 32 (y * textmodeWidth * 2))
      (BitVec.ofNat 32 (textmodeWidth * 2))) ++
    memset16Writes (BitVec.ofNat 32 (textmodeWidth * 2)).toNat
      (vgaMemory + BitVec.ofNat 32 (textmodeHeight * textmodeWidth * 2))

def clearWrites : List KUint32 :=
  (List.range textmodeHeight).flatMap fun y => (List.range textmodeWidth).flatMap fun x =>
    wordWrites (cellPtr (BitVec.ofNat 32 y) (BitVec.ofNat 32 x))

def Event.writes : Event → List KUint32
  | scroll => scrollupWrites
  | store _ row column => wordWrites (cellPtr (BitVec.ofNat 32 row) (BitVec.ofNat 32 column))
  | clear => clearWrites

/-- The bytes a run of calls writes. -/
def callsWrites (calls : List TextCall) (t : Textmode) : List KUint32 := (callsEvents calls t).flatMap Event.writes

section Frame

variable {a : KUint32}

theorem writeU16_frame {p : KUint32} (h : a ∉ wordWrites p) (m : Ram) (v : KUint16) : writeU16 m p v a = m a := by
  unfold wordWrites at h
  rw [List.mem_cons, List.mem_singleton, not_or] at h
  rw [writeU16, Function.update_of_ne h.2, Function.update_of_ne h.1]

/-- A loop that writes nothing to a byte in any of its rounds. -/
theorem foldl_frame {β : Type} {f : Ram → β → Ram} {w : β → List KUint32}
    (hf : ∀ (m : Ram) (y : β), a ∉ w y → f m y a = m a) :
    ∀ {ys : List β} (m : Ram), a ∉ ys.flatMap w → ys.foldl f m a = m a
  | [], _, _ => rfl
  | y :: ys, m, h => by
    rw [List.flatMap_cons, List.mem_append, not_or] at h
    rw [List.foldl_cons, foldl_frame hf _ h.2, hf m y h.1]

theorem memcpy_frame {dest : KUint32} {count : KSize} (h : a ∉ memcpyWrites dest count) (src : KUint32) (m : Ram) :
    memcpy dest src count m a = m a := by
  unfold memcpyWrites at h
  rw [memcpy_eq_copyBytes]
  generalize count.toNat = n at h ⊢
  induction n with
  | zero => rfl
  | succ n ih =>
    rw [List.range_succ, List.map_append, List.mem_append, not_or, List.map_singleton, List.mem_singleton] at h
    rw [copyBytes_succ, Function.update_of_ne h.2, ih h.1]

theorem memset16Loop_frame (v : KUint16) : ∀ {num : Nat} {p : KUint32} (m : Ram), a ∉ memset16Writes num p →
    memset16Loop num p v m a = m a
  | 0, _, _, _ => rfl
  | num + 1, p, m, h => by
    unfold memset16Writes at h
    rw [List.mem_append, not_or] at h
    rw [memset16Loop, memset16Loop_frame v _ h.2, writeU16_frame h.1]

theorem textmodeScrollup_frame (h : a ∉ scrollupWrites) (t : Textmode) :
    (textmodeScrollup t).memory a = t.memory a := by
  unfold scrollupWrites at h
  rw [List.mem_append, not_or] at h
  unfold textmodeScrollup memset16
  dsimp only
  rw [memset16Loop_frame _ _ h.2]
  exact foldl_frame (fun m y hy => memcpy_frame hy _ m) _ h.1

theorem textmodeClear_frame (h : a ∉ clearWrites) (t : Textmode) : (textmodeClear t).memory a = t.memory a := by
  unfold clearWrites at h
  exact foldl_frame (fun m y hy => foldl_frame (fun m x hx => writeU16_frame hx m _) m hy) _ h

/-- An event changes no byte but those it writes. -/
theorem Event.replay_frame {e : Event} (h : a ∉ e.writes) (con : Console) (m : Ram) : e.replay con m a = m a := by
  cases e with
  | scroll => exact textmodeScrollup_frame h _
  | store c row column => exact writeU16_frame h _ _
  | clear => exact textmodeClear_frame h _

theorem putChars_frame {s : List KUint8} {t : Textmode} (h : a ∉ (putCharsEvents s t).flatMap Event.writes) :
    (putChars s t).memory a = t.memory a := by
  rw [putChars_replay]
  exact foldl_frame (fun m e he => e.replay_frame he _ m) _ h

/-- Nor does a run of calls. -/
theorem runCalls_frame : ∀ {calls : List TextCall} {t : Textmode}, a ∉ callsWrites calls t →
    (runCalls calls t).memory a = t.memory a
  | [], _, _ => rfl
  | call :: calls, t, h => by
    unfold callsWrites callsEvents at h
    rw [List.flatMap_append, List.mem_append, not_or] at h
    have hcall : (call.run t).memory a = t.memory a := by
      cases call with
      | putc c => exact @putChars_frame a [c] t h.1
      | puts s =>
        rw [TextCall.run_puts]
        exact putChars_frame h.1
      | clear => exact textmodeClear_frame (by simpa [TextCall.events, Event.writes] using h.1) t
    exact (runCalls_frame h.2).trans hcall

end Frame

/-! ## Inside the screen -/

/-- The byte lies in the screen buffer of 80 * 25 * 2 bytes from `VGA_MEMORY` on. -/
def OnScreen (a : KUint32) : Prop := (a - vgaMemory).toNat < textmodeWidth * textmodeHeight * 2

theorem wordWrites_onScreen {r c : Nat} (hr : r < 25) (hc : c < 80) :
    ∀ a ∈ wordWrites (cellPtr (BitVec.ofNat 32 r) (BitVec.ofNat 32 c)), OnScreen a := by
  have hoff (k : Nat) (hk : k < 2 ^ 16) : (vgaMemory + BitVec.ofNat 32 k - vgaMemory).toNat = k := by
    rw [BitVec.add_comm, BitVec.add_sub_cancel, BitVec.toNat_ofNat]
    omega
  intro a ha
  unfold wordWrites at ha
  unfold OnScreen textmodeWidth textmodeHeight
  rw [cellPtr_eq, List.mem_cons, List.mem_singleton] at ha
  rcases ha with rfl | rfl
  · rw [hoff _ (by omega)]
    omega
  · rw [BitVec.add_assoc, ← BitVec.ofNat_add, hoff _ (by omega)]
    omega

theorem clearWrites_onScreen : ∀ a ∈ clearWrites, OnScreen a := by
  intro a ha
  obtain ⟨y, hy, ha⟩ := List.mem_flatMap.1 ha
  obtain ⟨x, hx, ha⟩ := List.mem_flatMap.1 ha
  exact wordWrites_onScreen (List.mem_range.1 hy) (List.mem_range.1 hx) a ha

/-- The fill of a scroll starts right past the screen. -/
theorem scrollupWrites_outside : ∃ a ∈ scrollupWrites, ¬ OnScreen a := by
  refine ⟨vgaMemory + BitVec.ofNat 32 (textmodeHeight * textmodeWidth * 2), ?_, by unfold OnScreen; decide⟩
  unfold scrollupWrites
  exact List.mem_append_right _ List.mem_cons_self

theorem putCharsEvents_onScreen {t : Textmode} {l : ScreenLayout} (h : Follows t.console l) {s : List KUint8}
    {e : Event} (he : e ∈ putCharsEvents s t) (hscroll : e ≠ .scroll) : ∀ a ∈ e.writes, OnScreen a := by
  cases e with
  | scroll => exact absurd rfl hscroll
  | clear => exact clearWrites_onScreen
  | store c row column =>
    have hmem : (c, row, column) ∈ stores (putCharsEvents s t) := List.mem_filterMap.2 ⟨_, he, rfl⟩
    rw [h.putChars.2.2] at hmem
    obtain ⟨p, hp, heq⟩ := List.mem_map.1 hmem
    obtain ⟨-, rfl, rfl⟩ : p.char = c ∧ min p.line 23 = row ∧ p.column = column := by simpa using heq
    exact wordWrites_onScreen (by omega) (placements_column_lt _ _ p hp)

/-- Of the events of a run, only a scroll leaves the screen. -/
theorem callsEvents_onScreen : ∀ {calls : List TextCall} {t : Textmode} {l : ScreenLayout}, Follows t.console l →
    ∀ e ∈ callsEvents calls t, e ≠ .scroll → ∀ a ∈ e.writes, OnScreen a
  | [], _, _, _, e, he, _ => by cases he
  | call :: calls, t, l, h, e, he, hscroll => by
    unfold callsEvents at he
    rcases List.mem_append.1 he with he | he
    · cases call with
      | putc c => exact putCharsEvents_onScreen h he hscroll
      | puts s => exact putCharsEvents_onScreen h he hscroll
      | clear =>
        rw [List.mem_singleton.1 he]
        exact clearWrites_onScreen
    · exact callsEvents_onScreen (h.call call).1 e he hscroll

theorem callsWrites_onScreen_iff {calls : List TextCall} {t : Textmode} {l : ScreenLayout} (h : Follows t.console l) :
    (∀ a ∈ callsWrites calls t, OnScreen a) ↔ Event.scroll ∉ callsEvents calls t := by
  constructor
  · intro hall hscroll
    obtain ⟨a, ha, hout⟩ := scrollupWrites_outside
    exact hout (hall a (List.mem_flatMap.2 ⟨_, hscroll, ha⟩))
  · intro hno a ha
    obtain ⟨e, he, ha⟩ := List.mem_flatMap.1 ha
    exact callsEvents_onScreen h e he (fun hs => hno (hs ▸ he)) a ha

theorem follows_start (t : Textmode) : Follows (textmodeClear (textmodeInit t)).console Layout.empty := ⟨rfl, rfl⟩

/-- After `textmode_init` and `textmode_clear` no byte changes but those listed as written, and every one
of these lies on the screen exactly when the text since the last `textmode_clear` never has more than 23
complete lines. -/
theorem calls_onScreen_iff (t : Textmode) (calls : List TextCall) :
    (∀ a ∉ callsWrites calls (textmodeClear (textmodeInit t)),
      (runCalls calls (textmodeClear (textmodeInit t))).memory a = (textmodeClear (textmodeInit t)).memory a) ∧
    ((∀ a ∈ callsWrites calls (textmodeClear (textmodeInit t)), OnScreen a) ↔
      ∀ pre, pre <+: calls → (callsLayout pre Layout.empty).done.length ≤ 23) := by
  refine ⟨fun a ha => runCalls_frame ha, ?_⟩
  rw [callsWrites_onScreen_iff (follows_start t)]
  exact (follows_start t).scroll_notMem_iff (Nat.zero_le _)

/-- Twenty-four line breaks: the row past the screen is filled with blanks. -/
theorem cell_newlines (t : Textmode) :
    cell (textmodePuts (List.replicate 24 (ascii '\n')) (textmodeClear (textmodeInit t))).memory 25 0 =
      textmodeCreateEntry (ascii ' ') screenColor := by
  have hlines : (layoutOf (List.replicate 24 (ascii '\n'))).done.length = 24 := by decide
  rw [(shows_puts t _).cells 25 (by omega) 0 (by omega), hlines, tapeCell, Layout.char_of_lt (by omega)]
  rfl

theorem calls_newlines :
    let t : Textmode := ⟨fun _ => 0#8, ⟨0#16, 0#16, 0#8, 0#8⟩, []⟩
    let calls := [TextCall.puts (List.replicate 24 (ascii '\n'))]
    (¬ ∀ a ∈ callsWrites calls (textmodeClear (textmodeInit t)), OnScreen a) ∧
      cell (runCalls calls (textmodeClear (textmodeInit t))).memory 25 0 ≠ cell t.memory 25 0 := by
  intro t calls
  have hfollows := follows_start t
  have hlines : (callsLayout calls Layout.empty).done.length = 24 := by decide
  refine ⟨fun hall => ?_, ?_⟩
  · rw [callsWrites_onScreen_iff hfollows, hfollows.scroll_notMem_iff (Nat.zero_le _)] at hall
    have hle := hall calls List.prefix_rfl
    omega
  · have hrun (s : List KUint8) (t : Textmode) : runCalls [.puts s] t = textmodePuts s t := rfl
    rw [hrun, cell_newlines]
    decide

end Aeon.Display
