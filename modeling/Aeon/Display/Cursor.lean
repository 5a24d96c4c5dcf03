/-
The cursor of the text driver against the lazy layout in lines of 80: where it stands, when the
screen scrolls, and in which row and column each character is stored, over any text.
-/
import Aeon.Display.Textmode
import Aeon.Lib.Terminal

namespace Aeon.Display

open Terminal

/-! ## What a call does to the screen -/

/-- A change of the screen: a scroll, a character stored, or the screen cleared. -/
inductive Event where
  | scroll
  | store (c : KUint8) (row column : Nat)
  | clear
  deriving DecidableEq

/-- The memory after an event. -/
def Event.replay (con : Console) (m : Ram) : Event → Ram
  | scroll => (textmodeScrollup ⟨m, con, []⟩).memory
  | store c row column =>
    writeU16 m (cellPtr (BitVec.ofNat 32 row) (BitVec.ofNat 32 column)) (textmodeCreateEntry c con.entity)
  | clear => (textmodeClear ⟨m, con, []⟩).memory

/-- The events of `textmode_putc`. -/
def putcEvents (c : KUint8) (t : Textmode) : List Event :=
  if c = 0#8 then []
  else
    let broken := breakLine c t
    let kept := keepRow broken
    (if 24#16 ≤ broken.console.cy then [.scroll] else []) ++
      if c = ascii '\n' then [] else [.store c kept.console.cy.toNat kept.console.cx.toNat]

/-- A text printed character by character with `textmode_putc`. -/
def putChars : List KUint8 → Textmode → Textmode
  | [], t => t
  | c :: s, t => putChars s (textmodePutc c t)

def putCharsEvents : List KUint8 → Textmode → List Event
  | [], _ => []
  | c :: s, t => putcEvents c t ++ putCharsEvents s (textmodePutc c t)

theorem entity_breakLine (c : KUint8) (t : Textmode) : (breakLine c t).console.entity = t.console.entity := by
  unfold breakLine
  split <;> rfl

theorem entity_keepRow (t : Textmode) : (keepRow t).console.entity = t.console.entity := by
  unfold keepRow
  split <;> rfl

/-- The events are all that happens to the memory. -/
theorem textmodePutc_replay (c : KUint8) (t : Textmode) :
    (textmodePutc c t).memory = (putcEvents c t).foldl (Event.replay t.console) t.memory := by
  have hmemory : (breakLine c t).memory = t.memory := by
    unfold breakLine
    split <;> rfl
  have hkept : (keepRow (breakLine c t)).memory =
      (if 24#16 ≤ (breakLine c t).console.cy then [Event.scroll] else []).foldl (Event.replay t.console) t.memory := by
    unfold keepRow
    split
    · rw [List.foldl_cons, List.foldl_nil, Event.replay, ← hmemory]
      unfold textmodeScrollup
      rw [entity_breakLine]
    · exact hmemory
  unfold textmodePutc putcEvents
  by_cases h0 : c = 0#8
  · rw [if_pos h0, if_pos h0]
    rfl
  · rw [if_neg h0, if_neg h0, List.foldl_append, ← hkept]
    by_cases hnl : c = ascii '\n'
    · rw [if_pos hnl, if_pos hnl]
      rfl
    · rw [if_neg hnl, if_neg hnl, List.foldl_cons, List.foldl_nil, Event.replay, BitVec.ofNat_toNat,
        BitVec.ofNat_toNat, ← entity_breakLine c t, ← entity_keepRow]
      rfl

theorem entity_textmodePutc (c : KUint8) (t : Textmode) : (textmodePutc c t).console.entity = t.console.entity := by
  have hkept : (keepRow (breakLine c t)).console.entity = t.console.entity :=
    (entity_keepRow _).trans (entity_breakLine c t)
  unfold textmodePutc
  split
  · rfl
  · dsimp only
    split
    · exact hkept
    · exact hkept

/-- Of the console an event uses the colours only. -/
theorem Event.replay_congr {con con' : Console} (h : con.entity = con'.entity) : Event.replay con = Event.replay con' := by
  funext m e
  cases e with
  | scroll =>
    unfold Event.replay textmodeScrollup
    rw [h]
  | store c row column =>
    unfold Event.replay
    rw [h]
  | clear =>
    unfold Event.replay textmodeClear
    rw [h]

/-- Nor does anything else happen over a text. -/
theorem putChars_replay : ∀ (s : List KUint8) (t : Textmode),
    (putChars s t).memory = (putCharsEvents s t).foldl (Event.replay t.console) t.memory
  | [], _ => rfl
  | c :: s, t => by
    rw [putChars, putCharsEvents, List.foldl_append, putChars_replay s, textmodePutc_replay,
      Event.replay_congr (entity_textmodePutc c t)]

/-! ## The layout -/

abbrev ScreenLayout := Layout 80 KUint8

def feedChar (l : ScreenLayout) (c : KUint8) : ScreenLayout := l.feed (by decide) (· = ascii '\n') c

/-- The lines of a string, up to its NUL. -/
def layoutOf (str : List KUint8) : ScreenLayout :=
  Layout.ofText (by decide) (· = ascii '\n') (str.takeWhile (· ≠ 0#8))

/-- The line a character that is not a line break goes to. -/
def lineFor (l : ScreenLayout) : ScreenLayout := if l.current.length < 80 then l else l.newline

/-- A character with the number of its line and the number of characters before it on that line. -/
structure Placement where
  char : KUint8
  line : Nat
  column : Nat

/-- Where the characters of a text are placed, from a layout on. -/
def placements : ScreenLayout → List KUint8 → List Placement
  | _, [] => []
  | l, c :: s =>
    if c = ascii '\n' then placements (feedChar l c) s
    else ⟨c, (lineFor l).done.length, (lineFor l).current.length⟩ :: placements (feedChar l c) s

theorem lineFor_lt (l : ScreenLayout) : (lineFor l).current.length < 80 := by
  unfold lineFor
  split
  · assumption
  · rw [Layout.current_newline]
    decide

theorem feedChar_eq (l : ScreenLayout) (c : KUint8) :
    feedChar l c = if c = ascii '\n' then l.newline else (lineFor l).append c (lineFor_lt l) := by
  unfold feedChar Layout.feed
  by_cases hnl : c = ascii '\n'
  · rw [if_pos hnl, if_pos hnl]
  · rw [if_neg hnl, if_neg hnl]
    by_cases hroom : l.current.length < 80
    · rw [dif_pos hroom]
      congr 1
      exact (if_pos hroom).symm
    · rw [dif_neg hroom]
      congr 1
      exact (if_neg hroom).symm

/-! ## The cursor -/

/-- The cursor stands at the end of a layout: in the column after the last character, and in the row
of the last line or, from line 23 on, in the last row in use. -/
structure Follows (con : Console) (l : ScreenLayout) : Prop where
  cx : con.cx = BitVec.ofNat 16 l.current.length
  cy : con.cy = BitVec.ofNat 16 (min l.done.length 23)

variable {t : Textmode} {l : ScreenLayout}

theorem Follows.cx_ge {con : Console} (h : Follows con l) : 80#16 ≤ con.cx ↔ ¬ l.current.length < 80 := by
  have := l.current_length_le
  rw [h.cx, BitVec.le_def, BitVec.toNat_ofNat, BitVec.toNat_ofNat]
  omega

theorem Follows.cy_lt {con : Console} (h : Follows con l) : ¬ 24#16 ≤ con.cy := by
  rw [h.cy, BitVec.le_def, BitVec.toNat_ofNat, BitVec.toNat_ofNat]
  omega

theorem Follows.noBreak (h : Follows t.console l) {c : KUint8} (hno : ¬ (80#16 ≤ t.console.cx ∨ c = ascii '\n')) :
    breakLine c t = t ∧ keepRow t = t := by
  unfold breakLine keepRow
  rw [if_neg hno, if_neg h.cy_lt]
  exact ⟨rfl, rfl⟩

/-- A line break scrolls from line 23 on. -/
theorem Follows.scrolls_iff (h : Follows t.console l) {c : KUint8}
    (hbreak : 80#16 ≤ t.console.cx ∨ c = ascii '\n') :
    24#16 ≤ (breakLine c t).console.cy ↔ 23 ≤ l.done.length := by
  have hcy : (breakLine c t).console.cy = BitVec.ofNat 16 (min l.done.length 23 + 1) := by
    rw [breakLine, if_pos hbreak, BitVec.ofNat_add, ← h.cy]
  rw [hcy, BitVec.le_def, BitVec.toNat_ofNat, BitVec.toNat_ofNat]
  omega

/-- It goes to the next row, or stays in the last row in use. -/
theorem Follows.newline (h : Follows t.console l) {c : KUint8}
    (hbreak : 80#16 ≤ t.console.cx ∨ c = ascii '\n') : Follows (keepRow (breakLine c t)).console l.newline := by
  have hlines := l.length_lines
  have hscrolls := h.scrolls_iff hbreak
  unfold keepRow
  by_cases hlast : l.done.length < 23
  · rw [if_neg (by rw [hscrolls]; omega), breakLine, if_pos hbreak]
    refine ⟨rfl, ?_⟩
    rw [l.done_newline, hlines, Nat.min_eq_left (by omega), BitVec.ofNat_add, h.cy, Nat.min_eq_left (by omega)]
  · rw [if_pos (by rw [hscrolls]; omega), breakLine, if_pos hbreak]
    refine ⟨rfl, ?_⟩
    rw [l.done_newline, hlines, Nat.min_eq_right (by omega)]
    exact (BitVec.add_sub_cancel _ _).trans (by rw [h.cy, Nat.min_eq_right (by omega)])

theorem Follows.newline_events (h : Follows t.console l) {c : KUint8}
    (hbreak : 80#16 ≤ t.console.cx ∨ c = ascii '\n') :
    (if 24#16 ≤ (breakLine c t).console.cy then [Event.scroll] else []) =
      List.replicate (l.newline.done.length - 23 - (l.done.length - 23)) .scroll := by
  have hscrolls := h.scrolls_iff hbreak
  rw [l.done_newline, l.length_lines]
  by_cases hlast : l.done.length < 23
  · rw [if_neg (by rw [hscrolls]; omega), show l.done.length + 1 - 23 - (l.done.length - 23) = 0 by omega]
    rfl
  · rw [if_pos (by rw [hscrolls]; omega), show l.done.length + 1 - 23 - (l.done.length - 23) = 1 by omega]
    rfl

theorem Follows.append (h : Follows t.console l) (c : KUint8) (hlt : l.current.length < 80) :
    Follows (storeChar c t).console (l.append c hlt) := by
  refine ⟨?_, h.cy⟩
  rw [l.current_append, List.length_append, List.length_singleton, BitVec.ofNat_add, ← h.cx]
  rfl

/-- The line a character is stored in, after the break it may need. -/
theorem Follows.lineFor (h : Follows t.console l) {c : KUint8} (hnl : c ≠ ascii '\n') :
    Follows (keepRow (breakLine c t)).console (lineFor l) ∧
      (if 24#16 ≤ (breakLine c t).console.cy then [Event.scroll] else []) =
        List.replicate ((Display.lineFor l).done.length - 23 - (l.done.length - 23)) .scroll := by
  unfold Display.lineFor
  by_cases hroom : l.current.length < 80
  · obtain ⟨hbreak, hkeep⟩ := h.noBreak (by rw [h.cx_ge]; tauto : ¬ (80#16 ≤ t.console.cx ∨ c = ascii '\n'))
    rw [if_pos hroom, hbreak, hkeep, if_neg h.cy_lt, Nat.sub_self]
    exact ⟨h, rfl⟩
  · rw [if_neg hroom]
    exact ⟨h.newline (.inl (h.cx_ge.2 hroom)), h.newline_events (.inl (h.cx_ge.2 hroom))⟩

/-- One character: the cursor goes with the layout, a line that starts past line 23 scrolls, and the
character is stored where the layout has it. -/
theorem Follows.putc (h : Follows t.console l) {c : KUint8} (hc : c ≠ 0#8) :
    Follows (textmodePutc c t).console (feedChar l c) ∧
      putcEvents c t =
        List.replicate ((feedChar l c).done.length - 23 - (l.done.length - 23)) .scroll ++
          (placements l [c]).map fun p => .store p.char (min p.line 23) p.column := by
  unfold textmodePutc putcEvents placements
  rw [if_neg hc, if_neg hc, feedChar_eq]
  dsimp only
  by_cases hnl : c = ascii '\n'
  · rw [if_pos hnl, if_pos hnl, if_pos hnl, if_pos hnl, h.newline_events (.inr hnl)]
    exact ⟨h.newline (.inr hnl), rfl⟩
  · obtain ⟨hfollows, hscroll⟩ := h.lineFor hnl
    have hrow : (keepRow (breakLine c t)).console.cy.toNat = min (Display.lineFor l).done.length 23 := by
      rw [hfollows.cy, BitVec.toNat_ofNat]
      omega
    have hcolumn : (keepRow (breakLine c t)).console.cx.toNat = (Display.lineFor l).current.length := by
      have := lineFor_lt l
      rw [hfollows.cx, BitVec.toNat_ofNat]
      omega
    rw [if_neg hnl, if_neg hnl, if_neg hnl, if_neg hnl, hscroll, hrow, hcolumn, Layout.done_append]
    exact ⟨hfollows.append c (lineFor_lt l), rfl⟩

/-! ## A whole text -/

def Event.stored : Event → Option (KUint8 × Nat × Nat)
  | store c row column => some (c, row, column)
  | _ => none

/-- The characters stored, each with its row and column. -/
def stores (events : List Event) : List (KUint8 × Nat × Nat) := events.filterMap Event.stored

theorem stores_append (events events' : List Event) : stores (events ++ events') = stores events ++ stores events' :=
  List.filterMap_append

theorem stores_scrolls (k : Nat) : stores (List.replicate k Event.scroll) = [] := by
  unfold stores
  rw [List.filterMap_eq_nil_iff]
  intro e he
  rw [List.eq_of_mem_replicate he]
  rfl

theorem stores_placed (ps : List Placement) :
    stores (ps.map fun p => .store p.char (min p.line 23) p.column) =
      ps.map fun p => (p.char, min p.line 23, p.column) := by
  unfold stores
  rw [List.filterMap_map]
  exact congrFun (@List.filterMap_eq_map _ _ fun p : Placement => (p.char, min p.line 23, p.column)) _

theorem scrolls_placed (ps : List Placement) :
    (ps.map fun p => Event.store p.char (min p.line 23) p.column).count .scroll = 0 := by
  rw [List.count_eq_zero]
  intro hmem
  obtain ⟨p, -, hp⟩ := List.mem_map.1 hmem
  cases hp

theorem done_length_feedChar (l : ScreenLayout) (c : KUint8) : l.done.length ≤ (feedChar l c).done.length := by
  have hnewline : l.done.length ≤ l.newline.done.length := by
    rw [l.done_newline, l.length_lines]
    exact Nat.le_succ _
  rw [feedChar_eq]
  split
  · exact hnewline
  · rw [Layout.done_append]
    unfold lineFor
    split
    · exact le_refl _
    · exact hnewline

theorem placements_cons (l : ScreenLayout) (c : KUint8) (s : List KUint8) :
    placements l (c :: s) = placements l [c] ++ placements (feedChar l c) s := by
  rw [placements, placements, placements]
  split <;> rfl

theorem placements_column_lt : ∀ (s : List KUint8) (l : ScreenLayout), ∀ p ∈ placements l s, p.column < 80
  | [], l, p, hp => by cases hp
  | c :: s, l, p, hp => by
    rw [placements_cons, List.mem_append] at hp
    rcases hp with hp | hp
    · unfold placements at hp
      split at hp
      · cases hp
      · rw [List.mem_singleton.1 hp]
        exact lineFor_lt l
    · exact placements_column_lt s _ p hp

theorem Follows.putChars : ∀ {s : List KUint8} {t : Textmode} {l : ScreenLayout}, Follows t.console l →
    let text := s.filter (· ≠ 0#8)
    Follows (putChars s t).console (text.foldl feedChar l) ∧
      (putCharsEvents s t).count .scroll + (l.done.length - 23) = (text.foldl feedChar l).done.length - 23 ∧
      stores (putCharsEvents s t) = (placements l text).map fun p => (p.char, min p.line 23, p.column)
  | [], t, l, h => ⟨h, Nat.zero_add _, rfl⟩
  | c :: s, t, l, h => by
    intro text
    unfold Display.putChars putCharsEvents
    by_cases hc : c = 0#8
    · have hputc : textmodePutc c t = t := if_pos hc
      have hevents : putcEvents c t = [] := if_pos hc
      have htext : text = s.filter (· ≠ 0#8) := List.filter_cons_of_neg (by simpa using hc)
      rw [hputc, hevents, htext, List.nil_append]
      exact h.putChars
    · obtain ⟨hfollows, hevents⟩ := h.putc hc
      obtain ⟨hrest, hscrolls, hstores⟩ := @Follows.putChars s _ _ hfollows
      have htext : text = c :: s.filter (· ≠ 0#8) := List.filter_cons_of_pos (by simpa using hc)
      have hle := done_length_feedChar l c
      refine ⟨?_, ?_, ?_⟩
      · rw [htext]
        exact hrest
      · rw [List.count_append, hevents, List.count_append, List.count_replicate_self, scrolls_placed, htext,
          List.foldl_cons, ← hscrolls]
        omega
      · rw [stores_append, hevents, stores_append, stores_scrolls, stores_placed, hstores, htext,
          placements_cons l c (s.filter _), List.map_append, List.nil_append]

theorem follows_textmodeInit (t : Textmode) : Follows (textmodeInit t).console Layout.empty := ⟨rfl, rfl⟩

/-- The lazy layout of a text printed character by character. -/
def printedLayout (s : List KUint8) : ScreenLayout := (s.filter (· ≠ 0#8)).foldl feedChar Layout.empty

/-- After any text the cursor stands where the lazy layout ends, the screen has scrolled once for
each line past line 23, and every character was stored in its column and in the row of its line; these
scrolls and stores, in their order, are all that happened to the memory. -/
theorem textmodePutc_layout (t : Textmode) (s : List KUint8) :
    let l := printedLayout s
    let con := (putChars s (textmodeInit t)).console
    let events := putCharsEvents s (textmodeInit t)
    con.cx.toNat = l.current.length ∧ l.current.length ≤ 80 ∧ con.cy.toNat = min l.done.length 23 ∧
      events.count .scroll = l.done.length - 23 ∧
      stores events = (placements Layout.empty (s.filter (· ≠ 0#8))).map
        (fun p => (p.char, min p.line 23, p.column)) ∧
      (∀ p ∈ placements Layout.empty (s.filter (· ≠ 0#8)), p.column < 80) ∧
      (putChars s (textmodeInit t)).memory = events.foldl (Event.replay (textmodeInit t).console) t.memory := by
  intro l con events
  obtain ⟨⟨hcx, hcy⟩, hscrolls, hstores⟩ := (follows_textmodeInit t).putChars (s := s)
  have hlen : l.current.length ≤ 80 := l.current_length_le
  have hcx' : con.cx = BitVec.ofNat 16 l.current.length := hcx
  have hcy' : con.cy = BitVec.ofNat 16 (min l.done.length 23) := hcy
  refine ⟨?_, hlen, ?_, hscrolls, hstores, placements_column_lt _ _, putChars_replay s _⟩
  · rw [hcx', BitVec.toNat_ofNat]
    omega
  · rw [hcy', BitVec.toNat_ofNat]
    omega

end Aeon.Display
