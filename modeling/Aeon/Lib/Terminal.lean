/-
A line-oriented terminal: text laid out in lines of at most `w` characters, where a line ends at a
break character and, lazily, when a character arrives that it has no room for; and the last lines
of a layout, as a screen of limited height shows them.
-/
import Mathlib.Tactic

namespace Terminal

/-- The lines that are complete and the line being written; none is longer than `w`. -/
structure Layout (w : Nat) (α : Type*) where
  done : List (List α)
  current : List α
  fits : ∀ line ∈ done ++ [current], line.length ≤ w

namespace Layout

variable {w : Nat} {α : Type*}

def lines (l : Layout w α) : List (List α) := l.done ++ [l.current]

@[simp] theorem length_lines (l : Layout w α) : l.lines.length = l.done.length + 1 := by simp [lines]

def empty : Layout w α := ⟨[], [], by simp⟩

def newline (l : Layout w α) : Layout w α where
  done := l.lines
  current := []
  fits := by
    intro line h
    rcases List.mem_append.1 h with h | h
    · exact l.fits line h
    · rw [List.mem_singleton.1 h]
      exact Nat.zero_le w

def append (l : Layout w α) (x : α) (h : l.current.length < w) : Layout w α where
  done := l.done
  current := l.current ++ [x]
  fits := by
    intro line hline
    rcases List.mem_append.1 hline with hline | hline
    · exact l.fits line (List.mem_append_left _ hline)
    · rw [List.mem_singleton.1 hline, List.length_append]
      exact h

@[simp] theorem done_newline (l : Layout w α) : l.newline.done = l.lines := rfl
@[simp] theorem current_newline (l : Layout w α) : l.newline.current = [] := rfl
@[simp] theorem done_append (l : Layout w α) (x : α) (h : l.current.length < w) : (l.append x h).done = l.done := rfl
@[simp] theorem current_append (l : Layout w α) (x : α) (h : l.current.length < w) :
    (l.append x h).current = l.current ++ [x] := rfl

/-- One more character. -/
def feed (hw : 0 < w) (isBreak : α → Prop) [DecidablePred isBreak] (l : Layout w α) (x : α) : Layout w α :=
  if isBreak x then l.newline
  else if h : l.current.length < w then l.append x h
  else l.newline.append x hw

/-- The layout of a text. -/
def ofText (hw : 0 < w) (isBreak : α → Prop) [DecidablePred isBreak] (text : List α) : Layout w α :=
  text.foldl (feed hw isBreak) empty

/-- The last `h` lines. -/
def visible (h : Nat) (l : Layout w α) : List (List α) := l.lines.drop (l.lines.length - h)

/-! ## Characters by line and column -/

/-- The character in column `c` of line `q`. -/
def char (l : Layout w α) (q c : Nat) : Option α := l.lines[q]?.bind (·[c]?)

theorem char_empty (q c : Nat) : (empty : Layout w α).char q c = none := by
  rcases q with - | q <;> simp [char, lines, empty]

theorem char_of_lt {l : Layout w α} {q : Nat} (h : l.done.length < q) (c : Nat) : l.char q c = none := by
  rw [char, List.getElem?_eq_none (by rw [length_lines]; omega)]
  rfl

theorem current_length_le (l : Layout w α) : l.current.length ≤ w :=
  l.fits _ (List.mem_append_right _ (List.mem_singleton_self _))

theorem char_newline (l : Layout w α) (q c : Nat) : l.newline.char q c = l.char q c := by
  rcases Nat.lt_trichotomy q l.lines.length with hq | hq | hq
  · rw [char, lines, done_newline, List.getElem?_append_left hq]
    rfl
  · rw [char_of_lt (l := l) (by rw [length_lines] at hq; omega), char, lines, done_newline, hq]
    simp
  · rw [char_of_lt hq, char_of_lt (by rw [length_lines] at hq; omega)]

theorem char_append (l : Layout w α) (x : α) (h : l.current.length < w) (q c : Nat) :
    (l.append x h).char q c =
      if q = l.done.length ∧ c = l.current.length then some x else l.char q c := by
  rcases Nat.lt_trichotomy q l.done.length with hq | hq | hq
  · rw [if_neg (by omega), char, char, lines, lines, done_append, List.getElem?_append_left hq,
      List.getElem?_append_left hq]
  · have hlast : ∀ line : List α, (l.done ++ [line])[q]? = some line := by simp [hq]
    rw [char, char, lines, lines, done_append, current_append, hlast, hlast, Option.bind_some, Option.bind_some,
      List.getElem?_append]
    rcases Nat.lt_trichotomy c l.current.length with hc | hc | hc
    · rw [if_pos hc, if_neg (by omega)]
    · rw [if_neg (by omega), if_pos ⟨hq, hc⟩, hc, Nat.sub_self]
      rfl
    · rw [if_neg (by omega), if_neg (by omega), List.getElem?_eq_none (by simp; omega),
        List.getElem?_eq_none (by omega)]
  · rw [if_neg (by omega), char_of_lt hq, char_of_lt (l := l.append x h) hq]

/-- What holds of the characters of a layout and of a character holds once it is laid out. -/
theorem feed_forall_char {hw : 0 < w} {isBreak : α → Prop} [DecidablePred isBreak] {l : Layout w α} {P : α → Prop}
    (h : ∀ q c x, l.char q c = some x → P x) {y : α} (hy : P y) :
    ∀ q c x, (l.feed hw isBreak y).char q c = some x → P x := by
  have happend : ∀ (l : Layout w α) (hroom : l.current.length < w), (∀ q c x, l.char q c = some x → P x) →
      ∀ q c x, (l.append y hroom).char q c = some x → P x := by
    intro l hroom h q c x hx
    rw [char_append] at hx
    split at hx
    · cases hx
      exact hy
    · exact h q c x hx
  have hnewline : ∀ q c x, l.newline.char q c = some x → P x := by
    intro q c x hx
    rw [char_newline] at hx
    exact h q c x hx
  unfold feed
  split
  · exact hnewline
  · split
    · exact happend _ _ h
    · exact happend _ _ hnewline

theorem foldl_forall_char {hw : 0 < w} {isBreak : α → Prop} [DecidablePred isBreak] {P : α → Prop} :
    ∀ {text : List α} {l : Layout w α}, (∀ q c x, l.char q c = some x → P x) → (∀ x ∈ text, P x) →
      ∀ q c x, (text.foldl (feed hw isBreak) l).char q c = some x → P x
  | [], _, h, _ => h
  | y :: text, l, h, htext => by
    obtain ⟨hy, htext⟩ := List.forall_mem_cons.1 htext
    exact @foldl_forall_char hw isBreak _ P text (l.feed hw isBreak y) (feed_forall_char h hy) htext

/-- A screen of `h` rows shows line `r + (L - h)` of the `L` lines in row `r`. -/
theorem visible_getElem? (h : Nat) (l : Layout w α) (r : Nat) :
    (l.visible h)[r]? = l.lines[r + (l.done.length + 1 - h)]? := by
  rw [visible, List.getElem?_drop, length_lines, Nat.add_comm]

theorem length_visible_le (h : Nat) (l : Layout w α) : (l.visible h).length ≤ h := by
  rw [visible, List.length_drop]
  omega

/-- The characters a screen of `h` rows shows. -/
theorem forall_visible_iff {h : Nat} {l : Layout w α} {P : α → Prop} :
    (∀ line ∈ l.visible h, ∀ x ∈ line, P x) ↔
      ∀ r < h, ∀ c < w, ∀ x, l.char (r + (l.done.length + 1 - h)) c = some x → P x := by
  constructor
  · intro hP r _ c _ x hx
    rw [char, ← visible_getElem?, Option.bind_eq_some_iff] at hx
    obtain ⟨line, hline, hx⟩ := hx
    exact hP line (List.mem_of_getElem? hline) x (List.mem_of_getElem? hx)
  · intro hP line hline x hx
    obtain ⟨r, hr, rfl⟩ := List.mem_iff_getElem.1 hline
    obtain ⟨c, hc, rfl⟩ := List.mem_iff_getElem.1 hx
    have hw : (l.visible h)[r].length ≤ w := l.fits _ (List.mem_of_mem_drop hline)
    apply hP r (hr.trans_le (l.length_visible_le h)) c (hc.trans_le hw) _
    rw [char, ← visible_getElem?, List.getElem?_eq_getElem hr, Option.bind_some, List.getElem?_eq_getElem hc]

end Layout

end Terminal
