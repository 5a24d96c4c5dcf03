/-
Programmed input and output: devices behind ports, polling a port until the byte read there
decides, and reading a run of words from one port. Polling returns at the first byte of the port
that decides; a recorded bus keeps every access, so that the accesses of a driver can be spoken of.
-/
import Mathlib.Tactic

namespace Ports

abbrev Port := BitVec 16

/-- What reading and writing a port does; `σ` is the state of the devices. -/
structure Bus (σ : Type) where
  inb : Port → σ → BitVec 8 × σ
  inw : Port → σ → BitVec 16 × σ
  outb : Port → BitVec 8 → σ → σ

section

variable {σ ρ : Type} (b : Bus σ) (p : Port)

/-! ## Bytes -/

/-- `n` reads for their time only. -/
def skip : (n : Nat) → σ → σ
  | 0, s => s
  | n + 1, s => skip n (b.inb p s).2

/-- Reads until `verdict` has something to return, in at most `fuel` reads. -/
def poll (verdict : BitVec 8 → Option ρ) : (fuel : Nat) → σ → Option (ρ × σ)
  | 0, _ => none
  | fuel + 1, s =>
    match verdict (b.inb p s).1 with
    | some r => some (r, (b.inb p s).2)
    | none => poll verdict fuel (b.inb p s).2

variable {b p} {P : σ → Prop}

theorem skip_invariant (hP : ∀ s, P s → P (b.inb p s).2) : ∀ (n : Nat) {s : σ}, P s → P (skip b p n s)
  | 0, _, h => h
  | n + 1, _, h => skip_invariant hP n (hP _ h)

/-- What a read of the port preserves, polling preserves. -/
theorem poll_invariant {verdict : BitVec 8 → Option ρ} (hP : ∀ s, P s → P (b.inb p s).2) :
    ∀ {fuel : Nat} {s s' : σ} {r : ρ}, poll b p verdict fuel s = some (r, s') → P s → P s'
  | fuel + 1, s, s', r, h, hs => by
    unfold poll at h
    split at h
    · rw [Option.some.injEq, Prod.mk.injEq] at h
      exact h.2 ▸ hP _ hs
    · exact poll_invariant hP h (hP _ hs)

variable (b p)

/-! ## Words -/

/-- The devices after `n` words were read. -/
def drain : (n : Nat) → σ → σ
  | 0, s => s
  | n + 1, s => drain n (b.inw p s).2

/-- The word read after `n` others. -/
def wordAt (s : σ) (n : Nat) : BitVec 16 := (b.inw p (drain b p n s)).1

variable {b p}

theorem wordAt_succ (s : σ) (n : Nat) : wordAt b p s (n + 1) = wordAt b p (b.inw p s).2 n := rfl

/-- What holds of the devices by the number of words read, if every read counts it on. -/
theorem drain_invariant {P : Nat → σ → Prop} (hP : ∀ k s, P k s → P (k + 1) (b.inw p s).2) :
    ∀ (n : Nat) {k : Nat} {s : σ}, P k s → P (k + n) (drain b p n s)
  | 0, _, _, h => h
  | n + 1, k, _, h => by
    have := drain_invariant hP n (hP k _ h)
    rwa [Nat.add_right_comm, Nat.add_assoc] at this

end

/-! ## What polling reads -/

section

variable {σ ρ : Type} (b : Bus σ) (p : Port)

/-- The byte read after `n` others. -/
def byteAt (s : σ) (n : Nat) : BitVec 8 := (b.inb p (skip b p n s)).1

variable {b p}

theorem skip_add : ∀ (n m : Nat) (s : σ), skip b p (n + m) s = skip b p m (skip b p n s)
  | 0, m, s => by rw [Nat.zero_add, skip]
  | n + 1, m, s => by
    rw [Nat.add_right_comm, skip, skip, skip_add n m]

theorem byteAt_skip (n m : Nat) (s : σ) : byteAt b p (skip b p n s) m = byteAt b p s (n + m) := by
  unfold byteAt
  rw [skip_add]

theorem poll_eq_some_iff {verdict : BitVec 8 → Option ρ} : ∀ {fuel : Nat} {s s' : σ} {r : ρ},
    poll b p verdict fuel s = some (r, s') ↔
      ∃ k < fuel, verdict (byteAt b p s k) = some r ∧ (∀ i < k, verdict (byteAt b p s i) = none) ∧
        s' = skip b p (k + 1) s
  | 0, s, s', r => by simp [poll]
  | fuel + 1, s, s', r => by
    unfold poll
    split
    · rename_i r' hr
      constructor
      · intro h
        rw [Option.some.injEq, Prod.mk.injEq] at h
        obtain ⟨rfl, rfl⟩ := h
        exact ⟨0, Nat.succ_pos _, hr, fun i hi => absurd hi (Nat.not_lt_zero i), rfl⟩
      · rintro ⟨k, hk, hverdict, hbefore, rfl⟩
        cases k with
        | zero =>
          rw [Option.some.injEq, Prod.mk.injEq]
          exact ⟨Option.some.inj (hr.symm.trans hverdict), rfl⟩
        | succ k =>
          have hnone : verdict (b.inb p s).1 = none := hbefore 0 (Nat.succ_pos k)
          rw [hr] at hnone
          cases hnone
    · rename_i hnone
      rw [poll_eq_some_iff]
      constructor
      · rintro ⟨k, hk, hverdict, hbefore, rfl⟩
        refine ⟨k + 1, by omega, hverdict, fun i hi => ?_, rfl⟩
        cases i with
        | zero => exact hnone
        | succ i => exact hbefore i (by omega)
      · rintro ⟨k, hk, hverdict, hbefore, rfl⟩
        cases k with
        | zero =>
          have hsome : verdict (b.inb p s).1 = some r := hverdict
          rw [hnone] at hsome
          cases hsome
        | succ k => exact ⟨k, by omega, hverdict, fun i hi => hbefore (i + 1) (by omega), rfl⟩

/-- A verdict translated is its polling translated. -/
theorem poll_map {τ : Type} (verdict : BitVec 8 → Option ρ) (f : ρ → τ) : ∀ (fuel : Nat) (s : σ),
    poll b p (fun v => (verdict v).map f) fuel s = (poll b p verdict fuel s).map fun r => (f r.1, r.2)
  | 0, _ => rfl
  | fuel + 1, s => by
    unfold poll
    cases verdict (b.inb p s).1 with
    | none => exact poll_map verdict f fuel _
    | some r => rfl

/-- Polling from the byte after `n` others on, all counted from the same state. -/
theorem poll_skip_eq_some_iff {verdict : BitVec 8 → Option ρ} {fuel n : Nat} {s s' : σ} {r : ρ} :
    poll b p verdict fuel (skip b p n s) = some (r, s') ↔
      ∃ k, n ≤ k ∧ k < n + fuel ∧ verdict (byteAt b p s k) = some r ∧
        (∀ i, n ≤ i → i < k → verdict (byteAt b p s i) = none) ∧ s' = skip b p (k + 1) s := by
  rw [poll_eq_some_iff]
  constructor
  · rintro ⟨k, hk, hverdict, hbefore, rfl⟩
    rw [byteAt_skip] at hverdict
    refine ⟨n + k, by omega, by omega, hverdict, fun i hi hik => ?_, by rw [Nat.add_assoc, skip_add n]⟩
    have := hbefore (i - n) (by omega)
    rwa [byteAt_skip, show n + (i - n) = i by omega] at this
  · rintro ⟨k, hle, hk, hverdict, hbefore, rfl⟩
    refine ⟨k - n, by omega, ?_, fun i hi => ?_, ?_⟩
    · rwa [byteAt_skip, show n + (k - n) = k by omega]
    · rw [byteAt_skip]
      exact hbefore _ (by omega) (by omega)
    · rw [← skip_add, show n + (k - n + 1) = k + 1 by omega]

end

/-! ## Recorded accesses -/

inductive Access where
  | inb (p : Port) (v : BitVec 8)
  | inw (p : Port) (v : BitVec 16)
  | outb (p : Port) (v : BitVec 8)

/-- The same devices, with every access kept in order. -/
def Bus.recorded {σ : Type} (b : Bus σ) : Bus (σ × List Access) where
  inb p s := ((b.inb p s.1).1, ((b.inb p s.1).2, s.2 ++ [.inb p (b.inb p s.1).1]))
  inw p s := ((b.inw p s.1).1, ((b.inw p s.1).2, s.2 ++ [.inw p (b.inw p s.1).1]))
  outb p v s := (b.outb p v s.1, s.2 ++ [.outb p v])

def Access.isWord : Access → Bool
  | inw _ _ => true
  | _ => false

/-- The number of words read. -/
def wordsRead (log : List Access) : Nat := log.countP Access.isWord

/-- Every word is read when the last byte from port `p` is one that `ok` holds of; `last` is the one
before the first access, if there is one. -/
def Guarded (p : Port) (ok : BitVec 8 → Prop) : (last : Option (BitVec 8)) → List Access → Prop
  | _, [] => True
  | last, .inb q v :: log => Guarded p ok (if q = p then some v else last) log
  | last, .inw _ _ :: log => (∃ v, last = some v ∧ ok v) ∧ Guarded p ok last log
  | last, .outb _ _ :: log => Guarded p ok last log

/-- The last byte from port `p` after some accesses. -/
def lastByte (p : Port) : (last : Option (BitVec 8)) → List Access → Option (BitVec 8)
  | last, [] => last
  | last, .inb q v :: log => lastByte p (if q = p then some v else last) log
  | last, .inw _ _ :: log => lastByte p last log
  | last, .outb _ _ :: log => lastByte p last log

section

variable {σ : Type} {b : Bus σ} {p : Port} {ok : BitVec 8 → Prop}

theorem skip_recorded (q : Port) (s : σ) (log : List Access) : ∀ n : Nat,
    skip b.recorded q n (s, log) =
      (skip b q n s, log ++ (List.range n).map fun i => .inb q (byteAt b q s i))
  | 0 => by simp [skip]
  | n + 1 => by
    rw [skip_add n 1, skip_recorded q s log n, List.range_succ, List.map_append, ← List.append_assoc, skip_add n 1]
    rfl

theorem byteAt_recorded (q : Port) (s : σ) (log : List Access) (n : Nat) :
    byteAt b.recorded q (s, log) n = byteAt b q s n := by
  unfold byteAt
  rw [skip_recorded]
  rfl

theorem drain_recorded (q : Port) : ∀ (n : Nat) (s : σ) (log : List Access),
    drain b.recorded q n (s, log) =
      (drain b q n s, log ++ (List.range n).map fun i => .inw q (wordAt b q s i))
  | 0, s, log => by simp [drain]
  | n + 1, s, log => by
    rw [drain, List.range_succ_eq_map, List.map_cons, List.map_map]
    apply (drain_recorded q n _ _).trans
    rw [List.append_assoc]
    rfl

theorem guarded_append : ∀ (log log' : List Access) (last : Option (BitVec 8)),
    Guarded p ok last (log ++ log') ↔ Guarded p ok last log ∧ Guarded p ok (lastByte p last log) log'
  | [], _, _ => ⟨fun h => ⟨trivial, h⟩, fun h => h.2⟩
  | .inb q v :: log, log', last => guarded_append log log' _
  | .inw q v :: log, log', last => by
    rw [List.cons_append, Guarded, Guarded, guarded_append log log' last, and_assoc]
    rfl
  | .outb q v :: log, log', last => guarded_append log log' last

/-- Without words there is nothing to guard. -/
theorem guarded_of_noWords : ∀ (log : List Access) (last : Option (BitVec 8)), wordsRead log = 0 → Guarded p ok last log
  | [], _, _ => trivial
  | .inb _ _ :: log, _, h => guarded_of_noWords log _ h
  | .inw _ _ :: log, _, h => by
    unfold wordsRead at h
    rw [List.countP_cons_of_pos rfl] at h
    cases h
  | .outb _ _ :: log, _, h => guarded_of_noWords log _ h

theorem wordsRead_append (log log' : List Access) : wordsRead (log ++ log') = wordsRead log + wordsRead log' :=
  List.countP_append

theorem wordsRead_bytes (q : Port) (f : Nat → BitVec 8) (l : List Nat) :
    wordsRead (l.map fun i => .inb q (f i)) = 0 := by
  unfold wordsRead
  rw [List.countP_map, List.countP_eq_zero]
  exact fun _ _ h => by cases h

/-- Reading bytes reads no words. -/
theorem wordsRead_log_bytes {log : List Access} (hlog : wordsRead log = 0) (q : Port) (f : Nat → BitVec 8)
    (l : List Nat) :
    wordsRead (log ++ l.map fun i => .inb q (f i)) = 0 := by
  rw [wordsRead_append, hlog, wordsRead_bytes]

theorem wordsRead_words (q : Port) (f : Nat → BitVec 16) (n : Nat) :
    wordsRead ((List.range n).map fun i => .inw q (f i)) = n := by
  unfold wordsRead
  rw [List.countP_map]
  refine (List.countP_eq_length.2 fun _ _ => rfl).trans List.length_range

/-- Words read one after the other are guarded when the byte before them is. -/
theorem guarded_words (q : Port) (f : Nat → BitVec 16) (last : Option (BitVec 8)) : ∀ {l : List Nat}, l ≠ [] →
    (Guarded p ok last (l.map fun i => .inw q (f i)) ↔ ∃ v, last = some v ∧ ok v)
  | [_], _ => ⟨fun h => h.1, fun h => ⟨h, trivial⟩⟩
  | i :: j :: l, _ => by
    have ih := @guarded_words q f last (j :: l) (List.cons_ne_nil _ _)
    rw [List.map_cons, Guarded, ih, and_self_iff]

theorem lastByte_append : ∀ (log log' : List Access) (last : Option (BitVec 8)),
    lastByte p last (log ++ log') = lastByte p (lastByte p last log) log'
  | [], _, _ => rfl
  | .inb _ _ :: log, log', _ => lastByte_append log log' _
  | .inw _ _ :: log, log', _ => lastByte_append log log' _
  | .outb _ _ :: log, log', _ => lastByte_append log log' _

/-- The last of some bytes read from the port. -/
theorem lastByte_bytes (f : Nat → BitVec 8) (n : Nat) (last : Option (BitVec 8)) :
    lastByte p last ((List.range (n + 1)).map fun i => .inb p (f i)) = some (f n) := by
  rw [List.range_succ, List.map_append, lastByte_append]
  exact if_pos rfl

/-- After bytes from the port, words are guarded when the last of these bytes is one to read them on. -/
theorem guarded_bytes_words {log : List Access} (hlog : wordsRead log = 0) (f : Nat → BitVec 8) (n : Nat) (q : Port)
    (g : Nat → BitVec 16) {l : List Nat} (hl : l ≠ []) :
    Guarded p ok none (log ++ ((List.range (n + 1)).map fun i => .inb p (f i)) ++ l.map fun i => .inw q (g i)) ↔
      ok (f n) := by
  have hbytes : lastByte p none (log ++ (List.range (n + 1)).map fun i => .inb p (f i)) = some (f n) := by
    rw [lastByte_append, lastByte_bytes]
  rw [guarded_append, hbytes, guarded_words q g _ hl]
  constructor
  · rintro ⟨-, v, hv, hok⟩
    exact Option.some.inj hv ▸ hok
  · intro hok
    exact ⟨guarded_of_noWords _ _ (wordsRead_log_bytes hlog _ _ _), f n, rfl, hok⟩

end

end Ports
