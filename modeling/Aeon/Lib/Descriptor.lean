/-
Descriptor tables of the 80386 in memory: segment descriptors and gates as the processor reads them,
what a segment register may be loaded with and the mark that a load leaves in the descriptor, how a
segment translates an offset, and the delivery of an interrupt through a gate of the interrupt table.
-/
import Aeon.Lib.I386

namespace I386

/-! ## Segment descriptors -/

structure Descriptor where
  base : Word
  limit : BitVec 20
  access : BitVec 8
  flags : BitVec 4
  deriving DecidableEq

/-- The descriptor in the eight bytes at `a`, where the base and the limit lie in pieces. -/
def readDescriptor (m : Memory) (a : Word) : Descriptor where
  base := m (a + 7#32) ++ m (a + 4#32) ++ m (a + 3#32) ++ m (a + 2#32)
  limit := (m (a + 6#32)).extractLsb' 0 4 ++ m (a + 1#32) ++ m a
  access := m (a + 5#32)
  flags := (m (a + 6#32)).extractLsb' 4 4

theorem readDescriptor_congr {m m' : Memory} {a : Word}
    (h : ∀ i < 8, m' (a + BitVec.ofNat 32 i) = m (a + BitVec.ofNat 32 i)) :
    readDescriptor m' a = readDescriptor m a := by
  have h0 := h 0 (by omega)
  rw [BitVec.add_zero a] at h0
  unfold readDescriptor
  rw [h0, h 1 (by omega), h 2 (by omega), h 3 (by omega), h 4 (by omega), h 5 (by omega), h 6 (by omega),
    h 7 (by omega)]

namespace Descriptor

variable (d : Descriptor)

def present : Bool := d.access.getLsbD 7
def dpl : BitVec 2 := d.access.extractLsb' 5 2
/-- Not one of the system's own. -/
def codeOrData : Bool := d.access.getLsbD 4
def executable : Bool := d.access.getLsbD 3
/-- Of code, that it is conforming; of data, that it grows down. -/
def directed : Bool := d.access.getLsbD 2
/-- Of code, that it can be read; of data, that it can be written. -/
def permitted : Bool := d.access.getLsbD 1

/-- The number of bytes of a segment that grows up. -/
def size : Nat := if d.flags.getLsbD 3 then (d.limit.toNat + 1) * 4096 else d.limit.toNat + 1

/-- The linear address of `n` bytes at an offset, if all of them are in the segment. -/
def linear (offset : Word) (n : Nat) : Option Word :=
  if d.directed = false ∧ offset.toNat + n ≤ d.size then some (d.base + offset) else none

/-- The descriptor without the mark that it was loaded, bit 0 of its access byte. -/
def unmarked : Descriptor := { d with access := d.access &&& 0xFE#8 }

@[simp] theorem unmarked_present : d.unmarked.present = d.present := by
  simp [present, unmarked]

@[simp] theorem unmarked_codeOrData : d.unmarked.codeOrData = d.codeOrData := by
  simp [codeOrData, unmarked]

@[simp] theorem unmarked_executable : d.unmarked.executable = d.executable := by
  simp [executable, unmarked]

@[simp] theorem unmarked_directed : d.unmarked.directed = d.directed := by
  simp [directed, unmarked]

@[simp] theorem unmarked_permitted : d.unmarked.permitted = d.permitted := by
  simp [permitted, unmarked]

@[simp] theorem unmarked_dpl : d.unmarked.dpl = d.dpl := by
  unfold dpl unmarked
  ext i hi
  interval_cases i <;> simp

@[simp] theorem unmarked_linear (offset : Word) (n : Nat) : d.unmarked.linear offset n = d.linear offset n := by
  unfold linear
  rw [unmarked_directed]
  rfl

end Descriptor

/-! ## Tables -/

/-- `GDTR` and `IDTR`. -/
structure TableRegister where
  limit : BitVec 16
  base : Word

/-- What `lgdt` and `lidt` load from the six bytes at `a`. -/
def readTableRegister (m : Memory) (a : Word) : TableRegister where
  limit := m (a + 1#32) ++ m a
  base := m (a + 5#32) ++ m (a + 4#32) ++ m (a + 3#32) ++ m (a + 2#32)

theorem readTableRegister_congr {m m' : Memory} {a : Word}
    (h : ∀ i < 6, m' (a + BitVec.ofNat 32 i) = m (a + BitVec.ofNat 32 i)) :
    readTableRegister m' a = readTableRegister m a := by
  have h0 := h 0 (by omega)
  rw [BitVec.add_zero a] at h0
  unfold readTableRegister
  rw [h0, h 1 (by omega), h 2 (by omega), h 3 (by omega), h 4 (by omega), h 5 (by omega)]

/-- The address of entry `i`, if the table has one. -/
def TableRegister.entry (t : TableRegister) (i : Nat) : Option Word :=
  if 8 * i + 7 ≤ t.limit.toNat then some (t.base + BitVec.ofNat 32 (8 * i)) else none

/-- A selector: 13 bits of index, the bit for the local table, and the requested privilege. -/
def index (selector : BitVec 16) : Nat := selector.toNat / 8
def localTable (selector : BitVec 16) : Bool := selector.getLsbD 2
def rpl (selector : BitVec 16) : BitVec 2 := selector.extractLsb' 0 2

/-- The address of the descriptor a selector names. Entry 0 is never one, and there is no local table. -/
def TableRegister.named (gdtr : TableRegister) (selector : BitVec 16) : Option Word :=
  if localTable selector ∨ index selector = 0 then none else gdtr.entry (index selector)

def lookup (m : Memory) (gdtr : TableRegister) (selector : BitVec 16) : Option Descriptor :=
  (gdtr.named selector).map (readDescriptor m)

/-- A descriptor is marked when a segment register is loaded from it. -/
def mark (m : Memory) (a : Word) : Memory := Function.update m (a + 5#32) (m (a + 5#32) ||| 1#8)

@[simp] theorem mark_self (m : Memory) (a : Word) : mark m a (a + 5#32) = m (a + 5#32) ||| 1#8 := Function.update_self ..

theorem mark_of_marked {m : Memory} {a : Word} (h : m (a + 5#32) ||| 1#8 = m (a + 5#32)) : mark m a = m := by
  unfold mark
  rw [h, Function.update_eq_self]

theorem mark_mark (m : Memory) (a : Word) : mark (mark m a) a = mark m a := by
  apply mark_of_marked
  rw [mark_self, BitVec.or_assoc, BitVec.or_self]

/-- A load of a segment register with the descriptor a selector names, if that passes the check. -/
def load (m : Memory) (gdtr : TableRegister) (selector : BitVec 16) (check : Descriptor → Bool) :
    Option (Descriptor × Memory) :=
  (gdtr.named selector).bind fun a =>
    if check (readDescriptor m a) then some (readDescriptor m a, mark m a) else none

section

variable (cpl : BitVec 2) (selector : BitVec 16) (d : Descriptor)

/-- Data, or code that can be read, for the privilege of both. -/
def mayData : Bool :=
  d.present && d.codeOrData && (!d.executable || d.permitted) && decide (cpl ≤ d.dpl ∧ rpl selector ≤ d.dpl)

/-- Data that can be written, of the same privilege. -/
def mayStack : Bool :=
  d.present && d.codeOrData && !d.executable && d.permitted && decide (d.dpl = cpl ∧ rpl selector = cpl)

/-- Code of the same privilege that is not conforming. -/
def mayCode : Bool :=
  d.present && d.codeOrData && d.executable && !d.directed && decide (d.dpl = cpl ∧ rpl selector ≤ cpl)

@[simp] theorem mayData_unmarked : mayData cpl selector d.unmarked = mayData cpl selector d := by
  simp [mayData]

@[simp] theorem mayStack_unmarked : mayStack cpl selector d.unmarked = mayStack cpl selector d := by
  simp [mayStack]

@[simp] theorem mayCode_unmarked : mayCode cpl selector d.unmarked = mayCode cpl selector d := by
  simp [mayCode]

end

section

variable (m : Memory) (gdtr : TableRegister) (cpl : BitVec 2) (selector : BitVec 16)

/-- `ds`, `es`, `fs` and `gs`. -/
def loadData : Option (Descriptor × Memory) := load m gdtr selector (mayData cpl selector)

/-- `ss` -/
def loadStack : Option (Descriptor × Memory) := load m gdtr selector (mayStack cpl selector)

/-- `cs`, by a far jump or through a gate. -/
def loadCode : Option (Descriptor × Memory) := load m gdtr selector (mayCode cpl selector)

end

section

variable {m m' : Memory} {gdtr : TableRegister} {selector : BitVec 16} {check : Descriptor → Bool}

theorem load_eq_some_iff {d : Descriptor} : load m gdtr selector check = some (d, m') ↔
    ∃ a, gdtr.named selector = some a ∧ check (readDescriptor m a) = true ∧ d = readDescriptor m a ∧ m' = mark m a := by
  unfold load
  rw [Option.bind_eq_some_iff]
  refine exists_congr fun a => and_congr_right fun _ => ?_
  by_cases h : check (readDescriptor m a) = true
  · rw [if_pos h, Option.some.injEq, Prod.mk.injEq]
    exact ⟨fun ⟨hd, hm⟩ => ⟨h, hd.symm, hm.symm⟩, fun ⟨_, hd, hm⟩ => ⟨hd.symm, hm.symm⟩⟩
  · rw [if_neg h]
    exact iff_of_false (fun hnone => nomatch hnone) fun hall => h hall.1

theorem lookup_of_load {d : Descriptor} (h : load m gdtr selector check = some (d, m')) :
    lookup m gdtr selector = some d := by
  obtain ⟨a, ha, -, rfl, -⟩ := load_eq_some_iff.1 h
  rw [lookup, ha, Option.map_some]

theorem memory_of_load {d : Descriptor} {a : Word} (h : load m gdtr selector check = some (d, m'))
    (ha : gdtr.named selector = some a) : m' = mark m a := by
  obtain ⟨a', ha', -, -, hm⟩ := load_eq_some_iff.1 h
  rw [ha] at ha'
  cases ha'
  exact hm

/-- Whether a load goes through does not depend on the marks. -/
theorem load_isSome_iff (hcheck : ∀ d, check d.unmarked = check d) {d : Descriptor} {c : Prop} [Decidable c]
    (h : (lookup m gdtr selector).map Descriptor.unmarked = if c then some d else none) :
    (load m gdtr selector check).isSome ↔ c ∧ check d = true := by
  unfold lookup at h
  unfold load
  cases hnamed : gdtr.named selector with
  | none =>
    rw [hnamed] at h
    by_cases hc : c
    · rw [if_pos hc] at h
      cases h
    · simp [hc]
  | some a =>
    rw [hnamed, Option.map_some, Option.map_some] at h
    by_cases hc : c
    · rw [if_pos hc, Option.some.injEq] at h
      subst h
      rw [Option.bind_some, hcheck]
      by_cases ha : check (readDescriptor m a) = true <;> simp [ha, hc]
    · rw [if_neg hc] at h
      cases h

end

/-! ## Tables that differ in their marks -/

/-- The `n` descriptors at `base` are in `m'` those of `m`, of which some more may be marked. -/
def Marked (base : Word) (n : Nat) (m m' : Memory) : Prop :=
  ∀ a : Word, (a - base).toNat < 8 * n → m' a = m a ∨ (a - base).toNat % 8 = 5 ∧ m' a = m a ||| 1#8

section

variable {base : Word} {n : Nat} {m m' m'' : Memory}

theorem Marked.of_eq (h : ∀ a : Word, (a - base).toNat < 8 * n → m' a = m a) : Marked base n m m' :=
  fun a ha => .inl (h a ha)

theorem Marked.trans (h : Marked base n m m') (h' : Marked base n m' m'') : Marked base n m m'' := by
  intro a ha
  rcases h a ha with heq | ⟨hbyte, heq⟩
  · rcases h' a ha with heq' | ⟨hbyte', heq'⟩
    · exact .inl (heq'.trans heq)
    · exact .inr ⟨hbyte', heq ▸ heq'⟩
  · refine .inr ⟨hbyte, ?_⟩
    rcases h' a ha with heq' | ⟨-, heq'⟩
    · exact heq'.trans heq
    · rw [heq', heq, BitVec.or_assoc, BitVec.or_self]

theorem Marked.mark (hn : 8 * n ≤ 2 ^ 32) {i : Nat} (hi : i < n) :
    Marked base n m (mark m (base + BitVec.ofNat 32 (8 * i))) := by
  intro a _
  unfold I386.mark
  rw [Function.update_apply]
  by_cases ha : a = base + BitVec.ofNat 32 (8 * i) + 5#32
  · rw [if_pos ha]
    refine .inr ⟨?_, by rw [ha]⟩
    have hdist : (a - base).toNat = 8 * i + 5 := by bv_omega
    omega
  · exact .inl (if_neg ha)

theorem Marked.load (hn : 8 * n ≤ 2 ^ 32) {limit : BitVec 16} (hlimit : limit.toNat < 8 * n) {selector : BitVec 16}
    {check : Descriptor → Bool} {d : Descriptor} (h : load m ⟨limit, base⟩ selector check = some (d, m')) :
    Marked base n m m' := by
  obtain ⟨a, ha, -, -, rfl⟩ := load_eq_some_iff.1 h
  unfold TableRegister.named TableRegister.entry at ha
  split at ha
  · cases ha
  · split at ha
    · next hentry =>
      cases ha
      change 8 * index selector + 7 ≤ limit.toNat at hentry
      exact Marked.mark hn (by omega)
    · cases ha

theorem Marked.readDescriptor (h : Marked base n m m') (hn : 8 * n ≤ 2 ^ 32) {i : Nat} (hi : i < n) :
    (readDescriptor m' (base + BitVec.ofNat 32 (8 * i))).unmarked =
      (readDescriptor m (base + BitVec.ofNat 32 (8 * i))).unmarked := by
  have hdist : ∀ k < 8, (base + BitVec.ofNat 32 (8 * i) + BitVec.ofNat 32 k - base).toNat = 8 * i + k :=
    fun k hk => by bv_omega
  have hbyte : ∀ k < 8, k ≠ 5 → m' (base + BitVec.ofNat 32 (8 * i) + BitVec.ofNat 32 k) =
      m (base + BitVec.ofNat 32 (8 * i) + BitVec.ofNat 32 k) := fun k hk hne => by
    refine (h _ (by rw [hdist k hk]; omega)).resolve_right fun hmark => ?_
    rw [hdist k hk] at hmark
    omega
  have h0 := hbyte 0 (by omega) (by omega)
  rw [BitVec.add_zero] at h0
  have haccess : m' (base + BitVec.ofNat 32 (8 * i) + 5#32) &&& 0xFE#8 =
      m (base + BitVec.ofNat 32 (8 * i) + 5#32) &&& 0xFE#8 := by
    rcases h (base + BitVec.ofNat 32 (8 * i) + 5#32) (by rw [hdist 5 (by omega)]; omega) with heq | ⟨-, heq⟩
    · rw [heq]
    · rw [heq, BitVec.and_or_distrib_right]
      exact BitVec.or_zero
  unfold I386.readDescriptor Descriptor.unmarked
  rw [h0, hbyte 1 (by omega) (by omega), hbyte 2 (by omega) (by omega), hbyte 3 (by omega) (by omega),
    hbyte 4 (by omega) (by omega), hbyte 6 (by omega) (by omega), hbyte 7 (by omega) (by omega)]
  exact congrArg (Descriptor.mk _ _ · _) haccess

end

/-! ## Setting entries -/

/-- A call that sets one entry of a table of eight-byte entries at `base`: which, and to what. -/
structure EntrySetter (α β : Type) (base : Word) where
  read : Memory → Word → β
  set : α → Memory → Memory
  num : α → Nat
  value : α → β
  congr : ∀ {m m' : Memory} {a : Word}, (∀ i < 8, m' (a + BitVec.ofNat 32 i) = m (a + BitVec.ofNat 32 i)) →
    read m' a = read m a
  read_set : ∀ x m, read (set x m) (base + BitVec.ofNat 32 (8 * num x)) = value x
  outside : ∀ x m a, 8 ≤ (a - (base + BitVec.ofNat 32 (8 * num x))).toNat → set x m a = m a

namespace EntrySetter

variable {α β : Type} {base : Word} (e : EntrySetter α β base)

def setAll (xs : List α) (m : Memory) : Memory := xs.foldl (fun m x => e.set x m) m

def table (m : Memory) (i : Nat) : β := e.read m (base + BitVec.ofNat 32 (8 * i))

/-- The same on a table of whole entries. -/
def put (table : Nat → β) (x : α) : Nat → β := Function.update table (e.num x) (e.value x)

theorem put_apply (table : Nat → β) (x : α) (i : Nat) :
    e.put table x i = if i = e.num x then e.value x else table i := Function.update_apply ..

variable {n : Nat} (hn : 8 * n ≤ 2 ^ 32) {m : Memory}
include hn

theorem table_set {x : α} (hx : e.num x < n) {table : Nat → β} (h : ∀ i < n, e.table m i = table i) :
    ∀ i < n, e.table (e.set x m) i = e.put table x i := by
  intro i hi
  rw [put_apply]
  by_cases hix : i = e.num x
  · rw [if_pos hix, hix]
    exact e.read_set x m
  · rw [if_neg hix, ← h i hi]
    apply e.congr
    intro k hk
    apply e.outside
    bv_omega

/-- Calls in any order leave in each entry what the last one for it said. -/
theorem table_setAll {xs : List α} (hxs : ∀ x ∈ xs, e.num x < n) {table : Nat → β}
    (h : ∀ i < n, e.table m i = table i) : ∀ i < n, e.table (e.setAll xs m) i = xs.foldl e.put table i := by
  induction xs generalizing m table with
  | nil => exact h
  | cons x xs ih =>
    obtain ⟨hx, hxs⟩ := List.forall_mem_cons.1 hxs
    exact ih hxs (e.table_set hn hx h)

/-- No byte outside of the table changes. -/
theorem setAll_outside {xs : List α} (hxs : ∀ x ∈ xs, e.num x < n) {a : Word} (ha : 8 * n ≤ (a - base).toNat) :
    e.setAll xs m a = m a := by
  induction xs generalizing m with
  | nil => rfl
  | cons x xs ih =>
    obtain ⟨hx, hxs⟩ := List.forall_mem_cons.1 hxs
    refine (ih hxs).trans (e.outside x m a ?_)
    bv_omega

end EntrySetter

/-! ## Interrupts -/

/-- A gate of the interrupt table. -/
structure Gate where
  offset : Word
  selector : BitVec 16
  access : BitVec 8
  deriving DecidableEq

/-- The gate in the eight bytes at `a`. -/
def readGate (m : Memory) (a : Word) : Gate where
  offset := m (a + 7#32) ++ m (a + 6#32) ++ m (a + 1#32) ++ m a
  selector := m (a + 3#32) ++ m (a + 2#32)
  access := m (a + 5#32)

theorem readGate_congr {m m' : Memory} {a : Word}
    (h : ∀ i < 8, m' (a + BitVec.ofNat 32 i) = m (a + BitVec.ofNat 32 i)) : readGate m' a = readGate m a := by
  have h0 := h 0 (by omega)
  rw [BitVec.add_zero a] at h0
  unfold readGate
  rw [h0, h 1 (by omega), h 2 (by omega), h 3 (by omega), h 5 (by omega), h 6 (by omega), h 7 (by omega)]

/-- A present gate of the 32-bit kind that disables interrupts. -/
def Gate.interrupt (g : Gate) : Bool := g.access.getLsbD 7 && decide (g.access &&& 0x1F#8 = 0x0E#8)

/-- Vector `v` through the tables: the gate, its code segment, and the state at the handler's first
instruction with the linear address of that. Where a check fails, another fault is delivered in its
place. -/
def Cpu.through (s : Cpu) (gdtr idtr : TableRegister) (v : BitVec 8) (errorCode : Option Word) :
    Option (Cpu × Word) :=
  (idtr.entry v.toNat).bind fun a =>
    let g := readGate s.memory a
    if g.interrupt then
      (loadCode s.memory gdtr (s.cs.extractLsb' 0 2) g.selector).bind fun (d, m) =>
        (d.linear g.offset 1).map fun address =>
          (({ s with memory := m } : Cpu).deliver errorCode g.selector g.offset, address)
    else none

end I386
