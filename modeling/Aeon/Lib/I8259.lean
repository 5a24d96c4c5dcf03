/-
A pair of 8259A interrupt controllers, the slave on level 2 of the master, in fully nested mode with
fixed priorities: what initialisation, masks, end-of-interrupt commands, the request lines and the
two acknowledge pulses of the processor do to them. Rotation, polling and the special modes are not
modelled; a command for one of them does nothing here.
-/
import Mathlib.Tactic

namespace I8259

/-- A request level, IR0 to IR7; the lower the number, the higher the priority. -/
abbrev Level := Fin 8

/-! ## The first level of a set -/

def first (p : Level → Bool) : Option Level := (List.finRange 8).find? p

theorem first_eq_none_iff {p : Level → Bool} : first p = none ↔ ∀ i, p i = false := by
  unfold first
  simp

theorem first_eq_some_iff {p : Level → Bool} {i : Level} :
    first p = some i ↔ p i = true ∧ ∀ j < i, p j = false := by
  unfold first
  rw [List.find?_eq_some_iff_getElem]
  constructor
  · rintro ⟨hp, k, hk, hi, hbefore⟩
    simp only [List.getElem_finRange] at hi hbefore
    refine ⟨hp, fun j hj => ?_⟩
    have hjk : j.val < k := by
      rw [← hi] at hj
      exact hj
    have := hbefore j.val hjk
    simpa using this
  · rintro ⟨hp, hbefore⟩
    refine ⟨hp, i.val, by simp, by simp, fun j hj => ?_⟩
    have := hbefore ⟨j, by omega⟩ hj
    simpa using this

/-! ## One chip -/

/-- What the chip takes a byte at its data port for. -/
inductive Expects where
  | mask | icw2 | icw3 | icw4
  deriving DecidableEq

/-- What is programmed: the mask, the initialisation words, and how far initialisation is. -/
structure Config where
  mask : BitVec 8
  icw1 : BitVec 8
  icw2 : BitVec 8
  icw3 : BitVec 8
  icw4 : BitVec 8
  expects : Expects
  deriving DecidableEq

namespace Config

variable (c : Config)

/-- ICW1: the mask is cleared, and so is ICW4 where none will come. -/
def initialise (v : BitVec 8) : Config :=
  { c with mask := 0#8, icw1 := v, icw4 := if v.getLsbD 0 then c.icw4 else 0#8, expects := .icw2 }

/-- A byte at the command port; only ICW1 changes the program. -/
def command (v : BitVec 8) : Config := if v.getLsbD 4 then c.initialise v else c

/-- A byte at the data port. -/
def data (v : BitVec 8) : Config :=
  match c.expects with
  | .mask => { c with mask := v }
  | .icw2 => { c with icw2 := v, expects := if c.icw1.getLsbD 1 then afterIcw3 else .icw3 }
  | .icw3 => { c with icw3 := v, expects := afterIcw3 }
  | .icw4 => { c with icw4 := v, expects := .mask }
where
  afterIcw3 : Expects := if c.icw1.getLsbD 0 then .icw4 else .mask

/-- Initialisation in cascade mode with an ICW4, and the mask after it, from any program. -/
theorem initialise_cascade {v : BitVec 8} (h4 : v.getLsbD 4 = true) (h1 : v.getLsbD 1 = false)
    (h0 : v.getLsbD 0 = true) (base cascade mode mask : BitVec 8) :
    ((((c.command v).data base).data cascade).data mode).data mask = ⟨mask, v, base, cascade, mode, .mask⟩ := by
  unfold command
  rw [if_pos h4]
  simp only [initialise, data, data.afterIcw3, h1, h0, if_true, Bool.false_eq_true, if_false]

/-- The vector of a level; there is none before the chip is in 8086 mode. -/
def vector (i : Level) : Option (BitVec 8) :=
  if c.icw4.getLsbD 0 then some (c.icw2 &&& 0xF8#8 ||| BitVec.ofNat 8 i) else none

end Config

/-- A chip: its program, the request lines as they stand, the levels whose line has risen since they
were last acknowledged, and the levels in service. -/
structure Chip where
  config : Config
  line : Level → Bool
  edge : Level → Bool
  inService : Level → Bool

namespace Chip

variable (c : Chip)

/-- A request that the mask lets through; level-triggered if ICW1 says so. -/
def requested (i : Level) : Bool := c.line i && (c.edge i || c.config.icw1.getLsbD 3) && !c.config.mask.getLsbD i

/-- Nothing of the same or of a higher priority is in service. -/
def unblocked (i : Level) : Bool := decide (∀ j ≤ i, c.inService j = false)

/-- The level that the chip would have acknowledged next. -/
def next : Option Level := first fun i => c.requested i && c.unblocked i

/-- The INT output. -/
def interrupt : Bool := c.next.isSome

def setLine (i : Level) (v : Bool) : Chip :=
  { c with
    line := Function.update c.line i v
    edge := Function.update c.edge i (v && (c.edge i || !c.line i)) }

/-- An acknowledge pulse: the level goes into service unless the chip ends interrupts by itself.
Without a request left it is level 7 that answers. -/
def acknowledge : Level × Chip :=
  match c.next with
  | some i =>
    (i, { c with
      edge := Function.update c.edge i false
      inService := Function.update c.inService i !c.config.icw4.getLsbD 1 })
  | none => (7, c)

/-- The non-specific end of interrupt: of the level with the highest priority in service. -/
def endOfInterrupt : Chip :=
  match first c.inService with
  | some i => { c with inService := Function.update c.inService i false }
  | none => c

/-- A byte at the command port: ICW1, or an end of interrupt, non-specific or of one level. -/
def command (v : BitVec 8) : Chip :=
  if v.getLsbD 4 then { c with config := c.config.initialise v, edge := fun _ => false }
  else if v &&& 0xF8#8 = 0x20#8 then c.endOfInterrupt
  else if v &&& 0xF8#8 = 0x60#8 then
    { c with inService := Function.update c.inService ⟨v.toNat % 8, Nat.mod_lt _ (by decide)⟩ false }
  else c

def data (v : BitVec 8) : Chip := { c with config := c.config.data v }

/-! ## What each operation leaves -/

@[simp] theorem setLine_line_self (i : Level) (v : Bool) : (c.setLine i v).line i = v := Function.update_self ..

@[simp] theorem acknowledge_config : c.acknowledge.2.config = c.config := by
  unfold acknowledge
  split <;> rfl

@[simp] theorem acknowledge_line : c.acknowledge.2.line = c.line := by
  unfold acknowledge
  split <;> rfl

@[simp] theorem endOfInterrupt_config : c.endOfInterrupt.config = c.config := by
  unfold endOfInterrupt
  split <;> rfl

@[simp] theorem endOfInterrupt_line : c.endOfInterrupt.line = c.line := by
  unfold endOfInterrupt
  split <;> rfl

@[simp] theorem endOfInterrupt_edge : c.endOfInterrupt.edge = c.edge := by
  unfold endOfInterrupt
  split <;> rfl

theorem command_config (v : BitVec 8) : (c.command v).config = c.config.command v := by
  unfold Chip.command Config.command
  split
  · rfl
  · split
    · exact c.endOfInterrupt_config
    · split <;> rfl

theorem command_icw1 {v : BitVec 8} (h : v.getLsbD 4 = true) :
    c.command v = { c with config := c.config.initialise v, edge := fun _ => false } := if_pos h

/-! ## Lines that have risen -/

/-- If line `i` is high, its rise has not been acknowledged. -/
def Latched (i : Level) : Prop := c.line i = true → c.edge i = true

section

variable {c} {i k : Level}

theorem Latched.setLine_self (h : c.Latched i) (v : Bool) : (c.setLine i v).Latched i := by
  intro hline
  rw [setLine_line_self] at hline
  have hedge : (c.setLine i v).edge i = (v && (c.edge i || !c.line i)) := Function.update_self ..
  rw [hedge, hline, Bool.true_and]
  cases hi : c.line i with
  | false => simp
  | true => simp [h hi]

theorem Latched.setLine_ne (h : c.Latched i) {v : Bool} (hk : i ≠ k) : (c.setLine k v).Latched i := by
  unfold Latched Chip.setLine
  dsimp only
  rw [Function.update_of_ne hk, Function.update_of_ne hk]
  exact h

theorem Latched.endOfInterrupt (h : c.Latched i) : c.endOfInterrupt.Latched i := by
  unfold Latched
  rw [endOfInterrupt_line, endOfInterrupt_edge]
  exact h

end

/-! ## Levels in service -/

/-- Nothing is in service. -/
def Idle : Prop := ∀ i, c.inService i = false

/-- Nothing but level `i` is in service. -/
def Serves (i : Level) : Prop := ∀ j, c.inService j = true → j = i

variable {c}

theorem next_eq_some_iff {i : Level} : c.next = some i ↔
    (c.requested i && c.unblocked i) = true ∧ ∀ j < i, (c.requested j && c.unblocked j) = false := first_eq_some_iff

theorem Idle.unblocked (h : c.Idle) (i : Level) : c.unblocked i = true := by
  unfold Chip.unblocked
  exact decide_eq_true fun j _ => h j

/-- With nothing in service the first request is next. -/
theorem Idle.next_eq_some_iff (h : c.Idle) {i : Level} :
    c.next = some i ↔ c.requested i = true ∧ ∀ j < i, c.requested j = false := by
  rw [Chip.next_eq_some_iff]
  simp only [h.unblocked, Bool.and_true]

/-- The first request or, when none is left, level 7. -/
def Picked (c : Chip) (i : Level) : Prop :=
  (c.requested i = true ∧ ∀ j < i, c.requested j = false) ∨ (i = 7 ∧ ∀ j, c.requested j = false)

theorem Idle.next_eq_none_iff (h : c.Idle) : c.next = none ↔ ∀ i, c.requested i = false := by
  unfold Chip.next
  rw [first_eq_none_iff]
  simp only [h.unblocked, Bool.and_true]

/-- And every request is signalled. -/
theorem Idle.interrupt_iff (h : c.Idle) : c.interrupt = true ↔ ∃ i, c.requested i = true := by
  have hnone := not_congr h.next_eq_none_iff
  unfold Chip.interrupt
  rw [Option.isSome_iff_ne_none, ne_eq, hnone]
  simp

theorem acknowledge_eq {i : Level} (h : c.next = some i) : c.acknowledge =
    (i, { c with
      edge := Function.update c.edge i false
      inService := Function.update c.inService i !c.config.icw4.getLsbD 1 }) := by
  unfold Chip.acknowledge
  rw [h]

theorem acknowledge_spurious (h : c.next = none) : c.acknowledge = (7, c) := by
  unfold Chip.acknowledge
  rw [h]

theorem Idle.picked (h : c.Idle) : c.Picked c.acknowledge.1 := by
  cases hnext : c.next with
  | some i =>
    rw [acknowledge_eq hnext]
    exact .inl (h.next_eq_some_iff.1 hnext)
  | none =>
    rw [acknowledge_spurious hnext]
    exact .inr ⟨rfl, h.next_eq_none_iff.1 hnext⟩

theorem Idle.acknowledge (h : c.Idle) : c.acknowledge.2.Serves c.acknowledge.1 := by
  intro j hj
  cases hnext : c.next with
  | some i =>
    rw [acknowledge_eq hnext] at hj ⊢
    by_contra hne
    have hserved : Function.update c.inService i (!c.config.icw4.getLsbD 1) j = true := hj
    rw [Function.update_of_ne hne, h j] at hserved
    cases hserved
  | none =>
    rw [acknowledge_spurious hnext, h j] at hj
    cases hj

theorem Latched.acknowledge {i : Level} (h : c.Latched i) (hi : i ≠ c.acknowledge.1) :
    c.acknowledge.2.Latched i := by
  cases hnext : c.next with
  | none =>
    rw [acknowledge_spurious hnext]
    exact h
  | some k =>
    rw [acknowledge_eq hnext] at hi ⊢
    unfold Latched
    dsimp only
    rw [Function.update_of_ne hi]
    exact h

theorem Serves.endOfInterrupt {i : Level} (h : c.Serves i) : c.endOfInterrupt.Idle := by
  intro j
  unfold Chip.endOfInterrupt
  split
  · rename_i k hk
    have hki := h k (first_eq_some_iff.1 hk).1
    show Function.update c.inService k false j = false
    by_cases hjk : j = k
    · rw [hjk, Function.update_self]
    · rw [Function.update_of_ne hjk]
      by_contra hserved
      exact hjk ((h j (by simpa using hserved)).trans hki.symm)
  · rename_i hnone
    exact first_eq_none_iff.1 hnone j

theorem Idle.serves (h : c.Idle) (i : Level) : c.Serves i := by
  intro j hj
  rw [h j] at hj
  cases hj

theorem Idle.command (h : c.Idle) (v : BitVec 8) : (c.command v).Idle := by
  unfold Chip.command
  split
  · exact h
  · split
    · exact (h.serves 0).endOfInterrupt
    · split
      · intro j
        show Function.update c.inService _ false j = false
        rw [Function.update_apply]
        split
        · rfl
        · exact h j
      · exact h

/-- Right after it has answered, an idle chip that does not end interrupts by itself signals nothing:
what is in service is the first of its requests. -/
theorem Idle.acknowledge_interrupt (h : c.Idle) (haeoi : c.config.icw4.getLsbD 1 = false) :
    c.acknowledge.2.interrupt = false := by
  cases hnext : c.next with
  | none =>
    unfold Chip.interrupt
    rw [acknowledge_spurious hnext, hnext]
    rfl
  | some i =>
    obtain ⟨-, hbefore⟩ := h.next_eq_some_iff.1 hnext
    unfold Chip.interrupt Chip.next
    rw [acknowledge_eq hnext, haeoi, Option.isSome_eq_false_iff, Option.isNone_iff_eq_none, first_eq_none_iff]
    intro j
    rw [Bool.and_eq_false_iff]
    by_cases hji : j < i
    · left
      rw [← hbefore j hji]
      unfold Chip.requested
      dsimp only
      rw [Function.update_of_ne (ne_of_lt hji)]
    · right
      refine decide_eq_false fun hfree => ?_
      have hserved : Function.update c.inService i true i = false := hfree i (not_lt.1 hji)
      rw [Function.update_self] at hserved
      cases hserved

end Chip

/-! ## The pair -/

structure Pair where
  master : Chip
  slave : Chip

namespace Pair

variable (p : Pair)

/-- The slave's INT is the line of the master's level 2. -/
def wire : Pair := { p with master := p.master.setLine 2 p.slave.interrupt }

/-- A line of a device goes high or low: 0 to 7 of the master and, from 8 on, of the slave. The
master's level 2 has no line but the slave's. -/
def setIrq (irq : Fin 16) (v : Bool) : Pair :=
  if h : irq.val < 8 then
    if irq = 2 then p else { p with master := p.master.setLine ⟨irq, h⟩ v }
  else wire { p with slave := p.slave.setLine ⟨irq - 8, by omega⟩ v }

def masterCommand (v : BitVec 8) : Pair := wire { p with master := p.master.command v }
def masterData (v : BitVec 8) : Pair := wire { p with master := p.master.data v }
def slaveCommand (v : BitVec 8) : Pair := wire { p with slave := p.slave.command v }
def slaveData (v : BitVec 8) : Pair := wire { p with slave := p.slave.data v }

/-- The first acknowledge pulse: the master's level goes into service. -/
def acknowledge : Level × Pair :=
  (p.master.acknowledge.1, { p with master := p.master.acknowledge.2 })

/-- The master leaves level `i` to a slave, and the slave is the one of that level. -/
def slaveAnswers (i : Level) : Bool :=
  !p.master.config.icw1.getLsbD 1 && p.master.config.icw3.getLsbD i &&
    decide (p.slave.config.icw3 &&& 0x07#8 = BitVec.ofNat 8 i)

/-- The second pulse, after the master's level `i`: a vector comes from the slave or the master. -/
def vector (i : Level) : Option (BitVec 8) × Pair :=
  if p.slaveAnswers i then
    (p.slave.config.vector p.slave.acknowledge.1, wire { p with slave := p.slave.acknowledge.2 })
  else (p.master.config.vector i, p)

/-! ## The slave's line -/

/-- The line of level 2 stands as the slave has it, and if it is high its rise is not forgotten. -/
structure Coupled : Prop where
  wired : p.master.line 2 = p.slave.interrupt
  latched : p.master.Latched 2

/-- As `Coupled` after the master's level `i` is picked: with level 2 its own rise is taken. -/
structure CoupledPast (i : Level) : Prop where
  wired : p.master.line 2 = p.slave.interrupt
  coupled : i ≠ 2 → p.Coupled

variable {p}

@[simp] theorem wire_slave : p.wire.slave = p.slave := rfl

theorem wire_wired : p.wire.master.line 2 = p.wire.slave.interrupt := Chip.setLine_line_self ..

theorem coupled_wire (h : p.master.Latched 2) : p.wire.Coupled := ⟨wire_wired, h.setLine_self _⟩

/-- Where the slave asks for nothing its line is low. -/
theorem coupled_wire_quiet (h : p.slave.interrupt = false) : p.wire.Coupled := by
  refine ⟨wire_wired, fun hline => ?_⟩
  rw [wire_wired, wire_slave, h] at hline
  cases hline

theorem Coupled.acknowledge (h : p.Coupled) : p.acknowledge.2.CoupledPast p.acknowledge.1 := by
  have hline : p.acknowledge.2.master.line 2 = p.acknowledge.2.slave.interrupt := by
    show p.master.acknowledge.2.line 2 = _
    rw [Chip.acknowledge_line]
    exact h.wired
  -- the chip forgets the rise of the level it picks, and of no other
  exact ⟨hline, fun hi => ⟨hline, h.latched.acknowledge (Ne.symm hi)⟩⟩

/-- Nothing is in service on either chip. -/
def Idle (p : Pair) : Prop := p.master.Idle ∧ p.slave.Idle

/-- A change of a line programs nothing and puts nothing into service. -/
structure Follows (p q : Pair) : Prop where
  masterConfig : q.master.config = p.master.config
  slaveConfig : q.slave.config = p.slave.config
  masterService : q.master.inService = p.master.inService
  slaveService : q.slave.inService = p.slave.inService

theorem follows_setIrq (p : Pair) (irq : Fin 16) (v : Bool) : Follows p (p.setIrq irq v) := by
  unfold setIrq
  split
  · split <;> exact ⟨rfl, rfl, rfl, rfl⟩
  · exact ⟨rfl, rfl, rfl, rfl⟩

theorem setIrq_wired (h : p.master.line 2 = p.slave.interrupt) (irq : Fin 16) (v : Bool) :
    (p.setIrq irq v).master.line 2 = (p.setIrq irq v).slave.interrupt := by
  unfold setIrq
  split
  · split
    · exact h
    · rename_i hlt hne
      have hlevel : (2 : Level) ≠ ⟨irq.val, hlt⟩ := fun heq => hne (Fin.ext (congrArg Fin.val heq).symm)
      exact (Function.update_of_ne hlevel ..).trans h
  · exact wire_wired

theorem setIrq_latched (h : p.master.Latched 2) (irq : Fin 16) (v : Bool) : (p.setIrq irq v).master.Latched 2 := by
  unfold setIrq
  split
  · split
    · exact h
    · rename_i hlt hne
      exact h.setLine_ne fun heq => hne (Fin.ext (congrArg Fin.val heq).symm)
  · exact h.setLine_self _

theorem Coupled.setIrq (h : p.Coupled) (irq : Fin 16) (v : Bool) : (p.setIrq irq v).Coupled :=
  ⟨setIrq_wired h.wired irq v, setIrq_latched h.latched irq v⟩

theorem CoupledPast.setIrq {i : Level} (h : p.CoupledPast i) (irq : Fin 16) (v : Bool) :
    (p.setIrq irq v).CoupledPast i :=
  ⟨setIrq_wired h.wired irq v, fun hi => (h.coupled hi).setIrq irq v⟩

/-- A device asks for an interrupt that no mask holds back. -/
def Wants (p : Pair) (irq : Fin 16) : Prop :=
  if h : irq.val < 8 then irq ≠ 2 ∧ p.master.requested ⟨irq, h⟩ = true
  else p.slave.requested ⟨irq - 8, by omega⟩ = true ∧ p.master.config.mask.getLsbD 2 = false

/-- With nothing in service, the processor is asked exactly when a device asks. -/
theorem interrupt_iff (hi : p.Idle) (hc : p.Coupled) : p.master.interrupt = true ↔ ∃ irq, p.Wants irq := by
  have hcascade : p.master.requested 2 = true ↔
      (∃ j, p.slave.requested j = true) ∧ p.master.config.mask.getLsbD 2 = false := by
    rw [← hi.2.interrupt_iff, ← hc.wired]
    unfold Chip.requested
    constructor
    · intro h
      simp only [Bool.and_eq_true, Bool.not_eq_true'] at h
      exact ⟨h.1.1, h.2⟩
    · rintro ⟨hline, hmask⟩
      have hedge := hc.latched hline
      have hmask' : (p.master.config.mask.getLsbD (2 : Level)) = false := hmask
      rw [hline, hedge, hmask']
      rfl
  rw [hi.1.interrupt_iff]
  constructor
  · rintro ⟨i, hrequested⟩
    by_cases h2 : i = 2
    · rw [h2] at hrequested
      obtain ⟨⟨j, hj⟩, hmask⟩ := hcascade.1 hrequested
      refine ⟨⟨8 + j, by omega⟩, ?_⟩
      unfold Wants
      rw [dif_neg (by simp)]
      have hlevel : (⟨8 + j.val - 8, by omega⟩ : Level) = j := Fin.ext (by simp)
      exact ⟨(congrArg p.slave.requested hlevel).trans hj, hmask⟩
    · refine ⟨⟨i, by omega⟩, ?_⟩
      unfold Wants
      rw [dif_pos i.isLt]
      refine ⟨fun heq => h2 (Fin.ext ?_), hrequested⟩
      have hval : i.val = 2 := congrArg Fin.val heq
      exact hval
  · rintro ⟨irq, hwants⟩
    unfold Wants at hwants
    split at hwants
    · exact ⟨_, hwants.2⟩
    · exact ⟨2, hcascade.2 ⟨⟨_, hwants.1⟩, hwants.2⟩⟩

end Pair

end I8259
