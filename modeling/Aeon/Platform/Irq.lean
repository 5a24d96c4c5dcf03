/-
`irq.c` on a pair of 8259A controllers: `pic_remap` programs them and `pic_send_eoi` ends every
interrupt that `irq_handler` is called for. Over runs in which devices raise and drop their lines at
any moment, each interrupt is ended exactly once, so that between interrupts nothing is in service
and whatever a device asks for is signalled.
-/
import Aeon.Lib.I8259
import Aeon.Lib.Ports
import Aeon.Lib.Run
import Aeon.Klibc.Types

namespace Aeon.Platform

open I8259 Ports

/-! ## `irq.c` -/

def pic1 : Port := 0x20#16
def pic2 : Port := 0xA0#16
def pic1Command : Port := pic1
def pic1Data : Port := pic1 + 1#16
def pic2Command : Port := pic2
def pic2Data : Port := pic2 + 1#16

def picEoi : KUint8 := 0x20#8

def icw1Icw4 : KUint8 := 0x01#8
def icw1Init : KUint8 := 0x10#8
def icw4For8086 : KUint8 := 0x01#8

def picIrqOffset1 : KUint8 := 32#8
def picIrqOffset2 : KUint8 := picIrqOffset1 + 8#8

section

variable {σ : Type} (ports : Bus σ)

/-- `io_wait` of `hal.c`. -/
def ioWait (s : σ) : σ := ports.outb 0x80#16 0#8 s

def picRemap (s : σ) : σ :=
  let (a1, s) := ports.inb pic1Data s
  let (a2, s) := ports.inb pic2Data s
  let s := ioWait ports (ports.outb pic1Command (icw1Init ||| icw1Icw4) s)
  let s := ioWait ports (ports.outb pic2Command (icw1Init ||| icw1Icw4) s)
  let s := ioWait ports (ports.outb pic1Data picIrqOffset1 s)
  let s := ioWait ports (ports.outb pic2Data picIrqOffset2 s)
  let s := ioWait ports (ports.outb pic1Data 4#8 s)
  let s := ioWait ports (ports.outb pic2Data 2#8 s)
  let s := ioWait ports (ports.outb pic1Data icw4For8086 s)
  let s := ioWait ports (ports.outb pic2Data icw4For8086 s)
  ports.outb pic2Data a2 (ports.outb pic1Data a1 s)

def picSendEoi (irq : KUint32) (s : σ) : σ :=
  let s := if 8#32 ≤ irq then ports.outb pic2Command picEoi s else s
  ports.outb pic1Command picEoi s

end

/-! ## The same, write by write -/

abbrev PortWrite := Port × KUint8

/-- What `pic_remap` writes, with the masks it has read. -/
def remapWrites (a1 a2 : KUint8) : List PortWrite :=
  [(pic1Command, icw1Init ||| icw1Icw4), (0x80#16, 0#8),
   (pic2Command, icw1Init ||| icw1Icw4), (0x80#16, 0#8),
   (pic1Data, picIrqOffset1), (0x80#16, 0#8),
   (pic2Data, picIrqOffset2), (0x80#16, 0#8),
   (pic1Data, 4#8), (0x80#16, 0#8),
   (pic2Data, 2#8), (0x80#16, 0#8),
   (pic1Data, icw4For8086), (0x80#16, 0#8),
   (pic2Data, icw4For8086), (0x80#16, 0#8),
   (pic1Data, a1), (pic2Data, a2)]

def eoiWrites (irq : KUint32) : List PortWrite :=
  (if 8#32 ≤ irq then [(pic2Command, picEoi)] else []) ++ [(pic1Command, picEoi)]

theorem picRemap_eq {σ : Type} (ports : Bus σ) (s : σ) :
    picRemap ports s =
      (remapWrites (ports.inb pic1Data s).1 (ports.inb pic2Data (ports.inb pic1Data s).2).1).foldl
        (fun s w => ports.outb w.1 w.2 s) (ports.inb pic2Data (ports.inb pic1Data s).2).2 := rfl

theorem picSendEoi_eq {σ : Type} (ports : Bus σ) (irq : KUint32) (s : σ) :
    picSendEoi ports irq s = (eoiWrites irq).foldl (fun s w => ports.outb w.1 w.2 s) s := by
  unfold picSendEoi eoiWrites
  split <;> rfl

/-- What `isr_handler` has written to the controllers when it returns. -/
def handlerWrites (intNo : KUint32) : List PortWrite :=
  if 32#32 ≤ intNo ∧ intNo ≤ 47#32 then eoiWrites (intNo - 32#32) else []

/-! ## The controllers behind their ports -/

/-- The other ports are those of other devices. -/
def picOutb (p : Port) (v : KUint8) (s : Pair) : Pair :=
  if p = pic1Command then s.masterCommand v
  else if p = pic1Data then s.masterData v
  else if p = pic2Command then s.slaveCommand v
  else if p = pic2Data then s.slaveData v
  else s

/-- The data ports read the masks. -/
def picInb (p : Port) (s : Pair) : KUint8 × Pair :=
  (if p = pic1Data then s.master.config.mask else if p = pic2Data then s.slave.config.mask else 0xFF#8, s)

def picPorts : Bus Pair where
  inb := picInb
  inw := fun _ s => (0xFFFF#16, s)
  outb := picOutb

/-! ## Interrupts -/

inductive IrqPhase where
  /-- In `pic_remap`, with these writes still to make. -/
  | remap (todo : List PortWrite)
  /-- Interrupts are enabled and no handler runs. -/
  | running
  /-- The processor has seen the master's INT. -/
  | accepted
  /-- The first acknowledge pulse was answered by a level of the master. -/
  | answered (i : Level)
  /-- In `isr_handler`, with these writes still to make. -/
  | handling (vector : KUint8) (todo : List PortWrite)

structure Pc where
  pair : Pair
  phase : IrqPhase

/-- A line changes, or the processor goes on. A handler is not interrupted: its gate and its stub
keep interrupts disabled. -/
inductive Pc.Step : Pc → Pc → Prop
  | line {p : Pair} {phase : IrqPhase} (irq : Fin 16) (v : Bool) : Step ⟨p, phase⟩ ⟨p.setIrq irq v, phase⟩
  | program {p : Pair} {w : PortWrite} {todo : List PortWrite} :
      Step ⟨p, .remap (w :: todo)⟩ ⟨picOutb w.1 w.2 p, .remap todo⟩
  | enable {p : Pair} : Step ⟨p, .remap []⟩ ⟨p, .running⟩
  | accept {p : Pair} : p.master.interrupt = true → Step ⟨p, .running⟩ ⟨p, .accepted⟩
  | acknowledge {p : Pair} : Step ⟨p, .accepted⟩ ⟨p.acknowledge.2, .answered p.acknowledge.1⟩
  | vector {p : Pair} {i : Level} {v : KUint8} : (p.vector i).1 = some v →
      Step ⟨p, .answered i⟩ ⟨(p.vector i).2, .handling v (handlerWrites (v.setWidth 32))⟩
  | handle {p : Pair} {v : KUint8} {w : PortWrite} {todo : List PortWrite} :
      Step ⟨p, .handling v (w :: todo)⟩ ⟨picOutb w.1 w.2 p, .handling v todo⟩
  | leave {p : Pair} {v : KUint8} : Step ⟨p, .handling v []⟩ ⟨p, .running⟩

/-- Before `pic_remap` has written anything. -/
def Pc.start (p : Pair) : Pc := ⟨p, .remap (remapWrites p.master.config.mask p.slave.config.mask)⟩

/-! ## What is programmed -/

def masterConfig (mask : KUint8) : Config := ⟨mask, icw1Init ||| icw1Icw4, picIrqOffset1, 4#8, icw4For8086, .mask⟩

def slaveConfig (mask : KUint8) : Config := ⟨mask, icw1Init ||| icw1Icw4, picIrqOffset2, 2#8, icw4For8086, .mask⟩

/-- The programs of the master and of the slave. -/
def configs (p : Pair) : Config × Config := (p.master.config, p.slave.config)

def configOutb (c : Config × Config) (w : PortWrite) : Config × Config :=
  if w.1 = pic1Command then (c.1.command w.2, c.2)
  else if w.1 = pic1Data then (c.1.data w.2, c.2)
  else if w.1 = pic2Command then (c.1, c.2.command w.2)
  else if w.1 = pic2Data then (c.1, c.2.data w.2)
  else c

theorem configs_picOutb (w : PortWrite) (p : Pair) : configs (picOutb w.1 w.2 p) = configOutb (configs p) w := by
  unfold picOutb configOutb
  split
  · exact Prod.ext (Chip.command_config _ _) rfl
  · split
    · rfl
    · split
      · exact Prod.ext rfl (Chip.command_config _ _)
      · split <;> rfl

@[simp] theorem configOutb_pic1Command (c : Config × Config) (v : KUint8) :
    configOutb c (pic1Command, v) = (c.1.command v, c.2) := rfl
@[simp] theorem configOutb_pic1Data (c : Config × Config) (v : KUint8) :
    configOutb c (pic1Data, v) = (c.1.data v, c.2) := rfl
@[simp] theorem configOutb_pic2Command (c : Config × Config) (v : KUint8) :
    configOutb c (pic2Command, v) = (c.1, c.2.command v) := rfl
@[simp] theorem configOutb_pic2Data (c : Config × Config) (v : KUint8) :
    configOutb c (pic2Data, v) = (c.1, c.2.data v) := rfl
@[simp] theorem configOutb_wait (c : Config × Config) (v : KUint8) : configOutb c (0x80#16, v) = c := rfl

/-- However the chips were programmed before, and however far their initialisation was. -/
theorem configs_remap (a1 a2 : KUint8) (c : Config × Config) :
    (remapWrites a1 a2).foldl configOutb c = (masterConfig a1, slaveConfig a2) := by
  unfold remapWrites
  simp only [List.foldl_cons, List.foldl_nil, configOutb_pic1Command, configOutb_pic1Data, configOutb_pic2Command,
    configOutb_pic2Data, configOutb_wait]
  exact Prod.ext (Config.initialise_cascade _ (by decide) (by decide) (by decide) ..)
    (Config.initialise_cascade _ (by decide) (by decide) (by decide) ..)

/-! ## Programming -/

section

variable {a1 a2 : KUint8} {p : Pair}

theorem idle_picOutb (h : p.Idle) (w : PortWrite) : (picOutb w.1 w.2 p).Idle := by
  unfold picOutb
  split
  · exact ⟨h.1.command _, h.2⟩
  · split
    · exact h
    · split
      · exact ⟨h.1, h.2.command _⟩
      · split <;> exact h

/-- A byte that is no ICW1 for the master keeps the slave's line. -/
theorem coupled_picOutb (h : p.Coupled) {w : PortWrite} (hw : w.1 ≠ pic1Command) : (picOutb w.1 w.2 p).Coupled := by
  unfold picOutb
  rw [if_neg hw]
  split
  · exact Pair.coupled_wire h.latched
  · split
    · exact Pair.coupled_wire h.latched
    · split
      · exact Pair.coupled_wire h.latched
      · exact h

/-- The slave's ICW1 takes back what it asked for. -/
theorem coupled_slaveIcw1 (p : Pair) : (picOutb pic2Command (icw1Init ||| icw1Icw4) p).Coupled := by
  refine Pair.coupled_wire_quiet ?_
  show (p.slave.command (icw1Init ||| icw1Icw4)).interrupt = false
  rw [Chip.command_icw1 p.slave (by decide)]
  unfold Chip.interrupt Chip.next
  rw [Option.isSome_eq_false_iff, Option.isNone_iff_eq_none, first_eq_none_iff]
  intro i
  have hicw1 : (p.slave.config.initialise (icw1Init ||| icw1Icw4)).icw1.getLsbD 3 = false :=
    show (icw1Init ||| icw1Icw4).getLsbD 3 = false by decide
  unfold Chip.requested
  rw [hicw1]
  simp

/-- After `n` of the writes of `pic_remap`. -/
structure Remapping (a1 a2 : KUint8) (n : Nat) (todo : List PortWrite) (p : Pair) : Prop where
  todo_eq : todo = (remapWrites a1 a2).drop n
  programmed : ∃ c, configs p = ((remapWrites a1 a2).take n).foldl configOutb c
  idle : p.Idle
  coupled : 3 ≤ n → p.Coupled

theorem Remapping.write {n : Nat} {w : PortWrite} {todo : List PortWrite}
    (h : Remapping a1 a2 n (w :: todo) p) : Remapping a1 a2 (n + 1) todo (picOutb w.1 w.2 p) := by
  have hget : (remapWrites a1 a2)[n]? = some w := by
    have := congrArg (·[0]?) h.todo_eq
    simpa [List.getElem?_drop] using this.symm
  have htake : (remapWrites a1 a2).take (n + 1) = (remapWrites a1 a2).take n ++ [w] := by
    rw [List.take_add_one, hget]
    rfl
  refine ⟨?_, ?_, idle_picOutb h.idle w, fun hn => ?_⟩
  · rw [← List.drop_drop, ← h.todo_eq]
    rfl
  · obtain ⟨c, hc⟩ := h.programmed
    refine ⟨c, ?_⟩
    rw [configs_picOutb, hc, htake, List.foldl_append]
    rfl
  · -- the third write is the slave's ICW1, and no write after it is one for the master
    rcases Nat.lt_or_ge n 3 with hlt | hge
    · have hn2 : n = 2 := by omega
      subst hn2
      have hw : w = (pic2Command, icw1Init ||| icw1Icw4) := (Option.some.inj hget).symm
      rw [hw]
      exact coupled_slaveIcw1 p
    · refine coupled_picOutb (h.coupled hge) ?_
      have hlater : ∀ w ∈ (remapWrites a1 a2).drop 3, w.1 ≠ pic1Command := by
        unfold remapWrites
        simp [pic1Command, pic1Data, pic2Command, pic2Data, pic1, pic2]
      apply hlater
      rw [List.mem_iff_getElem?]
      refine ⟨n - 3, ?_⟩
      rw [List.getElem?_drop, show 3 + (n - 3) = n by omega, hget]

/-- The controllers as `pic_remap` programs them. -/
def Programmed (a1 a2 : KUint8) (p : Pair) : Prop := configs p = (masterConfig a1, slaveConfig a2)

theorem Remapping.done {n : Nat} (h : Remapping a1 a2 n [] p) : Programmed a1 a2 p ∧ p.Coupled := by
  have hlen : (remapWrites a1 a2).length = 18 := rfl
  have hn : 18 ≤ n := by
    have := congrArg List.length h.todo_eq
    rw [List.length_drop, hlen, List.length_nil] at this
    omega
  obtain ⟨c, hc⟩ := h.programmed
  rw [List.take_of_length_le (by omega), configs_remap] at hc
  exact ⟨hc, h.coupled (by omega)⟩

theorem Remapping.start (p : Pair) (h : p.Idle) :
    Remapping a1 a2 0 (remapWrites a1 a2) p := ⟨rfl, ⟨configs p, rfl⟩, h, fun hn => absurd hn (by omega)⟩

end

/-! ## Interrupts and their ends -/

/-- The end-of-interrupt commands still to come end whatever is in service: a chip with one to come
serves one level at most, and none where the interrupt was spurious, a chip without serves none. -/
inductive Owed : List PortWrite → Pair → Prop
  | none {p : Pair} : p.Idle → Owed [] p
  | master {p : Pair} {i : Level} : p.master.Serves i → p.slave.Idle → Owed [(pic1Command, picEoi)] p
  | both {p : Pair} {i j : Level} : p.master.Serves i → p.slave.Serves j →
      Owed [(pic2Command, picEoi), (pic1Command, picEoi)] p

theorem Owed.write {w : PortWrite} {todo : List PortWrite} {p : Pair} (h : Owed (w :: todo) p) :
    Owed todo (picOutb w.1 w.2 p) := by
  cases h with
  | master hm hs => exact .none ⟨hm.endOfInterrupt, hs⟩
  | both hm hs => exact .master hm hs.endOfInterrupt

theorem Owed.follows {todo : List PortWrite} {p q : Pair} (h : Owed todo p) (hf : p.Follows q) : Owed todo q := by
  have hm := hf.masterService
  have hs := hf.slaveService
  cases h with
  | none h =>
    refine .none ⟨fun i => ?_, fun i => ?_⟩
    · rw [hm, h.1 i]
    · rw [hs, h.2 i]
  | master h₁ h₂ =>
    refine .master (fun j hj => h₁ j ?_) fun i => ?_
    · rw [← hm, hj]
    · rw [hs, h₂ i]
  | both h₁ h₂ =>
    refine .both (fun j hj => h₁ j ?_) (fun j hj => h₂ j ?_)
    · rw [← hm, hj]
    · rw [← hs, hj]

/-- The vectors of the fifteen lines; level 2 of the master has none. -/
def IrqVector (v : KUint8) : Prop := 32 ≤ v.toNat ∧ v.toNat < 48 ∧ v.toNat ≠ 34

/-- What holds at each point of a run, the masks having been `a1` and `a2` at its start. -/
def Pc.Inv (a1 a2 : KUint8) (k : Pc) : Prop :=
  match k.phase with
  | .remap todo => ∃ n, Remapping a1 a2 n todo k.pair
  | .running => Programmed a1 a2 k.pair ∧ k.pair.Coupled ∧ k.pair.Idle
  | .accepted => Programmed a1 a2 k.pair ∧ k.pair.Coupled ∧ k.pair.Idle
  | .answered i => Programmed a1 a2 k.pair ∧ k.pair.CoupledPast i ∧ k.pair.master.Serves i ∧ k.pair.slave.Idle
  | .handling v todo => Programmed a1 a2 k.pair ∧ k.pair.Coupled ∧ IrqVector v ∧ Owed todo k.pair

section

variable {a1 a2 : KUint8} {p q : Pair}

theorem Programmed.follows (h : Programmed a1 a2 p) (hf : p.Follows q) : Programmed a1 a2 q := by
  unfold Programmed configs
  rw [hf.masterConfig, hf.slaveConfig]
  exact h

theorem Programmed.master (h : Programmed a1 a2 p) : p.master.config = masterConfig a1 := congrArg Prod.fst h

theorem Programmed.slave (h : Programmed a1 a2 p) : p.slave.config = slaveConfig a2 := congrArg Prod.snd h

theorem idle_follows (h : p.Idle) (hf : p.Follows q) : q.Idle := by
  refine ⟨fun i => ?_, fun i => ?_⟩
  · rw [hf.masterService, h.1 i]
  · rw [hf.slaveService, h.2 i]

/-- An end of interrupt programs nothing. -/
theorem Programmed.eoi (h : Programmed a1 a2 p) {todo : List PortWrite} {w : PortWrite}
    (ho : Owed (w :: todo) p) : Programmed a1 a2 (picOutb w.1 w.2 p) := by
  unfold Programmed
  rw [configs_picOutb, h]
  cases ho with
  | master _ _ => rfl
  | both _ _ => rfl

theorem coupled_eoi (h : p.Coupled) {todo : List PortWrite} {w : PortWrite} (ho : Owed (w :: todo) p) :
    (picOutb w.1 w.2 p).Coupled := by
  cases ho with
  | master _ _ => exact Pair.coupled_wire h.latched.endOfInterrupt
  | both _ _ => exact Pair.coupled_wire h.latched

/-! ## The acknowledge pulses -/

theorem masterConfig_vector (mask : KUint8) :
    ∀ i : Level, (masterConfig mask).vector i = some (BitVec.ofNat 8 (32 + i)) := by
  show ∀ i : Level, (if icw4For8086.getLsbD 0 then some (picIrqOffset1 &&& 0xF8#8 ||| BitVec.ofNat 8 i) else none) = _
  decide

theorem slaveConfig_vector (mask : KUint8) :
    ∀ j : Level, (slaveConfig mask).vector j = some (BitVec.ofNat 8 (40 + j)) := by
  show ∀ j : Level, (if icw4For8086.getLsbD 0 then some (picIrqOffset2 &&& 0xF8#8 ||| BitVec.ofNat 8 j) else none) = _
  decide

theorem handlerWrites_master : ∀ i : Level,
    handlerWrites ((BitVec.ofNat 8 (32 + i)).setWidth 32) = [(pic1Command, picEoi)] := by decide

theorem handlerWrites_slave : ∀ j : Level,
    handlerWrites ((BitVec.ofNat 8 (40 + j)).setWidth 32) = [(pic2Command, picEoi), (pic1Command, picEoi)] := by decide

/-- Level 2 of the master is the slave's. -/
theorem Programmed.slaveAnswers (h : Programmed a1 a2 p) (i : Level) : p.slaveAnswers i = decide (i = 2) := by
  unfold Pair.slaveAnswers
  rw [h.master, h.slave]
  show (!(icw1Init ||| icw1Icw4).getLsbD 1 && (4#8).getLsbD i && decide (2#8 &&& 0x07#8 = BitVec.ofNat 8 i)) = _
  revert i
  decide

theorem irqVector_master {i : Level} (hi : i ≠ 2) : IrqVector (BitVec.ofNat 8 (32 + i)) := by
  revert hi
  revert i
  unfold IrqVector
  decide

theorem irqVector_slave (j : Level) : IrqVector (BitVec.ofNat 8 (40 + j)) := by
  revert j
  unfold IrqVector
  decide

theorem Programmed.vector_slave (h : Programmed a1 a2 p) : p.vector 2 =
    (some (BitVec.ofNat 8 (40 + p.slave.acknowledge.1)), Pair.wire { p with slave := p.slave.acknowledge.2 }) := by
  unfold Pair.vector
  rw [h.slaveAnswers, h.slave, slaveConfig_vector]
  rfl

theorem Programmed.vector_master (h : Programmed a1 a2 p) {i : Level} (hi : i ≠ 2) :
    p.vector i = (some (BitVec.ofNat 8 (32 + i)), p) := by
  unfold Pair.vector
  rw [h.slaveAnswers, h.master, masterConfig_vector, decide_eq_false hi]
  rfl

theorem inv_acknowledge (hp : Programmed a1 a2 p) (hc : p.Coupled) (hidle : p.Idle) :
    Pc.Inv a1 a2 ⟨p.acknowledge.2, .answered p.acknowledge.1⟩ := by
  refine ⟨?_, hc.acknowledge, hidle.1.acknowledge, hidle.2⟩
  unfold Programmed configs
  rw [← hp]
  exact Prod.ext p.master.acknowledge_config rfl

theorem inv_vector {i : Level} {v : KUint8} (h : Pc.Inv a1 a2 ⟨p, .answered i⟩) (hv : (p.vector i).1 = some v) :
    Pc.Inv a1 a2 ⟨(p.vector i).2, .handling v (handlerWrites (v.setWidth 32))⟩ := by
  obtain ⟨hp, hc, hm, hs⟩ := h
  -- at level 2 it is the slave that answers, and both chips serve a level
  by_cases hi : i = 2
  · subst hi
    rw [hp.vector_slave, Option.some.injEq] at hv
    subst hv
    rw [hp.vector_slave, handlerWrites_slave]
    have haeoi : p.slave.config.icw4.getLsbD 1 = false := by
      rw [hp.slave]
      exact show icw4For8086.getLsbD 1 = false by decide
    have hquiet := hs.acknowledge_interrupt haeoi
    refine ⟨?_, Pair.coupled_wire_quiet hquiet, irqVector_slave _, .both hm hs.acknowledge⟩
    unfold Programmed configs
    rw [← hp]
    exact Prod.ext rfl p.slave.acknowledge_config
  · rw [hp.vector_master hi, Option.some.injEq] at hv
    subst hv
    rw [hp.vector_master hi, handlerWrites_master]
    exact ⟨hp, hc.coupled hi, irqVector_master hi, .master hm hs⟩

/-! ## Runs -/

theorem Pc.Inv.step {k k' : Pc} (h : Pc.Inv a1 a2 k) (hs : Pc.Step k k') : Pc.Inv a1 a2 k' := by
  cases hs with
  | @line p phase irq v =>
    -- a line changes, whatever the processor is doing
    have hf := Pair.follows_setIrq p irq v
    cases phase with
    | remap todo =>
      obtain ⟨n, h⟩ := h
      refine ⟨n, h.todo_eq, ?_, idle_follows h.idle hf, fun hn => (h.coupled hn).setIrq irq v⟩
      obtain ⟨c, hc⟩ := h.programmed
      refine ⟨c, ?_⟩
      unfold configs
      rw [hf.masterConfig, hf.slaveConfig]
      exact hc
    | running => exact ⟨h.1.follows hf, h.2.1.setIrq irq v, idle_follows h.2.2 hf⟩
    | accepted => exact ⟨h.1.follows hf, h.2.1.setIrq irq v, idle_follows h.2.2 hf⟩
    | answered i =>
      obtain ⟨hp, hc, hm, hs⟩ := h
      refine ⟨hp.follows hf, hc.setIrq irq v, fun j hj => hm j ?_, fun j => ?_⟩
      · rw [← hf.masterService, hj]
      · rw [hf.slaveService, hs j]
    | handling v' todo =>
      obtain ⟨hp, hc, hv, ho⟩ := h
      exact ⟨hp.follows hf, hc.setIrq irq v, hv, ho.follows hf⟩
  | program =>
    obtain ⟨n, h⟩ := h
    exact ⟨n + 1, h.write⟩
  | enable =>
    obtain ⟨n, h⟩ := h
    exact ⟨h.done.1, h.done.2, h.idle⟩
  | accept _ => exact h
  | acknowledge => exact inv_acknowledge h.1 h.2.1 h.2.2
  | vector hv => exact inv_vector h hv
  | handle =>
    obtain ⟨hp, hc, hv, ho⟩ := h
    exact ⟨hp.eoi ho, coupled_eoi hc ho, hv, ho.write⟩
  | leave =>
    obtain ⟨hp, hc, -, ho⟩ := h
    cases ho with
    | none hidle => exact ⟨hp, hc, hidle⟩

theorem Pc.Inv.run {k : Pc} (hp : p.Idle) (h : Run.Reach Pc.Step (Pc.start p) k) :
    Pc.Inv p.master.config.mask p.slave.config.mask k :=
  Run.invariant h ⟨0, Remapping.start p hp⟩ fun _ _ => Pc.Inv.step

/-- Between interrupts nothing is in service, the controllers are as `pic_remap` programmed them, with
the masks they had before, and the processor is asked for an interrupt exactly when a device asks for
one; while a handler runs, the commands it still has to send end whatever is in service. -/
theorem irq_run {k : Pc} (hp : p.Idle) (h : Run.Reach Pc.Step (Pc.start p) k) :
    (k.phase = .running → Programmed p.master.config.mask p.slave.config.mask k.pair ∧ k.pair.Idle ∧
      (k.pair.master.interrupt = true ↔ ∃ irq, k.pair.Wants irq)) ∧
    ∀ v todo, k.phase = .handling v todo → IrqVector v ∧ Owed todo k.pair := by
  have hinv := Pc.Inv.run hp h
  unfold Pc.Inv at hinv
  constructor
  · intro hphase
    rw [hphase] at hinv
    obtain ⟨hprogrammed, hcoupled, hidle⟩ := hinv
    exact ⟨hprogrammed, hidle, Pair.interrupt_iff hidle hcoupled⟩
  · intro v todo hphase
    rw [hphase] at hinv
    exact hinv.2.2

/-- An accepted interrupt is one of the first line that asks, on the master and then on the slave, and
gets the vector of that line; where none asks any more, a spurious interrupt, it is that of level 7. -/
theorem irq_order (hp : p.Idle) :
    (∀ q, Run.Reach Pc.Step (Pc.start p) ⟨q, .accepted⟩ → q.master.Picked q.acknowledge.1) ∧
    ∀ q i, Run.Reach Pc.Step (Pc.start p) ⟨q, .answered i⟩ →
      (i ≠ 2 ∧ (q.vector i).1 = some (BitVec.ofNat 8 (32 + i))) ∨
      (i = 2 ∧ ∃ j, q.slave.Picked j ∧ (q.vector i).1 = some (BitVec.ofNat 8 (40 + j))) := by
  constructor
  · intro q hq
    obtain ⟨-, -, hidle⟩ := Pc.Inv.run hp hq
    exact hidle.1.picked
  · intro q i hq
    obtain ⟨hprogrammed, -, -, hs⟩ := Pc.Inv.run hp hq
    by_cases hi : i = 2
    · right
      subst hi
      exact ⟨rfl, _, hs.picked, congrArg Prod.fst hprogrammed.vector_slave⟩
    · left
      exact ⟨hi, congrArg Prod.fst (hprogrammed.vector_master hi)⟩

end

/-! ## Runs of the code -/

/-- `pic_remap` with no line changing meanwhile. -/
theorem picRemap_reach (p : Pair) : Run.Reach Pc.Step (Pc.start p) ⟨picRemap picPorts p, .remap []⟩ := by
  have hwrites : ∀ (ws : List PortWrite) (q : Pair), Run.Reach Pc.Step ⟨q, .remap ws⟩
      ⟨ws.foldl (fun s w => picOutb w.1 w.2 s) q, .remap []⟩ := by
    intro ws
    induction ws with
    | nil => exact fun _ => .refl
    | cons w ws ih => exact fun q => .head .program (ih _)
  exact hwrites _ p

/-- `irq_handler`, likewise. -/
theorem picSendEoi_reach (p : Pair) (v : KUint8) (irq : KUint32) :
    Run.Reach Pc.Step ⟨p, .handling v (eoiWrites irq)⟩ ⟨picSendEoi picPorts irq p, .handling v []⟩ := by
  have hwrites : ∀ (ws : List PortWrite) (q : Pair), Run.Reach Pc.Step ⟨q, .handling v ws⟩
      ⟨ws.foldl (fun s w => picOutb w.1 w.2 s) q, .handling v []⟩ := by
    intro ws
    induction ws with
    | nil => exact fun _ => .refl
    | cons w ws ih => exact fun q => .head .handle (ih _)
  rw [picSendEoi_eq]
  exact hwrites _ p

/-- Chips as a BIOS leaves them: vectors 8 and 0x70, the timer and the keyboard unmasked. -/
def biosPair : Pair where
  master := ⟨⟨0xB8#8, 0x11#8, 0x08#8, 4#8, 1#8, .mask⟩, fun _ => false, fun _ => false, fun _ => false⟩
  slave := ⟨⟨0x8F#8, 0x11#8, 0x70#8, 2#8, 1#8, .mask⟩, fun _ => false, fun _ => false, fun _ => false⟩

/-- And then programmed by `pic_remap`, with the keyboard's line gone high. -/
def keyboardPair : Pair := (picRemap picPorts biosPair).setIrq ⟨1, by decide⟩ true

theorem biosPair_idle : biosPair.Idle := ⟨fun _ => rfl, fun _ => rfl⟩

theorem keyboardPair_reach : Run.Reach Pc.Step (Pc.start biosPair) ⟨keyboardPair, .running⟩ :=
  ((picRemap_reach biosPair).tail .enable).tail (.line 1 true)

theorem keyboardPair_handled : ∃ q todo, Run.Reach Pc.Step (Pc.start biosPair) ⟨q, .handling 33#8 todo⟩ :=
  ⟨_, _, ((keyboardPair_reach.tail (.accept (by decide))).tail .acknowledge).tail (.vector (by decide))⟩

theorem irq_run_keyboard : (Programmed biosPair.master.config.mask biosPair.slave.config.mask keyboardPair ∧
      keyboardPair.Idle ∧ keyboardPair.master.interrupt = true) ∧
    ∃ q todo, Run.Reach Pc.Step (Pc.start biosPair) ⟨q, .handling 33#8 todo⟩ ∧ IrqVector 33#8 ∧ Owed todo q := by
  obtain ⟨hprogrammed, hidle, hasks⟩ := (irq_run biosPair_idle keyboardPair_reach).1 rfl
  have hwants : keyboardPair.Wants 1 := by
    unfold Pair.Wants
    decide
  obtain ⟨q, todo, hq⟩ := keyboardPair_handled
  exact ⟨⟨hprogrammed, hidle, hasks.2 ⟨1, hwants⟩⟩, q, todo, hq, (irq_run biosPair_idle hq).2 _ _ rfl⟩

theorem irq_order_keyboard : keyboardPair.master.Picked keyboardPair.acknowledge.1 ∧
    (keyboardPair.acknowledge.2.vector keyboardPair.acknowledge.1).1 = some 33#8 := by
  have haccepted := keyboardPair_reach.tail (.accept (by decide))
  refine ⟨(irq_order biosPair_idle).1 _ haccepted, ?_⟩
  have hline : keyboardPair.acknowledge.1 = 1 := by decide
  rcases (irq_order biosPair_idle).2 _ _ (haccepted.tail .acknowledge) with ⟨-, hvector⟩ | ⟨hslave, -⟩
  · rw [hvector, hline]
    rfl
  · rw [hline] at hslave
    cases hslave

end Aeon.Platform
