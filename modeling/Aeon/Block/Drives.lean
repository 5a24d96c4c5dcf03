/-
Two channels with a place for two drives each, as far as IDENTIFY DEVICE goes, and `ata_identify` on
them. An empty place answers with zeros, a packet device aborts the command, and a disk has BSY set
for some reads of the status and then 256 words to give. The call finds out which, and leaves the
channels ready for the next one.
-/
import Aeon.Block.Identify

namespace Aeon.Block

open Ports

/-! ## The drives -/

/-- What is at one place of a channel; `delay` is the number of reads that see BSY. -/
inductive Slot where
  | empty
  | packet (delay : Nat)
  | disk (delay : Nat) (words : Nat → KUint16)

abbrev Slots := Channel → Drive → Slot

def Slot.delay : Slot → Nat
  | empty => 0
  | packet delay => delay
  | disk delay _ => delay

/-- What is left of a command: nothing, an error, or words from one on. -/
inductive Reply where
  | none
  | failed
  | data (next : Nat)

/-- The registers of a channel, which its drives share. -/
structure Bank where
  seccount : KUint8
  lba0 : KUint8
  lba1 : KUint8
  lba2 : KUint8
  hddevsel : KUint8
  busy : Nat
  reply : Reply

namespace Bank

variable (b : Bank)

/-- Bit 4 of the device register. -/
def selected : Drive := if b.hddevsel &&& 0x10#8 = 0#8 then .master else .slave

/-- IDENTIFY DEVICE, with the registers zero as it asks for; any other command is aborted. -/
def command (slots : Drive → Slot) (v : KUint8) : Bank :=
  match slots b.selected with
  | .empty => b
  | .packet delay => { b with busy := delay, reply := .failed }
  | .disk delay _ =>
    let identify := v = 0xEC#8 ∧ b.seccount = 0#8 ∧ b.lba0 = 0#8 ∧ b.lba1 = 0#8 ∧ b.lba2 = 0#8
    { b with busy := delay, reply := if identify then .data 0 else .failed }

def status (slots : Drive → Slot) : KUint8 × Bank :=
  match slots b.selected with
  | .empty => (0#8, b)
  | _ =>
    if b.busy ≠ 0 then (0x80#8, { b with busy := b.busy - 1 })
    else
      match b.reply with
      | .none => (0x50#8, b)
      | .failed => (0x51#8, b)
      | .data _ => (0x58#8, b)

def data (slots : Drive → Slot) : KUint16 × Bank :=
  match slots b.selected, b.reply with
  | .disk _ words, .data next =>
    (words next, { b with reply := if next + 1 < 256 then .data (next + 1) else .none })
  | _, _ => (0xFFFF#16, b)

/-- A write is lost while BSY is set. -/
def write (slots : Drive → Slot) (register : Nat) (v : KUint8) : Bank :=
  if b.busy ≠ 0 then b
  else
    match register with
    | 2 => { b with seccount := v }
    | 3 => { b with lba0 := v }
    | 4 => { b with lba1 := v }
    | 5 => { b with lba2 := v }
    | 6 => { b with hddevsel := v }
    | 7 => b.command slots v
    | _ => b

end Bank

abbrev Banks := Channel → Bank

namespace Banks

variable (slots : Slots)

/-- Where no register answers the bus floats. -/
def inb (p : Port) (s : Banks) : KUint8 × Banks :=
  match Controller.decode p with
  | some (c, 7) => (((s c).status (slots c)).1, Function.update s c ((s c).status (slots c)).2)
  | _ => (0xFF#8, s)

def inw (p : Port) (s : Banks) : KUint16 × Banks :=
  match Controller.decode p with
  | some (c, 0) => (((s c).data (slots c)).1, Function.update s c ((s c).data (slots c)).2)
  | _ => (0xFFFF#16, s)

def outb (p : Port) (v : KUint8) (s : Banks) : Banks :=
  match Controller.decode p with
  | some (c, register) => Function.update s c ((s c).write (slots c) register v)
  | none => s

def ports : Bus Banks where
  inb := inb slots
  inw := inw slots
  outb := outb slots

variable {slots} {c : Channel} {s : Banks}

theorem inb_status : inb slots (c.io + ataRegStatus) s =
    (((s c).status (slots c)).1, Function.update s c ((s c).status (slots c)).2) := by
  unfold inb
  rw [show c.io + ataRegStatus = c.io + BitVec.ofNat 16 (7 : Fin 8) from rfl, Controller.decode_io]
  rfl

theorem inw_data : inw slots (c.io + ataRegData) s =
    (((s c).data (slots c)).1, Function.update s c ((s c).data (slots c)).2) := by
  unfold inw
  rw [show c.io + ataRegData = c.io + BitVec.ofNat 16 (0 : Fin 8) from rfl, Controller.decode_io]
  rfl

theorem outb_io (r : Fin 8) (v : KUint8) (s : Banks) : outb slots (c.io + BitVec.ofNat 16 r) v s =
    Function.update s c ((s c).write (slots c) r v) := by
  unfold outb
  rw [Controller.decode_io]

end Banks

/-! ## After the command -/

section

variable {slots : Slots} {bus drive : KUint8} {s : Banks}

end

/-! ## What the status says -/

/-- What is there and not empty. -/
def Slot.Answers : Slot → Prop
  | empty => False
  | _ => True

/-- The byte of the status once BSY is clear. -/
def Reply.status : Reply → KUint8
  | none => 0x50#8
  | failed => 0x51#8
  | data _ => 0x58#8

section

variable {slots : Slots} {c : Channel} {b : Bank} {s : Banks}

theorem Bank.status_eq {slots : Drive → Slot} (h : (slots b.selected).Answers) :
    b.status slots = (if b.busy ≠ 0 then 0x80#8 else b.reply.status, { b with busy := b.busy - 1 }) := by
  obtain ⟨seccount, lba0, lba1, lba2, hddevsel, busy, reply⟩ := b
  unfold Bank.status
  revert h
  cases slots _ with
  | empty => exact False.elim
  | packet _ | disk _ _ =>
    intro _
    cases busy with
    | zero => cases reply <;> rfl
    | succ busy => rfl

/-- A drive that is there has BSY set for the reads that are left of its delay. -/
theorem skip_status (h : ((slots c) b.selected).Answers) (n : Nat) :
    skip (Banks.ports slots) (c.io + ataRegStatus) n (Function.update s c b) =
      Function.update s c { b with busy := b.busy - n } := by
  induction n generalizing b with
  | zero => rfl
  | succ n ih =>
    have hread : ((Banks.ports slots).inb (c.io + ataRegStatus) (Function.update s c b)).2 =
        Function.update s c { b with busy := b.busy - 1 } := by
      show (Banks.inb slots _ _).2 = _
      rw [Banks.inb_status, Function.update_self, Bank.status_eq h, Function.update_idem]
    rw [skip, hread]
    refine (@ih { b with busy := b.busy - 1 } h).trans ?_
    congr 2
    show b.busy - 1 - n = b.busy - (n + 1)
    omega

theorem byteAt_status (h : ((slots c) b.selected).Answers) (n : Nat) :
    byteAt (Banks.ports slots) (c.io + ataRegStatus) (Function.update s c b) n =
      if n < b.busy then 0x80#8 else b.reply.status := by
  have hread := @Bank.status_eq { b with busy := b.busy - n } (slots c) h
  unfold byteAt
  rw [skip_status h]
  show (Banks.inb slots _ _).1 = _
  rw [Banks.inb_status, Function.update_self, hread]
  exact if_congr (show b.busy - n ≠ 0 ↔ n < b.busy by omega) rfl rfl

end

/-! ## What the words say -/

/-- Character `n` of the model name, the first of two in the high byte of a word. -/
def nameChar (words : Nat → KUint16) (n : Nat) : KUint8 := (words (27 + n / 2)).extractLsb' (8 * (1 - n % 2)) 8

section

variable {slots : Slots} {c : Channel} {b : Bank} {s : Banks} {delay : Nat} {words : Nat → KUint16}

end

/-! ## `ata_identify` on one place -/

def Banks.Quiet (s : Banks) : Prop := ∀ c, (s c).busy = 0

section

variable {slots : Slots} {bus drive : KUint8} {fuel : Nat} {m : Probe Banks}

theorem Banks.Quiet.update {s : Banks} (h : s.Quiet) {c : Channel} {b : Bank} (hb : b.busy = 0) :
    (Banks.Quiet (Function.update s c b)) := by
  intro c'
  by_cases hc : c' = c
  · rw [hc, Function.update_self, hb]
  · rw [Function.update_of_ne hc, h c']

theorem AtaInfo.update_eq_self (info : AtaInfo) (bus drive : KUint8) :
    info.update bus drive (info bus drive) = info := by
  unfold AtaInfo.update
  rw [Function.update_eq_self, Function.update_eq_self]

end

end Aeon.Block
