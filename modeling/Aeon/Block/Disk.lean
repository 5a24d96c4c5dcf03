/-
Two channels of two drives each, as far as reading one sector goes, and `ata_read_sector` on them:
it reads the sector whose number is the low 28 bits of the one it was asked for.
-/
import Aeon.Block.Ata

namespace Aeon.Block

open Ports

/-! ## The device -/

inductive Channel where
  | primary | secondary
  deriving DecidableEq

inductive Drive where
  | master | slave
  deriving DecidableEq

/-- Byte `i` of sector `n` is `disks c d n i`. -/
abbrev Disks := Channel → Drive → Nat → Nat → KUint8

/-- A sector that a command asked for, with the words read of it so far. -/
structure Transfer where
  drive : Drive
  sector : Nat
  next : Nat

/-- The registers of a channel, which its drives share. -/
structure Registers where
  seccount : KUint8
  lba0 : KUint8
  lba1 : KUint8
  lba2 : KUint8
  hddevsel : KUint8
  transfer : Option Transfer

namespace Registers

variable (r : Registers)

/-- Bit 4 of the device register. -/
def drive : Drive := if r.hddevsel &&& 0x10#8 = 0#8 then .master else .slave

/-- Bit 6 of the device register: LBA, not cylinders and heads. -/
def lbaMode : Bool := r.hddevsel &&& 0x40#8 ≠ 0#8

/-- The sector number in 28-bit mode, with its top bits in the device register. -/
def sector : Nat :=
  r.lba0.toNat + 2 ^ 8 * r.lba1.toNat + 2 ^ 16 * r.lba2.toNat + 2 ^ 24 * (r.hddevsel &&& 0x0F#8).toNat

/-- READ SECTORS for one sector in LBA mode. No other command is served. -/
def command (v : KUint8) : Registers :=
  { r with transfer := if v = 0x20#8 ∧ r.seccount = 1#8 ∧ r.lbaMode then some ⟨r.drive, r.sector, 0⟩ else none }

end Registers

/-- Both channels, and the status bytes to come. -/
structure Controller where
  registers : Channel → Registers
  status : Nat → KUint8

namespace Controller

/-- The channel of a port and the register's number. -/
def decode (p : Port) : Option (Channel × Nat) :=
  if p.toNat / 8 = 0x1F0 / 8 then some (.primary, p.toNat % 8)
  else if p.toNat / 8 = 0x170 / 8 then some (.secondary, p.toNat % 8)
  else none

def update (s : Controller) (c : Channel) (f : Registers → Registers) : Controller :=
  { s with registers := Function.update s.registers c (f (s.registers c)) }

/-- Where no register answers the bus floats. -/
def inb (p : Port) (s : Controller) : KUint8 × Controller :=
  match decode p with
  | some (_, 7) => (s.status 0, { s with status := fun n => s.status (n + 1) })
  | _ => (0xFF#8, s)

/-- Little-endian word `n` of a sector. -/
def sectorWord (sector : Nat → KUint8) (n : Nat) : KUint16 :=
  if n < 256 then sector (2 * n + 1) ++ sector (2 * n) else 0xFFFF#16

def inw (disks : Disks) (p : Port) (s : Controller) : KUint16 × Controller :=
  match decode p with
  | some (c, 0) =>
    match (s.registers c).transfer with
    | some t =>
      (sectorWord (disks c t.drive t.sector) t.next,
        s.update c fun r => { r with transfer := some { t with next := t.next + 1 } })
    | none => (0xFFFF#16, s)
  | _ => (0xFFFF#16, s)

def outb (p : Port) (v : KUint8) (s : Controller) : Controller :=
  match decode p with
  | some (c, 2) => s.update c fun r => { r with seccount := v }
  | some (c, 3) => s.update c fun r => { r with lba0 := v }
  | some (c, 4) => s.update c fun r => { r with lba1 := v }
  | some (c, 5) => s.update c fun r => { r with lba2 := v }
  | some (c, 6) => s.update c fun r => { r with hddevsel := v }
  | some (c, 7) => s.update c fun r => r.command v
  | _ => s

def ports (disks : Disks) : Bus Controller where
  inb := inb
  inw := inw disks
  outb := outb

end Controller

/-! ## The driver on the device -/

/-- The driver takes every number but 0 for the second channel, and for the second drive. -/
def channelOf (bus : KUint8) : Channel := if bus = ataPrimary then .primary else .secondary

def driveOf (drive : KUint8) : Drive := if drive = ataMaster then .master else .slave

def Channel.io : Channel → Port
  | primary => ataPrimaryIo
  | secondary => ataSecondaryIo

theorem ataBaseIo_eq (bus : KUint8) : ataBaseIo bus = (channelOf bus).io := by
  unfold ataBaseIo channelOf
  split <;> rfl

namespace Controller

variable {s : Controller} {c : Channel}

theorem decode_io (c : Channel) : ∀ r : Fin 8, decode (c.io + BitVec.ofNat 16 r) = some (c, r.val) := by
  cases c <;> decide

theorem update_update (s : Controller) (c : Channel) (f g : Registers → Registers) :
    (s.update c f).update c g = s.update c fun r => g (f r) := by
  unfold update
  dsimp only
  rw [Function.update_idem, Function.update_self]

theorem update_self (s : Controller) (c : Channel) (f : Registers → Registers) :
    (s.update c f).registers c = f (s.registers c) := Function.update_self ..

/-- Reading a byte touches no register. -/
theorem inb_registers (p : Port) (s : Controller) : (inb p s).2.registers = s.registers := by
  unfold inb
  split <;> rfl

/-- The data port serves the words of a sector in turn. -/
theorem inw_data {disks : Disks} {t : Transfer} (h : (s.registers c).transfer = some t) :
    (inw disks (c.io + ataRegData) s).1 = sectorWord (disks c t.drive t.sector) t.next ∧
      ((inw disks (c.io + ataRegData) s).2.registers c).transfer = some { t with next := t.next + 1 } := by
  have hdecode := decode_io c 0
  unfold inw
  rw [show c.io + ataRegData = c.io + BitVec.ofNat 16 (0 : Fin 8) from rfl, hdecode]
  simp only [Fin.val_zero, h, update_self, and_self]

theorem sectorWord_byte (sector : Nat → KUint8) {i : Nat} (hi : i < 512) :
    (sectorWord sector (i / 2)).extractLsb' (8 * (i % 2)) 8 = sector i := by
  unfold sectorWord
  rw [if_pos (by omega)]
  rcases Nat.mod_two_eq_zero_or_one i with h | h
  · rw [h, show 2 * (i / 2) = i by omega]
    exact BitVec.extractLsb'_append_eq_right
  · rw [h, show 2 * (i / 2) + 1 = i by omega]
    exact BitVec.extractLsb'_append_eq_left

/-- The bits of the device register: the mode, the drive and the top of the sector number. -/
theorem deviceRegister (drive : KUint8) : ∀ top : KUint8, top.toNat < 16 →
    (ataDeviceSelect drive ||| top) &&& 0x40#8 ≠ 0#8 ∧ ((ataDeviceSelect drive ||| top) &&& 0x0F#8) = top ∧
      ((ataDeviceSelect drive ||| top) &&& 0x10#8 = 0#8 ↔ drive = ataMaster) := by
  unfold ataDeviceSelect
  by_cases h : drive = ataMaster
  · rw [if_pos h]
    simp only [h, iff_true]
    decide
  · rw [if_neg h]
    simp only [h, iff_false]
    decide

theorem outb_io (c : Channel) (r : Fin 8) (v : KUint8) (s : Controller) : outb (c.io + BitVec.ofNat 16 r) v s =
    match r.val with
    | 2 => s.update c fun r => { r with seccount := v }
    | 3 => s.update c fun r => { r with lba0 := v }
    | 4 => s.update c fun r => { r with lba1 := v }
    | 5 => s.update c fun r => { r with lba2 := v }
    | 6 => s.update c fun r => { r with hddevsel := v }
    | 7 => s.update c fun r => r.command v
    | _ => s := by
  unfold outb
  rw [decode_io]
  fin_cases r <;> rfl

/-- The registers as `ata_read_sector` leaves them before the command. -/
def readRegisters (device : KUint8) (lba : KUint32) (r : Registers) : Registers :=
  { r with
    seccount := 1#8
    lba0 := lba.setWidth 8
    lba1 := (lba >>> 8).setWidth 8
    lba2 := (lba >>> 16).setWidth 8
    hddevsel := device ||| ((lba >>> 24) &&& 0x0F#32).setWidth 8 }

theorem ataCommand_eq (disks : Disks) (c : Channel) (device : KUint8) (lba : KUint32) (s : Controller) :
    ataCommand (ports disks) c.io device lba s =
      s.update c fun r => (readRegisters device lba r).command ataCmdReadPio := by
  have hfeatures : ∀ v s, (ports disks).outb (c.io + 1#16) v s = s := outb_io c 1
  have hseccount : ∀ v s, (ports disks).outb (c.io + ataRegSeccount0) v s = s.update c _ := outb_io c 2
  have hlba0 : ∀ v s, (ports disks).outb (c.io + ataRegLba0) v s = s.update c _ := outb_io c 3
  have hlba1 : ∀ v s, (ports disks).outb (c.io + ataRegLba1) v s = s.update c _ := outb_io c 4
  have hlba2 : ∀ v s, (ports disks).outb (c.io + ataRegLba2) v s = s.update c _ := outb_io c 5
  have hdevice : ∀ v s, (ports disks).outb (c.io + ataRegHddevsel) v s = s.update c _ := outb_io c 6
  have hcommand : ∀ v s, (ports disks).outb (c.io + ataRegCommand) v s = s.update c _ := outb_io c 7
  unfold ataCommand
  simp only [hfeatures, hseccount, hlba0, hlba1, hlba2, hdevice, hcommand, update_update]
  rfl

/-- The command asks for the sector that the low 28 bits of the number are of. -/
theorem readRegisters_command (drive : KUint8) (lba : KUint32) (r : Registers) :
    ((readRegisters (ataDeviceSelect drive) lba r).command ataCmdReadPio).transfer =
      some ⟨driveOf drive, lba.toNat % 2 ^ 28, 0⟩ := by
  have htop : (((lba >>> 24) &&& 0x0F#32).setWidth 8).toNat = lba.toNat / 2 ^ 24 % 2 ^ 4 := by
    rw [BitVec.toNat_setWidth, BitVec.toNat_and, BitVec.toNat_ushiftRight, Nat.shiftRight_eq_div_pow,
      show (0x0F#32).toNat = 2 ^ 4 - 1 from rfl, Nat.and_two_pow_sub_one_eq_mod]
    omega
  obtain ⟨hmode, hsector, hdrive⟩ := deviceRegister drive _ (htop ▸ Nat.mod_lt _ (by omega))
  have hbytes : lba.toNat % 2 ^ 8 + 2 ^ 8 * (lba.toNat / 2 ^ 8 % 2 ^ 8) + 2 ^ 16 * (lba.toNat / 2 ^ 16 % 2 ^ 8) +
      2 ^ 24 * (lba.toNat / 2 ^ 24 % 2 ^ 4) = lba.toNat % 2 ^ 28 := by
    omega
  unfold Registers.command
  have hguard : ataCmdReadPio = 0x20#8 ∧ (readRegisters (ataDeviceSelect drive) lba r).seccount = 1#8 ∧
      (readRegisters (ataDeviceSelect drive) lba r).lbaMode := ⟨rfl, rfl, decide_eq_true hmode⟩
  simp only [if_pos hguard]
  congr 2
  · unfold Registers.drive driveOf
    simp only [readRegisters, hdrive]
  · unfold Registers.sector
    simp only [readRegisters, hsector, htop, BitVec.toNat_setWidth, BitVec.toNat_ushiftRight,
      Nat.shiftRight_eq_div_pow]
    exact hbytes

end Controller

/-! ## Reading a sector -/

/-- What reading sector `lba` of a drive is to do: its bytes at `dst` and no other byte changed, with
the words those of this sector. -/
structure ReadsSector (disks : Disks) (c : Channel) (d : Drive) (lba dst : KUint32) (before after : Machine Controller) :
    Prop where
  bytes : ∀ i < 512, after.memory (dst + BitVec.ofNat 32 i) = disks c d lba.toNat i
  frame : ∀ a, (∀ i < 512, a ≠ dst + BitVec.ofNat 32 i) → after.memory a = before.memory a
  sector : ∃ n, (after.devices.registers c).transfer = some ⟨d, lba.toNat, n⟩

section

variable {disks : Disks} {fuel : Nat} {bus drive : KUint8} {lba dst : KUint32} {before after : Machine Controller}

/-- The words after the command are those of the sector it asked for. -/
theorem drain_sector {c : Channel} {d : Drive} {n : Nat} {s : Controller}
    (h : (s.registers c).transfer = some ⟨d, n, 0⟩) (k : Nat) :
    ((drain (Controller.ports disks) (c.io + ataRegData) k s).registers c).transfer = some ⟨d, n, k⟩ ∧
      wordAt (Controller.ports disks) (c.io + ataRegData) s k = Controller.sectorWord (disks c d n) k := by
  have hserve : ∀ (k : Nat) (s : Controller), (s.registers c).transfer = some ⟨d, n, k⟩ →
      (((Controller.ports disks).inw (c.io + ataRegData) s).2.registers c).transfer = some ⟨d, n, k + 1⟩ :=
    fun _ _ hs => (Controller.inw_data hs).2
  have hdrain := drain_invariant hserve k h
  rw [Nat.zero_add] at hdrain
  exact ⟨hdrain, (Controller.inw_data hdrain).1⟩

theorem readLoop_sector {c : Channel} {d : Drive} {n : Nat} {m : Machine Controller}
    (h : (m.devices.registers c).transfer = some ⟨d, n, 0⟩) (a : KUint32) :
    (readLoop (Controller.ports disks) c.io dst 256 0#32 m).memory a =
      if (a - dst).toNat < 512 then disks c d n (a - dst).toNat else m.memory a := by
  rw [show (0#32 : KUint32) = BitVec.ofNat 32 0 from rfl, readLoop_memory dst m (by omega)]
  by_cases ha : (a - dst).toNat < 512
  · rw [if_pos (by omega), if_pos ha, Nat.sub_zero, (drain_sector h _).2, Controller.sectorWord_byte _ ha]
  · rw [if_neg (by omega), if_neg ha]

/-- It reads the sector of the low 28 bits. -/
theorem ataReadSector_run
    (h : ataReadSector (Controller.ports disks) fuel bus drive lba dst before = some (.ok () after)) :
    (∀ a, after.memory a = if (a - dst).toNat < 512 then
        disks (channelOf bus) (driveOf drive) (lba.toNat % 2 ^ 28) (a - dst).toNat else before.memory a) ∧
      (after.devices.registers (channelOf bus)).transfer = some ⟨driveOf drive, lba.toNat % 2 ^ 28, 256⟩ := by
  have hinb : ∀ {t : Transfer} (p : Port) (s : Controller), (s.registers (channelOf bus)).transfer = some t →
      (((Controller.ports disks).inb p s).2.registers (channelOf bus)).transfer = some t := by
    intro t p s hs
    show ((Controller.inb p s).2.registers _).transfer = _
    rwa [Controller.inb_registers]
  have hcommand : ((ataCommand (Controller.ports disks) (ataBaseIo bus) (ataDeviceSelect drive) lba
      before.devices).registers (channelOf bus)).transfer = some ⟨driveOf drive, lba.toNat % 2 ^ 28, 0⟩ := by
    rw [ataBaseIo_eq, Controller.ataCommand_eq, Controller.update_self]
    exact Controller.readRegisters_command drive lba _
  obtain ⟨s, hpoll, hmemory, hdevices⟩ := ataReadSector_eq_ok h
  have hs := ataPollStatus_invariant hinb hpoll hcommand
  rw [ataBaseIo_eq] at hmemory hdevices
  constructor
  · intro a
    rw [hmemory, readLoop_sector hs]
  · rw [hdevices]
    apply skip_invariant (hinb _) 4
    rw [readLoop_devices]
    exact (drain_sector hs 256).1

/-- A sector is read just when its number has 28 bits; beyond that another one is. -/
theorem ataReadSector_iff
    (h : ataReadSector (Controller.ports disks) fuel bus drive lba dst before = some (.ok () after)) :
    ReadsSector disks (channelOf bus) (driveOf drive) lba dst before after ↔ lba.toNat < 2 ^ 28 := by
  obtain ⟨hmemory, htransfer⟩ := ataReadSector_run h
  constructor
  · rintro ⟨-, -, n, hn⟩
    rw [htransfer, Option.some.injEq, Transfer.mk.injEq] at hn
    omega
  · intro hlba
    rw [Nat.mod_eq_of_lt hlba] at hmemory htransfer
    refine ⟨fun i hi => ?_, fun a ha => ?_, 256, htransfer⟩
    · have hoff : (dst + BitVec.ofNat 32 i - dst).toNat = i := by bv_omega
      rw [hmemory, hoff, if_pos hi]
    · have hoff : ¬(a - dst).toNat < 512 := by
        intro hlt
        apply ha (a - dst).toNat hlt
        rw [BitVec.ofNat_toNat, BitVec.setWidth_eq]
        bv_omega
      rw [hmemory, if_neg hoff]

end

/-- Sectors with a number of 28 bits hold one byte, the others another. -/
def stripedDisks : Disks := fun _ _ n _ => if n < 2 ^ 28 then 0x11#8 else 0x22#8

/-- Nothing in memory, and channels that are never busy and always ready. -/
def readyMachine : Machine Controller :=
  ⟨fun _ => 0#8, fun _ => ⟨0#8, 0#8, 0#8, 0#8, 0#8, none⟩, fun _ => 0x48#8⟩

theorem ataReadSector_five :
    ∃ after, ataReadSector (Controller.ports stripedDisks) 1 ataPrimary ataMaster 5#32 0x8000#32 readyMachine =
        some (.ok () after) ∧
      (ReadsSector stripedDisks (channelOf ataPrimary) (driveOf ataMaster) 5#32 0x8000#32 readyMachine after ↔
        (5#32).toNat < 2 ^ 28) :=
  ⟨_, rfl, @ataReadSector_iff stripedDisks 1 ataPrimary ataMaster 5#32 0x8000#32 readyMachine _ rfl⟩

/-- Sector `2 ^ 28` is asked for and sector 0 comes. -/
theorem ataReadSector_beyond :
    ∃ after, ataReadSector (Controller.ports stripedDisks) 1 ataPrimary ataMaster 0x10000000#32 0x8000#32 readyMachine =
        some (.ok () after) ∧
      ¬ReadsSector stripedDisks (channelOf ataPrimary) (driveOf ataMaster) 0x10000000#32 0x8000#32 readyMachine after := by
  refine ⟨_, rfl, ?_⟩
  rintro ⟨hbytes, -, -⟩
  have hmemory := (@ataReadSector_run stripedDisks 1 ataPrimary ataMaster 0x10000000#32 0x8000#32 readyMachine _ rfl).1
  have hbyte := (hmemory _).symm.trans (hbytes 0 (by omega))
  revert hbyte
  decide

end Aeon.Block
