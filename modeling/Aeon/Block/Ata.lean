/-
`ata.c`: reading a sector through the ports of a channel. The registers are written, the status is
polled until data is ready, and 256 words go from the data port to memory.
-/
import Aeon.Lib.Ports
import Aeon.Klibc.Memory

namespace Aeon.Block

open Ports

/-! ## Registers -/

def ataPrimaryIo : Port := 0x1F0#16
def ataSecondaryIo : Port := 0x170#16

def ataSrBsy : KUint8 := 0x80#8
def ataSrDrq : KUint8 := 0x08#8
def ataSrErr : KUint8 := 0x01#8

def ataCmdReadPio : KUint8 := 0x20#8

def ataPrimary : KUint8 := 0x00#8
def ataMaster : KUint8 := 0x00#8

def ataRegData : Port := 0x00#16
def ataRegSeccount0 : Port := 0x02#16
def ataRegLba0 : Port := 0x03#16
def ataRegLba1 : Port := 0x04#16
def ataRegLba2 : Port := 0x05#16
def ataRegHddevsel : Port := 0x06#16
def ataRegCommand : Port := 0x07#16
def ataRegStatus : Port := 0x07#16
def ataRegAltstatus : Port := 0x0C#16

/-! ## Code -/

/-- Memory, and the devices behind the ports. -/
structure Machine (σ : Type) where
  memory : Ram
  devices : σ

section

variable {σ : Type} (ports : Bus σ)

/-- `while (status & ATA_SR_BSY)`. -/
def busyVerdict (status : KUint8) : Option Unit := if status &&& ataSrBsy ≠ 0#8 then none else some ()

/-- A fault is looked for before `while (!(status & ATA_SR_DRQ))`. -/
def drqVerdict (status : KUint8) : Option (Option Halt) :=
  if status &&& ataSrErr ≠ 0#8 then some (some (.panic "ATA device failure.\n"))
  else if status &&& ataSrDrq = 0#8 then none
  else some none

/-- Each loop reads the status `fuel` times at most. -/
def ataPollStatus (fuel : Nat) (baseIo : Port) (s : σ) : Option (Outcome σ Unit) :=
  let s := skip ports (baseIo + ataRegAltstatus) 4 s
  match poll ports (baseIo + ataRegStatus) busyVerdict fuel s with
  | none => none
  | some ((), s) =>
    match poll ports (baseIo + ataRegStatus) drqVerdict fuel s with
    | none => none
    | some (some h, s) => some (.halt h s)
    | some (none, s) => some (.ok () s)

def ataDelay (baseIo : Port) (s : σ) : σ := skip ports (baseIo + ataRegAltstatus) 4 s

/-- The loop of `ata_read_sector`, `rem` rounds before its end. -/
def readLoop (baseIo : Port) (dst : KUint32) : (rem : Nat) → (i : KUint32) → Machine σ → Machine σ
  | 0, _, m => m
  | rem + 1, i, m =>
    let (v, s) := ports.inw (baseIo + ataRegData) m.devices
    readLoop baseIo dst rem (i + 1#32) ⟨writeU16 m.memory (dst + i * 2#32) v, s⟩

/-- Up to the command. -/
def ataCommand (baseIo : Port) (deviceSelect : KUint8) (lba : KUint32) (s : σ) : σ :=
  let s := ports.outb (baseIo + ataRegHddevsel) (deviceSelect ||| ((lba >>> 24) &&& 0x0F#32).setWidth 8) s
  let s := ports.outb (baseIo + 1#16) 0x00#8 s
  let s := ports.outb (baseIo + ataRegSeccount0) 1#8 s
  let s := ports.outb (baseIo + ataRegLba0) (lba.setWidth 8) s
  let s := ports.outb (baseIo + ataRegLba1) ((lba >>> 8).setWidth 8) s
  let s := ports.outb (baseIo + ataRegLba2) ((lba >>> 16).setWidth 8) s
  ports.outb (baseIo + ataRegCommand) ataCmdReadPio s

def ataBaseIo (bus : KUint8) : Port := if bus = ataPrimary then ataPrimaryIo else ataSecondaryIo

def ataDeviceSelect (drive : KUint8) : KUint8 := if drive = ataMaster then 0xE0#8 else 0xF0#8

def ataReadSector (fuel : Nat) (bus drive : KUint8) (lba dst : KUint32) (m : Machine σ) :
    Option (Outcome (Machine σ) Unit) :=
  match ataPollStatus ports fuel (ataBaseIo bus) (ataCommand ports (ataBaseIo bus) (ataDeviceSelect drive) lba m.devices) with
  | none => none
  | some (.halt h s) => some (.halt h { m with devices := s })
  | some (.ok () s) =>
    let m := readLoop ports (ataBaseIo bus) dst 256 0#32 { m with devices := s }
    some (.ok () { m with devices := ataDelay ports (ataBaseIo bus) m.devices })

/-! ## What they leave -/

variable {ports} {baseIo : Port} {P : σ → Prop}

/-- Polling only reads the status ports. -/
theorem ataPollStatus_invariant {fuel : Nat} {s s' : σ}
    (hP : ∀ (p : Port) s, P s → P (ports.inb p s).2) (h : ataPollStatus ports fuel baseIo s = some (.ok () s'))
    (hs : P s) : P s' := by
  unfold ataPollStatus at h
  dsimp only at h
  have hskip := skip_invariant (hP (baseIo + ataRegAltstatus)) 4 hs
  split at h
  · cases h
  · next s₁ h₁ =>
    have hbusy := poll_invariant (hP _) h₁ hskip
    split at h
    · cases h
    · cases h
    · next s₂ h₂ =>
      cases h
      exact poll_invariant (hP _) h₂ hbusy

/-- A sector is transferred once polling has returned. -/
theorem ataReadSector_eq_ok {fuel : Nat} {bus drive : KUint8} {lba dst : KUint32} {m m' : Machine σ}
    (h : ataReadSector ports fuel bus drive lba dst m = some (.ok () m')) :
    ∃ s, ataPollStatus ports fuel (ataBaseIo bus)
        (ataCommand ports (ataBaseIo bus) (ataDeviceSelect drive) lba m.devices) = some (.ok () s) ∧
      m'.memory = (readLoop ports (ataBaseIo bus) dst 256 0#32 ⟨m.memory, s⟩).memory ∧
      m'.devices =
        ataDelay ports (ataBaseIo bus) (readLoop ports (ataBaseIo bus) dst 256 0#32 ⟨m.memory, s⟩).devices := by
  unfold ataReadSector at h
  split at h
  · cases h
  · cases h
  · next s hpoll =>
    rw [Option.some.injEq, Outcome.ok.injEq] at h
    rw [← h.2]
    exact ⟨s, hpoll, rfl, rfl⟩

theorem readLoop_devices (dst : KUint32) : ∀ (rem : Nat) (i : KUint32) (m : Machine σ),
    (readLoop ports baseIo dst rem i m).devices = drain ports (baseIo + ataRegData) rem m.devices
  | 0, _, _ => rfl
  | rem + 1, i, _ => readLoop_devices dst rem (i + 1#32) _

/-- The words go to memory in the order they are read, and nothing else changes. -/
theorem readLoop_memory (dst : KUint32) : ∀ {rem i : Nat} (m : Machine σ), 2 * (i + rem) ≤ 2 ^ 32 → ∀ a : KUint32,
    (readLoop ports baseIo dst rem (BitVec.ofNat 32 i) m).memory a =
      if 2 * i ≤ (a - dst).toNat ∧ (a - dst).toNat < 2 * (i + rem) then
        (wordAt ports (baseIo + ataRegData) m.devices ((a - dst).toNat / 2 - i)).extractLsb' (8 * ((a - dst).toNat % 2)) 8
      else m.memory a
  | 0, _, _, _, _ => by
    rw [if_neg (by omega)]
    rfl
  | rem + 1, i, m, hi, a => by
    have hoff : (a - (dst + BitVec.ofNat 32 i * 2#32)).toNat = (2 ^ 32 - 2 * i + (a - dst).toNat) % 2 ^ 32 := by
      rw [show a - (dst + BitVec.ofNat 32 i * 2#32) = a - dst - BitVec.ofNat 32 (2 * i) by bv_omega,
        BitVec.toNat_sub, BitVec.toNat_ofNat, Nat.mod_eq_of_lt (show 2 * i < 2 ^ 32 by omega)]
    have hnext : BitVec.ofNat 32 i + 1#32 = BitVec.ofNat 32 (i + 1) := BitVec.ofNat_add _ _ |>.symm
    have ha := (a - dst).isLt
    dsimp only [readLoop]
    rw [hnext, readLoop_memory dst _ (by omega)]
    dsimp only
    rw [writeU16_apply, hoff]
    by_cases hlater : 2 * (i + 1) ≤ (a - dst).toNat ∧ (a - dst).toNat < 2 * (i + 1 + rem)
    · rw [if_pos hlater, if_pos (by omega), ← wordAt_succ,
        show (a - dst).toNat / 2 - (i + 1) + 1 = (a - dst).toNat / 2 - i by omega]
    · rw [if_neg hlater]
      by_cases hnow : 2 * i ≤ (a - dst).toNat ∧ (a - dst).toNat < 2 * (i + 1)
      · rw [if_pos (by omega), if_pos (by omega), show (a - dst).toNat / 2 - i = 0 by omega,
          show (2 ^ 32 - 2 * i + (a - dst).toNat) % 2 ^ 32 % 2 = (a - dst).toNat % 2 by omega]
        rfl
      · rw [if_neg (by omega), if_neg (by omega)]

end

end Aeon.Block
