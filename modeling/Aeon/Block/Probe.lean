/-
`ata_init`, `ata_probe` and `ata_print_info` of `ata.c`. Where `kmalloc` has memory for the records,
probing four places one after the other finds what is at each: the record of a disk says what its
IDENTIFY words say, no call touches the record of another place, and what is printed afterwards is a
line for each disk with its name.
-/
import Aeon.Block.Drives
import Aeon.Display.Kprintf
import Aeon.Memory.Session

namespace Aeon.Block

open Ports Display Memory

/-! ## Code -/

section

variable {σ : Type} (ports : Bus σ)

end

/-- What is at a place. -/
def Slots.at (slots : Slots) (p : KUint8 × KUint8) : Slot := slots (channelOf p.1) (driveOf p.2)

theorem AtaInfo.update_apply (info : AtaInfo) (bus drive : KUint8) (d : AtaDriveInfo) (p : KUint8 × KUint8) :
    info.update bus drive d p.1 p.2 = if p = (bus, drive) then d else info p.1 p.2 := by
  obtain ⟨bus', drive'⟩ := p
  unfold AtaInfo.update
  by_cases hbus : bus' = bus
  · subst hbus
    rw [Function.update_self, Function.update_apply]
    simp
  · rw [Function.update_of_ne hbus, if_neg (fun h => hbus (Prod.mk.inj h).1)]

section

variable {slots : Slots} {fuel : Nat} {m : Probe Banks}

end

/-- The name of a disk, up to its first NUL. -/
def nameString (words : Nat → KUint16) : List KUint8 := ((List.range 40).map (nameChar words)).takeWhile (· ≠ 0#8)

/-- The line of a place. -/
def Slot.line (bus drive : KUint8) : Slot → List KUint8
  | disk _ words =>
    bytesOf "ATA Drive " ++ ([ascii '0' + bus] ++ (bytesOf ":" ++ ([ascii '0' + drive] ++ (bytesOf ": " ++
      (nameString words ++ bytesOf "\n")))))
  | _ => []

section

variable {n : Nat} {model : KUint32} {info : AtaInfo} {slot : Slot} {d : AtaDriveInfo}

end

end Aeon.Block
