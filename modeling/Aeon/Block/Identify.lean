/-
`ata.c`: `ata_identify`, and the bytes of the status that it and `ata_read_sector` wait for. Each
waits in two loops, for BSY to clear and then for ERR or DRQ, and neither loop has another way out:
the first byte with BSY clear and the first after it with ERR or DRQ decide whether the driver
returns and what it reads from the data port.
-/
import Aeon.Block.Disk

namespace Aeon.Block

open Ports

/-! ## Code -/

def ataCmdIdentify : KUint8 := 0xEC#8

def ataIdentModel : Nat := 54

/-- `ata_drive_info_t`. -/
structure AtaDriveInfo where
  available : KUint8
  model : Nat → KUint8
  cylinders : KUint16
  heads : KUint16
  sectorsPerTrack : KUint16
  totalSectors : KUint32
  buffer : Nat → KUint8

/-- `g_ata_info->drive[bus][drive]`. -/
abbrev AtaInfo := KUint8 → KUint8 → AtaDriveInfo

/-- The devices, the records of the drives, and what was printed. -/
structure Probe (σ : Type) where
  devices : σ
  info : AtaInfo
  printed : List String

section

variable {σ : Type} (ports : Bus σ)

def ataSelectDrive (bus drive : KUint8) (s : σ) : Port × σ :=
  if bus = ataPrimary then
    (ataPrimaryIo, ports.outb (ataPrimaryIo + ataRegHddevsel) (if drive = ataMaster then 0xA0#8 else 0xB0#8) s)
  else
    (ataSecondaryIo, ports.outb (ataSecondaryIo + ataRegHddevsel) (if drive = ataMaster then 0xA0#8 else 0xB0#8) s)

/-- The registers are zero before IDENTIFY is sent. -/
def identifyCommand (io : Port) (s : σ) : σ :=
  let s := ports.outb (io + ataRegSeccount0) 0#8 s
  let s := ports.outb (io + ataRegLba0) 0#8 s
  let s := ports.outb (io + ataRegLba1) 0#8 s
  let s := ports.outb (io + ataRegLba2) 0#8 s
  ports.outb (io + ataRegCommand) ataCmdIdentify s

/-- The status is read `fuel` times at most. -/
def ataPollStatusBusy (fuel : Nat) (reg : Port) (s : σ) : Option (Unit × σ) :=
  poll ports (reg + ataRegStatus) busyVerdict fuel s

/-- `while (!(status & ATA_SR_DRQ))`, left with `false` on ERR. -/
def identifyVerdict (status : KUint8) : Option Bool :=
  if status &&& ataSrErr ≠ 0#8 then some false
  else if status &&& ataSrDrq = 0#8 then none
  else some true

/-- The loop over the data port, `rem` rounds before its end. -/
def bufferLoop (io : Port) : (rem i : Nat) → (buffer : Nat → KUint8) → σ → (Nat → KUint8) × σ
  | 0, _, buffer, s => (buffer, s)
  | rem + 1, i, buffer, s =>
    let (v, s) := ports.inw (io + ataRegData) s
    bufferLoop io rem (i + 1)
      (Function.update (Function.update buffer (i * 2) (v.extractLsb' 0 8)) (i * 2 + 1) (v.extractLsb' 8 8)) s

/-- The characters of the model name come in pairs, each pair the other way round. -/
def modelLoop (modelNumber : Nat → KUint8) : (rem i : Nat) → (model : Nat → KUint8) → Nat → KUint8
  | 0, _, model => model
  | rem + 1, i, model =>
    modelLoop modelNumber rem (i + 2)
      (Function.update (Function.update model i (modelNumber (i + 1))) (i + 1) (modelNumber i))

/-- A little-endian word of the buffer. -/
def bufferWord (buffer : Nat → KUint8) (n : Nat) : KUint16 := buffer (n + 1) ++ buffer n

/-- From `current_drive->available = 1` on, with the offsets of `identify_device_data_t`. -/
def identifyDrive (io : Port) (d : AtaDriveInfo) (s : σ) : AtaDriveInfo × σ :=
  let (buffer, s) := bufferLoop ports io 256 0 d.buffer s
  ({ available := 1#8
     model := Function.update (modelLoop (fun n => buffer (ataIdentModel + n)) 20 0 d.model) 40 0#8
     cylinders := bufferWord buffer 2
     heads := bufferWord buffer 6
     sectorsPerTrack := bufferWord buffer 112
     totalSectors := bufferWord buffer 116 ++ bufferWord buffer 114
     buffer }, s)

def driveName (bus drive : KUint8) : String :=
  (if bus = ataPrimary then "Primary" else "Secondary") ++ " " ++ if drive = ataPrimary then "master" else "slave"

def AtaInfo.update (info : AtaInfo) (bus drive : KUint8) (d : AtaDriveInfo) : AtaInfo :=
  Function.update info bus (Function.update (info bus) drive d)

/-- What follows the loops. -/
def identifyEnd (io : Port) (bus drive : KUint8) (online : Bool) (m : Probe σ) : Probe σ :=
  if online then
    let (d, s) := identifyDrive ports io (m.info bus drive) m.devices
    ⟨s, m.info.update bus drive d, m.printed ++ [driveName bus drive ++ " is online.\n"]⟩
  else { m with printed := m.printed ++ [driveName bus drive ++ " has ERR set. Disabled.\n"] }

/-- Each loop reads the status `fuel` times at most. -/
def ataIdentify (fuel : Nat) (bus drive : KUint8) (m : Probe σ) : Option (Probe σ) :=
  let (io, s) := ataSelectDrive ports bus drive m.devices
  let s := identifyCommand ports io s
  let (status, s) := ports.inb (io + ataRegStatus) s
  if status = 0#8 then some { m with devices := s }
  else
    match ataPollStatusBusy ports fuel io s with
    | none => none
    | some ((), s) =>
      match poll ports (io + ataRegStatus) identifyVerdict fuel s with
      | none => none
      | some (online, s) => some (identifyEnd ports io bus drive online { m with devices := s })

end

/-! ## What a byte of the status says -/

abbrev Busy (status : KUint8) : Prop := status &&& ataSrBsy ≠ 0#8

abbrev Failed (status : KUint8) : Prop := status &&& ataSrErr ≠ 0#8

abbrev HasData (status : KUint8) : Prop := status &&& ataSrDrq ≠ 0#8

/-- The second loop ends. -/
def Decided (status : KUint8) : Prop := Failed status ∨ HasData status

/-- The data port holds a word. -/
def Ready (status : KUint8) : Prop := ¬Busy status ∧ ¬Failed status ∧ HasData status

theorem busyVerdict_eq_some_iff {v : KUint8} {r : Unit} : busyVerdict v = some r ↔ ¬Busy v := by
  unfold busyVerdict
  split <;> simp_all

theorem busyVerdict_eq_none_iff {v : KUint8} : busyVerdict v = none ↔ Busy v := by
  unfold busyVerdict
  split <;> simp_all

theorem identifyVerdict_eq_none_iff {v : KUint8} : identifyVerdict v = none ↔ ¬Decided v := by
  unfold identifyVerdict Decided
  split
  · simp_all
  · split <;> simp_all

theorem identifyVerdict_eq_some_iff {v : KUint8} {online : Bool} :
    identifyVerdict v = some online ↔ Decided v ∧ (online = true ↔ ¬Failed v) := by
  unfold identifyVerdict Decided
  split
  · cases online <;> simp_all
  · split <;> cases online <;> simp_all

/-- `ata_poll_status` tells the bytes apart as `ata_identify` does, and panics on the fault. -/
theorem drqVerdict_eq (v : KUint8) : drqVerdict v =
    (identifyVerdict v).map fun online => if online then none else some (.panic "ATA device failure.\n") := by
  unfold drqVerdict identifyVerdict
  split
  · rfl
  · split <;> rfl

/-! ## The two loops -/

/-- From byte `start` of the status on, the first loop ends at byte `i` and the second at byte `j`. -/
structure Waits (st : Nat → KUint8) (start i j : Nat) : Prop where
  start_le : start ≤ i
  lt : i < j
  busy : ∀ n, start ≤ n → n < i → Busy (st n)
  idle : ¬Busy (st i)
  undecided : ∀ n, i < n → n < j → ¬Decided (st n)
  decided : Decided (st j)

/-- Both loops end just when some byte has BSY clear and a later one has ERR or DRQ. -/
theorem exists_waits_iff {st : Nat → KUint8} {start : Nat} :
    (∃ i j, Waits st start i j) ↔ ∃ i j, start ≤ i ∧ i < j ∧ ¬Busy (st i) ∧ Decided (st j) := by
  classical
  constructor
  · rintro ⟨i, j, h⟩
    exact ⟨i, j, h.start_le, h.lt, h.idle, h.decided⟩
  · rintro ⟨i, j, hstart, hij, hidle, hdecided⟩
    have hfirst : ∃ n, start ≤ n ∧ ¬Busy (st n) := ⟨i, hstart, hidle⟩
    have hle : Nat.find hfirst ≤ i := Nat.find_le ⟨hstart, hidle⟩
    have hsecond : ∃ n, Nat.find hfirst < n ∧ Decided (st n) := ⟨j, by omega, hdecided⟩
    refine ⟨Nat.find hfirst, Nat.find hsecond, (Nat.find_spec hfirst).1, (Nat.find_spec hsecond).1, ?_,
      (Nat.find_spec hfirst).2, ?_, (Nat.find_spec hsecond).2⟩
    · intro n hn hlt
      exact not_not.1 fun hidle' => Nat.find_min hfirst hlt ⟨hn, hidle'⟩
    · intro n hn hlt hdec
      exact Nat.find_min hsecond hlt ⟨hn, hdec⟩

section

variable {σ : Type} (ports : Bus σ) (p : Port)

/-- The loops of both drivers, for BSY to clear and then for ERR or DRQ. -/
def pollReady (fuel : Nat) (s : σ) : Option (Bool × σ) :=
  (poll ports p busyVerdict fuel s).bind fun t => poll ports p identifyVerdict fuel t.2

variable {ports p}

theorem pollReady_map {ρ : Type} (left : Bool → σ → ρ) (fuel : Nat) (s : σ) :
    (match poll ports p busyVerdict fuel s with
      | none => none
      | some ((), s) =>
        match poll ports p identifyVerdict fuel s with
        | none => none
        | some (online, s) => some (left online s)) =
      (pollReady ports p fuel s).map fun r => left r.1 r.2 := by
  unfold pollReady
  cases poll ports p busyVerdict fuel s with
  | none => rfl
  | some t =>
    dsimp only [Option.bind_some]
    cases poll ports p identifyVerdict fuel t.2 <;> rfl

/-- The loops after `n` bytes were read. -/
theorem pollReady_eq_some_iff {fuel n : Nat} {s s' : σ} {online : Bool} :
    pollReady ports p fuel (skip ports p n s) = some (online, s') ↔
      ∃ i j, Waits (byteAt ports p s) n i j ∧ i < n + fuel ∧ j ≤ i + fuel ∧
        identifyVerdict (byteAt ports p s j) = some online ∧ s' = skip ports p (j + 1) s := by
  unfold pollReady
  rw [Option.bind_eq_some_iff]
  constructor
  · rintro ⟨⟨⟨⟩, t⟩, hbusy, hpoll⟩
    rw [poll_skip_eq_some_iff] at hbusy
    obtain ⟨i, hni, hi, hidle, hbefore, rfl⟩ := hbusy
    rw [poll_skip_eq_some_iff] at hpoll
    obtain ⟨j, hij, hj, honline, hnone, rfl⟩ := hpoll
    refine ⟨i, j, ?_, hi, by omega, honline, rfl⟩
    exact ⟨hni, by omega, fun k hk hki => busyVerdict_eq_none_iff.1 (hbefore k hk hki),
      busyVerdict_eq_some_iff.1 hidle, fun k hk hkj => identifyVerdict_eq_none_iff.1 (hnone k (by omega) hkj),
      (identifyVerdict_eq_some_iff.1 honline).1⟩
  · rintro ⟨i, j, h, hi, hj, honline, rfl⟩
    have hij := h.lt
    refine ⟨((), skip ports p (i + 1) s), ?_, ?_⟩
    · rw [poll_skip_eq_some_iff]
      exact ⟨i, h.start_le, hi, busyVerdict_eq_some_iff.2 h.idle,
        fun k hk hki => busyVerdict_eq_none_iff.2 (h.busy k hk hki), rfl⟩
    · rw [poll_skip_eq_some_iff]
      exact ⟨j, hij, by omega, honline, fun k hk hkj => identifyVerdict_eq_none_iff.2 (h.undecided k hk hkj), rfl⟩

end

/-! ## What the drivers leave -/

section

variable {σ : Type} (ports : Bus σ) (bus drive : KUint8)

/-- Once IDENTIFY is sent. -/
def identifySent (s : σ) : σ := identifyCommand ports (ataBaseIo bus) (ataSelectDrive ports bus drive s).2

/-- The status from then on. -/
def identifyStatus (s : σ) : Nat → KUint8 :=
  byteAt ports (ataBaseIo bus + ataRegStatus) (identifySent ports bus drive s)

/-- After `n` bytes of it. -/
def identifyAt (m : Probe σ) (n : Nat) : Probe σ :=
  { m with devices := skip ports (ataBaseIo bus + ataRegStatus) n (identifySent ports bus drive m.devices) }

/-- Once READ SECTORS is sent and `ata_poll_status` has let the time of four reads pass. -/
def readSent (lba : KUint32) (s : σ) : σ :=
  skip ports (ataBaseIo bus + ataRegAltstatus) 4 (ataCommand ports (ataBaseIo bus) (ataDeviceSelect drive) lba s)

def readStatus (lba : KUint32) (s : σ) : Nat → KUint8 :=
  byteAt ports (ataBaseIo bus + ataRegStatus) (readSent ports bus drive lba s)

def readAt (lba : KUint32) (m : Machine σ) (n : Nat) : Machine σ :=
  { m with devices := skip ports (ataBaseIo bus + ataRegStatus) n (readSent ports bus drive lba m.devices) }

/-- What follows the loops of `ata_poll_status` in `ata_read_sector`. -/
def readEnd (dst : KUint32) (online : Bool) (m : Machine σ) : Outcome (Machine σ) Unit :=
  if online then
    let m := readLoop ports (ataBaseIo bus) dst 256 0#32 m
    .ok () { m with devices := ataDelay ports (ataBaseIo bus) m.devices }
  else .halt (.panic "ATA device failure.\n") m

variable {ports bus drive} {fuel : Nat}

theorem ataSelectDrive_fst (s : σ) : (ataSelectDrive ports bus drive s).1 = ataBaseIo bus := by
  unfold ataSelectDrive ataBaseIo
  split <;> rfl

theorem ataIdentify_eq (m : Probe σ) : ataIdentify ports fuel bus drive m =
    if identifyStatus ports bus drive m.devices 0 = 0#8 then some (identifyAt ports bus drive m 1)
    else
      (pollReady ports (ataBaseIo bus + ataRegStatus) fuel
        (skip ports (ataBaseIo bus + ataRegStatus) 1 (identifySent ports bus drive m.devices))).map fun r =>
          identifyEnd ports (ataBaseIo bus) bus drive r.1 { m with devices := r.2 } := by
  unfold ataIdentify
  dsimp only
  rw [ataSelectDrive_fst]
  apply if_congr Iff.rfl rfl
  exact pollReady_map
    (fun online s => identifyEnd ports (ataBaseIo bus) bus drive online { m with devices := s }) fuel _

/-- A first byte of zero means no drive. -/
theorem ataIdentify_absent {m : Probe σ} (h : identifyStatus ports bus drive m.devices 0 = 0#8) :
    ataIdentify ports fuel bus drive m = some (identifyAt ports bus drive m 1) := by
  rw [ataIdentify_eq, if_pos h]

/-- After any other byte the two loops say when the call returns and with what. -/
theorem ataIdentify_present_iff {m m' : Probe σ} (h : identifyStatus ports bus drive m.devices 0 ≠ 0#8) :
    ataIdentify ports fuel bus drive m = some m' ↔
      ∃ i j online, Waits (identifyStatus ports bus drive m.devices) 1 i j ∧ i < 1 + fuel ∧ j ≤ i + fuel ∧
        identifyVerdict (identifyStatus ports bus drive m.devices j) = some online ∧
        m' = identifyEnd ports (ataBaseIo bus) bus drive online (identifyAt ports bus drive m (j + 1)) := by
  rw [ataIdentify_eq, if_neg h, Option.map_eq_some_iff]
  constructor
  · rintro ⟨⟨online, s⟩, hready, rfl⟩
    obtain ⟨i, j, hij, hi, hj, honline, rfl⟩ := pollReady_eq_some_iff.1 hready
    exact ⟨i, j, online, hij, hi, hj, honline, rfl⟩
  · rintro ⟨i, j, online, hij, hi, hj, honline, rfl⟩
    exact ⟨_, pollReady_eq_some_iff.2 ⟨i, j, hij, hi, hj, honline, rfl⟩, rfl⟩

theorem ataPollStatus_eq (baseIo : Port) (s : σ) : ataPollStatus ports fuel baseIo s =
    (pollReady ports (baseIo + ataRegStatus) fuel (skip ports (baseIo + ataRegAltstatus) 4 s)).map fun r =>
      if r.1 then .ok () r.2 else .halt (.panic "ATA device failure.\n") r.2 := by
  have hpoll := fun t => @poll_map σ Bool ports (baseIo + ataRegStatus) _ identifyVerdict
    (fun online => if online then none else some (Halt.panic "ATA device failure.\n")) fuel t
  rw [← funext drqVerdict_eq] at hpoll
  unfold ataPollStatus pollReady
  dsimp only
  cases poll ports (baseIo + ataRegStatus) busyVerdict fuel (skip ports (baseIo + ataRegAltstatus) 4 s) with
  | none => rfl
  | some t =>
    dsimp only [Option.bind_some]
    rw [hpoll]
    cases poll ports (baseIo + ataRegStatus) identifyVerdict fuel t.2 with
    | none => rfl
    | some r =>
      obtain ⟨online, s⟩ := r
      cases online <;> rfl

theorem ataReadSector_eq (lba dst : KUint32) (m : Machine σ) : ataReadSector ports fuel bus drive lba dst m =
    (pollReady ports (ataBaseIo bus + ataRegStatus) fuel (readSent ports bus drive lba m.devices)).map fun r =>
      readEnd ports bus dst r.1 { m with devices := r.2 } := by
  unfold ataReadSector readSent
  rw [ataPollStatus_eq]
  cases pollReady ports (ataBaseIo bus + ataRegStatus) fuel
      (skip ports (ataBaseIo bus + ataRegAltstatus) 4
        (ataCommand ports (ataBaseIo bus) (ataDeviceSelect drive) lba m.devices)) with
  | none => rfl
  | some r =>
    obtain ⟨online, s⟩ := r
    cases online <;> rfl

theorem ataReadSector_eq_some_iff {lba dst : KUint32} {m : Machine σ} {o : Outcome (Machine σ) Unit} :
    ataReadSector ports fuel bus drive lba dst m = some o ↔
      ∃ i j online, Waits (readStatus ports bus drive lba m.devices) 0 i j ∧ i < 0 + fuel ∧ j ≤ i + fuel ∧
        identifyVerdict (readStatus ports bus drive lba m.devices j) = some online ∧
        o = readEnd ports bus dst online (readAt ports bus drive lba m (j + 1)) := by
  rw [ataReadSector_eq, Option.map_eq_some_iff]
  constructor
  · rintro ⟨⟨online, s⟩, hready, rfl⟩
    obtain ⟨i, j, hij, hi, hj, honline, rfl⟩ := (pollReady_eq_some_iff (n := 0)).1 hready
    exact ⟨i, j, online, hij, hi, hj, honline, rfl⟩
  · rintro ⟨i, j, online, hij, hi, hj, honline, rfl⟩
    exact ⟨_, (pollReady_eq_some_iff (n := 0)).2 ⟨i, j, hij, hi, hj, honline, rfl⟩, rfl⟩

end

/-! ## Recorded accesses -/

section

variable {σ : Type} {ports : Bus σ} {bus drive : KUint8}

/-- Before any access. -/
def Probe.recorded (m : Probe σ) : Probe (σ × List Access) := ⟨(m.devices, []), m.info, m.printed⟩

def Machine.recorded (m : Machine σ) : Machine (σ × List Access) := ⟨m.memory, (m.devices, [])⟩

theorem identifySent_recorded (s : σ) : ∃ log,
    identifySent ports.recorded bus drive (s, []) = (identifySent ports bus drive s, log) ∧ wordsRead log = 0 := by
  unfold identifySent ataSelectDrive
  split <;> exact ⟨_, rfl, rfl⟩

theorem identifyStatus_recorded (s : σ) :
    identifyStatus ports.recorded bus drive (s, []) = identifyStatus ports bus drive s := by
  obtain ⟨log, hsent, -⟩ := @identifySent_recorded σ ports bus drive s
  funext n
  unfold identifyStatus
  rw [hsent, byteAt_recorded]

theorem readSent_recorded (lba : KUint32) (s : σ) : ∃ log,
    readSent ports.recorded bus drive lba (s, []) = (readSent ports bus drive lba s, log) ∧ wordsRead log = 0 :=
  ⟨_, rfl, rfl⟩

theorem readStatus_recorded (lba : KUint32) (s : σ) :
    readStatus ports.recorded bus drive lba (s, []) = readStatus ports bus drive lba s := by
  obtain ⟨log, hsent, -⟩ := @readSent_recorded σ ports bus drive lba s
  funext n
  unfold readStatus
  rw [hsent, byteAt_recorded]

theorem bufferLoop_devices {io : Port} : ∀ (rem i : Nat) (buffer : Nat → KUint8) (s : σ),
    (bufferLoop ports io rem i buffer s).2 = drain ports (io + ataRegData) rem s
  | 0, _, _, _ => rfl
  | rem + 1, i, _, _ => bufferLoop_devices rem (i + 1) _ _

/-- The accesses of `ata_identify` up to byte `n` of the status: no words, and these bytes last. -/
theorem identifyAt_log (m : Probe σ) (n : Nat) : ∃ log, wordsRead log = 0 ∧
    (identifyAt ports.recorded bus drive m.recorded n).devices.2 = log ++ (List.range n).map fun i =>
      .inb (ataBaseIo bus + ataRegStatus) (identifyStatus ports bus drive m.devices i) := by
  obtain ⟨log, hsent, hlog⟩ := @identifySent_recorded σ ports bus drive m.devices
  refine ⟨log, hlog, ?_⟩
  unfold identifyAt Probe.recorded
  dsimp only
  rw [hsent, skip_recorded]
  rfl

theorem readAt_log (lba : KUint32) (m : Machine σ) (n : Nat) : ∃ log, wordsRead log = 0 ∧
    (readAt ports.recorded bus drive lba m.recorded n).devices.2 = log ++ (List.range n).map fun i =>
      .inb (ataBaseIo bus + ataRegStatus) (readStatus ports bus drive lba m.devices i) := by
  obtain ⟨log, hsent, hlog⟩ := @readSent_recorded σ ports bus drive lba m.devices
  refine ⟨log, hlog, ?_⟩
  unfold readAt Machine.recorded
  dsimp only
  rw [hsent, skip_recorded]
  rfl

/-- A drive found online has 256 words read of it. -/
theorem identifyEnd_log (io : Port) (m : Probe (σ × List Access)) :
    (identifyEnd ports.recorded io bus drive true m).devices.2 = m.devices.2 ++
      (List.range 256).map fun i => .inw (io + ataRegData) (wordAt ports (io + ataRegData) m.devices.1 i) := by
  have hdrain := @bufferLoop_devices _ ports.recorded io 256 0 (m.info bus drive).buffer m.devices
  rw [drain_recorded] at hdrain
  exact congrArg Prod.snd hdrain

/-- After the words `ata_read_sector` reads the alternate status for its time. -/
theorem readEnd_log (dst : KUint32) (m : Machine (σ × List Access)) : ∃ log, wordsRead log = 0 ∧
    (readEnd ports.recorded bus dst true m).state.devices.2 = m.devices.2 ++
      ((List.range 256).map fun i =>
        .inw (ataBaseIo bus + ataRegData) (wordAt ports (ataBaseIo bus + ataRegData) m.devices.1 i)) ++ log := by
  refine ⟨_, wordsRead_bytes (ataBaseIo bus + ataRegAltstatus) (byteAt ports (ataBaseIo bus + ataRegAltstatus)
    (drain ports (ataBaseIo bus + ataRegData) 256 m.devices.1)) (List.range 4), ?_⟩
  show (skip ports.recorded (ataBaseIo bus + ataRegAltstatus) 4 _).2 = _
  rw [readLoop_devices, drain_recorded, skip_recorded]

end

/-! ## A channel by its status -/

namespace Controller

variable {disks : Disks}

theorem outb_status (p : Port) (v : KUint8) (s : Controller) : (outb p v s).status = s.status := by
  unfold outb
  split <;> rfl

theorem inb_status (c : Channel) (s : Controller) :
    inb (c.io + ataRegStatus) s = (s.status 0, { s with status := fun n => s.status (n + 1) }) := by
  unfold inb
  rw [show c.io + ataRegStatus = c.io + BitVec.ofNat 16 (7 : Fin 8) from rfl, decode_io]
  rfl

/-- No register answers where the driver reads the alternate status. -/
theorem inb_altstatus (c : Channel) (s : Controller) : (inb (c.io + ataRegAltstatus) s).2 = s := by
  cases c <;> rfl

/-- A channel returns its status bytes in order. -/
theorem byteAt_status (c : Channel) : ∀ (n : Nat) (s : Controller),
    byteAt (ports disks) (c.io + ataRegStatus) s n = s.status n
  | 0, s => congrArg Prod.fst (inb_status c s)
  | n + 1, s => by
    have hnext : (ports disks).inb (c.io + ataRegStatus) s = _ := inb_status c s
    show byteAt (ports disks) (c.io + ataRegStatus) ((ports disks).inb (c.io + ataRegStatus) s).2 n = _
    rw [byteAt_status c n, hnext]

theorem identifyStatus_eq (bus drive : KUint8) (s : Controller) :
    identifyStatus (ports disks) bus drive s = s.status := by
  have houtb : ∀ (p : Port) (v : KUint8) s, ((ports disks).outb p v s).status = s.status := outb_status
  funext n
  unfold identifyStatus
  rw [ataBaseIo_eq, byteAt_status]
  unfold identifySent identifyCommand ataSelectDrive
  split <;> simp only [houtb]

theorem readStatus_eq (bus drive : KUint8) (lba : KUint32) (s : Controller) :
    readStatus (ports disks) bus drive lba s = s.status := by
  have houtb : ∀ (p : Port) (v : KUint8) s, ((ports disks).outb p v s).status = s.status := outb_status
  have hinb : ∀ s, ((ports disks).inb ((channelOf bus).io + ataRegAltstatus) s).2 = s := inb_altstatus (channelOf bus)
  funext n
  unfold readStatus readSent
  rw [ataBaseIo_eq, byteAt_status]
  unfold ataCommand
  simp only [skip, hinb, houtb]

end Controller

/-- A channel with the status bytes to come, and records as `ata_init` leaves them. -/
def probeOf (status : Nat → KUint8) : Probe Controller :=
  ⟨⟨fun _ => ⟨0#8, 0#8, 0#8, 0#8, 0#8, none⟩, status⟩,
    fun _ _ => ⟨0#8, fun _ => 0#8, 0#16, 0#16, 0#16, 0#32, fun _ => 0#8⟩, []⟩

/-! ## Whether `ata_identify` returns -/

section

variable {σ : Type} {ports : Bus σ} {bus drive : KUint8} {m : Probe σ}

theorem AtaInfo.update_self (info : AtaInfo) (bus drive : KUint8) (d : AtaDriveInfo) :
    info.update bus drive d bus drive = d := by
  unfold AtaInfo.update
  rw [Function.update_self, Function.update_self]

/-- Once the loops have ended: an available drive with 256 words read of it, or the records as they were. -/
theorem identifyEnd_outcome (online : Bool) (n : Nat) {m' : Probe (σ × List Access)}
    (h : m' = identifyEnd ports.recorded (ataBaseIo bus) bus drive online
      (identifyAt ports.recorded bus drive m.recorded n)) :
    ((m'.info bus drive).available = 1#8 ∧ wordsRead m'.devices.2 = 256) ∨
      (m'.info = m.info ∧ wordsRead m'.devices.2 = 0) := by
  obtain ⟨log, hlog, hdevices⟩ := @identifyAt_log σ ports bus drive m n
  have hbefore : wordsRead (identifyAt ports.recorded bus drive m.recorded n).devices.2 = 0 := by
    rw [hdevices, wordsRead_log_bytes hlog]
  subst h
  cases online with
  | true =>
    left
    constructor
    · exact congrArg AtaDriveInfo.available (AtaInfo.update_self _ _ _ _)
    · rw [identifyEnd_log, wordsRead_append, hbefore, wordsRead_words]
  | false => exact Or.inr ⟨rfl, hbefore⟩

/-- The call returns, and then the drive is available with 256 words read of it, or the records are
as they were with none read. -/
def Identifies (ports : Bus σ) (bus drive : KUint8) (m : Probe σ) : Prop :=
  ∃ fuel m', ataIdentify ports.recorded fuel bus drive m.recorded = some m' ∧
    (((m'.info bus drive).available = 1#8 ∧ wordsRead m'.devices.2 = 256) ∨
      (m'.info = m.info ∧ wordsRead m'.devices.2 = 0))

/-- It does just when the first byte is zero, or when some later byte has BSY clear and one after that
has ERR or DRQ. -/
theorem ataIdentify_ends_iff (ports : Bus σ) (bus drive : KUint8) (m : Probe σ) :
    Identifies ports bus drive m ↔
      identifyStatus ports bus drive m.devices 0 = 0#8 ∨
        ∃ i j, 1 ≤ i ∧ i < j ∧ ¬Busy (identifyStatus ports bus drive m.devices i) ∧
          Decided (identifyStatus ports bus drive m.devices j) := by
  have hstatus : identifyStatus ports.recorded bus drive m.recorded.devices =
      identifyStatus ports bus drive m.devices := identifyStatus_recorded _
  rw [← exists_waits_iff]
  by_cases hzero : identifyStatus ports bus drive m.devices 0 = 0#8
  · refine iff_of_true ⟨0, _, ataIdentify_absent (by rw [hstatus, hzero]), Or.inr ⟨rfl, ?_⟩⟩ (Or.inl hzero)
    obtain ⟨log, hlog, hdevices⟩ := @identifyAt_log σ ports bus drive m 1
    rw [hdevices, wordsRead_log_bytes hlog]
  · have hpresent := fun fuel m' =>
      @ataIdentify_present_iff _ ports.recorded bus drive fuel m.recorded m' (by rwa [hstatus])
    rw [hstatus] at hpresent
    constructor
    · rintro ⟨fuel, m', hrun, -⟩
      obtain ⟨i, j, online, hij, -⟩ := (hpresent fuel m').1 hrun
      exact Or.inr ⟨i, j, hij⟩
    · rintro (h | ⟨i, j, hij⟩)
      · exact absurd h hzero
      · obtain ⟨online, honline⟩ := Option.ne_none_iff_exists'.1 fun h => identifyVerdict_eq_none_iff.1 h hij.decided
        have hlt := hij.lt
        exact ⟨j, _, (hpresent j _).2 ⟨i, j, online, hij, by omega, by omega, honline, rfl⟩,
          identifyEnd_outcome online _ rfl⟩

end

/-- A byte that stays, with BSY or without ERR and DRQ, is waited on for ever. -/
theorem not_identifies_constant {v : KUint8} (hv : v ≠ 0#8) (hwait : Busy v ∨ ¬Decided v) (disks : Disks)
    (bus drive : KUint8) : ¬Identifies (Controller.ports disks) bus drive (probeOf fun _ => v) := by
  rintro ⟨fuel, m', hrun, -⟩
  have hstatus : identifyStatus (Controller.ports disks).recorded bus drive (probeOf fun _ => v).recorded.devices =
      fun _ => v := (identifyStatus_recorded _).trans (Controller.identifyStatus_eq bus drive _)
  obtain ⟨i, j, online, hij, -⟩ := (ataIdentify_present_iff (by rwa [hstatus])).1 hrun
  rw [hstatus] at hij
  rcases hwait with hbusy | hundecided
  · exact hij.idle hbusy
  · exact hundecided hij.decided

/-- On a floating bus the first loop has no end, and after a fault without DRQ the second. -/
theorem ataIdentify_hangs :
    ¬Identifies (Controller.ports stripedDisks) ataPrimary ataMaster (probeOf fun _ => 0xFF#8) ∧
      ¬Identifies (Controller.ports stripedDisks) ataPrimary ataMaster (probeOf fun _ => 0x60#8) := by
  constructor
  · apply not_identifies_constant (by decide)
    exact Or.inl (by decide)
  · apply not_identifies_constant (by decide)
    right
    unfold Decided
    decide

/-! ## What words are read on -/

/-- From byte `start` of the status on, the byte that ends the second loop has ERR set or BSY clear. -/
def Settles (st : Nat → KUint8) (start : Nat) : Prop :=
  ∀ i j, Waits st start i j → Failed (st j) ∨ ¬Busy (st j)

section

variable {σ : Type} {ports : Bus σ} {bus drive : KUint8}

/-- On a byte that says a drive is online words are read as they should be unless it has BSY. -/
theorem ready_iff {v : KUint8} (h : identifyVerdict v = some true) : Ready v ↔ ¬Busy v := by
  obtain ⟨hdecided, honline⟩ := identifyVerdict_eq_some_iff.1 h
  have hfailed := honline.1 rfl
  exact ⟨fun hready => hready.1, fun hidle => ⟨hidle, hfailed, hdecided.resolve_left hfailed⟩⟩

/-- Where words are read just after the byte that says a drive is online, they are read as they
should be just when the status settles. -/
theorem settles_iff {st : Nat → KUint8} {start : Nat} :
    Settles st start ↔ ∀ i j, Waits st start i j → identifyVerdict (st j) = some true → Ready (st j) := by
  constructor
  · intro h i j hij honline
    have hfailed := (identifyVerdict_eq_some_iff.1 honline).2.1 rfl
    exact (ready_iff honline).2 ((h i j hij).resolve_left hfailed)
  · intro h i j hij
    by_cases hfailed : Failed (st j)
    · exact Or.inl hfailed
    · exact Or.inr (h i j hij (identifyVerdict_eq_some_iff.2 ⟨hij.decided, by simp [hfailed]⟩)).1

/-- Runs that end where the two loops do, and read words only of a device found ready for them, read
these as they should just when the status settles. -/
theorem runs_iff {ρ : Type} {run : Nat → ρ → Prop} {Good : ρ → Prop} {st : Nat → KUint8} {start : Nat}
    {left : Bool → Nat → ρ} (hrun : ∀ fuel r, run fuel r ↔
      ∃ i j online, Waits st start i j ∧ i < start + fuel ∧ j ≤ i + fuel ∧
        identifyVerdict (st j) = some online ∧ r = left online j)
    (hgood : ∀ online j, Good (left online j) ↔ (online = true → Ready (st j))) :
    (∀ fuel r, run fuel r → Good r) ↔ Settles st start := by
  rw [settles_iff]
  constructor
  · intro h i j hij honline
    have hlt := hij.lt
    have hends := (hrun (j + 1) _).2 ⟨i, j, true, hij, by omega, by omega, honline, rfl⟩
    exact (hgood true j).1 (h (j + 1) _ hends) rfl
  · intro h fuel r hr
    obtain ⟨i, j, online, hij, -, -, honline, rfl⟩ := (hrun fuel r).1 hr
    apply (hgood online j).2
    rintro rfl
    exact h i j hij honline

/-- Of a drive with ERR no word is read; of a drive online all are, on the byte that says so. -/
theorem identifyEnd_guarded (m : Probe σ) (online : Bool) (j : Nat) :
    Guarded (ataBaseIo bus + ataRegStatus) Ready none (identifyEnd ports.recorded (ataBaseIo bus) bus drive online
      (identifyAt ports.recorded bus drive m.recorded (j + 1))).devices.2 ↔
      (online = true → Ready (identifyStatus ports bus drive m.devices j)) := by
  obtain ⟨log, hlog, hdevices⟩ := @identifyAt_log σ ports bus drive m (j + 1)
  cases online with
  | true =>
    rw [identifyEnd_log, hdevices, guarded_bytes_words hlog _ _ _ _ (by simp)]
    simp only [true_imp_iff]
  | false =>
    refine iff_of_true ?_ (by simp)
    show Guarded _ _ _ (identifyAt ports.recorded bus drive m.recorded (j + 1)).devices.2
    rw [hdevices]
    exact guarded_of_noWords _ _ (wordsRead_log_bytes hlog _ _ _)

theorem readEnd_guarded (lba dst : KUint32) (m : Machine σ) (online : Bool) (j : Nat) :
    Guarded (ataBaseIo bus + ataRegStatus) Ready none (readEnd ports.recorded bus dst online
      (readAt ports.recorded bus drive lba m.recorded (j + 1))).state.devices.2 ↔
      (online = true → Ready (readStatus ports bus drive lba m.devices j)) := by
  obtain ⟨log, hlog, hdevices⟩ := @readAt_log σ ports bus drive lba m (j + 1)
  cases online with
  | true =>
    obtain ⟨log', hlog', hend⟩ := @readEnd_log σ ports bus dst
      (readAt ports.recorded bus drive lba m.recorded (j + 1))
    rw [hend, hdevices, guarded_append, guarded_bytes_words hlog _ _ _ _ (by simp)]
    simp only [guarded_of_noWords log' _ hlog', and_true, true_imp_iff]
  | false =>
    refine iff_of_true ?_ (by simp)
    show Guarded _ _ _ (readAt ports.recorded bus drive lba m.recorded (j + 1)).devices.2
    rw [hdevices]
    exact guarded_of_noWords _ _ (wordsRead_log_bytes hlog _ _ _)

theorem ataIdentify_guarded_iff {m : Probe σ} :
    (∀ fuel m', ataIdentify ports.recorded fuel bus drive m.recorded = some m' →
      Guarded (ataBaseIo bus + ataRegStatus) Ready none m'.devices.2) ↔
      identifyStatus ports bus drive m.devices 0 = 0#8 ∨ Settles (identifyStatus ports bus drive m.devices) 1 := by
  have hstatus : identifyStatus ports.recorded bus drive m.recorded.devices =
      identifyStatus ports bus drive m.devices := identifyStatus_recorded _
  by_cases hzero : identifyStatus ports bus drive m.devices 0 = 0#8
  · refine iff_of_true (fun fuel m' hrun => ?_) (Or.inl hzero)
    rw [ataIdentify_absent (by rwa [hstatus]), Option.some.injEq] at hrun
    obtain ⟨log, hlog, hdevices⟩ := @identifyAt_log σ ports bus drive m 1
    rw [← hrun, hdevices]
    exact guarded_of_noWords _ _ (wordsRead_log_bytes hlog _ _ _)
  · rw [or_iff_right hzero]
    have hruns := fun fuel m' =>
      @ataIdentify_present_iff _ ports.recorded bus drive fuel m.recorded m' (by rwa [hstatus])
    rw [hstatus] at hruns
    exact runs_iff hruns (identifyEnd_guarded m)

theorem ataReadSector_guarded_iff {lba dst : KUint32} {m : Machine σ} :
    (∀ fuel o, ataReadSector ports.recorded fuel bus drive lba dst m.recorded = some o →
      Guarded (ataBaseIo bus + ataRegStatus) Ready none o.state.devices.2) ↔
      Settles (readStatus ports bus drive lba m.devices) 0 := by
  have hstatus : readStatus ports.recorded bus drive lba m.recorded.devices =
      readStatus ports bus drive lba m.devices := readStatus_recorded lba _
  have hruns := fun fuel o => @ataReadSector_eq_some_iff _ ports.recorded bus drive fuel lba dst m.recorded o
  rw [hstatus] at hruns
  exact runs_iff hruns (readEnd_guarded lba dst m)

/-- Both drivers read words only on a byte with BSY and ERR clear and DRQ set, just when the byte that
ends the second loop never has BSY without ERR. -/
theorem ata_guarded_iff (ports : Bus σ) (bus drive : KUint8) (lba dst : KUint32) (m : Probe σ) (n : Machine σ) :
    ((∀ fuel m', ataIdentify ports.recorded fuel bus drive m.recorded = some m' →
        Guarded (ataBaseIo bus + ataRegStatus) Ready none m'.devices.2) ∧
      ∀ fuel o, ataReadSector ports.recorded fuel bus drive lba dst n.recorded = some o →
        Guarded (ataBaseIo bus + ataRegStatus) Ready none o.state.devices.2) ↔
      (identifyStatus ports bus drive m.devices 0 = 0#8 ∨ Settles (identifyStatus ports bus drive m.devices) 1) ∧
        Settles (readStatus ports bus drive lba n.devices) 0 :=
  and_congr ataIdentify_guarded_iff ataReadSector_guarded_iff

end

/-- Idle twice, then BSY and DRQ together for ever. -/
def staleStatus : Nat → KUint8 := fun n => if n < 2 then 0x50#8 else 0x88#8

theorem staleStatus_waits {start : Nat} (h : start < 2) : Waits staleStatus start start 2 := by
  have hidle : ∀ n < 2, staleStatus n = 0x50#8 := fun n hn => if_pos hn
  refine ⟨le_rfl, h, fun n hn hlt => absurd hn (by omega), ?_, fun n _ hn => ?_, ?_⟩
  · rw [hidle _ h]
    decide
  · rw [hidle _ hn]
    unfold Decided
    decide
  · exact Or.inr (by decide)

theorem staleStatus_not_settles {start : Nat} (h : start < 2) : ¬Settles staleStatus start := by
  intro hsettles
  have := hsettles start 2 (staleStatus_waits h)
  revert this
  decide

/-- The device is busy again with DRQ set, and both drivers read words. -/
theorem ata_stale :
    ¬(∀ fuel m', ataIdentify (Controller.ports stripedDisks).recorded fuel ataPrimary ataMaster
          (probeOf staleStatus).recorded = some m' →
        Guarded (ataBaseIo ataPrimary + ataRegStatus) Ready none m'.devices.2) ∧
      ¬∀ fuel o, ataReadSector (Controller.ports stripedDisks).recorded fuel ataPrimary ataMaster 5#32 0x8000#32
          (Machine.mk (fun _ => 0#8) (probeOf staleStatus).devices).recorded = some o →
        Guarded (ataBaseIo ataPrimary + ataRegStatus) Ready none o.state.devices.2 := by
  rw [ataIdentify_guarded_iff, ataReadSector_guarded_iff, Controller.identifyStatus_eq, Controller.readStatus_eq]
  refine ⟨?_, staleStatus_not_settles (by omega)⟩
  rintro (hzero | hsettles)
  · cases hzero
  · exact staleStatus_not_settles (by omega) hsettles

end Aeon.Block
