/-
Sequences of `ata_read_sector`. What reaches memory is whole sectors, each in its buffer, in the order
of the calls and up to the first that a drive fails; and the status bytes alone say whether the whole
sequence is served.
-/
import Aeon.Block.Disk
import Aeon.Block.Identify

namespace Aeon.Block

open Ports

/-! ## Sequences -/

/-- The arguments of a call. -/
structure SectorRead where
  bus : KUint8
  drive : KUint8
  lba : KUint32
  dst : KUint32

/-- One call after the other, up to the first that panics. -/
def readAll {σ : Type} (ports : Bus σ) (fuel : Nat) : List SectorRead → Machine σ → Option (Outcome (Machine σ) Unit)
  | [], m => some (.ok () m)
  | r :: rs, m =>
    match ataReadSector ports fuel r.bus r.drive r.lba r.dst m with
    | none => none
    | some (.ok () m) => readAll ports fuel rs m
    | some (.halt h m) => some (.halt h m)

/-- The sector of the low 28 bits at `dst`. -/
def SectorRead.put (disks : Disks) (r : SectorRead) (memory : Ram) : Ram := fun a =>
  if (a - r.dst).toNat < 512 then
    disks (channelOf r.bus) (driveOf r.drive) (r.lba.toNat % 2 ^ 28) (a - r.dst).toNat
  else memory a

/-- Each sector over those before it. -/
def sectorsRead (disks : Disks) (rs : List SectorRead) (memory : Ram) : Ram :=
  rs.foldl (fun memory r => r.put disks memory) memory

/-- For each of `n` calls the status has a byte without BSY and later one that is not a fault with DRQ,
before any with ERR; the next call goes on behind it. -/
def Serves : (n : Nat) → (status : Nat → KUint8) → Prop
  | 0, _ => True
  | n + 1, status => ∃ i j, Waits status 0 i j ∧ ¬Failed (status j) ∧ Serves n fun k => status (j + 1 + k)

/-! ## The status of the channels -/

namespace Controller

variable {disks : Disks} {status : Nat → KUint8}

/-- Reading the status takes its bytes in turn. -/
theorem skip_status (c : Channel) : ∀ (n : Nat) (s : Controller),
    (skip (ports disks) (c.io + ataRegStatus) n s).status = fun k => s.status (n + k)
  | 0, s => by
    funext k
    rw [Nat.zero_add]
    rfl
  | n + 1, s => by
    have hnext : ((ports disks).inb (c.io + ataRegStatus) s).2.status = fun k => s.status (k + 1) :=
      congrArg (fun r => r.2.status) (inb_status c s)
    rw [skip, skip_status c n, hnext]
    funext k
    exact congrArg s.status (by omega)

theorem inw_status (p : Port) (s : Controller) : (inw disks p s).2.status = s.status := by
  unfold inw
  split
  · split <;> rfl
  · rfl

theorem readSent_status (bus drive : KUint8) (lba : KUint32) (s : Controller) :
    (readSent (ports disks) bus drive lba s).status = s.status := by
  funext n
  have hbyte := congrFun (@readStatus_eq disks bus drive lba s) n
  unfold readStatus at hbyte
  rwa [ataBaseIo_eq, byteAt_status] at hbyte

theorem readAt_status (bus drive : KUint8) (lba : KUint32) (m : Machine Controller) (n : Nat) :
    (readAt (ports disks) bus drive lba m n).devices.status = fun k => m.devices.status (n + k) := by
  unfold readAt
  rw [ataBaseIo_eq, skip_status, readSent_status]

/-- The words and the delay after the loops take no byte of it. -/
theorem readEnd_status {bus : KUint8} {dst : KUint32} (online : Bool) {m : Machine Controller}
    (h : m.devices.status = status) : (readEnd (ports disks) bus dst online m).state.devices.status = status := by
  cases online with
  | false => exact h
  | true =>
    have hwords := drain_invariant (b := ports disks) (p := ataBaseIo bus + ataRegData)
      (P := fun _ (s : Controller) => s.status = status) (fun _ s hs => (inw_status _ s).trans hs) 256 (k := 0) h
    rw [← readLoop_devices dst 256 0#32 m] at hwords
    refine skip_invariant (P := fun s : Controller => s.status = status) (fun s hs => ?_) 4 hwords
    rw [ataBaseIo_eq]
    exact (congrArg Controller.status (inb_altstatus _ s)).trans hs

end Controller

/-! ## One call -/

section

variable {disks : Disks} {fuel fuel' : Nat} {r : SectorRead} {m : Machine Controller}

theorem ataReadSector_mono {σ : Type} {ports : Bus σ} {bus drive : KUint8} {lba dst : KUint32} {m : Machine σ}
    {o : Outcome (Machine σ) Unit} (h : ataReadSector ports fuel bus drive lba dst m = some o) (hle : fuel ≤ fuel') :
    ataReadSector ports fuel' bus drive lba dst m = some o := by
  rw [ataReadSector_eq_some_iff] at h ⊢
  obtain ⟨i, j, online, hwaits, hi, hj, hverdict, ho⟩ := h
  exact ⟨i, j, online, hwaits, by omega, by omega, hverdict, ho⟩

/-- The call returns where a byte with data ends its loops, with the sector in its buffer and the status
behind that byte; and where a fault ends them it panics, with memory as it was. -/
theorem ataReadSector_outcome {o : Outcome (Machine Controller) Unit}
    (h : ataReadSector (Controller.ports disks) fuel r.bus r.drive r.lba r.dst m = some o) :
    ∃ i j, Waits m.devices.status 0 i j ∧
      (¬Failed (m.devices.status j) ∧ (∃ m', o = .ok () m' ∧ m'.memory = r.put disks m.memory ∧
          m'.devices.status = fun k => m.devices.status (j + 1 + k)) ∨
        Failed (m.devices.status j) ∧ ∃ halt m', o = .halt halt m' ∧ m'.memory = m.memory) := by
  obtain ⟨i, j, online, hwaits, -, -, hverdict, ho⟩ := ataReadSector_eq_some_iff.1 h
  rw [Controller.readStatus_eq] at hwaits hverdict
  have hfailed := (identifyVerdict_eq_some_iff.1 hverdict).2
  refine ⟨i, j, hwaits, ?_⟩
  cases online with
  | true =>
    subst ho
    exact .inl ⟨hfailed.1 rfl, _, rfl, funext (ataReadSector_run h).1,
      Controller.readEnd_status true (Controller.readAt_status ..)⟩
  | false => exact .inr ⟨not_not.1 fun hok => Bool.false_ne_true (hfailed.2 hok), _, _, ho, rfl⟩

/-- It ends as soon as its loops have their bytes. -/
theorem ataReadSector_ends {i j : Nat} (hwaits : Waits m.devices.status 0 i j) (hok : ¬Failed (m.devices.status j)) :
    ∃ m', ataReadSector (Controller.ports disks) (j + 1) r.bus r.drive r.lba r.dst m = some (.ok () m') ∧
      m'.devices.status = fun k => m.devices.status (j + 1 + k) := by
  have hlt := hwaits.lt
  have hverdict : identifyVerdict (m.devices.status j) = some true :=
    identifyVerdict_eq_some_iff.2 ⟨hwaits.decided, iff_of_true rfl hok⟩
  refine ⟨_, ataReadSector_eq_some_iff.2 ⟨i, j, true, ?_, by omega, by omega, ?_, rfl⟩,
    Controller.readEnd_status true (Controller.readAt_status ..)⟩
  · rwa [Controller.readStatus_eq]
  · rwa [Controller.readStatus_eq]

end

/-! ## Runs -/

section

variable {disks : Disks}

theorem readAll_mono {σ : Type} {ports : Bus σ} {fuel fuel' : Nat} (hle : fuel ≤ fuel') : ∀ {rs : List SectorRead}
    {m : Machine σ} {o : Outcome (Machine σ) Unit}, readAll ports fuel rs m = some o → readAll ports fuel' rs m = some o
  | [], _, _, h => h
  | r :: rs, m, o, h => by
    unfold readAll at h ⊢
    split at h
    · cases h
    · next m' hread =>
      rw [ataReadSector_mono hread hle]
      exact readAll_mono hle h
    · next halt m' hread =>
      rw [ataReadSector_mono hread hle]
      exact h

/-- After a call that returns, a prefix of the calls returns when the rest of it does. -/
theorem readAll_take_succ {σ : Type} {ports : Bus σ} {fuel : Nat} {r : SectorRead} {rs : List SectorRead}
    {m m₁ : Machine σ} (h : ataReadSector ports fuel r.bus r.drive r.lba r.dst m = some (.ok () m₁)) (i : Nat) :
    readAll ports fuel ((r :: rs).take (i + 1)) m = readAll ports fuel (rs.take i) m₁ := by
  rw [List.take_succ_cons, readAll, h]

/-- However a run ends, whole sectors are in memory: those of the calls that returned. -/
theorem readAll_memory {fuel : Nat} : ∀ {rs : List SectorRead} {m : Machine Controller}
    {o : Outcome (Machine Controller) Unit}, readAll (Controller.ports disks) fuel rs m = some o →
    ∃ k ≤ rs.length, o.state.memory = sectorsRead disks (rs.take k) m.memory ∧
      ((∃ m', o = .ok () m') ↔ k = rs.length) ∧
      ∀ i ≤ rs.length, (∃ m', readAll (Controller.ports disks) fuel (rs.take i) m = some (.ok () m')) ↔ i ≤ k
  | [], m, o, h => by
    cases h
    refine ⟨0, le_refl _, rfl, iff_of_true ⟨m, rfl⟩ rfl, fun i hi => ?_⟩
    rw [List.take_nil]
    exact iff_of_true ⟨m, rfl⟩ hi
  | r :: rs, m, o, h => by
    unfold readAll at h
    split at h
    · cases h
    · next m' hread =>
      obtain ⟨k, hk, hmemory, hiff, hreturned⟩ := readAll_memory h
      refine ⟨k + 1, Nat.succ_le_succ hk, ?_, hiff.trans Nat.succ_inj.symm, fun i hi => ?_⟩
      · rw [hmemory, funext (ataReadSector_run hread).1]
        rfl
      · cases i with
        | zero => exact iff_of_true ⟨m, rfl⟩ (Nat.zero_le _)
        | succ i =>
          rw [readAll_take_succ hread, hreturned i (Nat.le_of_succ_le_succ hi)]
          exact Nat.succ_le_succ_iff.symm
    · next halt m' hread =>
      -- polling panics before the first word is read
      cases h
      obtain ⟨i, j, -, ⟨-, m', hm', -⟩ | ⟨-, halt', m', hm', hmemory⟩⟩ := ataReadSector_outcome hread
      · cases hm'
      · cases hm'
        refine ⟨0, Nat.zero_le _, hmemory, iff_of_false (fun ⟨_, ho⟩ => by cases ho) (Nat.succ_ne_zero _).symm,
          fun i _ => ?_⟩
        cases i with
        | zero => exact iff_of_true ⟨m, rfl⟩ le_rfl
        | succ i =>
          refine iff_of_false (fun ⟨m', h⟩ => ?_) (Nat.not_succ_le_zero i)
          rw [List.take_succ_cons, readAll, hread] at h
          cases h

/-- A run is served to its end just when the status has the bytes for each call. -/
theorem readAll_returns_iff : ∀ {rs : List SectorRead} {m : Machine Controller},
    (∃ fuel m', readAll (Controller.ports disks) fuel rs m = some (.ok () m')) ↔ Serves rs.length m.devices.status
  | [], m => iff_of_true ⟨0, m, rfl⟩ trivial
  | r :: rs, m => by
    constructor
    · rintro ⟨fuel, m', h⟩
      unfold readAll at h
      split at h
      · cases h
      · next m₁ hread =>
        obtain ⟨i, j, hwaits, ⟨hok, m₁', hm₁, -, hstatus⟩ | ⟨-, halt, m₁', hm₁, -⟩⟩ := ataReadSector_outcome hread
        · cases hm₁
          exact ⟨i, j, hwaits, hok, hstatus ▸ readAll_returns_iff.1 ⟨fuel, m', h⟩⟩
        · cases hm₁
      · cases h
    · rintro ⟨i, j, hwaits, hok, hserves⟩
      obtain ⟨m₁, hread, hstatus⟩ := @ataReadSector_ends disks r m i j hwaits hok
      rw [← hstatus] at hserves
      obtain ⟨fuel, m', h⟩ := readAll_returns_iff.2 hserves
      -- rounds for this call and for those after it
      refine ⟨max (j + 1) fuel, m', ?_⟩
      unfold readAll
      rw [ataReadSector_mono hread (le_max_left ..)]
      exact readAll_mono (le_max_right ..) h

/-- Any sequence of reads, of any drives and with any status: when it ends, memory holds whole sectors
over what was there, those of the `k` calls before the first that panicked, so that no longer prefix of
the calls returns; and whether it is served to its end depends on the status bytes alone. -/
theorem reads_run (disks : Disks) (rs : List SectorRead) (m : Machine Controller) :
    (∀ fuel o, readAll (Controller.ports disks) fuel rs m = some o →
      ∃ k ≤ rs.length, o.state.memory = sectorsRead disks (rs.take k) m.memory ∧
        ((∃ m', o = .ok () m') ↔ k = rs.length) ∧
        ∀ i ≤ rs.length, (∃ m', readAll (Controller.ports disks) fuel (rs.take i) m = some (.ok () m')) ↔ i ≤ k) ∧
    ((∃ fuel m', readAll (Controller.ports disks) fuel rs m = some (.ok () m')) ↔
      Serves rs.length m.devices.status) :=
  ⟨fun _ _ h => readAll_memory h, readAll_returns_iff⟩

end

end Aeon.Block
