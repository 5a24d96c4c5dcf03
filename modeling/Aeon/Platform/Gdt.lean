/-
`platform/i386/gdt.c`: `gdt_set_gate`, which stores a descriptor field by field, `gdt_init` and
`gdt_flush`. The table in memory follows one with a whole descriptor for each index, and what
`gdt_init` leaves is a flat address space with the kernel's segments kept from user mode.
-/
import Aeon.Klibc.Memory
import Aeon.Lib.Descriptor

namespace Aeon.Platform

open I386

/-! ## `gdt.c` -/

/-- Where the linker put `g_gdt_entries` and `g_gdt_ptr`, which do not share a byte. -/
structure GdtLayout where
  entries : KUint32
  ptr : KUint32
  apart : 6 ≤ (entries - ptr).toNat ∧ 40 ≤ (ptr - entries).toNat

/-- `&g_gdt_entries[num]` -/
def GdtLayout.entry (t : GdtLayout) (num : KSize) : KUint32 := t.entries + 8#32 * num

section

variable (t : GdtLayout)

/-- `limit_high` and `flags` are the halves of one byte: to store one is to read the other. -/
def gdtSetGate (num : KSize) (base limit access flags : KUint32) (m : Ram) : Ram :=
  let e := t.entry num
  let m := writeU16 m (e + 2#32) ((base &&& 0xFFFF#32).setWidth 16)
  let m := Function.update m (e + 4#32) (((base >>> 16) &&& 0xFF#32).setWidth 8)
  let m := Function.update m (e + 7#32) (((base >>> 24) &&& 0xFF#32).setWidth 8)
  let m := writeU16 m e ((limit &&& 0xFFFF#32).setWidth 16)
  let m := Function.update m (e + 6#32)
    ((m (e + 6#32)).extractLsb' 4 4 ++ ((limit >>> 16) &&& 0x0F#32).setWidth 4)
  let m := Function.update m (e + 5#32) (access.setWidth 8)
  Function.update m (e + 6#32) (flags.setWidth 4 ++ (m (e + 6#32)).extractLsb' 0 4)

def accessFlagCodeSegmentReadable : KUint32 := 0x02#32
def accessFlagDataSegmentWritable : KUint32 := 0x02#32
def accessFlagIsExecutable : KUint32 := 0x08#32
def accessFlagIsCodeOrData : KUint32 := 0x10#32
def accessFlagRing3 : KUint32 := 0x60#32
def accessFlagIsPresent : KUint32 := 0x80#32
def gdtFlagIs32Bits : KUint32 := 0x04#32
def gdtFlag4kbGranularity : KUint32 := 0x08#32

/-- The arguments of one call of `gdt_set_gate`. -/
structure GdtGate where
  num : KSize
  base : KUint32
  limit : KUint32
  access : KUint32
  flags : KUint32

def GdtGate.set (g : GdtGate) (m : Ram) : Ram := gdtSetGate t g.num g.base g.limit g.access g.flags m

/-- The calls that `gdt_init` makes. -/
def gdtGates : List GdtGate :=
  [⟨0#32, 0#32, 0#32, 0#32, 0#32⟩,
   ⟨1#32, 0#32, 0xFFFFFFFF#32,
    accessFlagIsExecutable ||| accessFlagCodeSegmentReadable ||| accessFlagIsCodeOrData ||| accessFlagIsPresent,
    gdtFlagIs32Bits ||| gdtFlag4kbGranularity⟩,
   ⟨2#32, 0#32, 0xFFFFFFFF#32,
    accessFlagDataSegmentWritable ||| accessFlagIsCodeOrData ||| accessFlagIsPresent,
    gdtFlagIs32Bits ||| gdtFlag4kbGranularity⟩,
   ⟨3#32, 0#32, 0xFFFFFFFF#32,
    accessFlagIsExecutable ||| accessFlagCodeSegmentReadable ||| accessFlagIsCodeOrData ||| accessFlagRing3 |||
      accessFlagIsPresent,
    gdtFlagIs32Bits ||| gdtFlag4kbGranularity⟩,
   ⟨4#32, 0#32, 0xFFFFFFFF#32,
    accessFlagDataSegmentWritable ||| accessFlagIsCodeOrData ||| accessFlagRing3 ||| accessFlagIsPresent,
    gdtFlagIs32Bits ||| gdtFlag4kbGranularity⟩]

/-- One call after the other. -/
def setGates (gs : List GdtGate) (m : Ram) : Ram := gs.foldl (fun m g => g.set t m) m

/-- The memory in which `gdt_init` calls `gdt_flush`. -/
def gdtFilled (m : Ram) : Ram :=
  let m := writeU16 m t.ptr 39#16
  let m := writeWord m (t.ptr + 2#32) t.entries
  setGates t gdtGates m

end

/-- What the processor has loaded. -/
structure Segments where
  gdtr : TableRegister
  data : DataSeg → Descriptor
  stack : Descriptor
  code : Descriptor

/-- `ds`, `es`, `fs` and `gs`, one after the other. -/
def loadDataSegments (gdtr : TableRegister) (cpl : BitVec 2) (selector : KUint16) (m : Ram) :
    Option ((DataSeg → Descriptor) × Ram) :=
  (loadData m gdtr cpl selector).bind fun (ds, m) =>
    (loadData m gdtr cpl selector).bind fun (es, m) =>
      (loadData m gdtr cpl selector).bind fun (fs, m) =>
        (loadData m gdtr cpl selector).map fun (gs, m) =>
          (fun | .ds => ds | .es => es | .fs => fs | .gs => gs, m)

/-- `lgdt`, then `ds`, `es`, `fs`, `gs` and `ss`, then the far jump to `.done`. The loads mark the
descriptors, so memory is not as it was. -/
def gdtFlush (t : GdtLayout) (m : Ram) (cpl : BitVec 2) : Option (Segments × Ram) :=
  let gdtr := readTableRegister m t.ptr
  (loadDataSegments gdtr cpl 0x10#16 m).bind fun (data, m) =>
    (loadStack m gdtr cpl 0x10#16).bind fun (stack, m) =>
      (loadCode m gdtr cpl 0x08#16).map fun (code, m) => (⟨gdtr, data, stack, code⟩, m)

/-- The registers and the memory that `gdt_init` leaves; nothing if a load of `gdt_flush` faults. -/
def gdtInit (t : GdtLayout) (m : Ram) : Option (Segments × Ram) := gdtFlush t (gdtFilled t m) 0#2

/-! ## One descriptor -/

/-- What a call of `gdt_set_gate` is for: of the limit 20 bits fit, of the access flags eight and of
the flags four. -/
def GdtGate.descriptor (g : GdtGate) : Descriptor :=
  ⟨g.base, g.limit.setWidth 20, g.access.setWidth 8, g.flags.setWidth 4⟩

theorem limb_low (v : KUint32) : (v &&& 0xFFFF#32).setWidth 16 = v.extractLsb' 0 16 := by
  ext i hi
  simp
  interval_cases i <;> simp

theorem limb_middle (v : KUint32) : ((v >>> 16) &&& 0xFF#32).setWidth 8 = v.extractLsb' 16 8 := by
  ext i hi
  simp
  interval_cases i <;> simp

theorem limb_high (v : KUint32) : ((v >>> 24) &&& 0xFF#32).setWidth 8 = v.extractLsb' 24 8 := by
  ext i hi
  simp
  interval_cases i <;> simp

theorem limb_nibble (v : KUint32) : ((v >>> 16) &&& 0x0F#32).setWidth 4 = v.extractLsb' 16 4 := by
  ext i hi
  simp
  interval_cases i <;> simp

theorem low_nibble (x y : BitVec 4) : (x ++ y).extractLsb' 0 4 = y := BitVec.extractLsb'_append_eq_right

theorem high_nibble (x y : BitVec 4) : (x ++ y).extractLsb' 4 4 = x := BitVec.extractLsb'_append_eq_left

theorem limit_append (v : KUint32) :
    v.extractLsb' 16 4 ++ v.extractLsb' 8 8 ++ v.extractLsb' 0 8 = v.setWidth 20 := by
  rw [BitVec.extractLsb'_append_extractLsb'_eq_extractLsb' (show 16 = 8 + 8 by rfl),
    BitVec.extractLsb'_append_extractLsb'_eq_extractLsb' (show 8 = 0 + 8 by rfl)]
  exact (BitVec.setWidth_eq_extractLsb' (by omega)).symm

section

variable (t : GdtLayout) (g : GdtGate) (m : Ram)

/-- The pieces are put where the processor looks for them. -/
theorem GdtGate.readDescriptor_set : readDescriptor (g.set t m) (t.entry g.num) = g.descriptor := by
  unfold GdtGate.set GdtGate.descriptor readDescriptor gdtSetGate
  simp only [writeU16, limb_low, limb_middle, limb_high, limb_nibble]
  simp [BitVec.add_assoc, low_nibble, high_nibble]
  constructor
  · exact bytes_append g.base
  · exact limit_append g.limit

theorem GdtGate.set_outside {a : KUint32} (h : 8 ≤ (a - t.entry g.num).toNat) : g.set t m a = m a := by
  have hne : ∀ i : KUint32, i.toNat < 8 → a ≠ t.entry g.num + i := by
    rintro i hi rfl
    rw [BitVec.add_comm, BitVec.add_sub_cancel] at h
    omega
  have h0 := hne 0#32 (by decide)
  rw [BitVec.add_zero] at h0
  unfold GdtGate.set gdtSetGate
  simp only [writeU16, BitVec.add_assoc, BitVec.reduceAdd]
  rw [Function.update_of_ne (hne _ (by decide)), Function.update_of_ne (hne _ (by decide)),
    Function.update_of_ne (hne _ (by decide)), Function.update_of_ne (hne _ (by decide)), Function.update_of_ne h0,
    Function.update_of_ne (hne _ (by decide)), Function.update_of_ne (hne _ (by decide)),
    Function.update_of_ne (hne _ (by decide)), Function.update_of_ne (hne _ (by decide))]

end

/-! ## The table -/

section

variable (t : GdtLayout)

theorem GdtLayout.entry_eq (num : KSize) : t.entry num = t.entries + BitVec.ofNat 32 (8 * num.toNat) := by
  unfold GdtLayout.entry
  bv_omega

def gdtSetter : EntrySetter GdtGate Descriptor t.entries where
  read := readDescriptor
  set := GdtGate.set t
  num := fun g => g.num.toNat
  value := GdtGate.descriptor
  congr := readDescriptor_congr
  read_set := fun g m => by
    rw [← t.entry_eq]
    exact g.readDescriptor_set t m
  outside := fun g m a h => by
    rw [← t.entry_eq] at h
    exact g.set_outside t m h

/-- The table as the processor reads it. -/
def GdtLayout.table (m : Ram) (i : Nat) : Descriptor := readDescriptor m (t.entries + BitVec.ofNat 32 (8 * i))

/-- A call on a table of whole descriptors. -/
def GdtGate.put (table : Nat → Descriptor) (g : GdtGate) : Nat → Descriptor :=
  Function.update table g.num.toNat g.descriptor

/-- Calls of `gdt_set_gate` in any order leave in each entry what the last call for it said, and no
byte outside of the table changed. -/
theorem setGates_refines (m : Ram) {gs : List GdtGate} (hgs : ∀ g ∈ gs, g.num.toNat < 5) :
    (∀ i < 5, t.table (setGates t gs m) i = gs.foldl GdtGate.put (t.table m) i) ∧
      ∀ a, 40 ≤ (a - t.entries).toNat → setGates t gs m a = m a :=
  ⟨(gdtSetter t).table_setAll (by decide) hgs fun _ _ => rfl,
    fun _ => (gdtSetter t).setAll_outside (by decide) hgs⟩

end

def kernelGdt : GdtLayout := ⟨0xC0105000#32, 0xC0105040#32, by decide⟩

/-- Entry 2 of the table that was filled with ones. -/
theorem setGates_refines_kernelGdt :
    kernelGdt.table (setGates kernelGdt gdtGates fun _ => 0xFF#8) 2 = ⟨0#32, 0xFFFFF#20, 0x92#8, 0xC#4⟩ :=
  (setGates_refines kernelGdt (fun _ => 0xFF#8) (by decide)).1 2 (by decide)

/-! ## After `gdt_init` -/

/-- The privilege that the entries of a table are for. -/
def segmentRing (i : Nat) : BitVec 2 := if i ≤ 2 then 0#2 else 3#2

/-- All 4 GiB, at the address that is the offset. -/
def Flat (d : Descriptor) : Prop :=
  ∀ (offset : KUint32) (n : Nat), offset.toNat + n ≤ 2 ^ 32 → d.linear offset n = some offset

def flatDescriptor (access : KUint8) : Descriptor := ⟨0#32, 0xFFFFF#20, access, 0xC#4⟩

theorem flatDescriptor_flat {access : KUint8} (h : access.getLsbD 2 = false) : Flat (flatDescriptor access) := by
  intro offset n hn
  have hsize : (flatDescriptor access).size = 2 ^ 32 := by simp [Descriptor.size, flatDescriptor]
  unfold Descriptor.linear
  rw [if_pos ⟨h, hsize ▸ hn⟩]
  exact congrArg some (BitVec.zero_add offset)

section

variable {t : GdtLayout} {m m' : Ram}

theorem readTableRegister_write (m : Ram) (p : KUint32) (limit : KUint16) (base : KUint32) :
    readTableRegister (writeWord (writeU16 m p limit) (p + 2#32) base) p = ⟨limit, base⟩ := by
  have hoff : ∀ k : KUint32, p + k - (p + 2#32) = k - 2#32 := fun k => by bv_omega
  have h0 : p - (p + 2#32) = 0#32 - 2#32 := by bv_omega
  unfold readTableRegister writeWord
  simp only [hoff, h0, writeU16]
  simp
  constructor
  · exact u16_bytes limit
  · exact bytes_append base

theorem gdtGates_num : ∀ g ∈ gdtGates, g.num.toNat < 5 := by decide

/-- `g_gdt_ptr` is stored before the table and not touched again. -/
theorem gdtFilled_register : readTableRegister (gdtFilled t m) t.ptr = ⟨39#16, t.entries⟩ := by
  have happart := t.apart
  rw [← readTableRegister_write m t.ptr 39#16 t.entries]
  apply readTableRegister_congr
  intro i hi
  exact (gdtSetter t).setAll_outside (show 8 * 5 ≤ 2 ^ 32 by decide) gdtGates_num (by bv_omega)

/-- Code and data for the kernel, then the same for user mode. -/
def segmentAccess (i : Nat) : KUint8 :=
  match i with
  | 1 => 0x9A#8
  | 2 => 0x92#8
  | 3 => 0xFA#8
  | _ => 0xF2#8

theorem gdtFilled_table {i : Nat} (h1 : 1 ≤ i) (h4 : i ≤ 4) :
    t.table (gdtFilled t m) i = flatDescriptor (segmentAccess i) := by
  have h := @EntrySetter.table_setAll _ _ _ (gdtSetter t) 5 (by decide)
    (writeWord (writeU16 m t.ptr 39#16) (t.ptr + 2#32) t.entries) gdtGates gdtGates_num _ (fun _ _ => rfl) i (by omega)
  interval_cases i <;> exact h

/-- What a selector names, as long as the table is as it was filled, but for marks. -/
theorem lookup_gdtFilled (hkeep : Marked t.entries 5 (gdtFilled t m) m') (selector : KUint16) :
    (lookup m' ⟨39#16, t.entries⟩ selector).map Descriptor.unmarked =
      if localTable selector = false ∧ 1 ≤ index selector ∧ index selector ≤ 4 then
        some (flatDescriptor (segmentAccess (index selector)))
      else none := by
  have hread : ∀ i : Nat, 1 ≤ i → i ≤ 4 → (t.table m' i).unmarked = flatDescriptor (segmentAccess i) := by
    intro i h1 h4
    refine (hkeep.readDescriptor (by decide) (show i < 5 by omega)).trans ?_
    refine (congrArg Descriptor.unmarked (gdtFilled_table h1 h4)).trans ?_
    interval_cases i <;> rfl
  have hentry : ∀ i : Nat, (TableRegister.mk 39#16 t.entries).entry i =
      if i ≤ 4 then some (t.entries + BitVec.ofNat 32 (8 * i)) else none := by
    intro i
    unfold TableRegister.entry
    exact if_congr (show 8 * i + 7 ≤ 39 ↔ i ≤ 4 by omega) rfl rfl
  unfold lookup TableRegister.named
  rw [hentry]
  by_cases h : localTable selector = false ∧ 1 ≤ index selector ∧ index selector ≤ 4
  · rw [if_pos h, if_neg (by simp [h.1]; omega), if_pos h.2.2]
    exact congrArg some (hread _ h.2.1 h.2.2)
  · rw [if_neg h]
    -- the local table and the null entry, or an entry past the limit
    by_cases h4 : index selector ≤ 4
    · rw [if_pos]
      · rfl
      by_contra hor
      simp only [not_or, Bool.not_eq_true] at hor
      exact h ⟨hor.1, by omega, h4⟩
    · rw [if_neg h4, ite_self]
      rfl

theorem segment_fields {i : Nat} (h1 : 1 ≤ i) (h4 : i ≤ 4) :
    (flatDescriptor (segmentAccess i)).present = true ∧ (flatDescriptor (segmentAccess i)).codeOrData = true ∧
      (flatDescriptor (segmentAccess i)).executable = decide (i = 1 ∨ i = 3) ∧
      (flatDescriptor (segmentAccess i)).directed = false ∧ (flatDescriptor (segmentAccess i)).permitted = true ∧
      (flatDescriptor (segmentAccess i)).dpl = segmentRing i := by
  interval_cases i <;> decide

section

variable (hkeep : Marked t.entries 5 (gdtFilled t m) m') (cpl : BitVec 2) (selector : KUint16)
include hkeep

theorem loadCode_gdtFilled : (loadCode m' ⟨39#16, t.entries⟩ cpl selector).isSome ↔ localTable selector = false ∧
    (index selector = 1 ∨ index selector = 3) ∧ cpl = segmentRing (index selector) ∧ rpl selector ≤ cpl := by
  unfold loadCode
  rw [load_isSome_iff (mayCode_unmarked cpl selector) (lookup_gdtFilled hkeep selector), mayCode]
  constructor
  · rintro ⟨⟨hlocal, h1, h4⟩, h⟩
    obtain ⟨hp, hc, he, hd, hw, hr⟩ := segment_fields h1 h4
    simp [hp, hc, he, hd, hr] at h
    exact ⟨hlocal, h.1, h.2.1.symm, h.2.2⟩
  · rintro ⟨hlocal, hi, hcpl, hrpl⟩
    obtain ⟨hp, hc, he, hd, hw, hr⟩ := @segment_fields (index selector) (by omega) (by omega)
    refine ⟨⟨hlocal, by omega, by omega⟩, ?_⟩
    simp [hp, hc, he, hd, hr, hi, ← hcpl]
    exact hrpl

theorem loadStack_gdtFilled : (loadStack m' ⟨39#16, t.entries⟩ cpl selector).isSome ↔ localTable selector = false ∧
    (index selector = 2 ∨ index selector = 4) ∧ cpl = segmentRing (index selector) ∧ rpl selector = cpl := by
  unfold loadStack
  rw [load_isSome_iff (mayStack_unmarked cpl selector) (lookup_gdtFilled hkeep selector), mayStack]
  constructor
  · rintro ⟨⟨hlocal, h1, h4⟩, h⟩
    obtain ⟨hp, hc, he, hd, hw, hr⟩ := segment_fields h1 h4
    simp [hp, hc, he, hw, hr] at h
    exact ⟨hlocal, by omega, h.2.1.symm, h.2.2⟩
  · rintro ⟨hlocal, hi, hcpl, hrpl⟩
    obtain ⟨hp, hc, he, hd, hw, hr⟩ := @segment_fields (index selector) (by omega) (by omega)
    refine ⟨⟨hlocal, by omega, by omega⟩, ?_⟩
    simp [hp, hc, he, hw, hr, hrpl, ← hcpl]
    omega

theorem loadData_gdtFilled : (loadData m' ⟨39#16, t.entries⟩ cpl selector).isSome ↔ localTable selector = false ∧
    1 ≤ index selector ∧ index selector ≤ 4 ∧ cpl ≤ segmentRing (index selector) ∧
      rpl selector ≤ segmentRing (index selector) := by
  unfold loadData
  rw [load_isSome_iff (mayData_unmarked cpl selector) (lookup_gdtFilled hkeep selector), mayData]
  constructor
  · rintro ⟨⟨hlocal, h1, h4⟩, h⟩
    obtain ⟨hp, hc, he, hd, hw, hr⟩ := segment_fields h1 h4
    simp [hp, hc, hw, hr] at h
    exact ⟨hlocal, h1, h4, h⟩
  · rintro ⟨hlocal, h1, h4, h⟩
    obtain ⟨hp, hc, he, hd, hw, hr⟩ := segment_fields h1 h4
    refine ⟨⟨hlocal, h1, h4⟩, ?_⟩
    simp [hp, hc, hw, hr, h]

theorem lookup_flat {d : Descriptor} (h : lookup m' ⟨39#16, t.entries⟩ selector = some d) : Flat d := by
  have hunmarked := lookup_gdtFilled hkeep selector
  rw [h, Option.map_some] at hunmarked
  split at hunmarked
  · next hi =>
    intro offset n hn
    rw [← d.unmarked_linear, Option.some.inj hunmarked]
    exact flatDescriptor_flat (segment_fields hi.2.1 hi.2.2).2.2.2.1 offset n hn
  · cases hunmarked

end

/-! ## `gdt_flush` -/

/-- A load of a flat descriptor, after which the table is still the one that was filled, but for marks. -/
def Flushes (t : GdtLayout) (m : Ram) (o : Option (Descriptor × Ram)) : Prop :=
  ∃ d m', o = some (d, m') ∧ Flat d ∧ Marked t.entries 5 (gdtFilled t m) m'

theorem load_flushes (hkeep : Marked t.entries 5 (gdtFilled t m) m') {selector : KUint16} {check : Descriptor → Bool}
    (h : (load m' ⟨39#16, t.entries⟩ selector check).isSome) :
    Flushes t m (load m' ⟨39#16, t.entries⟩ selector check) := by
  obtain ⟨⟨d, m''⟩, hload⟩ := Option.isSome_iff_exists.1 h
  exact ⟨d, m'', hload, lookup_flat hkeep selector (lookup_of_load hload),
    hkeep.trans (Marked.load (by decide) (by decide) hload)⟩

theorem loadDataSegments_flat (hkeep : Marked t.entries 5 (gdtFilled t m) m') {cpl : BitVec 2} {selector : KUint16}
    (h : localTable selector = false ∧ 1 ≤ index selector ∧ index selector ≤ 4 ∧ cpl ≤ segmentRing (index selector) ∧
      rpl selector ≤ segmentRing (index selector)) :
    ∃ data m'', loadDataSegments ⟨39#16, t.entries⟩ cpl selector m' = some (data, m'') ∧ (∀ r, Flat (data r)) ∧
      Marked t.entries 5 (gdtFilled t m) m'' ∧
      ∀ a, (TableRegister.mk 39#16 t.entries).named selector = some a → m'' = mark m' a := by
  obtain ⟨ds, m₁, hds, fds, k₁⟩ := load_flushes hkeep ((loadData_gdtFilled hkeep cpl selector).2 h)
  obtain ⟨es, m₂, hes, fes, k₂⟩ := load_flushes k₁ ((loadData_gdtFilled k₁ cpl selector).2 h)
  obtain ⟨fs, m₃, hfs, ffs, k₃⟩ := load_flushes k₂ ((loadData_gdtFilled k₂ cpl selector).2 h)
  obtain ⟨gs, m₄, hgs, fgs, k₄⟩ := load_flushes k₃ ((loadData_gdtFilled k₃ cpl selector).2 h)
  refine ⟨fun | .ds => ds | .es => es | .fs => fs | .gs => gs, m₄, ?_, fun r => ?_, k₄, fun a ha => ?_⟩
  · unfold loadDataSegments loadData
    simp only [hds, hes, hfs, hgs, Option.bind_some, Option.map_some]
  · cases r with
    | ds => exact fds
    | es => exact fes
    | fs => exact ffs
    | gs => exact fgs
  · rw [memory_of_load hgs ha, memory_of_load hfs ha, memory_of_load hes ha, memory_of_load hds ha, mark_mark, mark_mark,
      mark_mark]

/-- What `gdt_init` leaves. -/
structure GdtLayout.Loaded (t : GdtLayout) (m : Ram) (s : Segments) (m' : Ram) : Prop where
  gdtr : s.gdtr = ⟨39#16, t.entries⟩
  data : ∀ r, Flat (s.data r)
  stack : Flat s.stack
  code : Flat s.code
  table : Marked t.entries 5 (gdtFilled t m) m'
  /-- The loads have marked the descriptors of the kernel's data and code. -/
  memory : m' = mark (mark (gdtFilled t m) (t.entries + 16#32)) (t.entries + 8#32)

/-- The loads of `gdt_flush` go through. -/
theorem gdtInit_loaded (t : GdtLayout) (m : Ram) : ∃ s m', gdtInit t m = some (s, m') ∧ t.Loaded m s m' := by
  have k₀ : Marked t.entries 5 (gdtFilled t m) (gdtFilled t m) := Marked.of_eq fun _ _ => rfl
  obtain ⟨data, m₁, hdata, fdata, k₁, hm₁⟩ := @loadDataSegments_flat t m _ k₀ 0#2 0x10#16 (by decide)
  obtain ⟨stack, m₂, hstack, fstack, k₂⟩ := load_flushes k₁ ((loadStack_gdtFilled k₁ 0#2 0x10#16).2 (by decide))
  obtain ⟨code, m₃, hcode, fcode, k₃⟩ := load_flushes k₂ ((loadCode_gdtFilled k₂ 0#2 0x08#16).2 (by decide))
  refine ⟨⟨⟨39#16, t.entries⟩, data, stack, code⟩, m₃, ?_, rfl, fdata, fstack, fcode, k₃, ?_⟩
  · unfold gdtInit gdtFlush loadStack loadCode
    simp only [gdtFilled_register, hdata, hstack, hcode, Option.bind_some, Option.map_some]
  · have hdataEntry : (TableRegister.mk 39#16 t.entries).named 0x10#16 = some (t.entries + 16#32) := rfl
    have hcodeEntry : (TableRegister.mk 39#16 t.entries).named 0x08#16 = some (t.entries + 8#32) := rfl
    rw [memory_of_load hcode hcodeEntry, memory_of_load hstack hdataEntry, hm₁ _ hdataEntry, mark_mark]

theorem GdtLayout.Loaded.kernelCode {s : Segments} (h : t.Loaded m s m') :
    m' (t.entries + 13#32) ||| 1#8 = m' (t.entries + 13#32) := by
  have haddress : t.entries + 13#32 = t.entries + 8#32 + 5#32 := by rw [BitVec.add_assoc]; rfl
  rw [h.memory, haddress, mark_self, BitVec.or_assoc, BitVec.or_self]

theorem loaded_of_gdtInit {s : Segments} (h : gdtInit t m = some (s, m')) : t.Loaded m s m' := by
  obtain ⟨s₁, m₁, hinit, hloaded⟩ := gdtInit_loaded t m
  rw [h] at hinit
  cases hinit
  exact hloaded

end

end Aeon.Platform
