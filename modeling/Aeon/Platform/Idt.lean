/-
`idt_set_gate` and `idt_init` of `platform/i386/idt.c`. From any memory `idt_init` leaves 48 gates that
lead through the kernel's code segment to the stubs, and none for the other vectors; what reaches
`isr_handler` is the vector of the gate.
-/
import Aeon.Platform.Isr
import Aeon.Platform.Gdt
import Aeon.Platform.Irq

namespace Aeon.Platform

open I386 I8259

/-! ## `idt.c` -/

/-- Where the linker put `g_idt` and `g_idtp`, which do not share a byte. -/
structure IdtLayout where
  idt : KUint32
  ptr : KUint32
  apart : 6 ≤ (idt - ptr).toNat ∧ 2048 ≤ (ptr - idt).toNat

/-- `&g_idt[index]` -/
def IdtLayout.entry (t : IdtLayout) (index : KUint8) : KUint32 := t.idt + 8#32 * index.setWidth 32

section

variable (t : IdtLayout)

def idtSetGate (index : KUint8) (base : KUint32) (segmentSelector : KUint16) (flags : KUint8) (m : Ram) : Ram :=
  let e := t.entry index
  let m := writeU16 m e ((base &&& 0xFFFF#32).setWidth 16)
  let m := writeU16 m (e + 6#32) (((base >>> 16) &&& 0xFFFF#32).setWidth 16)
  let m := writeU16 m (e + 2#32) segmentSelector
  let m := Function.update m (e + 4#32) 0#8
  Function.update m (e + 5#32) flags

/-- The arguments of one call of `idt_set_gate`. -/
structure IdtGate where
  index : KUint8
  base : KUint32
  segmentSelector : KUint16
  flags : KUint8

def IdtGate.set (g : IdtGate) (m : Ram) : Ram := idtSetGate t g.index g.base g.segmentSelector g.flags m

/-- The calls that `idt_init` makes, for `isr_0` … `isr_47`. -/
def idtGates (l : Linkage) : List IdtGate :=
  (List.range 48).map fun n => ⟨BitVec.ofNat 8 n, l.stub n, kernelCodeSegmentIndex, 0x8E#8⟩

/-- The memory as `idt_init` clears the table in it. -/
def idtCleared (m : Ram) : Ram :=
  let m := writeU16 m t.ptr 2047#16
  let m := writeWord m (t.ptr + 2#32) t.idt
  memset t.idt 0#32 (8#32 * 256#32) m

/-- The memory that `idt_init` leaves. -/
def idtInit (l : Linkage) (m : Ram) : Ram := (idtGates l).foldl (fun m g => g.set t m) (idtCleared t m)

/-! ## The gates -/

/-- What a call of `idt_set_gate` is for. -/
def IdtGate.gate (g : IdtGate) : Gate := ⟨g.base, g.segmentSelector, g.flags⟩

theorem limb_upper (v : KUint32) : (v >>> 16).extractLsb' 0 16 = v.extractLsb' 16 16 := by
  ext i hi
  simp

theorem upper_bytes (v : KUint32) : (v.extractLsb' 16 16).extractLsb' 0 8 = v.extractLsb' 16 8 ∧
    (v.extractLsb' 16 16).extractLsb' 8 8 = v.extractLsb' 24 8 := by
  constructor <;> ext i hi <;> interval_cases i <;> simp

/-- The pieces are put where the processor looks for them. -/
theorem IdtGate.readGate_set (g : IdtGate) (m : Ram) : readGate (g.set t m) (t.entry g.index) = g.gate := by
  unfold IdtGate.set IdtGate.gate readGate idtSetGate
  simp only [writeU16, limb_low, limb_upper]
  simp [BitVec.add_assoc, upper_bytes]
  constructor
  · exact bytes_append g.base
  · exact u16_bytes g.segmentSelector

theorem IdtGate.set_outside (g : IdtGate) (m : Ram) {a : KUint32} (h : 8 ≤ (a - t.entry g.index).toNat) :
    g.set t m a = m a := by
  have hne : ∀ i : KUint32, i.toNat < 8 → a ≠ t.entry g.index + i := by
    rintro i hi rfl
    rw [BitVec.add_comm, BitVec.add_sub_cancel] at h
    omega
  have h0 := hne 0#32 (by decide)
  rw [BitVec.add_zero] at h0
  unfold IdtGate.set idtSetGate
  simp only [writeU16, BitVec.add_assoc, BitVec.reduceAdd]
  rw [Function.update_of_ne (hne _ (by decide)), Function.update_of_ne (hne _ (by decide)),
    Function.update_of_ne (hne _ (by decide)), Function.update_of_ne (hne _ (by decide)),
    Function.update_of_ne (hne _ (by decide)), Function.update_of_ne (hne _ (by decide)),
    Function.update_of_ne (hne _ (by decide)), Function.update_of_ne h0]

theorem IdtLayout.entry_eq (index : KUint8) : t.entry index = t.idt + BitVec.ofNat 32 (8 * index.toNat) := by
  unfold IdtLayout.entry
  bv_omega

def idtSetter : EntrySetter IdtGate Gate t.idt where
  read := readGate
  set := IdtGate.set t
  num := fun g => g.index.toNat
  value := IdtGate.gate
  congr := readGate_congr
  read_set := fun g m => by
    rw [← t.entry_eq]
    exact g.readGate_set t m
  outside := fun g m a h => by
    rw [← t.entry_eq] at h
    exact g.set_outside t m h

end

section

variable {t : IdtLayout} {l : Linkage} {m m' : Ram}

theorem idtGates_index : ∀ g ∈ idtGates l, g.index.toNat < 256 := fun g _ => g.index.isLt

/-- `g_idtp` is stored before the table and not touched again. -/
theorem idtInit_register : readTableRegister (idtInit t l m) t.ptr = ⟨2047#16, t.idt⟩ := by
  have happart := t.apart
  rw [← readTableRegister_write m t.ptr 2047#16 t.idt]
  apply readTableRegister_congr
  intro i hi
  refine ((idtSetter t).setAll_outside (show 8 * 256 ≤ 2 ^ 32 by decide) idtGates_index (by bv_omega)).trans ?_
  unfold idtCleared
  rw [memset_apply, if_neg]
  bv_omega

/-- Nothing else changes. -/
theorem idtInit_outside {a : KUint32} (hidt : 2048 ≤ (a - t.idt).toNat) (hptr : 6 ≤ (a - t.ptr).toNat) :
    idtInit t l m a = m a := by
  refine ((idtSetter t).setAll_outside (show 8 * 256 ≤ 2 ^ 32 by decide) idtGates_index hidt).trans ?_
  unfold idtCleared
  have hcleared : ¬(a - t.idt).toNat < (8#32 * 256#32).toNat := by
    show ¬(a - t.idt).toNat < 2048
    omega
  rw [memset_apply, if_neg hcleared]
  unfold writeWord
  rw [if_neg (by bv_omega), writeU16_apply, if_neg (by omega)]

theorem idtCleared_gate {n : Nat} (hn : n < 256) :
    readGate (idtCleared t m) (t.idt + BitVec.ofNat 32 (8 * n)) = ⟨0#32, 0#16, 0#8⟩ := by
  have hzero : ∀ i < 8, idtCleared t m (t.idt + BitVec.ofNat 32 (8 * n) + BitVec.ofNat 32 i) = 0#8 := by
    intro i hi
    unfold idtCleared
    rw [memset_apply, if_pos]
    · rfl
    · bv_omega
  rw [@readGate_congr (fun _ => 0#8) _ _ hzero]
  simp [readGate]

/-- There is one call for each vector below 48. -/
theorem idtGates_foldl (t : IdtLayout) (l : Linkage) (table : Nat → Gate) (n : Nat) :
    (idtGates l).foldl (idtSetter t).put table n =
      if n < 48 then ⟨l.stub n, kernelCodeSegmentIndex, 0x8E#8⟩ else table n := by
  have h : ∀ k ≤ 256, ((List.range k).map fun n =>
      IdtGate.mk (BitVec.ofNat 8 n) (l.stub n) kernelCodeSegmentIndex 0x8E#8).foldl (idtSetter t).put table n =
        if n < k then ⟨l.stub n, kernelCodeSegmentIndex, 0x8E#8⟩ else table n := by
    intro k hk
    induction k with
    | zero => rfl
    | succ k ih =>
      have hnum : (BitVec.ofNat 8 k).toNat = k := by
        rw [BitVec.toNat_ofNat]
        omega
      rw [List.range_succ, List.map_append, List.foldl_append, List.map_singleton, List.foldl_cons, List.foldl_nil,
        EntrySetter.put_apply, ih (by omega),
        show (idtSetter t).num ⟨BitVec.ofNat 8 k, l.stub k, kernelCodeSegmentIndex, 0x8E#8⟩ = k from hnum]
      -- the last call is the one for vector `k`
      by_cases hnk : n = k
      · rw [if_pos hnk, if_pos (by omega), hnk]
        rfl
      · rw [if_neg hnk]
        exact if_congr (by omega) rfl rfl
  exact h 48 (by omega)

theorem idtInit_gate {n : Nat} (hn : n < 256) :
    readGate (idtInit t l m) (t.idt + BitVec.ofNat 32 (8 * n)) =
      if n < 48 then ⟨l.stub n, kernelCodeSegmentIndex, 0x8E#8⟩ else ⟨0#32, 0#16, 0#8⟩ := by
  have h := (idtSetter t).table_setAll (show 8 * 256 ≤ 2 ^ 32 by decide) (@idtGates_index l)
    (fun i _ => rfl : ∀ i < 256, (idtSetter t).table (idtCleared t m) i = (idtSetter t).table (idtCleared t m) i) n hn
  refine h.trans ((idtGates_foldl t l _ n).trans ?_)
  by_cases hlt : n < 48
  · rw [if_pos hlt, if_pos hlt]
  · rw [if_neg hlt, if_neg hlt]
    exact idtCleared_gate hn

end

/-! ## From the vector to `isr_handler` -/

theorem isrStub_stack (n : Nat) {s : Cpu} {ws : List KUint32} (h : s.Stack ws) (hl : ws.length ≤ 4) :
    ∃ ws', ws'.length ≤ 5 ∧ (execAll (isrStub n) s).Stack (BitVec.ofNat 32 n :: ws') := by
  have h0 : (Instr.exec .cli s).Stack ws := h.of_eq rfl rfl
  by_cases hn : n ∈ errcodeVectors
  · rw [isrStub_errcode hn]
    refine ⟨0#32 :: ws, by simp; omega, ?_⟩
    exact (h0.push 0#32 (by omega)).push (BitVec.ofNat 32 n) (by simp only [List.length_cons]; omega)
  · rw [isrStub_noerrcode hn]
    exact ⟨ws, by omega, h0.push (BitVec.ofNat 32 n) (by omega)⟩

theorem deliver_stack (s : Cpu) (errorCode : Option KUint32) (selector : KUint16) (entry : KUint32) :
    ∃ ws, ws.length ≤ 4 ∧ (s.deliver errorCode selector entry).Stack ws := by
  have h3 := ((Cpu.Stack.push (show s.Stack [] from trivial) s.eflags (by simp)).push (s.cs.setWidth 32)
    (by simp)).push s.eip (by simp)
  unfold Cpu.deliver
  cases errorCode with
  | none => exact ⟨_, by simp, h3.of_eq rfl rfl⟩
  | some e => exact ⟨_, by simp, (h3.push e (by simp)).of_eq rfl rfl⟩

theorem readRegisters_intNo {m : Memory} {a x esp intNo : KUint32} {g : Gpr → KUint32} {ws : List KUint32}
    (h : Holds m a (x :: (savedGprs g esp ++ intNo :: ws))) : (readRegisters m a).intNo = intNo := by
  simp only [savedGprs, List.cons_append, List.nil_append, Holds, BitVec.add_assoc, BitVec.reduceAdd] at h
  obtain ⟨-, -, -, -, -, -, -, -, -, h9, -⟩ := h
  exact h9

/-- The handler sees the vector, whatever else is on the stack. -/
theorem presented_intNo (l : Linkage) (n : Nat) (errorCode : KUint32) (s : Cpu) :
    (presented l n errorCode s).intNo = BitVec.ofNat 32 n := by
  obtain ⟨ws, hlen, hdelivered⟩ := deliver_stack s (if pushesErrorCode n then some errorCode else none)
    kernelCodeSegmentIndex (l.stub n)
  obtain ⟨ws', hlen', hstub⟩ := isrStub_stack n hdelivered hlen
  have hentry := commonEntry_stack hstub (by simp only [List.length_cons]; omega)
  have hcalled := hentry.push l.returnAddress (by simp [savedGprs]; omega)
  exact readRegisters_intNo hcalled.2

/-! ## Through the tables -/

section

variable {g : GdtLayout} {t : IdtLayout} {l : Linkage} {m m₀ m' : Ram} {segs : Segments} {s : Cpu}

/-- The gates as the processor finds them, as long as the table is as it was left. -/
theorem entry_idtr (t : IdtLayout) (v : KUint8) :
    (TableRegister.mk 2047#16 t.idt).entry v.toNat = some (t.idt + BitVec.ofNat 32 (8 * v.toNat)) := by
  have hv := v.isLt
  unfold TableRegister.entry
  exact if_pos (show 8 * v.toNat + 7 ≤ 2047 by omega)

/-- The kernel's code is loaded again at each interrupt, and was marked when `gdt_init` loaded it. -/
theorem loadCode_kernel (hloaded : g.Loaded m segs m₀) (hgdt : Marked g.entries 5 m₀ m') :
    ∃ d, loadCode m' segs.gdtr 0#2 kernelCodeSegmentIndex = some (d, m') ∧ Flat d := by
  have hkeep := hloaded.table.trans hgdt
  have hmarked : m' (g.entries + 13#32) ||| 1#8 = m' (g.entries + 13#32) := by
    rcases hgdt (g.entries + 13#32) (by bv_omega) with heq | ⟨-, heq⟩
    · rw [heq, hloaded.kernelCode]
    · rw [heq, BitVec.or_assoc, BitVec.or_self]
  rw [hloaded.gdtr]
  have hsome := (loadCode_gdtFilled hkeep 0#2 kernelCodeSegmentIndex).2 (by decide)
  obtain ⟨⟨d, m₁⟩, hload⟩ := Option.isSome_iff_exists.1 hsome
  have hflat : Flat d := lookup_flat hkeep kernelCodeSegmentIndex (lookup_of_load hload)
  obtain ⟨a, ha, -, -, hm₁⟩ := load_eq_some_iff.1 hload
  obtain rfl : g.entries + 8#32 = a := Option.some.inj ha
  have haddress : g.entries + 8#32 + 5#32 = g.entries + 13#32 := by rw [BitVec.add_assoc]; rfl
  rw [mark_of_marked (haddress ▸ hmarked)] at hm₁
  exact ⟨d, hm₁ ▸ hload, hflat⟩

theorem through_idtInit (hloaded : g.Loaded m segs m₀) (hgdt : Marked g.entries 5 m₀ s.memory)
    (hidt : ∀ a, (a - t.idt).toNat < 2048 → s.memory a = idtInit t l m' a) (hring : s.cs.extractLsb' 0 2 = 0#2)
    (v : KUint8) (errorCode : Option KUint32) :
    s.through segs.gdtr ⟨2047#16, t.idt⟩ v errorCode =
      if v.toNat < 48 then
        some (s.deliver errorCode kernelCodeSegmentIndex (l.stub v.toNat), l.stub v.toNat)
      else none := by
  have hv := v.isLt
  have hgate : readGate s.memory (t.idt + BitVec.ofNat 32 (8 * v.toNat)) =
      if v.toNat < 48 then ⟨l.stub v.toNat, kernelCodeSegmentIndex, 0x8E#8⟩ else ⟨0#32, 0#16, 0#8⟩ := by
    rw [← @idtInit_gate t l m' _ hv]
    apply readGate_congr
    intro k hk
    apply hidt
    bv_omega
  unfold Cpu.through
  rw [entry_idtr, Option.bind_some, hgate]
  by_cases h : v.toNat < 48
  · obtain ⟨code, hcode, hflat⟩ := loadCode_kernel hloaded hgdt
    have haddress := hflat (l.stub v.toNat) 1 (l.stub v.toNat).isLt
    have hinterrupt : (Gate.mk (l.stub v.toNat) kernelCodeSegmentIndex 0x8E#8).interrupt = true := by
      simp [Gate.interrupt]
    simp only [if_pos h, hinterrupt, if_true, hring, hcode, Option.bind_some, haddress, Option.map_some]
  · -- a cleared gate is not present
    rw [if_neg h, if_neg h]
    rfl

/-- The tables that `gdt_init` and `idt_init` left, whatever descriptors are marked since, take each of the
vectors below 48 to the first instruction of its stub and no other vector anywhere; the stub hands its
own vector to `isr_handler`, which sends what is due to the controllers for the vectors of the lines. -/
theorem idtInit_delivers (hinit : gdtInit g m = some (segs, m₀)) (hgdt : Marked g.entries 5 m₀ s.memory)
    (hidt : ∀ a, (a - t.idt).toNat < 2048 → s.memory a = idtInit t l m' a) (hring : s.cs.extractLsb' 0 2 = 0#2)
    (v : KUint8) (errorCode : KUint32) :
    (s.through segs.gdtr (readTableRegister (idtInit t l m') t.ptr) v
        (if pushesErrorCode v.toNat then some errorCode else none) =
      if v.toNat < 48 then
        some (s.deliver (if pushesErrorCode v.toNat then some errorCode else none) kernelCodeSegmentIndex
          (l.stub v.toNat), l.stub v.toNat)
      else none) ∧
    (presented l v.toNat errorCode s).intNo = v.setWidth 32 ∧
    handlerWrites (presented l v.toNat errorCode s).intNo =
      if 32 ≤ v.toNat ∧ v.toNat < 48 then eoiWrites (BitVec.ofNat 32 (v.toNat - 32)) else [] := by
  have hv := v.isLt
  have hno : BitVec.ofNat 32 v.toNat = v.setWidth 32 := by bv_omega
  rw [idtInit_register, presented_intNo]
  refine ⟨through_idtInit (loaded_of_gdtInit hinit) hgdt hidt hring v _, hno, ?_⟩
  unfold handlerWrites
  have hline : (32#32 ≤ BitVec.ofNat 32 v.toNat ∧ BitVec.ofNat 32 v.toNat ≤ 47#32) ↔ 32 ≤ v.toNat ∧ v.toNat < 48 := by
    bv_omega
  by_cases h : 32 ≤ v.toNat ∧ v.toNat < 48
  · rw [if_pos (hline.2 h), if_pos h]
    congr 1
    bv_omega
  · rw [if_neg (mt hline.1 h), if_neg h]

/-- In a run of the controllers, an interrupt they hand out is that of one of the fifteen lines, and
reaches the stub of the line's vector; `isr_handler` acknowledges that line. -/
theorem irq_delivered (hinit : gdtInit g m = some (segs, m₀)) (hgdt : Marked g.entries 5 m₀ s.memory)
    (hidt : ∀ a, (a - t.idt).toNat < 2048 → s.memory a = idtInit t l m' a) (hring : s.cs.extractLsb' 0 2 = 0#2)
    {p q : Pair} {v : KUint8} {todo : List PortWrite} (hp : p.Idle)
    (h : Run.Reach Pc.Step (Pc.start p) ⟨q, .handling v todo⟩) :
    ∃ irq : Fin 16, irq ≠ 2 ∧ v.toNat = 32 + irq ∧
      s.through segs.gdtr (readTableRegister (idtInit t l m') t.ptr) v none =
        some (s.deliver none kernelCodeSegmentIndex (l.stub (32 + irq)), l.stub (32 + irq)) ∧
      handlerWrites (presented l (32 + irq) 0#32 s).intNo = eoiWrites (BitVec.ofNat 32 irq) := by
  obtain ⟨-, -, ⟨hlow, hhigh, hne⟩, -⟩ := Pc.Inv.run hp h
  have hirq : 32 + (v.toNat - 32) = v.toNat := by omega
  refine ⟨⟨v.toNat - 32, by omega⟩, ?_, hirq.symm, ?_, ?_⟩
  · rw [Ne, Fin.ext_iff]
    show ¬v.toNat - 32 = 2
    omega
  · rw [idtInit_register, through_idtInit (loaded_of_gdtInit hinit) hgdt hidt hring, if_pos hhigh]
    simp only [hirq]
  · simp only [hirq]
    rw [presented_intNo]
    unfold handlerWrites
    rw [if_pos (by bv_omega)]
    congr 1
    bv_omega

end

/-! ## After both -/

def kernelIdt : IdtLayout := ⟨0xC0106000#32, 0xC0106800#32, by decide⟩

/-- The memory after `idt_init`, where `gdt_init` left `m`. -/
def tablesRam (m : Ram) : Ram := idtInit kernelIdt kernelLinkage m

theorem tablesRam_gdt (m : Ram) : Marked kernelGdt.entries 5 m (tablesRam m) := by
  refine Marked.of_eq fun a ha => ?_
  unfold kernelGdt at ha
  apply idtInit_outside
  · unfold kernelIdt
    bv_omega
  · unfold kernelIdt
    bv_omega

theorem kernelCpu_ring : kernelCpu.cs.extractLsb' 0 2 = 0#2 := by decide

/-- The timer's interrupt of kernel code, and its acknowledgement. -/
theorem idtInit_delivers_timer : ∃ segs m₀, gdtInit kernelGdt (fun _ => 0#8) = some (segs, m₀) ∧
    ({ kernelCpu with memory := tablesRam m₀ } : Cpu).through segs.gdtr (readTableRegister (tablesRam m₀) kernelIdt.ptr)
        32#8 none =
      some (({ kernelCpu with memory := tablesRam m₀ } : Cpu).deliver none kernelCodeSegmentIndex 0xC0101200#32,
        0xC0101200#32) ∧
    (presented kernelLinkage 32 0#32 { kernelCpu with memory := tablesRam m₀ }).intNo = 32#32 ∧
    handlerWrites (presented kernelLinkage 32 0#32 { kernelCpu with memory := tablesRam m₀ }).intNo =
      eoiWrites 0#32 := by
  obtain ⟨segs, m₀, hinit, -⟩ := gdtInit_loaded kernelGdt fun _ => 0#8
  have hdelivers := @idtInit_delivers kernelGdt kernelIdt kernelLinkage (fun _ => 0#8) m₀ m₀ segs
    { kernelCpu with memory := tablesRam m₀ } hinit (tablesRam_gdt m₀) (fun _ _ => rfl) kernelCpu_ring 32#8 0#32
  exact ⟨segs, m₀, hinit, hdelivers.1, hdelivers.2.1, hdelivers.2.2.trans (if_pos (by decide))⟩

/-- The keyboard's interrupt of kernel code. -/
theorem irq_delivered_keyboard : ∃ segs m₀, gdtInit kernelGdt (fun _ => 0#8) = some (segs, m₀) ∧
    ∃ irq : Fin 16, irq ≠ 2 ∧ (33#8).toNat = 32 + irq ∧
      ({ kernelCpu with memory := tablesRam m₀ } : Cpu).through segs.gdtr
          (readTableRegister (tablesRam m₀) kernelIdt.ptr) 33#8 none =
        some (({ kernelCpu with memory := tablesRam m₀ } : Cpu).deliver none kernelCodeSegmentIndex
          (kernelLinkage.stub (32 + irq)), kernelLinkage.stub (32 + irq)) ∧
      handlerWrites (presented kernelLinkage (32 + irq) 0#32 { kernelCpu with memory := tablesRam m₀ }).intNo =
        eoiWrites (BitVec.ofNat 32 irq) := by
  obtain ⟨segs, m₀, hinit, -⟩ := gdtInit_loaded kernelGdt fun _ => 0#8
  obtain ⟨q, todo, h⟩ := keyboardPair_handled
  exact ⟨segs, m₀, hinit, @irq_delivered kernelGdt kernelIdt kernelLinkage (fun _ => 0#8) m₀ m₀ segs
    { kernelCpu with memory := tablesRam m₀ } hinit (tablesRam_gdt m₀) (fun _ _ => rfl) kernelCpu_ring _ _ _ _
    biosPair_idle h⟩

end Aeon.Platform
