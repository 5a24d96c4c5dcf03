/-
Interrupt entry and exit: the stubs `isr_0` … `isr_47` and `isr_common_stub` of
`platform/i386/idt.s`, and the `registers_t` they build for `isr_handler`. An interrupted state is
restored exactly when the words the processor and the stub push under the saved registers are the
five that the return path takes off.
-/
import Aeon.Klibc.Types
import Aeon.Lib.I386

namespace Aeon.Platform

open I386

/-! ## `idt.s` and `registers_t` -/

structure Registers where
  ds : KUint32
  edi : KUint32
  esi : KUint32
  ebp : KUint32
  esp : KUint32
  ebx : KUint32
  edx : KUint32
  ecx : KUint32
  eax : KUint32
  intNo : KUint32
  errCode : KUint32
  eip : KUint32
  cs : KUint32
  eflags : KUint32
  useresp : KUint32
  ss : KUint32

/-- A packed `registers_t` at address `a`. -/
def readRegisters (m : Memory) (a : KUint32) : Registers where
  ds := readWord m a
  edi := readWord m (a + 4#32)
  esi := readWord m (a + 8#32)
  ebp := readWord m (a + 12#32)
  esp := readWord m (a + 16#32)
  ebx := readWord m (a + 20#32)
  edx := readWord m (a + 24#32)
  ecx := readWord m (a + 28#32)
  eax := readWord m (a + 32#32)
  intNo := readWord m (a + 36#32)
  errCode := readWord m (a + 40#32)
  eip := readWord m (a + 44#32)
  cs := readWord m (a + 48#32)
  eflags := readWord m (a + 52#32)
  useresp := readWord m (a + 56#32)
  ss := readWord m (a + 60#32)

/-- The macro `ISR_ERRCODE`, up to its `jmp isr_common_stub`. -/
def isrErrcode (idx : Nat) : List Instr := [.cli, .pushImm 0#32, .pushImm (BitVec.ofNat 32 idx)]

/-- The macro `ISR_NOERRCODE`, up to its `jmp isr_common_stub`. -/
def isrNoerrcode (idx : Nat) : List Instr := [.cli, .pushImm (BitVec.ofNat 32 idx)]

/-- `isr_0` … `isr_47`. -/
def isrStub : Nat → List Instr
  | 8 => isrErrcode 8
  | 10 => isrErrcode 10
  | 11 => isrErrcode 11
  | 12 => isrErrcode 12
  | 13 => isrErrcode 13
  | 14 => isrErrcode 14
  | idx => isrNoerrcode idx

/-- `isr_common_stub` up to `call isr_handler`. -/
def isrCommonStubEntry : List Instr :=
  [.pusha,
   .movFromSeg .ds .eax,
   .pushReg .eax,
   .movImm16 0x10#16 .eax,
   .movToSeg .eax .ds,
   .movToSeg .eax .es,
   .movToSeg .eax .fs,
   .movToSeg .eax .gs]

/-- `isr_common_stub` from `call isr_handler` on, up to `iret`. -/
def isrCommonStubReturn : List Instr :=
  [.popReg .ebx,
   .movToSeg .ebx .ds,
   .movToSeg .ebx .es,
   .movToSeg .ebx .fs,
   .movToSeg .ebx .gs,
   .popa,
   .addImm 8#32 .esp,
   .sti]

/-! ## From the interrupt to `iret` -/

/-- The vectors for which the processor pushes an error code. -/
def pushesErrorCode : Nat → Bool
  | 8 | 10 | 11 | 12 | 13 | 14 | 17 => true
  | _ => false

/-- `KERNEL_CODE_SEGMENT_INDEX`, the selector of every gate. -/
def kernelCodeSegmentIndex : KUint16 := 0x08#16

/-- Addresses the linker assigns: the stubs, and the instruction after `call isr_handler`. -/
structure Linkage where
  stub : Nat → KUint32
  returnAddress : KUint32

/-- What `isr_handler` does to the processor, as far as the stub relies on it: it returns, and its
stacked argument is as it was. -/
structure IsrHandler where
  run : Cpu → Cpu
  returns : ∀ s, (run s).gpr .esp = s.gpr .esp + 4#32
  argument : ∀ s, ∀ i < 16, readWord (run s).memory (s.gpr .esp + 4#32 + BitVec.ofNat 32 (4 * i)) =
    readWord s.memory (s.gpr .esp + 4#32 + BitVec.ofNat 32 (4 * i))

/-- The processor at the first instruction of `isr_handler`, after vector `n` interrupted `s`. -/
def handlerEntry (l : Linkage) (n : Nat) (errorCode : KUint32) (s : Cpu) : Cpu :=
  let delivered := s.deliver (if pushesErrorCode n then some errorCode else none) kernelCodeSegmentIndex (l.stub n)
  (execAll isrCommonStubEntry (execAll (isrStub n) delivered)).push l.returnAddress

/-- The processor after the `iret` that ends the interrupt. -/
def interrupt (l : Linkage) (handler : IsrHandler) (n : Nat) (errorCode : KUint32) (s : Cpu) : Option Cpu :=
  (execAll isrCommonStubReturn (handler.run (handlerEntry l n errorCode s))).iret

/-- The `registers_t` that `isr_handler` is given. -/
def presented (l : Linkage) (n : Nat) (errorCode : KUint32) (s : Cpu) : Registers :=
  readRegisters (handlerEntry l n errorCode s).memory ((handlerEntry l n errorCode s).gpr .esp + 4#32)

/-- The handler sees the vector and the interrupted state, and the interrupt returns to it. -/
structure Transparent (l : Linkage) (handler : IsrHandler) (n : Nat) (errorCode : KUint32) (s : Cpu) : Prop where
  intNo : (presented l n errorCode s).intNo = BitVec.ofNat 32 n
  eip : (presented l n errorCode s).eip = s.eip
  cs : (presented l n errorCode s).cs = s.cs.setWidth 32
  eflags : (presented l n errorCode s).eflags = s.eflags
  resumes : ∃ s', interrupt l handler n errorCode s = some s' ∧ s'.eip = s.eip ∧ s'.cs = s.cs ∧
    s'.eflags = s.eflags ∧ s'.gpr = s.gpr ∧ s'.data = s.data

/-! ## The common stub -/

/-- On entry the common stub saves `ds` and the general registers above what was there. -/
theorem commonEntry_stack {s : Cpu} {ws : List KUint32} (h : s.Stack ws) (hl : 4 * ws.length + 36 ≤ 2 ^ 32) :
    (execAll isrCommonStubEntry s).Stack
      (setLow16 (s.gpr .eax) (s.data .ds) :: (savedGprs s.gpr (s.gpr .esp) ++ ws)) := by
  have h1 : (Instr.exec (.movFromSeg .ds .eax) s.pusha).Stack (savedGprs s.gpr (s.gpr .esp) ++ ws) :=
    (h.pusha (by omega)).of_eq rfl (Cpu.setGpr_ne _ _ (by decide))
  have h2 := h1.push ((Instr.exec (.movFromSeg .ds .eax) s.pusha).gpr .eax)
    (by simp only [savedGprs, List.length_append, List.length_cons, List.length_nil]; omega)
  have heax : (Instr.exec (.movFromSeg .ds .eax) s.pusha).gpr .eax = setLow16 (s.gpr .eax) (s.data .ds) := by
    rw [Instr.exec, Cpu.setGpr_self, Cpu.pusha_gpr s (by decide), Cpu.pusha_data]
  rw [heax] at h2
  -- the loads of the kernel's data segment leave memory and the stack pointer alone
  refine h2.of_eq ?_ ?_
  · simp only [isrCommonStubEntry, execAll, Instr.exec, Cpu.setData_memory, Cpu.setGpr_memory]
    rw [← heax]
    rfl
  · simp only [isrCommonStubEntry, execAll, Instr.exec, Cpu.setData_gpr]
    rw [Cpu.setGpr_ne _ _ (by decide), Cpu.push_esp, Cpu.push_esp]

theorem commonEntry_esp (s : Cpu) : (execAll isrCommonStubEntry s).gpr .esp = s.gpr .esp - 36#32 := by
  simp only [isrCommonStubEntry, execAll, Instr.exec, Cpu.setData_gpr]
  rw [Cpu.setGpr_ne _ _ (by decide), Cpu.push_esp, Cpu.setGpr_ne _ _ (by decide), Cpu.pusha_esp]
  bv_omega

def loadData (v : KUint16) (s : Cpu) : Cpu := (((s.setData .ds v).setData .es v).setData .fs v).setData .gs v

theorem loadData_data (v : KUint16) (s : Cpu) (d : DataSeg) : (loadData v s).data d = v := by
  cases d <;> simp [loadData, Cpu.setData, Function.update]

/-- The return path restores the data segments and the general registers, and takes two more words
off the stack. -/
theorem commonReturn_stack {s : Cpu} {x esp v w : KUint32} {g : Gpr → KUint32} {ws : List KUint32}
    (h : s.Stack (x :: (savedGprs g esp ++ v :: w :: ws))) :
    (execAll isrCommonStubReturn s).Stack ws ∧
      (∀ r, r ≠ .esp → (execAll isrCommonStubReturn s).gpr r = g r) ∧
      ∀ d, (execAll isrCommonStubReturn s).data d = x.setWidth 16 := by
  obtain ⟨h1, hebx⟩ := h.pop (r := .ebx) (by decide)
  have hrun : execAll isrCommonStubReturn s =
      Instr.exec .sti ((loadData (x.setWidth 16) (s.pop .ebx)).popa.drop 8#32) := by
    simp only [isrCommonStubReturn, execAll, Instr.exec, Cpu.setData_gpr, hebx]
    rfl
  have h2 : (loadData (x.setWidth 16) (s.pop .ebx)).Stack (savedGprs g esp ++ v :: w :: ws) := h1.of_eq rfl rfl
  obtain ⟨h3, hgpr⟩ := h2.popa
  have hdata : ∀ d, (loadData (x.setWidth 16) (s.pop .ebx)).popa.data d = x.setWidth 16 := loadData_data _ _
  generalize (loadData (x.setWidth 16) (s.pop .ebx)).popa = t at hrun h3 hgpr hdata
  have h4 : (t.drop 8#32).Stack ws := by
    have := h3.drop.drop
    rwa [Cpu.drop_drop] at this
  rw [hrun]
  refine ⟨h4.of_eq rfl rfl, fun r hr => ?_, hdata⟩
  rw [Instr.exec, Cpu.setFlags_gpr, Cpu.drop_gpr _ _ hr, hgpr r hr]

theorem commonReturn_esp (s : Cpu) : (execAll isrCommonStubReturn s).gpr .esp = s.gpr .esp + 44#32 := by
  simp only [isrCommonStubReturn, execAll, Instr.exec, Cpu.setFlags_gpr, Cpu.setGpr_self, Cpu.popa_esp,
    Cpu.setData_gpr]
  rw [Cpu.pop_esp _ (by decide)]
  bv_omega

/-! ## The words under the saved registers -/

/-- The vectors whose stub is made by `ISR_ERRCODE`. -/
def errcodeVectors : List Nat := [8, 10, 11, 12, 13, 14]

theorem isrStub_errcode {n : Nat} (h : n ∈ errcodeVectors) : isrStub n = isrErrcode n := by
  simp only [errcodeVectors, List.mem_cons, List.not_mem_nil, or_false] at h
  rcases h with rfl | rfl | rfl | rfl | rfl | rfl <;> rfl

theorem isrStub_noerrcode {n : Nat} (h : n ∉ errcodeVectors) : isrStub n = isrNoerrcode n := by
  simp only [errcodeVectors, List.mem_cons, List.not_mem_nil, or_false, not_or] at h
  unfold isrStub
  split <;> first | omega | rfl

/-- The number of words that the processor and the stub push under the saved registers. -/
def wordsPushed (n : Nat) : Nat :=
  (if pushesErrorCode n then 4 else 3) + (if n ∈ errcodeVectors then 2 else 1)

/-- Five words are what the return path takes off: two by the stub, three by `iret`. -/
theorem wordsPushed_eq_five : ∀ n < 48, wordsPushed n = 5 ↔ n = 17 := by decide

theorem handlerEntry_esp (l : Linkage) (n : Nat) (errorCode : KUint32) (s : Cpu) :
    (handlerEntry l n errorCode s).gpr .esp = s.gpr .esp - BitVec.ofNat 32 (40 + 4 * wordsPushed n) := by
  have hstub : ∀ t : Cpu, (execAll (isrStub n) t).gpr .esp =
      t.gpr .esp - BitVec.ofNat 32 (4 * if n ∈ errcodeVectors then 2 else 1) := fun t => by
    by_cases hn : n ∈ errcodeVectors
    · rw [isrStub_errcode hn, if_pos hn]
      simp only [isrErrcode, execAll, Instr.exec, Cpu.push_esp, Cpu.setFlags_gpr]
      bv_omega
    · rw [isrStub_noerrcode hn, if_neg hn]
      simp only [isrNoerrcode, execAll, Instr.exec, Cpu.push_esp, Cpu.setFlags_gpr]
  have hdeliver : (s.deliver (if pushesErrorCode n then some errorCode else none) kernelCodeSegmentIndex
      (l.stub n)).gpr .esp = s.gpr .esp - BitVec.ofNat 32 (4 * if pushesErrorCode n then 4 else 3) := by
    unfold Cpu.deliver
    split <;> rename_i he <;> split at he <;> cases he
    · rename_i hp
      simp only [hp, if_true, Cpu.push_esp]
      bv_omega
    · rename_i hp
      simp only [hp, if_false, Cpu.push_esp, Bool.false_eq_true]
      bv_omega
  rw [handlerEntry, Cpu.push_esp, commonEntry_esp, hstub, hdeliver, wordsPushed]
  split <;> split <;> bv_omega

/-- An interrupt that returns moves the stack pointer by five words up and the words pushed down. -/
theorem interrupt_esp {l : Linkage} {handler : IsrHandler} {n : Nat} {errorCode : KUint32} {s s' : Cpu}
    (h : interrupt l handler n errorCode s = some s') :
    s'.gpr .esp = s.gpr .esp + 20#32 - BitVec.ofNat 32 (4 * wordsPushed n) := by
  rw [Cpu.iret_esp h, commonReturn_esp, handler.returns, handlerEntry_esp]
  bv_omega

/-! ## The vector whose frame fits -/

theorem savedGprs_congr {g g' : Gpr → KUint32} (h : ∀ r, r ≠ .esp → g r = g' r) (esp : KUint32) :
    savedGprs g esp = savedGprs g' esp := by
  simp only [savedGprs, h _ (by decide : Gpr.edi ≠ .esp), h _ (by decide : Gpr.esi ≠ .esp),
    h _ (by decide : Gpr.ebp ≠ .esp), h _ (by decide : Gpr.ebx ≠ .esp), h _ (by decide : Gpr.edx ≠ .esp),
    h _ (by decide : Gpr.ecx ≠ .esp), h _ (by decide : Gpr.eax ≠ .esp)]

/-- For vector 17 the processor's error code stands where the return path expects one. -/
theorem handlerEntry_stack (l : Linkage) (errorCode : KUint32) (s : Cpu) :
    ∃ esp, (handlerEntry l 17 errorCode s).Stack (l.returnAddress :: setLow16 (s.gpr .eax) (s.data .ds) ::
      (savedGprs s.gpr esp ++ [17#32, errorCode, s.eip, s.cs.setWidth 32, s.eflags])) := by
  have h0 : s.Stack [] := trivial
  have h4 := (((h0.push s.eflags (by simp)).push (s.cs.setWidth 32) (by simp)).push s.eip (by simp)).push
    errorCode (by simp)
  -- the processor after the stub proper
  have ht : (execAll (isrStub 17) (s.deliver (some errorCode) kernelCodeSegmentIndex (l.stub 17))).Stack
      [17#32, errorCode, s.eip, s.cs.setWidth 32, s.eflags] :=
    Cpu.Stack.push (h4.of_eq rfl rfl) 17#32 (by simp)
  have hgpr : ∀ r, r ≠ .esp →
      (execAll (isrStub 17) (s.deliver (some errorCode) kernelCodeSegmentIndex (l.stub 17))).gpr r = s.gpr r :=
    fun r hr => by
      show ((((((s.push s.eflags).push (s.cs.setWidth 32)).push s.eip).push errorCode).push 17#32)).gpr r = _
      simp only [Cpu.push_gpr _ _ hr]
  have hdata : (execAll (isrStub 17) (s.deliver (some errorCode) kernelCodeSegmentIndex (l.stub 17))).data = s.data :=
    rfl
  have hentry := (commonEntry_stack ht (by simp)).push l.returnAddress (by simp [savedGprs])
  rw [savedGprs_congr hgpr, hgpr .eax (by decide), hdata] at hentry
  exact ⟨_, hentry⟩

theorem IsrHandler.stack (handler : IsrHandler) {s : Cpu} {ret : KUint32} {ws : List KUint32}
    (h : s.Stack (ret :: ws)) (hl : ws.length ≤ 16) : (handler.run s).Stack ws := by
  rw [Cpu.Stack, handler.returns]
  exact h.2.congr fun i hi => handler.argument s i (by omega)

theorem readRegisters_frame {m : Memory} {a x esp intNo errCode eip cs eflags : KUint32} {g : Gpr → KUint32}
    (h : Holds m a (x :: (savedGprs g esp ++ [intNo, errCode, eip, cs, eflags]))) :
    (readRegisters m a).intNo = intNo ∧ (readRegisters m a).eip = eip ∧ (readRegisters m a).cs = cs ∧
      (readRegisters m a).eflags = eflags := by
  simp only [savedGprs, List.cons_append, List.nil_append, Holds, BitVec.add_assoc, BitVec.reduceAdd] at h
  obtain ⟨-, -, -, -, -, -, -, -, -, h9, -, h11, h12, h13, -⟩ := h
  exact ⟨h9, h11, h12, h13⟩

/-- Vector 17 is transparent: the handler sees the interrupted state and the interrupt returns to it. -/
theorem transparent_alignmentCheck (l : Linkage) (handler : IsrHandler) (errorCode : KUint32) {s : Cpu}
    (hring : s.cs &&& 3#16 = 0#16) (hdata : ∀ d, s.data d = s.data .ds) :
    Transparent l handler 17 errorCode s := by
  obtain ⟨esp, hentry⟩ := handlerEntry_stack l errorCode s
  obtain ⟨hno, heip, hcs, hflags⟩ := readRegisters_frame hentry.2
  obtain ⟨hret, hgpr, hsegs⟩ := commonReturn_stack (handler.stack hentry (by simp [savedGprs]))
  have hresume : interrupt l handler 17 errorCode s = _ := hret.iret hring
  have hesp := interrupt_esp hresume
  generalize execAll isrCommonStubReturn (handler.run (handlerEntry l 17 errorCode s)) = t at hgpr hsegs hresume hesp
  refine ⟨hno, heip, hcs, hflags, _, hresume, rfl, rfl, rfl, ?_, ?_⟩
  · funext r
    by_cases hr : r = .esp
    · rw [hr, hesp, (wordsPushed_eq_five 17 (by decide)).2 rfl]
      bv_omega
    · exact (Cpu.drop_gpr _ _ hr).trans (hgpr r hr)
  · funext d
    exact (hsegs d).trans ((setLow16_low _ _).trans (hdata d).symm)

/-- An interrupt of ring-0 code with equal data segments is transparent exactly for vector 17: for
every other vector the processor and the stub push one word fewer or one word more than the return
path takes off. -/
theorem transparent_iff (l : Linkage) (handler : IsrHandler) {n : Nat} (hn : n < 48) (errorCode : KUint32)
    {s : Cpu} (hring : s.cs &&& 3#16 = 0#16) (hdata : ∀ d, s.data d = s.data .ds) :
    Transparent l handler n errorCode s ↔ n = 17 := by
  constructor
  · rintro ⟨-, -, -, -, s', hs', -, -, -, hgpr, -⟩
    rw [← wordsPushed_eq_five n hn]
    have hesp := interrupt_esp hs'
    rw [hgpr] at hesp
    have hle : wordsPushed n ≤ 6 := by
      unfold wordsPushed
      split <;> split <;> omega
    bv_omega
  · rintro rfl
    exact transparent_alignmentCheck l handler errorCode hring hdata

def returnOnly : IsrHandler where
  run := fun s => s.drop 4#32
  returns := fun s => s.drop_esp 4#32
  argument := fun _ _ _ => rfl

def kernelCpu : Cpu where
  gpr := fun r => if r = .esp then 0xC0010000#32 else 0#32
  data := fun _ => 0x10#16
  cs := kernelCodeSegmentIndex
  eip := 0xC0100000#32
  eflags := 0x202#32
  memory := fun _ => 0#8

def kernelLinkage : Linkage := ⟨fun n => 0xC0101000#32 + BitVec.ofNat 32 (16 * n), 0xC0102000#32⟩

theorem transparent_iff_kernelCpu : Transparent kernelLinkage returnOnly 17 0#32 kernelCpu :=
  (transparent_iff kernelLinkage returnOnly (by decide) 0#32 (by decide) fun _ => rfl).2 rfl

/-- A timer interrupt (vector 32) does not return to the stack pointer it interrupted. -/
theorem transparent_timer :
    ¬∀ (l : Linkage) (handler : IsrHandler) (n : Nat) (errorCode : KUint32) (s : Cpu), n < 48 →
      s.cs &&& 3#16 = 0#16 → (∀ d, s.data d = s.data .ds) → Transparent l handler n errorCode s := by
  intro h
  obtain ⟨-, -, -, -, s', hs', -, -, -, hgpr, -⟩ :=
    h kernelLinkage returnOnly 32 0#32 kernelCpu (by decide) (by decide) (fun _ => rfl)
  have hesp := interrupt_esp hs'
  rw [hgpr] at hesp
  revert hesp
  decide

end Aeon.Platform
