/-
A 32-bit flat-memory processor, as far as kernel entry and exit code uses it: byte-addressed
little-endian memory, a stack that grows down, the general registers, the segment registers and
the few instructions that save, switch and restore them. `Holds` says what the words at an address
are; a rule for each stack operation says how it changes what the stack holds.
-/
import Mathlib.Tactic

namespace I386

abbrev Word := BitVec 32
abbrev Memory := Word → BitVec 8

/-! ## Memory -/

/-- The little-endian dword at `a`. -/
def readWord (m : Memory) (a : Word) : Word := m (a + 3#32) ++ m (a + 2#32) ++ m (a + 1#32) ++ m a

/-- Memory with the dword `v` at `a`. -/
def writeWord (m : Memory) (a v : Word) : Memory := fun x =>
  if (x - a).toNat < 4 then v.extractLsb' (8 * (x - a).toNat) 8 else m x

theorem bytes_append (v : Word) :
    v.extractLsb' 24 8 ++ v.extractLsb' 16 8 ++ v.extractLsb' 8 8 ++ v.extractLsb' 0 8 = v := by
  rw [BitVec.extractLsb'_append_extractLsb'_eq_extractLsb' (show 24 = 16 + 8 by rfl),
    BitVec.extractLsb'_append_extractLsb'_eq_extractLsb' (show 16 = 8 + 8 by rfl),
    BitVec.extractLsb'_append_extractLsb'_eq_extractLsb' (show 8 = 0 + 8 by rfl)]
  exact BitVec.extractLsb'_eq_self

theorem add_sub_comm (a x p : Word) : a + x - p = a - p + x := by
  rw [BitVec.sub_eq_add_neg, BitVec.sub_eq_add_neg, BitVec.add_assoc, BitVec.add_assoc, BitVec.add_comm x]

theorem readWord_writeWord_same (m : Memory) (a v : Word) : readWord (writeWord m a v) a = v := by
  have hbyte : ∀ i < 4, writeWord m a v (a + BitVec.ofNat 32 i) = v.extractLsb' (8 * i) 8 := fun i hi => by
    have h : (a + BitVec.ofNat 32 i - a).toNat = i := by
      rw [BitVec.add_comm, BitVec.add_sub_cancel, BitVec.toNat_ofNat]
      omega
    simp only [writeWord, h, hi, if_true]
  have h0 := hbyte 0 (by omega)
  rw [BitVec.add_zero a] at h0
  rw [readWord, h0, hbyte 1 (by omega), hbyte 2 (by omega), hbyte 3 (by omega)]
  exact bytes_append v

/-- A dword at least four bytes away, both ways round, is untouched. -/
theorem readWord_writeWord_other (m : Memory) {a b : Word} (v : Word) (h1 : 4 ≤ (b - a).toNat)
    (h2 : (b - a).toNat ≤ 2 ^ 32 - 4) : readWord (writeWord m a v) b = readWord m b := by
  have hbyte : ∀ i < 4, writeWord m a v (b + BitVec.ofNat 32 i) = m (b + BitVec.ofNat 32 i) := fun i hi => by
    have h : (b + BitVec.ofNat 32 i - a).toNat = (b - a).toNat + i := by
      rw [add_sub_comm, BitVec.toNat_add, BitVec.toNat_ofNat]
      omega
    rw [writeWord, h, if_neg (by omega)]
  have h0 := hbyte 0 (by omega)
  rw [BitVec.add_zero b] at h0
  rw [readWord, readWord, h0, hbyte 1 (by omega), hbyte 2 (by omega), hbyte 3 (by omega)]

/-- The dwords from `a` up are those of the list. -/
def Holds (m : Memory) : Word → List Word → Prop
  | _, [] => True
  | a, w :: ws => readWord m a = w ∧ Holds m (a + 4#32) ws

theorem Holds.write_below {m : Memory} {p : Word} (v : Word) : ∀ {ws : List Word} {a : Word}, Holds m a ws →
    4 ≤ (a - p).toNat → (a - p).toNat + 4 * ws.length ≤ 2 ^ 32 → Holds (writeWord m p v) a ws
  | [], _, _, _, _ => trivial
  | w :: ws, a, h, h1, h2 => by
    rw [List.length_cons] at h2
    refine ⟨(readWord_writeWord_other m v h1 (by omega)).trans h.1, ?_⟩
    cases ws with
    | nil => trivial
    | cons w' ws =>
      rw [List.length_cons] at h2
      have hnext : (a + 4#32 - p).toNat = (a - p).toNat + 4 := by
        rw [add_sub_comm, BitVec.toNat_add, BitVec.toNat_ofNat]
        omega
      exact h.2.write_below v (by omega) (by rw [List.length_cons]; omega)

/-- A dword just below. -/
theorem Holds.push {m : Memory} {a b : Word} {ws : List Word} (h : Holds m a ws) (hb : b + 4#32 = a) (v : Word)
    (hl : 4 * ws.length + 4 ≤ 2 ^ 32) : Holds (writeWord m b v) b (v :: ws) := by
  subst hb
  have hdist : (b + 4#32 - b).toNat = 4 := by bv_omega
  exact ⟨readWord_writeWord_same .., Holds.write_below v h (by omega) (by omega)⟩

theorem Holds.congr {m m' : Memory} : ∀ {ws : List Word} {a : Word}, Holds m a ws →
    (∀ i < ws.length, readWord m' (a + BitVec.ofNat 32 (4 * i)) = readWord m (a + BitVec.ofNat 32 (4 * i))) →
    Holds m' a ws
  | [], _, _, _ => trivial
  | w :: ws, a, h, heq => by
    have h0 := heq 0 (by simp)
    rw [Nat.mul_zero, BitVec.add_zero a] at h0
    refine ⟨h0.trans h.1, h.2.congr fun i hi => ?_⟩
    have := heq (i + 1) (by simpa using hi)
    rwa [show a + BitVec.ofNat 32 (4 * (i + 1)) = a + 4#32 + BitVec.ofNat 32 (4 * i) by
      rw [Nat.mul_add, BitVec.ofNat_add, BitVec.add_assoc, BitVec.add_comm 4#32]] at this

/-! ## The processor -/

inductive Gpr where
  | eax | ecx | edx | ebx | esp | ebp | esi | edi
  deriving DecidableEq

inductive DataSeg where
  | ds | es | fs | gs
  deriving DecidableEq

structure Cpu where
  gpr : Gpr → Word
  data : DataSeg → BitVec 16
  cs : BitVec 16
  eip : Word
  eflags : Word
  memory : Memory

namespace Cpu

variable (s : Cpu)

def setGpr (r : Gpr) (v : Word) : Cpu := { s with gpr := Function.update s.gpr r v }

def setData (d : DataSeg) (v : BitVec 16) : Cpu := { s with data := Function.update s.data d v }

def setFlags (v : Word) : Cpu := { s with eflags := v }

def push (v : Word) : Cpu :=
  { s with gpr := Function.update s.gpr .esp (s.gpr .esp - 4#32), memory := writeWord s.memory (s.gpr .esp - 4#32) v }

def top : Word := readWord s.memory (s.gpr .esp)

/-- Take `n` bytes off the stack. -/
def drop (n : Word) : Cpu := s.setGpr .esp (s.gpr .esp + n)

def pop (r : Gpr) : Cpu := (s.drop 4#32).setGpr r s.top

@[simp] theorem setGpr_self (r : Gpr) (v : Word) : (s.setGpr r v).gpr r = v := Function.update_self ..

theorem setGpr_ne {r q : Gpr} (v : Word) (h : q ≠ r) : (s.setGpr r v).gpr q = s.gpr q := Function.update_of_ne h ..

@[simp] theorem setGpr_memory (r : Gpr) (v : Word) : (s.setGpr r v).memory = s.memory := rfl
@[simp] theorem setData_gpr (d : DataSeg) (v : BitVec 16) : (s.setData d v).gpr = s.gpr := rfl
@[simp] theorem setData_memory (d : DataSeg) (v : BitVec 16) : (s.setData d v).memory = s.memory := rfl
@[simp] theorem setFlags_gpr (v : Word) : (s.setFlags v).gpr = s.gpr := rfl

@[simp] theorem push_esp (v : Word) : (s.push v).gpr .esp = s.gpr .esp - 4#32 := by
  simp [push]

theorem push_gpr {r : Gpr} (v : Word) (h : r ≠ .esp) : (s.push v).gpr r = s.gpr r := Function.update_of_ne h ..

@[simp] theorem drop_esp (n : Word) : (s.drop n).gpr .esp = s.gpr .esp + n := s.setGpr_self ..

theorem drop_gpr {r : Gpr} (n : Word) (h : r ≠ .esp) : (s.drop n).gpr r = s.gpr r := s.setGpr_ne _ h

theorem drop_drop (m n : Word) : (s.drop m).drop n = s.drop (m + n) := by
  simp only [drop, setGpr, Function.update_self, Function.update_idem, BitVec.add_assoc]

@[simp] theorem pop_self (r : Gpr) : (s.pop r).gpr r = s.top := setGpr_self ..

theorem pop_esp {r : Gpr} (h : r ≠ .esp) : (s.pop r).gpr .esp = s.gpr .esp + 4#32 := by
  rw [pop, setGpr_ne _ _ h.symm, drop_esp]

theorem pop_gpr {r q : Gpr} (h : q ≠ r) (hq : q ≠ .esp) : (s.pop r).gpr q = s.gpr q := by
  rw [pop, setGpr_ne _ _ h, drop_gpr _ _ hq]

/-! ## What the stack holds -/

/-- The stack holds the words of the list, the top first. -/
def Stack (ws : List Word) : Prop := Holds s.memory (s.gpr .esp) ws

variable {s}

theorem Stack.push {ws : List Word} (h : s.Stack ws) (v : Word) (hl : 4 * ws.length + 4 ≤ 2 ^ 32) :
    (s.push v).Stack (v :: ws) := by
  have hback : s.gpr .esp - 4#32 + 4#32 = s.gpr .esp := BitVec.sub_add_cancel ..
  have hdist : (s.gpr .esp - (s.gpr .esp - 4#32)).toNat = 4 := by bv_omega
  rw [Stack, push_esp]
  refine ⟨readWord_writeWord_same .., ?_⟩
  rw [hback]
  exact Holds.write_below v h (by omega) (by omega)

theorem Stack.top_eq {v : Word} {ws : List Word} (h : s.Stack (v :: ws)) : s.top = v := h.1

theorem Stack.drop {v : Word} {ws : List Word} (h : s.Stack (v :: ws)) : (s.drop 4#32).Stack ws := by
  rw [Stack, drop_esp]
  exact h.2

theorem Stack.pop {r : Gpr} (hr : r ≠ .esp) {v : Word} {ws : List Word} (h : s.Stack (v :: ws)) :
    (s.pop r).Stack ws ∧ (s.pop r).gpr r = v := by
  refine ⟨?_, (s.pop_self r).trans h.top_eq⟩
  rw [Stack, s.pop_esp hr]
  exact h.2

theorem Stack.of_eq {s' : Cpu} {ws : List Word} (h : s.Stack ws) (hm : s'.memory = s.memory)
    (he : s'.gpr .esp = s.gpr .esp) : s'.Stack ws := by
  rw [Stack, hm, he]
  exact h

end Cpu

/-! ## Instructions -/

/-- The instructions of entry and exit code that run straight on. -/
inductive Instr where
  | cli
  | sti
  | pushImm (v : Word)
  | pushReg (r : Gpr)
  | popReg (r : Gpr)
  | pusha
  | popa
  /-- `mov $v, %r16` -/
  | movImm16 (v : BitVec 16) (r : Gpr)
  /-- `mov %seg, %r16` -/
  | movFromSeg (d : DataSeg) (r : Gpr)
  /-- `mov %r16, %seg` -/
  | movToSeg (r : Gpr) (d : DataSeg)
  /-- `add $v, %r`; the arithmetic flags are not modelled. -/
  | addImm (v : Word) (r : Gpr)

/-- The interrupt flag, the trap flag and the nested-task flag. -/
def flagIF : Word := 1#32 <<< 9
def flagTF : Word := 1#32 <<< 8
def flagNT : Word := 1#32 <<< 14

/-- `w` with its low half replaced. -/
def setLow16 (w : Word) (v : BitVec 16) : Word := w.extractLsb' 16 16 ++ v

theorem setLow16_low (w : Word) (v : BitVec 16) : (setLow16 w v).setWidth 16 = v := by
  rw [setLow16, BitVec.setWidth_append]
  simp

/-- `pusha`: the stack pointer is pushed as it was before. -/
def Cpu.pusha (s : Cpu) : Cpu :=
  (((((((s.push (s.gpr .eax)).push (s.gpr .ecx)).push (s.gpr .edx)).push (s.gpr .ebx)).push
    (s.gpr .esp)).push (s.gpr .ebp)).push (s.gpr .esi)).push (s.gpr .edi)

/-- `popa`: the saved stack pointer is skipped. -/
def Cpu.popa (s : Cpu) : Cpu :=
  (((((((s.pop .edi).pop .esi).pop .ebp).drop 4#32).pop .ebx).pop .edx).pop .ecx).pop .eax

/-- What `pusha` leaves on the stack of the registers `g`, whose stack pointer is `esp`. -/
def savedGprs (g : Gpr → Word) (esp : Word) : List Word :=
  [g .edi, g .esi, g .ebp, esp, g .ebx, g .edx, g .ecx, g .eax]

theorem Cpu.Stack.pusha {s : Cpu} {ws : List Word} (h : s.Stack ws) (hl : 4 * ws.length + 32 ≤ 2 ^ 32) :
    s.pusha.Stack (savedGprs s.gpr (s.gpr .esp) ++ ws) := by
  have h1 := (h.push (s.gpr .eax) (by omega)).push (s.gpr .ecx) (by simp only [List.length_cons]; omega)
  have h2 := (h1.push (s.gpr .edx) (by simp only [List.length_cons]; omega)).push (s.gpr .ebx)
    (by simp only [List.length_cons]; omega)
  have h3 := (h2.push (s.gpr .esp) (by simp only [List.length_cons]; omega)).push (s.gpr .ebp)
    (by simp only [List.length_cons]; omega)
  exact (h3.push (s.gpr .esi) (by simp only [List.length_cons]; omega)).push (s.gpr .edi)
    (by simp only [List.length_cons]; omega)

theorem Cpu.pusha_esp (s : Cpu) : s.pusha.gpr .esp = s.gpr .esp - 32#32 := by
  simp only [Cpu.pusha, push_esp]
  bv_omega

theorem Cpu.pusha_gpr (s : Cpu) {r : Gpr} (h : r ≠ .esp) : s.pusha.gpr r = s.gpr r := by
  simp only [Cpu.pusha, push_gpr _ _ h]

@[simp] theorem Cpu.pusha_data (s : Cpu) : s.pusha.data = s.data := rfl

/-- `popa` restores every register but the stack pointer from what `pusha` left. -/
theorem Cpu.Stack.popa {s : Cpu} {g : Gpr → Word} {esp : Word} {ws : List Word}
    (h : s.Stack (savedGprs g esp ++ ws)) : s.popa.Stack ws ∧ ∀ r, r ≠ .esp → s.popa.gpr r = g r := by
  obtain ⟨h1, hedi⟩ := h.pop (r := .edi) (by decide)
  obtain ⟨h2, hesi⟩ := h1.pop (r := .esi) (by decide)
  obtain ⟨h3, hebp⟩ := h2.pop (r := .ebp) (by decide)
  obtain ⟨h4, hebx⟩ := h3.drop.pop (r := .ebx) (by decide)
  obtain ⟨h5, hedx⟩ := h4.pop (r := .edx) (by decide)
  obtain ⟨h6, hecx⟩ := h5.pop (r := .ecx) (by decide)
  obtain ⟨h7, heax⟩ := h6.pop (r := .eax) (by decide)
  refine ⟨h7, fun r hr => ?_⟩
  -- each register keeps the value it was popped with
  cases r with
  | eax => exact heax
  | ecx => rw [← hecx]; exact pop_gpr _ (by decide) hr
  | edx => rw [← hedx]; exact (pop_gpr _ (by decide) hr).trans (pop_gpr _ (by decide) hr)
  | ebx =>
    rw [← hebx]
    exact (pop_gpr _ (by decide) hr).trans ((pop_gpr _ (by decide) hr).trans (pop_gpr _ (by decide) hr))
  | esp => exact absurd rfl hr
  | ebp => rw [← hebp, Cpu.popa]; simp only [pop_gpr, drop_gpr, ne_eq, reduceCtorEq, not_false_iff]
  | esi => rw [← hesi, Cpu.popa]; simp only [pop_gpr, drop_gpr, ne_eq, reduceCtorEq, not_false_iff]
  | edi => rw [← hedi, Cpu.popa]; simp only [pop_gpr, drop_gpr, ne_eq, reduceCtorEq, not_false_iff]

theorem Cpu.popa_esp (s : Cpu) : s.popa.gpr .esp = s.gpr .esp + 32#32 := by
  simp only [Cpu.popa, pop_esp, drop_esp, ne_eq, reduceCtorEq, not_false_iff]
  bv_omega

def Instr.exec : Instr → Cpu → Cpu
  | cli, s => s.setFlags (s.eflags &&& ~~~flagIF)
  | sti, s => s.setFlags (s.eflags ||| flagIF)
  | pushImm v, s => s.push v
  | pushReg r, s => s.push (s.gpr r)
  | popReg r, s => s.pop r
  | pusha, s => s.pusha
  | popa, s => s.popa
  | movImm16 v r, s => s.setGpr r (setLow16 (s.gpr r) v)
  | movFromSeg d r, s => s.setGpr r (setLow16 (s.gpr r) (s.data d))
  | movToSeg r d, s => s.setData d ((s.gpr r).setWidth 16)
  | addImm v r, s => s.setGpr r (s.gpr r + v)

def execAll : List Instr → Cpu → Cpu
  | [], s => s
  | i :: is, s => execAll is (i.exec s)

/-! ## Interrupts -/

/-- Delivery through an interrupt gate at the same privilege level: `eflags`, `cs`, `eip` and, for
some vectors, an error code are pushed, and the gate's code segment and entry point are loaded. -/
def Cpu.deliver (s : Cpu) (errorCode : Option Word) (selector : BitVec 16) (entry : Word) : Cpu :=
  let saved := ((s.push s.eflags).push (s.cs.setWidth 32)).push s.eip
  let saved := match errorCode with
    | some e => saved.push e
    | none => saved
  { saved with cs := selector, eip := entry, eflags := s.eflags &&& ~~~(flagIF ||| flagTF ||| flagNT) }

/-- `iret` to the same privilege level (ring 0); the model has no return to an outer one. -/
def Cpu.iret (s : Cpu) : Option Cpu :=
  let eip := s.top
  let cs := ((s.drop 4#32).top).setWidth 16
  let eflags := (s.drop 8#32).top
  if cs &&& 3#16 = 0#16 then some { s.drop 12#32 with eip := eip, cs := cs, eflags := eflags } else none

theorem Cpu.iret_esp {s s' : Cpu} (h : s.iret = some s') : s'.gpr .esp = s.gpr .esp + 12#32 := by
  rw [Cpu.iret] at h
  split at h
  · cases h
    exact s.drop_esp 12#32
  · cases h

/-- `iret` of a frame with a ring-0 code segment takes it off the stack. -/
theorem Cpu.Stack.iret {s : Cpu} {eip eflags : Word} {cs : BitVec 16} (h : s.Stack [eip, cs.setWidth 32, eflags])
    (hring : cs &&& 3#16 = 0#16) :
    s.iret = some { s.drop 12#32 with eip := eip, cs := cs, eflags := eflags } := by
  have h8 := h.drop.drop
  rw [Cpu.drop_drop] at h8
  have hcs : (cs.setWidth 32).setWidth 16 = cs := by
    rw [BitVec.setWidth_setWidth_of_le _ (by decide), BitVec.setWidth_eq]
  rw [Cpu.iret, h.top_eq, h.drop.top_eq, hcs, if_pos hring, show 8#32 = 4#32 + 4#32 by rfl, h8.top_eq]

end I386
