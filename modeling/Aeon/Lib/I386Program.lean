/-
Programs for the processor of `I386`: lists of instructions with jumps to their indices. A block of
instructions that run straight on is one rule; `Table` says what 1024 dwords in a row are.
-/
import Aeon.Lib.I386
import Aeon.Lib.Run

namespace I386

/-! ## Programs -/

inductive Op where
  /-- `movl $v, %r` -/
  | movImm (v : Word) (r : Gpr)
  /-- `movl %r, %q` -/
  | mov (r q : Gpr)
  /-- `orl $v, %r` -/
  | orImm (v : Word) (r : Gpr)
  /-- `addl $v, %r` -/
  | addImm (v : Word) (r : Gpr)
  /-- `movl %r, (%q)` -/
  | store (r q : Gpr)
  /-- `movl $v, a` -/
  | storeImm (v a : Word)
  /-- `cmpl $v, %r` -/
  | cmpImm (v : Word) (r : Gpr)
  | jl (target : Nat)
  | jge (target : Nat)
  | loop (target : Nat)

/-- The processor in a program. Of the flags only `less` is kept: `SF ≠ OF`, which `jl` and `jge`
test. -/
structure State where
  pc : Nat
  less : Bool
  gpr : Gpr → Word
  memory : Memory

namespace State

variable (s : State)

def next : State := { s with pc := s.pc + 1 }

def setGpr (r : Gpr) (v : Word) : State := { s with gpr := Function.update s.gpr r v }

end State

def Op.exec : Op → State → State
  | movImm v r, s => (s.setGpr r v).next
  | mov r q, s => (s.setGpr q (s.gpr r)).next
  | orImm v r, s => { (s.setGpr r (s.gpr r ||| v)).next with less := (s.gpr r ||| v).msb }
  | addImm v r, s => { (s.setGpr r (s.gpr r + v)).next with less := decide ((s.gpr r).toInt + v.toInt < 0) }
  | store r q, s => { s.next with memory := writeWord s.memory (s.gpr q) (s.gpr r) }
  | storeImm v a, s => { s.next with memory := writeWord s.memory a v }
  | cmpImm v r, s => { s.next with less := (s.gpr r).slt v }
  | jl target, s => if s.less then { s with pc := target } else s.next
  | jge target, s => if s.less then s.next else { s with pc := target }
  | loop target, s =>
    let count := s.gpr .ecx - 1#32
    let s := s.setGpr .ecx count
    if count = 0#32 then s.next else { s with pc := target }

/-- Not a jump. -/
def Op.straight : Op → Bool
  | jl _ | jge _ | loop _ => false
  | _ => true

theorem Op.straight_pc {op : Op} (h : op.straight = true) (s : State) : (op.exec s).pc = s.pc + 1 := by
  cases op <;> first | rfl | cases h

/-- The register an instruction writes. -/
def Op.dest : Op → Option Gpr
  | movImm _ r | orImm _ r | addImm _ r => some r
  | mov _ q => some q
  | loop _ => some .ecx
  | _ => none

theorem Op.exec_gpr {op : Op} {r : Gpr} (h : op.dest ≠ some r) (s : State) : (op.exec s).gpr r = s.gpr r := by
  have hne : ∀ q, some q ≠ some r → r ≠ q := fun q hq he => hq (congrArg some he.symm)
  cases op with
  | movImm v q | orImm v q | addImm v q | mov v q => exact Function.update_of_ne (hne _ h) ..
  | store | storeImm | cmpImm => rfl
  | jl | jge => simp only [exec]; split <;> rfl
  | loop => simp only [exec]; split <;> exact Function.update_of_ne (hne _ h) ..

/-- The address an instruction stores a dword at, and the dword. -/
def Op.stored : Op → State → Option (Word × Word)
  | store r q, s => some (s.gpr q, s.gpr r)
  | storeImm v a, _ => some (a, v)
  | _, _ => none

theorem Op.exec_memory (op : Op) (s : State) : (op.exec s).memory =
    match op.stored s with
    | some (a, v) => writeWord s.memory a v
    | none => s.memory := by
  cases op with
  | jl | jge | loop => simp only [exec, stored]; split <;> rfl
  | _ => rfl

/-- One instruction; past the end there is none. -/
def Step (p : List Op) (s s' : State) : Prop := ∃ op, p[s.pc]? = some op ∧ s' = op.exec s

abbrev Steps (p : List Op) : State → State → Prop := Run.Reach (Step p)

section

variable {p : List Op}

theorem Steps.op {s : State} {op : Op} (h : p[s.pc]? = some op) : Steps p s (op.exec s) := .single ⟨op, h, rfl⟩

/-- A register that no instruction of the program writes. -/
theorem Steps.gpr {s s' : State} {r : Gpr} (hp : ∀ op ∈ p, op.dest ≠ some r) (h : Steps p s s') :
    s'.gpr r = s.gpr r := by
  refine Run.invariant (P := fun s' => s'.gpr r = s.gpr r) h rfl ?_
  rintro a b ha ⟨op, hop, rfl⟩
  rw [Op.exec_gpr (hp op (List.mem_of_getElem? hop)), ha]

def runBlock : List Op → State → State
  | [], s => s
  | op :: ops, s => runBlock ops (op.exec s)

/-- A block of instructions that are no jumps runs through. -/
theorem Steps.block : ∀ {ops : List Op} {s : State}, (∀ op ∈ ops, op.straight = true) →
    (p.drop s.pc).take ops.length = ops → Steps p s (runBlock ops s)
  | [], _, _, _ => .refl
  | op :: ops, s, hs, h => by
    obtain ⟨hop, hops⟩ := List.forall_mem_cons.1 hs
    cases hd : p.drop s.pc with
    | nil =>
      rw [hd] at h
      cases h
    | cons op' rest =>
      rw [hd, List.length_cons, List.take_succ_cons, List.cons.injEq] at h
      obtain ⟨rfl, hrest⟩ := h
      have hget : p[s.pc]? = some op' := by
        have := congrArg (·[0]?) hd
        simpa [List.getElem?_drop] using this
      have hnext : p.drop (s.pc + 1) = rest := by
        rw [← List.drop_drop, hd]
        rfl
      refine (Steps.op hget).trans (Steps.block hops ?_)
      rw [Op.straight_pc hop, hnext]
      exact hrest

/-- A comparison and the jump on its outcome. -/
theorem Steps.cmp_jge {s : State} {v : Word} {r : Gpr} {t : Nat} (hc : p[s.pc]? = some (.cmpImm v r))
    (hj : p[s.pc + 1]? = some (.jge t)) :
    Steps p s { s with less := (s.gpr r).slt v, pc := if (s.gpr r).slt v then s.pc + 2 else t } := by
  refine (Steps.op hc).trans (Relation.ReflTransGen.single ⟨.jge t, hj, ?_⟩)
  cases h : (s.gpr r).slt v <;> simp [Op.exec, State.next, h]

theorem Steps.cmp_jl {s : State} {v : Word} {r : Gpr} {t : Nat} (hc : p[s.pc]? = some (.cmpImm v r))
    (hj : p[s.pc + 1]? = some (.jl t)) :
    Steps p s { s with less := (s.gpr r).slt v, pc := if (s.gpr r).slt v then t else s.pc + 2 } := by
  refine (Steps.op hc).trans (Relation.ReflTransGen.single ⟨.jl t, hj, ?_⟩)
  cases h : (s.gpr r).slt v <;> simp [Op.exec, State.next, h]

/-- `loop` with `n - k` in `ecx`, after `k` of `n` rounds: the one it ends is the last when
`k + 1 = n`. -/
theorem Steps.loop {s : State} {t n k : Nat} (h : p[s.pc]? = some (.loop t)) (hn : n ≤ 2 ^ 32) (hk : k < n)
    (hecx : s.gpr .ecx = BitVec.ofNat 32 (n - k)) :
    Steps p s { s.setGpr .ecx (BitVec.ofNat 32 (n - (k + 1))) with pc := if k + 1 = n then s.pc + 1 else t } := by
  have hcount : s.gpr .ecx - 1#32 = BitVec.ofNat 32 (n - (k + 1)) := by
    rw [hecx]
    bv_omega
  have hlast : BitVec.ofNat 32 (n - (k + 1)) = 0#32 ↔ k + 1 = n := by
    rw [← BitVec.toNat_inj, BitVec.toNat_ofNat, BitVec.toNat_ofNat]
    omega
  refine Relation.ReflTransGen.single ⟨.loop t, h, ?_⟩
  unfold Op.exec
  simp only [hcount, hlast]
  by_cases h : k + 1 = n
  · rw [if_pos h, if_pos h]
    rfl
  · rw [if_neg h, if_neg h]

/-- A loop with an exit of its own at `bound`, which `loop` also ends after `n` rounds: what holds
after the rounds that were made. -/
theorem Steps.countdown {I : Nat → State → Prop} {head exit bound n : Nat}
    (hround : ∀ {k s}, I k s → s.pc = head → k < n → k < bound →
      ∃ s', Steps p s s' ∧ s'.pc = (if k + 1 = n then exit else head) ∧ I (k + 1) s')
    (hexit : ∀ {s}, I bound s → s.pc = head → ∃ s', Steps p s s' ∧ s'.pc = exit ∧ I bound s') :
    ∀ {d k : Nat} {s : State}, I k s → s.pc = head → k < n → k + d = min bound n →
      ∃ s', Steps p s s' ∧ s'.pc = exit ∧ I (min bound n) s'
  | 0, k, s, h, hpc, hk, hd => by
    have hend : k = bound := by omega
    subst hend
    obtain ⟨s', hs', hpc', h'⟩ := hexit h hpc
    rw [← hd]
    exact ⟨s', hs', hpc', h'⟩
  | d + 1, k, s, h, hpc, hk, hd => by
    obtain ⟨s₁, hs₁, hpc₁, h₁⟩ := hround h hpc hk (by omega)
    by_cases hlast : k + 1 = n
    · rw [if_pos hlast] at hpc₁
      rw [← hd, show d = 0 by omega]
      exact ⟨s₁, hs₁, hpc₁, h₁⟩
    · rw [if_neg hlast] at hpc₁
      obtain ⟨s', hs', hpc', h'⟩ := Steps.countdown hround hexit h₁ hpc₁ (by omega) (show k + 1 + d = _ by omega)
      exact ⟨s', hs₁.trans hs', hpc', h'⟩

theorem Step.unique {s s₁ s₂ : State} (h₁ : Step p s s₁) (h₂ : Step p s s₂) : s₁ = s₂ := by
  obtain ⟨op, hop, rfl⟩ := h₁
  obtain ⟨op', hop', rfl⟩ := h₂
  rw [hop, Option.some.injEq] at hop'
  rw [hop']

theorem Step.not_end {s s' : State} (h : s.pc = p.length) : ¬Step p s s' := by
  rintro ⟨op, hop, -⟩
  rw [h, List.getElem?_eq_none (le_refl _)] at hop
  cases hop

/-- A run ends in one state at most. -/
theorem Steps.end_unique {s s₁ s₂ : State} (h₁ : Steps p s s₁) (h₂ : Steps p s s₂) (he₁ : s₁.pc = p.length)
    (he₂ : s₂.pc = p.length) : s₁ = s₂ := by
  have hunique : Relator.RightUnique (Step p) := fun _ _ _ => Step.unique
  rcases Relation.ReflTransGen.total_of_right_unique hunique h₁ h₂ with h | h
  · rcases Relation.ReflTransGen.cases_head h with h | ⟨s', hs, -⟩
    · exact h
    · exact absurd hs (Step.not_end he₁)
  · rcases Relation.ReflTransGen.cases_head h with h | ⟨s', hs, -⟩
    · exact h.symm
    · exact absurd hs (Step.not_end he₂)

end

/-- Both sides of a signed comparison are below 2^31. -/
theorem slt_iff {x y : Word} (hx : x.toNat < 2 ^ 31) (hy : y.toNat < 2 ^ 31) :
    x.slt y = decide (x.toNat < y.toNat) := by
  rw [BitVec.slt_eq_decide, BitVec.toInt_eq_toNat_of_lt (by omega), BitVec.toInt_eq_toNat_of_lt (by omega)]
  exact decide_eq_decide.2 Int.ofNat_lt

/-! ## Tables in memory -/

/-- The 1024 dwords from `base` on. -/
def Table (m : Memory) (base : Word) (entries : Nat → Word) : Prop :=
  ∀ i < 1024, readWord m (base + BitVec.ofNat 32 (4 * i)) = entries i

theorem Table.write {m : Memory} {base : Word} {entries : Nat → Word} (h : Table m base entries) {k : Nat}
    (hk : k < 1024) (v : Word) :
    Table (writeWord m (base + BitVec.ofNat 32 (4 * k)) v) base (Function.update entries k v) := by
  intro i hi
  by_cases hik : i = k
  · rw [hik, Function.update_self, readWord_writeWord_same]
  · rw [Function.update_of_ne hik, readWord_writeWord_other _ _ (by bv_omega) (by bv_omega), h i hi]

/-- A write to a dword outside the table, both ways round. -/
theorem Table.write_other {m : Memory} {base a : Word} {entries : Nat → Word} (h : Table m base entries) (v : Word)
    (h1 : 4 ≤ (base - a).toNat) (h2 : (base - a).toNat + 4096 ≤ 2 ^ 32) : Table (writeWord m a v) base entries := by
  intro i hi
  have hdist : (base + BitVec.ofNat 32 (4 * i) - a).toNat = (base - a).toNat + 4 * i := by bv_omega
  rw [readWord_writeWord_other _ _ (by omega) (by omega), h i hi]

theorem Table.congr {m : Memory} {base : Word} {entries entries' : Nat → Word} (h : Table m base entries)
    (heq : ∀ i < 1024, entries i = entries' i) : Table m base entries' :=
  fun i hi => (h i hi).trans (heq i hi)

theorem Table.unique {m : Memory} {base : Word} {entries entries' : Nat → Word} (h : Table m base entries)
    (h' : Table m base entries') {i : Nat} (hi : i < 1024) : entries i = entries' i :=
  (h i hi).symm.trans (h' i hi)

theorem readWord_congr {m m' : Memory} {a : Word} (h : ∀ i < 4, m' (a + BitVec.ofNat 32 i) = m (a + BitVec.ofNat 32 i)) :
    readWord m' a = readWord m a := by
  have h0 := h 0 (by omega)
  rw [BitVec.add_zero a] at h0
  rw [readWord, readWord, h0, h 1 (by omega), h 2 (by omega), h 3 (by omega)]

/-- A table is in its 4096 bytes. -/
theorem Table.congr_bytes {m m' : Memory} {base : Word} {entries : Nat → Word} (h : Table m base entries)
    (heq : ∀ x, (x - base).toNat < 4096 → m' x = m x) : Table m' base entries := by
  intro i hi
  rw [← h i hi]
  exact readWord_congr fun j hj => heq _ (by bv_omega)

/-- Memory with the 1024 dwords from `base` on replaced. -/
def putTable (base : Word) (entries : Nat → Word) (m : Memory) : Memory := fun x =>
  if (x - base).toNat < 4096 then (entries ((x - base).toNat / 4)).extractLsb' (8 * ((x - base).toNat % 4)) 8
  else m x

theorem putTable_outside {base x : Word} (entries : Nat → Word) (m : Memory) (h : 4096 ≤ (x - base).toNat) :
    putTable base entries m x = m x := if_neg (by omega)

theorem table_putTable (base : Word) (entries : Nat → Word) (m : Memory) :
    Table (putTable base entries m) base entries := by
  intro i hi
  have hbyte : ∀ j < 4, putTable base entries m (base + BitVec.ofNat 32 (4 * i) + BitVec.ofNat 32 j) =
      (entries i).extractLsb' (8 * j) 8 := fun j hj => by
    have hoff : (base + BitVec.ofNat 32 (4 * i) + BitVec.ofNat 32 j - base).toNat = 4 * i + j := by bv_omega
    rw [putTable, hoff, if_pos (by omega), show (4 * i + j) / 4 = i by omega, show (4 * i + j) % 4 = j by omega]
  have h0 := hbyte 0 (by omega)
  rw [BitVec.add_zero (base + BitVec.ofNat 32 (4 * i))] at h0
  rw [readWord, h0, hbyte 1 (by omega), hbyte 2 (by omega), hbyte 3 (by omega)]
  exact bytes_append (entries i)

/-- A table apart from the one that is replaced, both ways round. -/
theorem Table.put_other {m : Memory} {base base' : Word} {entries : Nat → Word} (h : Table m base entries)
    (entries' : Nat → Word) (h1 : 4096 ≤ (base - base').toNat) (h2 : (base - base').toNat + 4096 ≤ 2 ^ 32) :
    Table (putTable base' entries' m) base entries :=
  h.congr_bytes fun x hx => putTable_outside _ _ (by bv_omega)

end I386
