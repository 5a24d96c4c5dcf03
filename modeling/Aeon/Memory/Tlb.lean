/-
The processor keeps translations it has made, and does not look at the tables again for a page that it
has one for. `page` and `unpage` end with `pagetable_refresh`, which reloads `cr3` and so empties the
cache. That is enough: the tables change nowhere else, so every access goes where a walk would lead.
-/
import Aeon.Memory.Heap

namespace Aeon.Memory

open I386

/-! ## The cache -/

/-- The machine, and the frame a walk once gave for each page in the cache. -/
structure Cached where
  machine : Machine
  tlb : KUint32 → Option KUint32

def Cached.translate (l : MemoryLayout) (m : Cached) (v : KUint32) : Option KUint32 :=
  match m.tlb (linearPage v) with
  | some frame => some (frame + (v &&& 0xfff#32))
  | none => Memory.translate l m.machine.ram v

/-- The calls that change the tables. -/
def Refreshes : Arrays.Call KUint8 → Prop
  | .alloc _ | .free _ => True
  | .store .. | .load .. => False

/-- A step: of its own accord the cache takes in a page or gives one up; a call that changes the tables
ends with `pagetable_refresh`; accesses are translated by the cache where it has the page. -/
inductive Cached.Step (l : MemoryLayout) (tail : PageTable) : Option (Arrays.Call KUint8) → Cached → Cached → Prop
  | fill {m : Machine} {tlb : KUint32 → Option KUint32} {frame : KUint32} (v : KUint32) :
      Memory.translate l m.ram (linearPage v) = some frame →
      Step l tail none ⟨m, tlb⟩ ⟨m, Function.update tlb (linearPage v) (some frame)⟩
  | evict {m : Machine} {tlb : KUint32 → Option KUint32} (page : KUint32) :
      Step l tail none ⟨m, tlb⟩ ⟨m, Function.update tlb page none⟩
  | call {m m' : Machine} {tlb : KUint32 → Option KUint32} {c : Arrays.Call KUint8} : Refreshes c →
      Machine.Step l tail c m m' → Step l tail (some c) ⟨m, tlb⟩ ⟨m', fun _ => none⟩
  | store {m : Ram} {tlb : KUint32 → Option KUint32} (l₁ l₂ : List Allocation) (a : Allocation) {j : Nat} {x : KUint32}
      (v : KUint8) : j < a.len → Cached.translate l ⟨⟨m, l₁ ++ a :: l₂⟩, tlb⟩ (a.ptr + BitVec.ofNat 32 j) = some x →
      Step l tail (some (.store l₁.length j v)) ⟨⟨m, l₁ ++ a :: l₂⟩, tlb⟩ ⟨⟨Function.update m x v, l₁ ++ a :: l₂⟩, tlb⟩
  | load {m : Ram} {tlb : KUint32 → Option KUint32} (l₁ l₂ : List Allocation) (a : Allocation) {j : Nat} {x : KUint32} :
      j < a.len → Cached.translate l ⟨⟨m, l₁ ++ a :: l₂⟩, tlb⟩ (a.ptr + BitVec.ofNat 32 j) = some x →
      Step l tail (some (.load l₁.length j (m x))) ⟨⟨m, l₁ ++ a :: l₂⟩, tlb⟩ ⟨⟨m, l₁ ++ a :: l₂⟩, tlb⟩

/-! ## Coherence -/

/-- The cache has nothing that a walk over the memory `ram` would not give. -/
def Coherent (l : MemoryLayout) (ram : Ram) (tlb : KUint32 → Option KUint32) : Prop :=
  ∀ page frame, tlb page = some frame → Memory.translate l ram page = some frame

section

variable {l : MemoryLayout} {ram ram' : Ram} {tlb : KUint32 → Option KUint32}

theorem Coherent.empty : Coherent l ram fun _ => none := fun _ _ h => by cases h

theorem Coherent.update (h : Coherent l ram tlb) {page : KUint32} {entry : Option KUint32}
    (he : ∀ frame, entry = some frame → Memory.translate l ram page = some frame) :
    Coherent l ram (Function.update tlb page entry) := by
  intro page' frame hp
  by_cases heq : page' = page
  · subst heq
    rw [Function.update_self] at hp
    exact he frame hp
  · rw [Function.update_of_ne heq] at hp
    exact h page' frame hp

theorem Coherent.congr (h : Coherent l ram tlb) (heq : ∀ v, Memory.translate l ram' v = Memory.translate l ram v) :
    Coherent l ram' tlb := fun page frame hp => (heq page).trans (h page frame hp)

/-- A coherent cache translates as the walk does. -/
theorem Coherent.translate_eq {live : List Allocation} (h : Coherent l ram tlb) (v : KUint32) :
    Cached.translate l ⟨⟨ram, live⟩, tlb⟩ v = Memory.translate l ram v := by
  unfold Cached.translate
  split
  · rename_i frame hp
    rw [translate_page, h _ _ hp, Option.map_some]
  · rfl

end

/-! ## Runs -/

section

variable {l : MemoryLayout} {tail : PageTable} {b : Boot} {a₀ : MemoryAllocator} {t₀ : PageTable}
  (hb : memInitialize b = .ok a₀ t₀)
  (hle : (computeHighestFreeAddress b.pageTable).toNat ≤ (memGetBytes b.lowmem b.highmem).toNat)
  (hbooks : l.books = computeHighestFreeAddress b.pageTable)

include hb hle hbooks

/-- A step with a coherent cache is one without the cache, which stays coherent. -/
theorem Coherent.step {m m' : Cached} {k : Kernel} {c : Arrays.Call KUint8} (h : Coherent l m.machine.ram m.tlb)
    (hheld : m.machine.Held l tail b a₀ k) (hs : Cached.Step l tail (some c) m m') :
    Machine.Step l tail c m.machine m'.machine ∧ Coherent l m'.machine.ram m'.tlb := by
  cases hs with
  | call _ hs => exact ⟨hs, .empty⟩
  | @store ram tlb l₁ l₂ a j x v hj hx =>
    rw [Coherent.translate_eq h] at hx
    refine ⟨.store l₁ l₂ a v hj hx, h.congr (hheld.inRam.translate_above fun y hy => Function.update_of_ne ?_ ..)⟩
    -- no table has a byte of an allocation
    have hmem : a ∈ l₁ ++ a :: l₂ := by simp
    have hplace := hheld.translate hmem hj
    rw [hx, Option.some.injEq] at hplace
    have habove := hheld.above hb hle hbooks ⟨a, hmem, j, hj, rfl⟩
    intro heq
    rw [heq, hplace] at hy
    omega
  | @load ram tlb l₁ l₂ a j x hj hx =>
    rw [Coherent.translate_eq h] at hx
    exact ⟨.load l₁ l₂ a hj hx, h⟩

end

end Aeon.Memory
