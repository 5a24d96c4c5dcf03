/-
Arrays in one flat memory. An owner has a number of cells, each placed at an address of the memory;
owners come and go, and their cells are stored to and loaded from. As long as the owners' cells are
apart the memory is a heap of arrays that know nothing of each other: what is loaded from a cell is
what was last stored to that cell of that array.
-/
import Aeon.Lib.Pool

namespace Arrays

variable {κ α β : Type*}

/-! ## The heap of arrays -/

structure Object (β : Type*) where
  len : ℕ
  cells : ℕ → β

def Object.store (o : Object β) (j : ℕ) (v : β) : Object β := { o with cells := Function.update o.cells j v }

/-- A call: a new array is put in front, and the others are named by their index. -/
inductive Call (β : Type*) where
  | alloc (len : ℕ)
  | free (i : ℕ)
  | store (i j : ℕ) (v : β)
  | load (i j : ℕ) (v : β)

/-- A new array has any contents; a load yields what is in the cell. -/
inductive Step : Call β → List (Object β) → List (Object β) → Prop
  | alloc {heap : List (Object β)} (o : Object β) : Step (.alloc o.len) heap (o :: heap)
  | free (h₁ h₂ : List (Object β)) (o : Object β) : Step (.free h₁.length) (h₁ ++ o :: h₂) (h₁ ++ h₂)
  | store (h₁ h₂ : List (Object β)) (o : Object β) {j : ℕ} (v : β) : j < o.len →
      Step (.store h₁.length j v) (h₁ ++ o :: h₂) (h₁ ++ o.store j v :: h₂)
  | load (h₁ h₂ : List (Object β)) (o : Object β) {j : ℕ} : j < o.len →
      Step (.load h₁.length j (o.cells j)) (h₁ ++ o :: h₂) (h₁ ++ o :: h₂)

/-! ## The flat memory -/

variable (place : κ → ℕ → α) (len : κ → ℕ)

/-- The addresses of an owner's cells. -/
def region (a : κ) : Set α := {x | ∃ j < len a, x = place a j}

/-- No two cells of the owners have one address. -/
structure Separate (live : List κ) : Prop where
  inj : ∀ a ∈ live, ∀ i < len a, ∀ j < len a, place a i = place a j → i = j
  apart : Pool.Apart (region place len) live

structure Flat (κ α β : Type*) where
  memory : α → β
  live : List κ

/-- A new owner's cells are apart from the others', and neither its coming nor the going of another
changes a cell that stays. -/
inductive Flat.Step [DecidableEq α] : Call β → Flat κ α β → Flat κ α β → Prop
  | alloc {m m' : α → β} {live : List κ} (a : κ) : Separate place len (a :: live) →
      (∀ x ∈ Pool.Owned (region place len) live, m' x = m x) →
      Step (.alloc (len a)) ⟨m, live⟩ ⟨m', a :: live⟩
  | free {m m' : α → β} (l₁ l₂ : List κ) (a : κ) :
      (∀ x ∈ Pool.Owned (region place len) (l₁ ++ l₂), m' x = m x) →
      Step (.free l₁.length) ⟨m, l₁ ++ a :: l₂⟩ ⟨m', l₁ ++ l₂⟩
  | store {m : α → β} (l₁ l₂ : List κ) (a : κ) {j : ℕ} (v : β) : j < len a →
      Step (.store l₁.length j v) ⟨m, l₁ ++ a :: l₂⟩ ⟨Function.update m (place a j) v, l₁ ++ a :: l₂⟩
  | load {m : α → β} (l₁ l₂ : List κ) (a : κ) {j : ℕ} : j < len a →
      Step (.load l₁.length j (m (place a j))) ⟨m, l₁ ++ a :: l₂⟩ ⟨m, l₁ ++ a :: l₂⟩

/-- The cells of an owner are those of an array. -/
def Holds (m : α → β) (a : κ) (o : Object β) : Prop := o.len = len a ∧ ∀ j < len a, m (place a j) = o.cells j

/-- The memory of the owners shows a heap of arrays. -/
def Shows (f : Flat κ α β) (heap : List (Object β)) : Prop :=
  List.Forall₂ (Holds place len f.memory) f.live heap

variable {place len}

theorem forall₂_middle {R : κ → β → Prop} {l₁ l₂ : List κ} {a : κ} : ∀ {h : List β},
    List.Forall₂ R (l₁ ++ a :: l₂) h → ∃ h₁ b h₂, h = h₁ ++ b :: h₂ ∧ h₁.length = l₁.length ∧
      List.Forall₂ R l₁ h₁ ∧ R a b ∧ List.Forall₂ R l₂ h₂ := by
  induction l₁ with
  | nil =>
    rintro _ (_ | ⟨hab, hrest⟩)
    exact ⟨[], _, _, rfl, rfl, .nil, hab, hrest⟩
  | cons c l₁ ih =>
    rintro _ (_ | ⟨hc, hrest⟩)
    obtain ⟨h₁, b, h₂, rfl, hlen, hl₁, hab, hl₂⟩ := ih hrest
    exact ⟨_ :: h₁, b, h₂, rfl, congrArg Nat.succ hlen, .cons hc hl₁, hab, hl₂⟩

section

variable {m m' : α → β} {live : List κ} {heap : List (Object β)}

theorem mem_region (a : κ) {j : ℕ} (hj : j < len a) : place a j ∈ region place len a := ⟨j, hj, rfl⟩

theorem Holds.congr {a : κ} {o : Object β} (h : Holds place len m a o) (heq : ∀ x ∈ region place len a, m' x = m x) :
    Holds place len m' a o :=
  ⟨h.1, fun j hj => (heq _ (mem_region a hj)).trans (h.2 j hj)⟩

theorem Holds.forall₂_congr (h : List.Forall₂ (Holds place len m) live heap)
    (heq : ∀ x ∈ Pool.Owned (region place len) live, m' x = m x) :
    List.Forall₂ (Holds place len m') live heap := by
  induction h with
  | nil => exact .nil
  | cons ha _ ih =>
    rw [Pool.owned_cons] at heq
    exact .cons (ha.congr fun x hx => heq x (.inl hx)) (ih fun x hx => heq x (.inr hx))

theorem Separate.middle {l₁ l₂ : List κ} {a : κ} (h : Separate place len (l₁ ++ a :: l₂)) :
    Disjoint (region place len a) (Pool.Owned (region place len) (l₁ ++ l₂)) ∧ Separate place len (l₁ ++ l₂) := by
  obtain ⟨hdisj, hap⟩ := (Pool.apart_middle (region place len) l₁ l₂ a).1 h.apart
  refine ⟨hdisj, fun c hc => h.inj c ?_, hap⟩
  rcases List.mem_append.1 hc with hm | hm <;> simp [hm]

variable [DecidableEq α]

/-- A store to a cell is a store to that cell of the owner's array. -/
theorem Holds.store {a : κ} {o : Object β} (h : Holds place len m a o)
    (hinj : ∀ i < len a, ∀ j < len a, place a i = place a j → i = j) {j : ℕ} (hj : j < len a) (v : β) :
    Holds place len (Function.update m (place a j) v) a (o.store j v) := by
  refine ⟨h.1, fun i hi => ?_⟩
  show Function.update m (place a j) v (place a i) = Function.update o.cells j v i
  by_cases hij : i = j
  · rw [hij, Function.update_self, Function.update_self]
  · rw [Function.update_of_ne fun he => hij (hinj i hi j hj he), Function.update_of_ne hij, h.2 i hi]

/-- One step of the flat memory is one step of the heap it shows. -/
theorem Flat.Step.shows {c : Call β} {f f' : Flat κ α β} (hs : Flat.Step place len c f f')
    (hsep : Separate place len f.live) (h : Shows place len f heap) :
    ∃ heap', Arrays.Step c heap heap' ∧ Separate place len f'.live ∧ Shows place len f' heap' := by
  cases hs with
  | @alloc m m' live a hsep' heq =>
    refine ⟨⟨len a, fun j => m' (place a j)⟩ :: heap, .alloc ⟨len a, _⟩, hsep', ?_⟩
    exact .cons ⟨rfl, fun j _ => rfl⟩ (Holds.forall₂_congr h heq)
  | @free m m' l₁ l₂ a heq =>
    obtain ⟨h₁, o, h₂, rfl, hlen, hl₁, -, hl₂⟩ := forall₂_middle h
    refine ⟨h₁ ++ h₂, ?_, hsep.middle.2, Holds.forall₂_congr (List.rel_append hl₁ hl₂) heq⟩
    rw [← hlen]
    exact .free h₁ h₂ o
  | @store m l₁ l₂ a j v hj =>
    obtain ⟨h₁, o, h₂, rfl, hlen, hl₁, ho, hl₂⟩ := forall₂_middle h
    refine ⟨h₁ ++ o.store j v :: h₂, ?_, hsep, ?_⟩
    · rw [← hlen]
      exact .store h₁ h₂ o v (by rwa [ho.1])
    · -- the other owners' cells are elsewhere
      have hother : ∀ x ∈ Pool.Owned (region place len) (l₁ ++ l₂), Function.update m (place a j) v x = m x := by
        intro x hx
        refine Function.update_of_ne ?_ ..
        rintro rfl
        exact Set.disjoint_left.1 hsep.middle.1 (mem_region a hj) hx
      have hown := ho.store (hsep.inj a (by simp)) hj v
      refine List.rel_append (Holds.forall₂_congr hl₁ fun x hx => hother x ?_)
        (.cons hown (Holds.forall₂_congr hl₂ fun x hx => hother x ?_))
      · obtain ⟨c, hc, hxc⟩ := hx
        exact ⟨c, List.mem_append_left _ hc, hxc⟩
      · obtain ⟨c, hc, hxc⟩ := hx
        exact ⟨c, List.mem_append_right _ hc, hxc⟩
  | @load m l₁ l₂ a j hj =>
    obtain ⟨h₁, o, h₂, rfl, hlen, hl₁, ho, hl₂⟩ := forall₂_middle h
    have hcell : m (place a j) = o.cells j := ho.2 j hj
    refine ⟨h₁ ++ o :: h₂, ?_, hsep, h⟩
    rw [← hlen, hcell]
    exact .load h₁ h₂ o (by rwa [ho.1])

/-- Every run of the flat memory is a run of a heap of arrays, with the same calls. -/
theorem Flat.run {cs : List (Call β)} {f : Flat κ α β} (h : Run.Trace (Flat.Step place len) cs ⟨m, []⟩ f) :
    ∃ heap, Run.Trace Arrays.Step cs [] heap ∧ Shows place len f heap := by
  have hstart : Separate place len ([] : List κ) ∧ Shows place len ⟨m, []⟩ [] :=
    ⟨⟨fun a ha => by simp at ha, List.Pairwise.nil⟩, .nil⟩
  obtain ⟨heap, htrace, -, hshows⟩ := Run.Trace.simulation (R := fun f heap =>
    Separate place len f.live ∧ Shows place len f heap) (fun ⟨hsep, hs⟩ hstep => hstep.shows hsep hs) h hstart
  exact ⟨heap, htrace, hshows⟩

end

end Arrays
