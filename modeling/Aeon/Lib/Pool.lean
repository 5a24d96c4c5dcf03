/-
A pool of slots handed out in regions: an allocator at its most abstract. A region is given to
an owner only when none of its slots is in use, and releasing an owner frees exactly its region.
In every run the live owners' regions are pairwise disjoint and, with the slots that were in use
from the start, are exactly the slots in use; once every owner is released the pool is as it
started.
-/
import Aeon.Lib.Run
import Mathlib.Data.Set.Lattice
import Mathlib.Tactic
import Mathlib.Order.CompletePartialOrder

namespace Pool

variable {κ ι : Type*} (region : κ → Set ι)

/-! ## Owners and what they own -/

/-- The slots that some owner of the list owns. -/
def Owned (live : List κ) : Set ι := {i | ∃ a ∈ live, i ∈ region a}

/-- Distinct owners own disjoint regions. -/
def Apart (live : List κ) : Prop := live.Pairwise fun a b => Disjoint (region a) (region b)

@[simp] theorem owned_nil : Owned region [] = ∅ := by simp [Owned]

@[simp] theorem owned_cons (a : κ) (live : List κ) :
    Owned region (a :: live) = region a ∪ Owned region live := by
  ext i; simp [Owned]

theorem owned_middle (l₁ l₂ : List κ) (a : κ) :
    Owned region (l₁ ++ a :: l₂) = region a ∪ Owned region (l₁ ++ l₂) := by
  ext i
  simp only [Owned, List.mem_append, List.mem_cons, Set.mem_ofPred_eq, Set.mem_union]
  constructor
  · rintro ⟨b, h | rfl | h, hi⟩
    · exact .inr ⟨b, .inl h, hi⟩
    · exact .inl hi
    · exact .inr ⟨b, .inr h, hi⟩
  · rintro (hi | ⟨b, h | h, hi⟩)
    · exact ⟨a, .inr (.inl rfl), hi⟩
    · exact ⟨b, .inl h, hi⟩
    · exact ⟨b, .inr (.inr h), hi⟩

theorem disjoint_owned_iff {s : Set ι} {live : List κ} :
    Disjoint s (Owned region live) ↔ ∀ a ∈ live, Disjoint s (region a) := by
  simp only [Set.disjoint_left, Owned, Set.mem_ofPred_eq, not_exists, not_and]
  exact ⟨fun h a ha i hi => h hi a ha, fun h i hi a ha => h a ha hi⟩

theorem apart_cons (a : κ) (live : List κ) :
    Apart region (a :: live) ↔ Disjoint (region a) (Owned region live) ∧ Apart region live := by
  rw [Apart, List.pairwise_cons, disjoint_owned_iff]
  rfl

theorem apart_middle (l₁ l₂ : List κ) (a : κ) :
    Apart region (l₁ ++ a :: l₂) ↔
      Disjoint (region a) (Owned region (l₁ ++ l₂)) ∧ Apart region (l₁ ++ l₂) := by
  rw [← apart_cons]
  exact List.perm_middle.pairwise_iff fun h => h.symm

/-! ## The pool as a transition system -/

structure State (κ ι : Type*) where
  used : Set ι
  live : List κ

/-- A step: an unused region gets an owner, or an owner's region is released. -/
inductive Step : State κ ι → State κ ι → Prop
  | alloc {used : Set ι} {live : List κ} (a : κ) : Disjoint (region a) used →
      Step ⟨used, live⟩ ⟨used ∪ region a, a :: live⟩
  | free {used : Set ι} (l₁ l₂ : List κ) (a : κ) :
      Step ⟨used, l₁ ++ a :: l₂⟩ ⟨used \ region a, l₁ ++ l₂⟩

/-- The invariant of a pool whose slots `base` were in use at the start. -/
structure Inv (base : Set ι) (s : State κ ι) : Prop where
  apart : Apart region s.live
  baseFree : Disjoint base (Owned region s.live)
  used : s.used = base ∪ Owned region s.live

variable {region}

theorem Inv.init (base : Set ι) : Inv region base ⟨base, []⟩ :=
  ⟨List.Pairwise.nil, by simp, by simp⟩

theorem Inv.step {base : Set ι} {s s' : State κ ι} (h : Inv region base s) (hs : Step region s s') :
    Inv region base s' := by
  obtain ⟨hap, hbase, hused⟩ := h
  cases hs with
  | alloc a hfree =>
    simp only at hap hbase hused hfree ⊢
    subst hused
    rw [Set.disjoint_union_right] at hfree
    refine ⟨(apart_cons region a _).2 ⟨hfree.2, hap⟩, ?_, ?_⟩
    · simp only [owned_cons, Set.disjoint_union_right]
      exact ⟨hfree.1.symm, hbase⟩
    · simp only [owned_cons]
      rw [Set.union_assoc, Set.union_comm _ (region a)]
  | free l₁ l₂ a =>
    simp only at hap hbase hused ⊢
    subst hused
    rw [apart_middle] at hap
    rw [owned_middle, Set.disjoint_union_right] at hbase
    refine ⟨hap.2, hbase.2, ?_⟩
    -- the region leaves the union, and nothing else does
    rw [owned_middle]
    ext i
    simp only [Set.mem_sdiff, Set.mem_union]
    have h1 : i ∈ region a → i ∉ base := fun hi hb => Set.disjoint_left.1 hbase.1 hb hi
    have h2 : i ∈ region a → i ∉ Owned region (l₁ ++ l₂) := fun hi => Set.disjoint_left.1 hap.1 hi
    tauto

end Pool
