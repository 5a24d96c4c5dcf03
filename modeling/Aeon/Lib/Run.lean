/-
Runs of a transition system: what every step preserves holds of every reachable state, and a
system whose every step is matched by a step of another is simulated by it, also where the steps
are labelled.
-/
import Mathlib.Logic.Relation

namespace Run

variable {σ τ : Type*} {step : σ → σ → Prop} {step' : τ → τ → Prop}

/-- The states a run from `s` reaches. -/
abbrev Reach (step : σ → σ → Prop) : σ → σ → Prop := Relation.ReflTransGen step

/-- An invariant that every step preserves holds in every reachable state. -/
theorem invariant {P : σ → Prop} {s s' : σ} (h : Reach step s s') (hs : P s)
    (hstep : ∀ a b, P a → step a b → P b) : P s' := by
  induction h with
  | refl => exact hs
  | tail _ h ih => exact hstep _ _ ih h

/-- Forward simulation under an invariant: each step of a run is a step of the abstract system. -/
theorem simulation {P : σ → Prop} {s s' : σ} (abs : σ → τ) (h : Reach step s s') (hs : P s)
    (hstep : ∀ a b, P a → step a b → P b ∧ step' (abs a) (abs b)) :
    P s' ∧ Reach step' (abs s) (abs s') := by
  induction h with
  | refl => exact ⟨hs, .refl⟩
  | tail _ h ih =>
    obtain ⟨hb, hr⟩ := hstep _ _ ih.1 h
    exact ⟨hb, ih.2.tail hr⟩

/-- Every run from `s` comes to `s'`, which no step leaves. -/
structure Ends (step : σ → σ → Prop) (s s' : σ) : Prop where
  stop : ∀ a, ¬ step s' a
  comes : ∀ a, Reach step s a → Reach step a s'

/-- A system comes to one end at most. -/
theorem Ends.unique {s a b : σ} (ha : Ends step s a) (hb : Ends step s b) : a = b := by
  cases Relation.ReflTransGen.cases_head (hb.comes a (ha.comes s .refl)) with
  | inl h => exact h
  | inr h =>
    obtain ⟨c, hc, -⟩ := h
    exact absurd hc (ha.stop c)

/-- Where no state has two steps, one run to the end is every run. -/
theorem Ends.of_reach {s s' : σ} (hu : Relator.RightUnique step) (h : Reach step s s')
    (hstop : ∀ a, ¬ step s' a) : Ends step s s' := by
  refine ⟨hstop, fun a ha => ?_⟩
  rcases Relation.ReflTransGen.total_of_right_unique hu ha h with h | h
  · exact h
  · cases Relation.ReflTransGen.cases_head h with
    | inl h => rw [h]
    | inr h =>
      obtain ⟨b, hb, -⟩ := h
      exact absurd hb (hstop b)

/-! ## Runs of labelled steps -/

/-- A run of a system whose steps are labelled, by the labels of its steps. -/
inductive Trace {ι : Type*} (step : ι → σ → σ → Prop) : List ι → σ → σ → Prop
  | nil {s : σ} : Trace step [] s s
  | cons {i : ι} {is : List ι} {s s₁ s₂ : σ} : step i s s₁ → Trace step is s₁ s₂ → Trace step (i :: is) s s₂

/-- Forward simulation: what a relation between the states keeps step by step, with the same labels,
it keeps over the run. -/
theorem Trace.simulation {ι : Type*} {step : ι → σ → σ → Prop} {step' : ι → τ → τ → Prop} {R : σ → τ → Prop}
    (hstep : ∀ {i s s' t}, R s t → step i s s' → ∃ t', step' i t t' ∧ R s' t') {is : List ι} {s s' : σ}
    (h : Trace step is s s') : ∀ {t : τ}, R s t → ∃ t', Trace step' is t t' ∧ R s' t' := by
  induction h with
  | nil => exact fun ht => ⟨_, .nil, ht⟩
  | cons hs _ ih =>
    intro t ht
    obtain ⟨t₁, h₁, hr₁⟩ := hstep ht hs
    obtain ⟨t', ht', hr'⟩ := ih hr₁
    exact ⟨t', .cons h₁ ht', hr'⟩

end Run
