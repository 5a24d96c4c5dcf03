/-
One processor with interrupts: a foreground thread that a handler thread may suspend, after which
the handler runs to completion. While it runs the foreground stays where it was interrupted, so
what an interrupt requires of the foreground holds as long as the handler is there.
-/
import Aeon.Lib.Run

namespace Interrupt

variable {τ σ : Type*}

/-- The shared state, the foreground and, while it is suspended, the handler. -/
structure State (τ σ : Type*) where
  shared : σ
  foreground : τ
  handler : Option τ

/-- A step: of the foreground, of the handler, an interrupt (where `mayEnter` holds of the
foreground) that starts one of the threads `isHandler`, or the end of a handler that is `done`. -/
inductive Step (act : τ → σ → τ → σ → Prop) (isHandler done mayEnter : τ → Prop) : State τ σ → State τ σ → Prop
  | foreground {f f' : τ} {s s' : σ} : act f s f' s' →
      Step act isHandler done mayEnter ⟨s, f, none⟩ ⟨s', f', none⟩
  | enter {f h : τ} {s : σ} : mayEnter f → isHandler h →
      Step act isHandler done mayEnter ⟨s, f, none⟩ ⟨s, f, some h⟩
  | handler {f h h' : τ} {s s' : σ} : act h s h' s' →
      Step act isHandler done mayEnter ⟨s, f, some h⟩ ⟨s', f, some h'⟩
  | leave {f h : τ} {s : σ} : done h →
      Step act isHandler done mayEnter ⟨s, f, some h⟩ ⟨s, f, none⟩

variable {act : τ → σ → τ → σ → Prop} {isHandler done mayEnter : τ → Prop}

/-- While a handler runs, the foreground is where an interrupt entered: the run passed a state with
this foreground and no handler. -/
theorem entered {k k' : State τ σ} (h : Run.Reach (Step act isHandler done mayEnter) k k')
    (hk : k.handler = none) {t : τ} (ht : k'.handler = some t) :
    mayEnter k'.foreground ∧
      ∃ s, Run.Reach (Step act isHandler done mayEnter) k ⟨s, k'.foreground, none⟩ := by
  induction h generalizing t with
  | refl => rw [hk] at ht; cases ht
  | tail hr hs ih =>
    cases hs with
    | foreground _ => cases ht
    | enter hmay _ => exact ⟨hmay, _, hr⟩
    | handler _ => exact ih rfl
    | leave _ => cases ht

end Interrupt
