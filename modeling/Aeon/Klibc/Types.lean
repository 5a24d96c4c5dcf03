/-
The integer types of `klibc/types.h` as `i486-elf-gcc` lays them out (`char` 8 bits and signed,
`short` 16, `int` and `long` 32), and what a call of the kernel leaves: a result with the memory
it reached, or a halt.
-/
import Mathlib.Tactic

namespace Aeon

/-- `kuint8_t`, and the bits of a `char`. -/
abbrev KUint8 := BitVec 8
abbrev KUint16 := BitVec 16
/-- `kuint32_t`, and a 32-bit pointer. -/
abbrev KUint32 := BitVec 32
abbrev KSize := KUint32

/-- Why a call never returns. -/
inductive Halt where
  /-- `panic (text)`: the message is printed and the kernel loops forever. -/
  | panic (text : String)
  /-- A dereference outside the memory the model describes (undefined behaviour). -/
  | wild
  deriving DecidableEq, Repr

/-- What a call leaves: its result and the memory after it, or the halt and the memory reached. -/
inductive Outcome (σ α : Type) where
  | ok (a : α) (s : σ)
  | halt (h : Halt) (s : σ)

namespace Outcome

variable {σ τ α β : Type}

def state : Outcome σ α → σ
  | ok _ s => s
  | halt _ s => s

@[simp] theorem state_ok (a : α) (s : σ) : (ok a s).state = s := rfl

/-- Sequencing: a halt stops the caller too. -/
def bind (x : Outcome σ α) (f : α → σ → Outcome σ β) : Outcome σ β :=
  match x with
  | ok a s => f a s
  | halt h s => halt h s

@[simp] theorem bind_ok (a : α) (s : σ) (f : α → σ → Outcome σ β) : (ok a s).bind f = f a s := rfl

theorem bind_eq_ok {x : Outcome σ α} {f : α → σ → Outcome σ β} {b : β} {s' : σ} :
    x.bind f = ok b s' ↔ ∃ a s, x = ok a s ∧ f a s = ok b s' := by
  cases x <;> simp [bind]

/-- The same outcome with the memory seen as part of a larger one. -/
def lift (g : σ → τ) : Outcome σ α → Outcome τ α
  | ok a s => ok a (g s)
  | halt h s => halt h (g s)

@[simp] theorem lift_ok (g : σ → τ) (a : α) (s : σ) : (ok a s).lift g = ok a (g s) := rfl

theorem lift_eq_ok {g : σ → τ} {x : Outcome σ α} {a : α} {t : τ} :
    x.lift g = ok a t ↔ ∃ s, x = ok a s ∧ g s = t := by
  cases x <;> simp [lift, and_comm]

end Outcome

end Aeon
