/-
Locked entries survive misuse: whatever calls are made, and whatever addresses `unpage` is given
(stale, interior, never mapped, the kernel image), an entry with `PTF_AEON_LOCKED` keeps its value
up to and including a panic.
-/
import Aeon.Memory.PagingSpec

namespace Aeon.Memory

/-- A call of the paging interface with arbitrary arguments. -/
inductive PagingCall where
  | page (physicalAddress : KUint32) (size : KSize) (flags : KUint32)
  | pageUnaligned (physicalAddress : KUint32) (size : KSize) (flags : KUint32)
  | unpage (virtAddress : KUint32)

def PagingCall.run : PagingCall → PageTable → Outcome PageTable KUint32
  | .page pa size flags, t => Memory.page pa size flags t
  | .pageUnaligned pa size flags, t => Memory.pageUnaligned pa size flags t
  | .unpage v, t => Memory.unpage v t

/-- A sequence of calls, up to the first that does not return. -/
def runCalls : List PagingCall → PageTable → Outcome PageTable Unit
  | [], t => .ok () t
  | c :: cs, t => (c.run t).bind fun _ t => runCalls cs t

theorem PagingCall.locked {i : Nat} {t : PageTable} (c : PagingCall) (h : t i &&& ptfAeonLocked ≠ 0#32) :
    (c.run t).state i = t i := by
  cases c with
  | page pa size flags => exact page_locked pa flags size h
  | pageUnaligned pa size flags =>
    simp only [PagingCall.run, pageUnaligned_state]
    exact page_locked _ flags size h
  | unpage v => exact unpage_locked v h

/-- After every sequence of calls, returned or halted, an entry that was locked at the start has
its starting value. -/
theorem runCalls_locked {i : Nat} : ∀ (calls : List PagingCall) {t : PageTable},
    t i &&& ptfAeonLocked ≠ 0#32 → (runCalls calls t).state i = t i
  | [], _, _ => rfl
  | c :: cs, t, h => by
    have hc := c.locked h
    rw [runCalls]
    cases hr : c.run t with
    | ok v t' =>
      rw [hr, Outcome.state_ok] at hc
      rw [Outcome.bind_ok, runCalls_locked cs (by rwa [hc]), hc]
    | halt hh t' =>
      rw [hr] at hc
      exact hc

theorem runCalls_locked_kernel_page :
    (runCalls [.page 0x5000#32 100#32 ptfReadWrite, .unpage 0xC0000000#32, .unpage 0xC0001000#32]
      (fun i => if i = 1 then 0x00100803#32 else 0#32)).state 1 = 0x00100803#32 :=
  runCalls_locked _ (t := fun i => if i = 1 then 0x00100803#32 else 0#32) (by decide)

end Aeon.Memory
