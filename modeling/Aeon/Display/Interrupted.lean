/-
`kvprintf` interrupted. The kernel has one mutex around the formatter and spins on it; the handler
of an interrupt prints too and cannot be left before it has. An interrupt that arrives while the
foreground holds the mutex therefore never ends, one that arrives at any other point always does.
-/
import Aeon.Display.Format
import Aeon.Lib.Interrupt

namespace Aeon.Display

/-! ## A call of `kvprintf` as a thread -/

inductive Phase where
  /-- At the test of `while (m->locked)` in `mutex_lock`. -/
  | lock
  /-- Past the test, before `m->locked = 1`. -/
  | acquire
  /-- In the loop, with calls of the displays still to make for the current iteration. -/
  | format (pending : List Emitted) (c : Cursor)
  /-- After `mutex_unlock`. -/
  | returned

structure Call where
  fmt : CString
  va : VaList
  phase : Phase

/-- What calls share: `m_kprintf.locked`, `s_num_displays`, and the calls the displays were sent. -/
structure Shared where
  locked : KUint8
  numDisplays : Nat
  output : List Emitted

/-- A step of a call. At the test with the mutex locked there is none: the loop of `mutex_lock`
only reads the flag again. -/
inductive Call.Step : Call → Shared → Call → Shared → Prop
  | test {fmt : CString} {va : VaList} {s : Shared} : s.locked = 0#8 →
      Call.Step ⟨fmt, va, .lock⟩ s ⟨fmt, va, .acquire⟩ s
  | set {fmt : CString} {va : VaList} {s : Shared} :
      Call.Step ⟨fmt, va, .acquire⟩ s ⟨fmt, va, .format [] Cursor.start⟩ { s with locked := 1#8 }
  | emit {fmt : CString} {va : VaList} {s : Shared} {e : Emitted} {es : List Emitted} {c : Cursor} :
      Call.Step ⟨fmt, va, .format (e :: es) c⟩ s ⟨fmt, va, .format es c⟩ { s with output := s.output ++ [e] }
  | iterate {fmt : CString} {va : VaList} {s : Shared} {es : List Emitted} {c c' : Cursor} :
      c.i < fmt.strlen → kvprintfIter s.numDisplays fmt va c = some (es, c') →
      Call.Step ⟨fmt, va, .format [] c⟩ s ⟨fmt, va, .format es c'⟩ s
  | unlock {fmt : CString} {va : VaList} {s : Shared} {c : Cursor} : fmt.strlen ≤ c.i →
      Call.Step ⟨fmt, va, .format [] c⟩ s ⟨fmt, va, .returned⟩ { s with locked := 0#8 }

/-- Between `mutex_lock` and `mutex_unlock`. -/
def Call.Holds (t : Call) : Prop := ∃ pending c, t.phase = .format pending c

def Call.Returned (t : Call) : Prop := t.phase = .returned

/-! ## Handlers -/

/-- A string constant of the source, and whatever the pointers among its arguments point to. -/
def kprintfCall (l : List KUint8) (h : 0#8 ∉ l) (args : Nat → KUint32) : Call :=
  ⟨CString.ofList l h, ⟨args, fun _ => []⟩, .lock⟩

/-- `irq_handler`; the end-of-interrupt commands that follow its `kprintf` touch no kernel state. -/
def irqHandler (irq : KUint32) : Call :=
  kprintfCall ("received irq: %i\n".toList.map ascii) (by decide) fun _ => irq

def isrHandler (intNo : KUint32) : Call :=
  if 32#32 ≤ intNo ∧ intNo ≤ 47#32 then irqHandler (intNo - 32#32)
  else kprintfCall ("received interrupt: %i\n".toList.map ascii) (by decide) fun _ => intNo

/-- The kernel: a foreground call and, while it is suspended, the handler of an interrupt. -/
abbrev Kernel := Interrupt.State Call Shared

/-- A step of the kernel; interrupts arrive where `mayEnter` holds of the foreground. -/
abbrev Kernel.Step (mayEnter : Call → Prop) : Kernel → Kernel → Prop :=
  Interrupt.Step Call.Step (fun h => ∃ intNo, h = isrHandler intNo) Call.Returned mayEnter

/-- A foreground call of `kvprintf` with the mutex free. -/
def Kernel.start (fmt : CString) (va : VaList) (numDisplays : Nat) : Kernel :=
  ⟨⟨0#8, numDisplays, []⟩, ⟨fmt, va, .lock⟩, none⟩

/-- The handler waits in `mutex_lock` for the mutex that the suspended foreground holds. -/
def Deadlocked (k : Kernel) : Prop :=
  ∃ h, k.handler = some h ∧ h.phase = .lock ∧ k.shared.locked ≠ 0#8 ∧ k.foreground.Holds

theorem isrHandler_phase (intNo : KUint32) : (isrHandler intNo).phase = .lock := by
  unfold isrHandler
  split <;> rfl

/-! ## The mutex -/

/-- A call that has not returned and does not wait for the mutex can take a step. -/
theorem Call.progress (t : Call) (s : Shared) (hlock : t.phase = .lock → s.locked = 0#8)
    (hret : ¬ t.Returned) : ∃ t' s', Call.Step t s t' s' := by
  obtain ⟨fmt, va, phase⟩ := t
  cases phase with
  | lock => exact ⟨_, _, .test (hlock rfl)⟩
  | acquire => exact ⟨_, _, .set⟩
  | format pending c =>
    cases pending with
    | cons e es => exact ⟨_, _, .emit⟩
    | nil =>
      by_cases hc : c.i < fmt.strlen
      · obtain ⟨⟨es, c'⟩, hiter⟩ := Option.isSome_iff_exists.1 (kvprintfIter_isSome s.numDisplays fmt va c)
        exact ⟨_, _, .iterate hc hiter⟩
      · exact ⟨_, _, .unlock (Nat.le_of_not_lt hc)⟩
  | returned => exact absurd rfl hret

/-- The flag is set exactly while one of the calls holds the mutex, and a handler that suspended
the holder is still at its test. -/
structure LockInv (k : Kernel) : Prop where
  locked : k.shared.locked ≠ 0#8 ↔ k.foreground.Holds ∨ ∃ h, k.handler = some h ∧ h.Holds
  waits : ∀ h, k.handler = some h → k.foreground.Holds → h.phase = .lock

theorem LockInv.start (fmt : CString) (va : VaList) (n : Nat) : LockInv (Kernel.start fmt va n) where
  locked := by
    constructor
    · exact fun h => absurd rfl h
    · rintro (⟨_, _, h⟩ | ⟨_, h, _⟩) <;> cases h
  waits := fun _ h => by cases h

/-- Each step of a call keeps the flag in step with whether the call holds the mutex. -/
theorem Call.Step.locked_iff {t t' : Call} {s s' : Shared} (hs : Call.Step t s t' s')
    (h : s.locked ≠ 0#8 ↔ t.Holds) : s'.locked ≠ 0#8 ↔ t'.Holds := by
  cases hs with
  | test h0 => simp [Call.Holds, h0]
  | set => simp [Call.Holds]
  | emit => simpa [Call.Holds] using h
  | iterate _ _ => simpa [Call.Holds] using h
  | unlock _ => simp [Call.Holds]

theorem Call.Step.unlocked {t t' : Call} {s s' : Shared} (hs : Call.Step t s t' s')
    (ht : t.phase = .lock) : s.locked = 0#8 := by
  cases hs with
  | test h0 => exact h0
  | set => cases ht
  | emit => cases ht
  | iterate _ _ => cases ht
  | unlock _ => cases ht

theorem LockInv.step {mayEnter : Call → Prop} {k k' : Kernel} (hk : LockInv k)
    (hs : Kernel.Step mayEnter k k') : LockInv k' := by
  cases hs with
  | foreground hs =>
    have hlocked := hs.locked_iff (by simpa using hk.locked)
    exact ⟨by simpa using hlocked, fun _ h => by cases h⟩
  | enter _ hh =>
    obtain ⟨intNo, rfl⟩ := hh
    have hlock := isrHandler_phase intNo
    refine ⟨?_, fun h he _ => by cases he; exact hlock⟩
    have hlocked := hk.locked
    simpa [Call.Holds, hlock] using hlocked
  | @handler f h h' s s' hs =>
    -- a handler that goes on has found the mutex free, so the foreground does not hold it
    have hlocked : s.locked ≠ 0#8 ↔ f.Holds ∨ h.Holds := by simpa using hk.locked
    have hf : ¬ f.Holds := fun hf => hlocked.2 (.inl hf) (hs.unlocked (hk.waits h rfl hf))
    have hlocked' := hs.locked_iff (by simpa [hf] using hlocked)
    exact ⟨by simpa [hf] using hlocked', fun _ _ hf' => absurd hf' hf⟩
  | leave hdone =>
    have hlocked := hk.locked
    refine ⟨?_, fun _ h => by cases h⟩
    simpa [Call.Holds, show _ = Phase.returned from hdone] using hlocked

theorem LockInv.run {mayEnter : Call → Prop} {fmt : CString} {va : VaList} {n : Nat} {k : Kernel}
    (h : Run.Reach (Kernel.Step mayEnter) (Kernel.start fmt va n) k) : LockInv k :=
  Run.invariant h (LockInv.start fmt va n) fun _ _ => LockInv.step

/-! ## The deadlock -/

/-- A handler that suspended the holder of the mutex waits for it. -/
theorem LockInv.deadlocked_iff {k : Kernel} (hk : LockInv k) :
    Deadlocked k ↔ k.handler.isSome = true ∧ k.foreground.Holds := by
  constructor
  · rintro ⟨h, hh, -, -, hf⟩
    exact ⟨by rw [hh]; rfl, hf⟩
  · rintro ⟨hh, hf⟩
    obtain ⟨h, hh⟩ := Option.isSome_iff_exists.1 hh
    exact ⟨h, hh, hk.waits h hh hf, hk.locked.2 (.inl hf), hf⟩

theorem LockInv.unlocked {k : Kernel} (hk : LockInv k) (hd : ¬ Deadlocked k) {t : Call}
    (ht : k.handler = some t ∨ k.handler = none ∧ k.foreground = t) (hlock : t.phase = .lock) :
    k.shared.locked = 0#8 := by
  have hnot : ¬ t.Holds := fun ⟨_, _, h⟩ => by rw [hlock] at h; cases h
  by_contra h
  rcases ht with ht | ⟨hn, rfl⟩
  · rcases hk.locked.1 h with hf | ⟨t', ht', hh⟩
    · exact hd (hk.deadlocked_iff.2 ⟨by rw [ht]; rfl, hf⟩)
    · exact hnot (Option.some.inj (ht.symm.trans ht') ▸ hh)
  · rcases hk.locked.1 h with hf | ⟨t', ht', hh⟩
    · exact hnot hf
    · rw [hn] at ht'; cases ht'

/-- The deadlocked states are those that no step leaves although the foreground has not returned. -/
theorem LockInv.deadlocked_iff_stuck {mayEnter : Call → Prop} {k : Kernel} (hk : LockInv k) :
    Deadlocked k ↔ ¬ k.foreground.Returned ∧ ∀ k', ¬ Kernel.Step mayEnter k k' := by
  constructor
  · rintro ⟨h, hh, hlock, hl, ⟨_, _, hf⟩⟩
    refine ⟨fun hr => ?_, fun k' hs => ?_⟩
    · rw [Call.Returned, hf] at hr; cases hr
    cases hs with
    | foreground _ => cases hh
    | enter _ _ => cases hh
    | handler hs => cases hh; exact hl (hs.unlocked hlock)
    | leave hdone => cases hh; cases hlock.symm.trans hdone
  · rintro ⟨hr, hstuck⟩
    by_contra hd
    obtain ⟨s, f, handler⟩ := k
    cases handler with
    | none =>
      obtain ⟨f', s', hs⟩ := f.progress s (hk.unlocked hd (.inr ⟨rfl, rfl⟩)) hr
      exact hstuck _ (.foreground hs)
    | some h =>
      by_cases hdone : h.Returned
      · exact hstuck _ (.leave hdone)
      · obtain ⟨h', s', hs⟩ := h.progress s (hk.unlocked hd (.inl rfl)) hdone
        exact hstuck _ (.handler hs)

/-- A run deadlocks exactly when an interrupt arrives while the foreground holds the mutex. -/
theorem noDeadlock_iff (mayEnter : Call → Prop) (fmt : CString) (va : VaList) (n : Nat) :
    (∀ k, Run.Reach (Kernel.Step mayEnter) (Kernel.start fmt va n) k → ¬ Deadlocked k) ↔
      ∀ k, Run.Reach (Kernel.Step mayEnter) (Kernel.start fmt va n) k →
        k.handler = none → mayEnter k.foreground → ¬ k.foreground.Holds := by
  constructor
  · rintro h ⟨s, f, -⟩ hk rfl hmay hf
    have hk' := hk.tail (.enter hmay ⟨32#32, rfl⟩)
    exact h _ hk' ((LockInv.run hk').deadlocked_iff.2 ⟨rfl, hf⟩)
  · intro h k hk hd
    obtain ⟨hh, hf⟩ := (LockInv.run hk).deadlocked_iff.1 hd
    obtain ⟨t, ht⟩ := Option.isSome_iff_exists.1 hh
    obtain ⟨hmay, s, hs⟩ := Interrupt.entered hk rfl ht
    exact h _ hs rfl hmay hf

/-- `kprintf ("%s", p)` with `p` in a page that is not mapped. -/
def faultingFmt : CString := CString.ofList ("%s".toList.map ascii) (by decide)
def faultingArgs : VaList := ⟨fun _ => 0xFFFFFFF0#32, fun _ => []⟩

/-- The deadlock: a page fault while the argument of `"%s"` is printed. -/
theorem kvprintf_deadlock : ¬ ∀ (fmt : CString) (va : VaList) (n : Nat) (k : Kernel),
    Run.Reach (Kernel.Step fun _ => True) (Kernel.start fmt va n) k → ¬ Deadlocked k := by
  intro h
  have hfault : Run.Reach (Kernel.Step fun _ => True) (Kernel.start faultingFmt faultingArgs 1)
      ⟨⟨1#8, 1, []⟩, ⟨faultingFmt, faultingArgs, .format [⟨0, .puts []⟩] ⟨2, 0, 1⟩⟩,
        some (isrHandler 14#32)⟩ := by
    refine .tail (.tail (.tail (.tail .refl (.foreground (.test rfl))) (.foreground .set)) ?_)
      (.enter trivial ⟨_, rfl⟩)
    exact .foreground (.iterate (by decide) (by decide))
  exact h _ _ _ _ hfault ⟨_, rfl, rfl, by decide, _, _, rfl⟩

end Aeon.Display
