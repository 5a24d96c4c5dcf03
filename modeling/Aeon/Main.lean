/-
`kernel_main`: what the kernel says on its display from the entry code to the end, or up to the panic
that stops it.
-/
import Aeon.Block.Probe
import Aeon.Platform.Kernel

namespace Aeon.Main

open I386 Memory Display Block Platform

/-! ## Code -/

/-- The state behind `kprintf`, the page tables with the allocator, and the IDE devices with the records of
the drives. -/
structure System where
  shared : Shared
  kernel : Memory.Kernel
  probe : Probe Banks

/-- What a call leaves; nothing where a device keeps the processor waiting for more rounds than there are. -/
abbrev Result := Option (Outcome System Unit)

/-- One call after the other, up to the first that does not return. -/
def inOrder : List (System → Result) → System → Result
  | [], s => some (.ok () s)
  | f :: fs, s =>
    match f s with
    | none => none
    | some (.ok () s) => inOrder fs s
    | some (.halt h s) => some (.halt h s)

/-- A call that no interrupt comes between: the mutex is free before it and after it. -/
def kprintf (f : List Piece) (args : List KUint32) (cstring : KUint32 → List KUint8) (s : System) : Result :=
  (kvprintf s.shared.numDisplays (formatString f) (.ofArgs args cstring)).map fun out =>
    .ok () { s with shared := { s.shared with output := s.shared.output ++ out } }

/-- `kprintf` of a string constant without directives. -/
def say (text : String) : System → Result := kprintf (literals text ++ []) [] fun _ => []

/-- `__FILE__`, `__LINE__` and `__func__`. -/
structure Site where
  file : List KUint8
  line : KUint32
  func : String

/-- `"\n\n***KERNEL PANIC***\n\n %s:%d in %s.\n"` -/
def panicFormat : List Piece :=
  literals "\n\n***KERNEL PANIC***\n\n " ++ .str :: (literals ":" ++ .num .d :: (literals " in " ++ .str ::
    (literals ".\n" ++ [])))

/-- The message is printed and the kernel loops. `text` is its format, `f`. -/
def panic (site : Site) (text : String) (f : List Piece) (args : List KUint32) (s : System) : Result :=
  -- `__FILE__` and `__func__` are told apart by their pointers
  (inOrder [kprintf panicFormat [0#32, site.line, 1#32] fun p => if p = 0#32 then site.file else bytesOf site.func,
    kprintf f args fun _ => []] s).map fun o => .halt (.panic text) o.state

section

-- the compiler is given the files by this path
variable (path : List KUint8)

/-- What `idt_init` prints before and after it sets the gates. -/
def idtInit : System → Result := inOrder [say "Setting up IDT...", say "Done\n"]

end

/-! ## Calls in order -/

section

variable {f : System → Result} {fs : List (System → Result)} {s s₁ : System}

theorem inOrder_ok (h : f s = some (.ok () s₁)) : inOrder (f :: fs) s = inOrder fs s₁ := by
  simp only [inOrder, h]

end

/-! ## What is printed -/

/-- From `s` to `s'` every display is sent `text`. -/
def Logs (text : List KUint8) (s s' : Shared) : Prop :=
  ∃ out, s' = { s with output := s.output ++ out } ∧ Sends s.numDisplays text out

theorem Logs.refl (s : Shared) : Logs [] s s := ⟨[], by rw [List.append_nil], Sends.nil⟩

theorem Logs.trans {text text' : List KUint8} {s s' s'' : Shared} (h : Logs text s s') (h' : Logs text' s' s'') :
    Logs (text ++ text') s s'' := by
  obtain ⟨out, rfl, hsends⟩ := h
  obtain ⟨out', rfl, hsends'⟩ := h'
  exact ⟨out ++ out', by rw [List.append_assoc], hsends.append hsends'⟩

/-- The call returns, and all it does is print `text`. -/
def Prints (f : System → Result) (text : List KUint8) : Prop :=
  ∀ s : System, ∃ shared, f s = some (.ok () { s with shared := shared }) ∧ Logs text s.shared shared

theorem prints_kprintf {f : List Piece} {args : List KUint32} {cstring : KUint32 → List KUint8}
    (hstrings : ∀ word, 0#8 ∉ cstring word) (h : Matching f args) :
    Prints (kprintf f args cstring) (rendering cstring f args) := by
  intro s
  have hcall := kvprintf_pieces s.shared.numDisplays (.ofArgs args cstring) (formatString_spells f)
  have hsends : Sends s.shared.numDisplays _ _ := @sends_calls _ (.ofArgs args cstring) hstrings f
  rw [h.render (VaList.ofArgs_holds _ _)] at hsends
  refine ⟨_, ?_, _, rfl, hsends⟩
  rw [kprintf, hcall]
  rfl

theorem Prints.inOrder : ∀ {fs : List (System → Result)} {texts : List (List KUint8)}, List.Forall₂ Prints fs texts →
    Prints (Main.inOrder fs) texts.flatten := by
  intro fs texts h
  induction h with
  | nil => exact fun s => ⟨s.shared, rfl, Logs.refl s.shared⟩
  | @cons f text fs texts hf _ ih =>
    intro s
    obtain ⟨shared, hs, hlogs⟩ := hf s
    obtain ⟨shared', hs', hlogs'⟩ := ih { s with shared := shared }
    exact ⟨shared', (inOrder_ok hs).trans hs', hlogs.trans hlogs'⟩

theorem Prints.pair {f f' : System → Result} {text text' : List KUint8} (h : Prints f text) (h' : Prints f' text') :
    Prints (Main.inOrder [f, f']) (text ++ text') := by
  have hboth := Prints.inOrder (.cons h (.cons h' .nil))
  rwa [List.flatten_cons, List.flatten_cons, List.flatten_nil, List.append_nil] at hboth

section

variable (lowmem highmem : KUint8)

end

section

variable {path : List KUint8} {slots : Slots} {fuel : Nat} {s : System}

end

/-! ## `kernel_main` -/

section

variable {img : KernelImage} {first : KUint32} {p : Processor} (h : Running img first p) {slots : Slots} {fuel : Nat}
  {probe : Probe Banks} (hquiet : probe.devices.Quiet) (hfuel : ∀ c d, (slots c d).delay < fuel)
  {path : List KUint8} (hpath : 0#8 ∉ path)

include h hquiet hfuel hpath

end

end Aeon.Main
