import Kboot86.Foundation.Transition
import Kboot86.Lib.Elf32.Bootable
import Kboot86.Lib.Kstdio.Format

/-!
# The messages of the ELF loader

`elf32_strerror` gives a text of the source or one that `ksprintf` has made in
`_dyn_str_error`; `main` puts it behind a prefix into a buffer of its own. Both
buffers have 128 bytes and `ksprintf` has no bound, so what fits is a property
of all messages that any run can leave.
-/

namespace Kboot86.Elf32

open Exec Kstdio

/-- The size of `_dyn_str_error` and of the buffer in `main`. -/
def strErrorSize : Nat := 128

/-- `elf32_strerror`. -/
def StrError.str : StrError → Option (List UInt8)
  | .text s => some (Kstdio.text s)
  | .format s args => kvsprintf (Kstdio.text s) (args.map .word)

def mainStrError (e : StrError) : Option (List UInt8) :=
  e.str.bind fun s => kvsprintf (Kstdio.text "error while mapping ELF: %s\n") [.str s]

def StrError.Fits (e : StrError) : Prop :=
  (∃ s, e.str = some s ∧ s.length < strErrorSize) ∧
    ∃ m, mainStrError e = some m ∧ m.length < strErrorSize

/-! ### Runs that keep a property of the message -/

def Maintains {α : Type} (P : StrError → Prop) (x : Loader α) : Prop :=
  ∀ s, P s.strError → wlp x s fun _ s' => P s'.strError

section

variable {α β : Type} {P : StrError → Prop}

theorem Maintains.pure (a : α) : Maintains P (Pure.pure a : Loader α) := fun _ hs => wlp_pure hs

theorem Maintains.throw (e : Fault) : Maintains P (throw e : Loader α) := by
  intro s _ a s' h
  cases h

theorem Maintains.bind {x : Loader α} {f : α → Loader β} (hx : Maintains P x)
    (hf : ∀ a, Maintains P (f a)) : Maintains P (x >>= f) := fun s hs =>
  wlp_bind (hx s hs) fun a s' hs' => hf a s' hs'

theorem Maintains.ite {p : Prop} [Decidable p] {x y : Loader α} (hx : Maintains P x)
    (hy : Maintains P y) : Maintains P (if p then x else y) := by
  split
  · exact hx
  · exact hy

end

/-! ### The messages of the source -/

/-- What happens to the state of the loader: an image is mapped, or the memory
is changed by something else. -/
inductive Event where
  | map (img : UInt32)
  | memory

end Kboot86.Elf32
