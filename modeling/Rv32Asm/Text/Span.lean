/-!
Places in a source text. Lines and columns count from zero, columns in bytes.
-/

set_option autoImplicit false
set_option relaxedAutoImplicit false

namespace Rv32Asm

structure Position where
  line : Nat
  char : Nat
deriving DecidableEq, Repr, Inhabited

structure Span where
  start : Position
  stop : Position
deriving DecidableEq, Repr, Inhabited

def Span.onLine (line first last : Nat) : Span :=
  ⟨⟨line, first⟩, ⟨line, last⟩⟩

end Rv32Asm
