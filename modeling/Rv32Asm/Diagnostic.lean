import Rv32Asm.Json.Value
import Rv32Asm.Program

/-!
Faults as editors show them: a message and the text it is about.
-/

set_option autoImplicit false
set_option relaxedAutoImplicit false

namespace Rv32Asm

open Rv32Asm.Text

structure Diagnostic where
  span : Span
  message : Bytes
deriving DecidableEq, Repr

def Position.toJson (p : Position) : Json :=
  .obj [("line", .nat p.line), ("character", .nat p.char)]

def Span.toJson (s : Span) : Json :=
  .obj [("start", s.start.toJson), ("end", s.stop.toJson)]

namespace Diagnostic

/-- The diagnostic of a fault. Faults that are not about the source stand at its start. -/
def ofFault : AssembleFault → Diagnostic
  | .source f => ⟨f.span, f.cause.message⟩
  | .config f => ⟨default, utf8 f.message⟩
  | .encode f => ⟨default, utf8 f.message⟩

/-- A diagnostic as a JSON value. Every diagnostic is an error. -/
def toJson (d : Diagnostic) : Json :=
  .obj [("range", d.span.toJson), ("message", .text d.message), ("source", .str "Assembler"),
    ("severity", .nat 1)]

end Diagnostic

end Rv32Asm
