import Rv32Asm.Program
import Rv32Asm.Text.HexDump

/-!
The listing of a program: each instruction word next to its source line, then a dump of the data.
-/

set_option autoImplicit false
set_option relaxedAutoImplicit false

namespace Rv32Asm.Program

open Rv32Asm.Text

def listingLine (p : Program) (c : CodeWord) : Bytes :=
  hexWord c.address ++ utf8 ": " ++ hexWord c.word ++ utf8 "  " ++ p.sourceLine c.line ++ utf8 "\n"

/-- The listing of a program. The data part is left out if there is no data. -/
def listing (p : Program) : Bytes :=
  utf8 ".text\n" ++ p.code.flatMap p.listingLine
    ++ if p.data.isEmpty then [] else utf8 ".data\n" ++ hexDump p.data

end Rv32Asm.Program
