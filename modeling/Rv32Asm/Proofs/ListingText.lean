import Rv32Asm.Listing
import Rv32Asm.Proofs.HexText
import Rv32Asm.Proofs.SourceLines
import Rv32Asm.Proofs.Text

/-!
The text of a listing.

A listing is taken apart into its lines whatever the source holds: source lines are shown without
line breaks. Lines with an instruction word start with a digit, and the heading of the data starts
with a point, so that the first line without a leading digit ends the words. Words and bytes stand
at fixed places of their lines, and the reader looks at nothing else.
-/

set_option autoImplicit false
set_option relaxedAutoImplicit false

namespace Rv32Asm.Program

open Rv32Asm.Text
open Rv32Asm.Outcome

variable {cfg : Config} {source : Bytes} {us : List Record} {p : Program}

section Lines

end Lines

section Reading

end Reading

section Assembled

end Assembled

end Rv32Asm.Program
