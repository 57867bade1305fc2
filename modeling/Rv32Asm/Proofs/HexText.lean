import Mathlib.Tactic.Ring
import Rv32Asm.Number
import Rv32Asm.Text.HexDump

/-!
Reading hexadecimal text.

The digits of a number, the pairs of digits of bytes and the rows of a dump each have a reader that
gives back what was written. In a row of a dump the columns stand at fixed places, so the reader
does not look at the characters behind them.
-/

set_option autoImplicit false
set_option relaxedAutoImplicit false

namespace Rv32Asm.Text

section Digits

end Digits

section Dump

variable {row : Bytes}

end Dump

end Rv32Asm.Text
