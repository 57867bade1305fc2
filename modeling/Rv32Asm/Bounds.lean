import Rv32Asm.Fault
import Rv32Asm.Opcode

/-!
The values that an immediate operand may have.

Literals may be written with a sign or as the bit pattern of their field, so their bounds reach
from the least signed value to the greatest unsigned one. Values of labels have bounds of their
own.
-/

set_option autoImplicit false
set_option relaxedAutoImplicit false

namespace Rv32Asm

/-- An inclusive range of integers, of which the odd ones may be left out. -/
structure Bounds where
  least : Int
  greatest : Int
  even : Bool := false
deriving DecidableEq, Repr

namespace Bounds

/-- Refuses a value outside the bounds. `shown` is the value as the message has it. -/
def check (b : Bounds) (value : Int) (shown : Bytes) (span : Span) : Except Fault Unit :=
  if value < b.least ∨ b.greatest < value then .error ⟨.outOfRange shown b.least b.greatest, span⟩
  else if b.even = true ∧ value % 2 ≠ 0 then .error ⟨.oddOffset shown, span⟩
  else .ok ()

def twelveBit : Bounds := ⟨-2048, 4095, false⟩

def shiftAmount : Bounds := ⟨0, 31, false⟩

def upper : Bounds := ⟨-0x80000, 0xfffff, false⟩

def branchLiteral : Bounds := ⟨-4096, 8191, true⟩

def jumpLiteral : Bounds := ⟨-0x100000, 0x1fffff, true⟩

def branchLabel : Bounds := ⟨-4096, 4095, true⟩

def jumpLabel : Bounds := ⟨-0x100000, 0xfffff, true⟩

def upperLabel : Bounds := ⟨0, 0xfffff, false⟩

/-- Label offsets in an immediate of 12 bits. -/
def absoluteLabel : Bounds := ⟨0, 2047, false⟩

def fill : Bounds := ⟨0, 0x1000000, false⟩

/-- Values of a data item of the given size; any size but one and two counts as a word. -/
def data (size : Int) : Bounds :=
  if size = 1 then ⟨-128, 255, false⟩
  else if size = 2 then ⟨-32768, 65535, false⟩
  else ⟨-0x80000000, 0xffffffff, false⟩

end Bounds

def Opcode.literalBounds (op : Opcode) : Bounds :=
  match op.format with
  | .registerImmediate => if op.shift then .shiftAmount else .twelveBit
  | .branch => .branchLiteral
  | .jump => .jumpLiteral
  | .upperImmediate => .upper
  | .registerRegister | .load | .store | .jumpRegister => .twelveBit

namespace Opcode

variable {op : Opcode}

theorem literalBounds_of_branch (format : op.format = .branch) :
    op.literalBounds = .branchLiteral := by
  rw [literalBounds, format]

theorem literalBounds_of_jump (format : op.format = .jump) : op.literalBounds = .jumpLiteral := by
  rw [literalBounds, format]

theorem literalBounds_of_upperImmediate (format : op.format = .upperImmediate) :
    op.literalBounds = .upper := by
  rw [literalBounds, format]

theorem literalBounds_of_offset
    (format : op.format = .load ∨ op.format = .store ∨ op.format = .jumpRegister) :
    op.literalBounds = .twelveBit := by
  rcases format with format | format | format <;> rw [literalBounds, format]

end Opcode

end Rv32Asm
