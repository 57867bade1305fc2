import Rv32Asm.Opcode
import Rv32Asm.Register
import Rv32Asm.Text.Bytes

/-!
Instructions as they are parsed, before they are packed into words.
-/

set_option autoImplicit false
set_option relaxedAutoImplicit false

namespace Rv32Asm

/-- An immediate operand: a number, or a label whose value is not known yet. -/
inductive Operand where
  | num (value : Int)
  | ref (label : Bytes)
deriving DecidableEq, Repr, Inhabited

/-- The operand that a name stands for. The empty name is no label: it is the number zero. -/
def Operand.ofName (name : Bytes) : Operand :=
  if name.isEmpty then .num 0 else .ref name

/-- An instruction with the fields of its format. The mnemonic is any text, and nothing ties it to
the format: the parser only builds matching ones, and the encoder refuses others. -/
inductive Instruction where
  | r (mnemonic : String) (rd rs1 rs2 : Register)
  | i (mnemonic : String) (rd rs1 : Register) (imm : Operand)
  | load (mnemonic : String) (rd rs1 : Register) (imm : Operand)
  | s (mnemonic : String) (rs1 rs2 : Register) (imm : Operand)
  | b (mnemonic : String) (rs1 rs2 : Register) (imm : Operand)
  | j (mnemonic : String) (rd : Register) (imm : Operand)
  | jalr (mnemonic : String) (rd rs1 : Register) (imm : Operand)
  | u (mnemonic : String) (rd : Register) (imm : Operand)
deriving DecidableEq, Repr, Inhabited

namespace Instruction

def mnemonic : Instruction → String
  | r m .. | i m .. | load m .. | s m .. | b m .. | j m .. | jalr m .. | u m .. => m

def format : Instruction → Format
  | r .. => .registerRegister
  | i .. => .registerImmediate
  | load .. => .load
  | s .. => .store
  | b .. => .branch
  | j .. => .jump
  | jalr .. => .jumpRegister
  | u .. => .upperImmediate

def imm? : Instruction → Option Operand
  | r .. => none
  | i _ _ _ imm | load _ _ _ imm | s _ _ _ imm | b _ _ _ imm | j _ _ imm | jalr _ _ _ imm
  | u _ _ imm => some imm

def withImm : Instruction → Operand → Instruction
  | r m rd rs1 rs2, _ => r m rd rs1 rs2
  | i m rd rs1 _, imm => i m rd rs1 imm
  | load m rd rs1 _, imm => load m rd rs1 imm
  | s m rs1 rs2 _, imm => s m rs1 rs2 imm
  | b m rs1 rs2 _, imm => b m rs1 rs2 imm
  | j m rd _, imm => j m rd imm
  | jalr m rd rs1 _, imm => jalr m rd rs1 imm
  | u m rd _, imm => u m rd imm

end Instruction

end Rv32Asm
