import Rv32Asm.Instruction
import Rv32Asm.Text.Quoted
import Rv32Asm.Text.Utf8
import Rv32Asm.Word.Fields

/-!
Packing an instruction into its word.

Encoding needs a mnemonic of the table, the format that the table gives it, and a number where the
format has an immediate. A fault names the first of these that is missing.
-/

set_option autoImplicit false
set_option relaxedAutoImplicit false

namespace Rv32Asm

open Rv32Asm.Text

inductive EncodeFault where
  | unknownMnemonic (mnemonic : String)
  | wrongFormat (mnemonic : String) (expected actual : Format)
  | unresolvedLabel (mnemonic : String) (label : Bytes)
deriving DecidableEq, Repr

def EncodeFault.message : EncodeFault → String
  | unknownMnemonic m => "assembler: encoding unknown mnemonic " ++ quote m
  | wrongFormat m expected actual =>
    "assembler: " ++ m ++ " is a " ++ expected.name ++ " instruction, not " ++ actual.name
  | unresolvedLabel m label =>
    "assembler: encoding " ++ m ++ " with unresolved label " ++ quote (decodeLossy label)

/-- The lowest 32 bits of an immediate, which must be a number. -/
def Operand.bits (mnemonic : String) : Operand → Except EncodeFault UInt32
  | .num v => .ok (UInt32.ofInt v)
  | .ref label => .error (.unresolvedLabel mnemonic label)

namespace Instruction

def pack (op : Opcode) : Instruction → Except EncodeFault UInt32
  | .r _ rd rs1 rs2 =>
    .ok (Word.packR ⟨op.opcode, rd.toUInt32, rs1.toUInt32, rs2.toUInt32, op.funct7, op.funct3⟩)
  | .i m rd rs1 imm => do
    let v ← imm.bits m
    let v := if op.shift then v &&& 0x1f else v
    return Word.packI ⟨op.opcode, rd.toUInt32, rs1.toUInt32, v ||| op.immFlag, op.funct3⟩
  | .load m rd rs1 imm | .jalr m rd rs1 imm => do
    let v ← imm.bits m
    return Word.packI ⟨op.opcode, rd.toUInt32, rs1.toUInt32, v, op.funct3⟩
  | .s m rs1 rs2 imm => do
    let v ← imm.bits m
    return Word.packS ⟨op.opcode, rs1.toUInt32, rs2.toUInt32, v, op.funct3⟩
  | .b m rs1 rs2 imm => do
    let v ← imm.bits m
    return Word.packB ⟨op.opcode, rs1.toUInt32, rs2.toUInt32, v, op.funct3⟩
  | .j m rd imm => do
    let v ← imm.bits m
    return Word.packJ ⟨op.opcode, rd.toUInt32, v⟩
  | .u m rd imm => do
    let v ← imm.bits m
    return Word.packU ⟨op.opcode, rd.toUInt32, v⟩

def encode (inst : Instruction) : Except EncodeFault UInt32 :=
  match Opcode.find? inst.mnemonic with
  | none => .error (.unknownMnemonic inst.mnemonic)
  | some op =>
    if op.format = inst.format then inst.pack op
    else .error (.wrongFormat inst.mnemonic op.format inst.format)

example : (encode (.i "addi" 1 0 (.num 1))).toOption = some 0x00100093 := by decide +kernel
example : (encode (.j "jal" 0 (.num (-4)))).toOption = some 0xffdff06f := by decide +kernel

end Instruction

end Rv32Asm
