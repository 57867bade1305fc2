import Rv32Asm.Statement.Pseudo

/-!
Short descriptions of mnemonics, shorthands and directives.
-/

set_option autoImplicit false
set_option relaxedAutoImplicit false

namespace Rv32Asm.Hover

structure Doc where
  title : String
  operation : String
deriving DecidableEq, Repr, Inhabited

def instructionDocs : List (String × Doc) :=
  [("add", ⟨"Addition", "rd = rs1 + rs2"⟩),
   ("sub", ⟨"Subtraction", "rd = rs1 - rs2"⟩),
   ("xor", ⟨"XOR", "rd = rs1 ^ rs2"⟩),
   ("or", ⟨"OR", "rd = rs1 | rs2"⟩),
   ("and", ⟨"AND", "rd = rs1 & rs2"⟩),
   ("sll", ⟨"Shift Left Logical", "rd = rs1 << rs2"⟩),
   ("srl", ⟨"Shift Right Logical", "rd = rs1 >> rs2"⟩),
   ("sra", ⟨"Shift Right Arithmetic", "rd = rs1 >> rs2 (sign copied)"⟩),
   ("slt", ⟨"Set Less Than", "rd = (rs1 < rs2) ? 1 : 0"⟩),
   ("sltu", ⟨"Set Less Than Unsigned", "rd = (rs1 < rs2) ? 1 : 0 (unsigned)"⟩),
   ("addi", ⟨"Addition Immediate", "rd = rs1 + imm"⟩),
   ("xori", ⟨"XOR Immediate", "rd = rs1 ^ imm"⟩),
   ("ori", ⟨"OR Immediate", "rd = rs1 | imm"⟩),
   ("andi", ⟨"AND Immediate", "rd = rs1 & imm"⟩),
   ("slli", ⟨"Shift Left Logical Immediate", "rd = rs1 << imm"⟩),
   ("srli", ⟨"Shift Right Logical Immediate", "rd = rs1 >> imm"⟩),
   ("srai", ⟨"Shift Right Arithmetic Immediate", "rd = rs1 >> imm (sign copied)"⟩),
   ("slti", ⟨"Set Less Than Immediate", "rd = (rs1 < imm) ? 1 : 0"⟩),
   ("sltiu", ⟨"Set Less Than Unsigned Immediate", "rd = (rs1 < imm) ? 1 : 0 (unsigned)"⟩),
   ("lb", ⟨"Load Byte", "rd = sext(mem8[rs1 + imm])"⟩),
   ("lh", ⟨"Load Halfword", "rd = sext(mem16[rs1 + imm])"⟩),
   ("lw", ⟨"Load Word", "rd = mem32[rs1 + imm]"⟩),
   ("lbu", ⟨"Load Byte Unsigned", "rd = zext(mem8[rs1 + imm])"⟩),
   ("lhu", ⟨"Load Halfword Unsigned", "rd = zext(mem16[rs1 + imm])"⟩),
   ("sb", ⟨"Store Byte", "mem8[rs1 + imm] = rs2"⟩),
   ("sh", ⟨"Store Halfword", "mem16[rs1 + imm] = rs2"⟩),
   ("sw", ⟨"Store Word", "mem32[rs1 + imm] = rs2"⟩),
   ("beq", ⟨"Branch Equal", "if rs1 == rs2 \x7b pc += imm \x7d"⟩),
   ("bne", ⟨"Branch Not Equal", "if rs1 != rs2 \x7b pc += imm \x7d"⟩),
   ("blt", ⟨"Branch Less Than", "if rs1 < rs2 \x7b pc += imm \x7d"⟩),
   ("bge", ⟨"Branch Greater Than or Equal", "if rs1 >= rs2 \x7b pc += imm \x7d"⟩),
   ("bltu", ⟨"Branch Less Than Unsigned", "if rs1 < rs2 \x7b pc += imm \x7d (unsigned)"⟩),
   ("bgeu", ⟨"Branch Greater Than or Equal Unsigned",
     "if rs1 >= rs2 \x7b pc += imm \x7d (unsigned)"⟩),
   ("jal", ⟨"Jump and Link", "rd = pc + 4; pc += imm"⟩),
   ("jalr", ⟨"Jump and Link Register", "rd = pc + 4; pc = rs1 + imm"⟩),
   ("lui", ⟨"Load Upper Immediate", "rd = imm << 12"⟩),
   ("auipc", ⟨"Add Upper Immediate to PC", "rd = pc + (imm << 12)"⟩),
   ("mul", ⟨"Multiply", "rd = (rs1 * rs2)[31:0]"⟩),
   ("mulh", ⟨"Multiply High", "rd = (sext(rs1) * sext(rs2))[63:32]"⟩),
   ("mulhsu", ⟨"Multiply High Signed Unsigned", "rd = (sext(rs1) * zext(rs2))[63:32]"⟩),
   ("mulhu", ⟨"Multiply High Unsigned", "rd = (zext(rs1) * zext(rs2))[63:32]"⟩),
   ("div", ⟨"Divide", "rd = rs1 / rs2"⟩),
   ("divu", ⟨"Divide Unsigned", "rd = rs1 / rs2 (unsigned)"⟩),
   ("rem", ⟨"Remainder", "rd = rs1 % rs2"⟩),
   ("remu", ⟨"Remainder Unsigned", "rd = rs1 % rs2 (unsigned)"⟩)]

def pseudoDoc : Pseudo → Doc
  | .nop => ⟨"No Operation", "addi zero, zero, 0"⟩
  | .ret => ⟨"Return", "jalr zero, 0(ra)"⟩
  | .mv => ⟨"Move", "addi rd, rs, 0"⟩
  | .not => ⟨"Bitwise Not", "xori rd, rs, -1"⟩
  | .neg => ⟨"Negate", "sub rd, zero, rs"⟩
  | .j => ⟨"Jump", "jal zero, target"⟩

def directiveDocs : List (String × Doc) :=
  [(".byte", ⟨".byte <imm|label>, ...", "Emits one byte per value."⟩),
   (".half", ⟨".half <imm|label>, ...", "Emits two bytes per value."⟩),
   (".word", ⟨".word <imm|label>, ...", "Emits four bytes per value."⟩),
   (".string", ⟨".string \"<text>\"", "Emits the text followed by a NUL byte."⟩),
   (".asciz", ⟨".asciz \"<text>\"", "Emits the text followed by a NUL byte."⟩),
   (".ascii", ⟨".ascii \"<text>\"", "Emits the text without a terminator."⟩),
   (".space", ⟨".space <count>", "Emits `<count>` zero bytes."⟩),
   (".zero", ⟨".zero <count>", "Emits `<count>` zero bytes."⟩)]

end Rv32Asm.Hover
