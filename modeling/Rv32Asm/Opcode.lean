import Rv32Asm.Text.CaseFold

/-!
Instruction formats and the table of mnemonics.

An `Opcode` holds the bits that the architecture fixes for one mnemonic; `Opcode.table` holds the
base integer set and the multiplication extension.
-/

set_option autoImplicit false
set_option relaxedAutoImplicit false

namespace Rv32Asm

/-- The operand fields and the bit layout of an instruction. -/
inductive Format where
  | registerRegister
  | registerImmediate
  | load
  | store
  | branch
  | jump
  | jumpRegister
  | upperImmediate
deriving DecidableEq, Repr, Inhabited

namespace Format

def name : Format → String
  | registerRegister => "Register-Register"
  | registerImmediate => "Register-Immediate"
  | load => "Load"
  | store => "Store"
  | branch => "Branch"
  | jump => "Jump"
  | jumpRegister => "JumpRegister"
  | upperImmediate => "UpperImmediate"

def usage : Format → String
  | registerRegister => "<opcode> <reg>, <reg>, <reg>"
  | registerImmediate => "<opcode> <reg>, <reg>, <imm>"
  | load | store | jumpRegister => "<opcode> <reg>, <imm>(<reg>)"
  | branch => "<opcode> <reg>, <reg>, <imm|label>"
  | jump => "<opcode> <reg>, <imm|label>"
  | upperImmediate => "<opcode> <reg>, <imm>"

def all : List Format :=
  [registerRegister, registerImmediate, load, store, branch, jump, jumpRegister, upperImmediate]

def ofNumber? (n : Int) : Option Format :=
  if n < 0 then none else all[n.toNat]?

/-- The name and the operands shown for a format number; numbers without a format have a name and
operands of their own. -/
def describeNumber (n : Int) : String × String :=
  match ofNumber? n with
  | some f => (f.name, f.usage)
  | none => ("Unknown", "<opcode>")

end Format

inductive Extension where
  /-- The base integer set, which is always on. -/
  | base
  | multiply
deriving DecidableEq, Repr, Inhabited

def Extension.name : Extension → String
  | base => ""
  | multiply => "m"

/-- The bits that the architecture fixes for one mnemonic. -/
structure Opcode where
  name : String
  format : Format
  opcode : UInt32
  funct3 : UInt32 := 0
  funct7 : UInt32 := 0
  /-- Bits that are set in the immediate field besides the operand. -/
  immFlag : UInt32 := 0
  /-- The immediate is a shift amount of five bits. -/
  shift : Bool := false
  extension : Extension := .base
deriving DecidableEq, Repr, Inhabited

namespace Opcode

def arithmetic : UInt32 := 0b0110011

def arithmeticImmediate : UInt32 := 0b0010011

def loads : UInt32 := 0b0000011

def stores : UInt32 := 0b0100011

def branches : UInt32 := 0b1100011

def jal : UInt32 := 0b1101111

def jalr : UInt32 := 0b1100111

def lui : UInt32 := 0b0110111

def auipc : UInt32 := 0b0010111

def rr (name : String) (funct3 funct7 : UInt32) (extension : Extension) : Opcode where
  name := name
  format := .registerRegister
  opcode := arithmetic
  funct3 := funct3
  funct7 := funct7
  extension := extension

def ri (name : String) (funct3 : UInt32) : Opcode where
  name := name
  format := .registerImmediate
  opcode := arithmeticImmediate
  funct3 := funct3

def shiftBy (name : String) (funct3 immFlag : UInt32) : Opcode where
  name := name
  format := .registerImmediate
  opcode := arithmeticImmediate
  funct3 := funct3
  immFlag := immFlag
  shift := true

/-- An instruction without further function bits than `funct3`. -/
def plain (name : String) (format : Format) (opcode funct3 : UInt32) : Opcode where
  name := name
  format := format
  opcode := opcode
  funct3 := funct3

def table : List Opcode :=
  [rr "add" 0b000 0b0000000 .base,
   rr "sub" 0b000 0b0100000 .base,
   rr "sll" 0b001 0b0000000 .base,
   rr "slt" 0b010 0b0000000 .base,
   rr "sltu" 0b011 0b0000000 .base,
   rr "xor" 0b100 0b0000000 .base,
   rr "srl" 0b101 0b0000000 .base,
   rr "sra" 0b101 0b0100000 .base,
   rr "or" 0b110 0b0000000 .base,
   rr "and" 0b111 0b0000000 .base,
   rr "mul" 0b000 0b0000001 .multiply,
   rr "mulh" 0b001 0b0000001 .multiply,
   rr "mulhsu" 0b010 0b0000001 .multiply,
   rr "mulhu" 0b011 0b0000001 .multiply,
   rr "div" 0b100 0b0000001 .multiply,
   rr "divu" 0b101 0b0000001 .multiply,
   rr "rem" 0b110 0b0000001 .multiply,
   rr "remu" 0b111 0b0000001 .multiply,
   ri "addi" 0b000,
   ri "slti" 0b010,
   ri "sltiu" 0b011,
   ri "xori" 0b100,
   ri "ori" 0b110,
   ri "andi" 0b111,
   shiftBy "slli" 0b001 0,
   shiftBy "srli" 0b101 0,
   shiftBy "srai" 0b101 0b010000000000,
   plain "lb" .load loads 0b000,
   plain "lh" .load loads 0b001,
   plain "lw" .load loads 0b010,
   plain "lbu" .load loads 0b100,
   plain "lhu" .load loads 0b101,
   plain "sb" .store stores 0b000,
   plain "sh" .store stores 0b001,
   plain "sw" .store stores 0b010,
   plain "beq" .branch branches 0b000,
   plain "bne" .branch branches 0b001,
   plain "blt" .branch branches 0b100,
   plain "bge" .branch branches 0b101,
   plain "bltu" .branch branches 0b110,
   plain "bgeu" .branch branches 0b111,
   plain "jal" .jump jal 0b000,
   plain "jalr" .jumpRegister jalr 0b000,
   plain "lui" .upperImmediate lui 0b000,
   plain "auipc" .upperImmediate auipc 0b000]

/-- The table entry of a mnemonic, which must be in lower case. -/
def find? (name : String) : Option Opcode :=
  table.find? fun op => op.name == name

end Opcode

end Rv32Asm
