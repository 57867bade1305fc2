import Rv32Asm.Opcode

/-!
The six layouts of an instruction word.

For each layout there is a structure of its fields, a packer and a reader. Packers do not mask
register numbers, opcodes and function bits; immediates are cut to the width of their field.
-/

set_option autoImplicit false
set_option relaxedAutoImplicit false

namespace Rv32Asm.Word

structure RFields where
  opcode : UInt32
  rd : UInt32
  rs1 : UInt32
  rs2 : UInt32
  funct7 : UInt32
  funct3 : UInt32
deriving DecidableEq, Repr

structure IFields where
  opcode : UInt32
  rd : UInt32
  rs1 : UInt32
  imm : UInt32
  funct3 : UInt32
deriving DecidableEq, Repr

/-- Fields of the two layouts with two sources and an immediate in two places: stores, with
12 bits, and branches, with 13 bits of which the lowest is dropped. -/
structure SFields where
  opcode : UInt32
  rs1 : UInt32
  rs2 : UInt32
  imm : UInt32
  funct3 : UInt32
deriving DecidableEq, Repr

/-- Fields of the two layouts with a destination and a long immediate: upper immediates, with
20 bits, and jumps, with 21 bits of which the lowest is dropped. -/
structure UFields where
  opcode : UInt32
  rd : UInt32
  imm : UInt32
deriving DecidableEq, Repr

def packR (f : RFields) : UInt32 :=
  (f.funct7 <<< 25) ||| (f.rs2 <<< 20) ||| (f.rs1 <<< 15) ||| (f.funct3 <<< 12) ||| (f.rd <<< 7)
    ||| f.opcode

def packI (f : IFields) : UInt32 :=
  ((f.imm &&& 0xfff) <<< 20) ||| (f.rs1 <<< 15) ||| (f.funct3 <<< 12) ||| (f.rd <<< 7) ||| f.opcode

def packS (f : SFields) : UInt32 :=
  let imm := f.imm &&& 0xfff
  ((imm >>> 5) <<< 25) ||| (f.rs2 <<< 20) ||| (f.rs1 <<< 15) ||| (f.funct3 <<< 12)
    ||| ((imm &&& 0x1f) <<< 7) ||| f.opcode

/-- Packs the branch layout. The immediate is a distance in bytes; its lowest bit is dropped. -/
def packB (f : SFields) : UInt32 :=
  (f.rs2 <<< 20) ||| (f.rs1 <<< 15) ||| (f.funct3 <<< 12) ||| f.opcode
    ||| (((f.imm >>> 12) &&& 0x1) <<< 31) ||| (((f.imm >>> 5) &&& 0x3f) <<< 25)
    ||| (((f.imm >>> 1) &&& 0xf) <<< 8) ||| (((f.imm >>> 11) &&& 0x1) <<< 7)

def packU (f : UFields) : UInt32 :=
  ((f.imm &&& 0xfffff) <<< 12) ||| (f.rd <<< 7) ||| f.opcode

/-- Packs the jump layout. The immediate is a distance in bytes; its lowest bit is dropped. -/
def packJ (f : UFields) : UInt32 :=
  (f.rd <<< 7) ||| f.opcode
    ||| (((f.imm >>> 20) &&& 0x1) <<< 31) ||| (((f.imm >>> 1) &&& 0x3ff) <<< 21)
    ||| (((f.imm >>> 11) &&& 0x1) <<< 20) ||| (((f.imm >>> 12) &&& 0xff) <<< 12)

def opcodeOf (w : UInt32) : UInt32 := w &&& 0x7f

def rdOf (w : UInt32) : UInt32 := (w >>> 7) &&& 0x1f

def rs1Of (w : UInt32) : UInt32 := (w >>> 15) &&& 0x1f

def rs2Of (w : UInt32) : UInt32 := (w >>> 20) &&& 0x1f

def funct3Of (w : UInt32) : UInt32 := (w >>> 12) &&& 0x7

def funct7Of (w : UInt32) : UInt32 := (w >>> 25) &&& 0x7f

def readR (w : UInt32) : RFields :=
  ⟨opcodeOf w, rdOf w, rs1Of w, rs2Of w, funct7Of w, funct3Of w⟩

def readI (w : UInt32) : IFields :=
  ⟨opcodeOf w, rdOf w, rs1Of w, (w >>> 20) &&& 0xfff, funct3Of w⟩

def readS (w : UInt32) : SFields :=
  ⟨opcodeOf w, rs1Of w, rs2Of w, (((w >>> 25) &&& 0x7f) <<< 5) ||| ((w >>> 7) &&& 0x1f), funct3Of w⟩

def readB (w : UInt32) : SFields :=
  ⟨opcodeOf w, rs1Of w, rs2Of w,
    (((w >>> 31) &&& 0x1) <<< 12) ||| (((w >>> 7) &&& 0x1) <<< 11) ||| (((w >>> 25) &&& 0x3f) <<< 5)
      ||| (((w >>> 8) &&& 0xf) <<< 1),
    funct3Of w⟩

def readU (w : UInt32) : UFields :=
  ⟨opcodeOf w, rdOf w, (w >>> 12) &&& 0xfffff⟩

def readJ (w : UInt32) : UFields :=
  ⟨opcodeOf w, rdOf w,
    (((w >>> 31) &&& 0x1) <<< 20) ||| (((w >>> 21) &&& 0x3ff) <<< 1) ||| (((w >>> 20) &&& 0x1) <<< 11)
      ||| (((w >>> 12) &&& 0xff) <<< 12)⟩

/-- The value of the lowest `bits` bits of `v` in two's complement. -/
def signExtend (v : UInt32) (bits : Nat) : Int :=
  (v.toNat : Int).bmod (1 <<< bits)

/-- The immediate of a word, with its sign. The layout follows from the major opcode. Upper
immediates have no sign, and words without an immediate give zero. -/
def immediateOf (w : UInt32) : Int :=
  let opcode := opcodeOf w
  if opcode = Opcode.arithmeticImmediate ∨ opcode = Opcode.loads ∨ opcode = Opcode.jalr then
    signExtend (readI w).imm 12
  else if opcode = Opcode.stores then signExtend (readS w).imm 12
  else if opcode = Opcode.branches then signExtend (readB w).imm 13
  else if opcode = Opcode.jal then signExtend (readJ w).imm 21
  else if opcode = Opcode.lui ∨ opcode = Opcode.auipc then (readU w).imm.toNat
  else 0

end Rv32Asm.Word
