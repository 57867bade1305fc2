import Rv32Asm.Proofs.Linking
import Rv32Asm.Proofs.WordFields

/-!
The immediate of an instruction is the immediate of its word.

The packer keeps the lowest bits of an immediate, and the reader extends their sign. A number in the
range of its field survives both.
-/

set_option autoImplicit false
set_option relaxedAutoImplicit false

namespace Rv32Asm

open Rv32Asm.Outcome

namespace Word

theorem natCast_toNat_ofInt_mod (v : Int) {bits : Nat} (narrow : bits ≤ 32) :
    (((UInt32.ofInt v).toNat % 2 ^ bits : Nat) : Int) = v % 2 ^ bits := by
  have divides : (2 : Int) ^ bits ∣ 2 ^ 32 := ⟨2 ^ (32 - bits), by
    rw [← Int.pow_add, Nat.add_sub_cancel' narrow]⟩
  rw [toNat_ofInt, Int.natCast_mod, Int.toNat_of_nonneg (Int.emod_nonneg _ (by decide)),
    Int.natCast_pow]
  exact Int.emod_emod_of_dvd v divides

/-- The lowest `bits` bits of a number in their signed range are the number. -/
theorem signExtend_ofInt {v : Int} {bits : Nat} (positive : 0 < bits) (narrow : bits ≤ 32)
    (least : -(2 ^ (bits - 1)) ≤ v) (greatest : v < 2 ^ (bits - 1)) :
    signExtend (UInt32.ofNat ((UInt32.ofInt v).toNat % 2 ^ bits)) bits = v := by
  have half : (2 : Int) ^ bits = 2 * 2 ^ (bits - 1) := by
    rw [← Int.pow_succ', Nat.sub_add_cancel positive]
  have small : (UInt32.ofInt v).toNat % 2 ^ bits < 2 ^ 32 :=
    Nat.lt_of_lt_of_le (Nat.mod_lt _ (Nat.two_pow_pos bits))
      (Nat.pow_le_pow_right (by omega) narrow)
  have modulus : ((2 ^ bits : Nat) : Int) = 2 ^ bits := Int.natCast_pow 2 bits
  rw [signExtend, Nat.one_shiftLeft, UInt32.toNat_ofNat', Nat.mod_eq_of_lt small,
    natCast_toNat_ofInt_mod v narrow, ← modulus, Int.emod_bmod]
  apply Int.bmod_eq_of_le
  · omega
  · omega

theorem signExtend_twelveBit {v : Int} (least : -2048 ≤ v) (greatest : v ≤ 2047) :
    signExtend (UInt32.ofNat ((UInt32.ofInt v).toNat % 2 ^ 12)) 12 = v :=
  signExtend_ofInt (by decide) (by decide) least (Int.lt_add_one_of_le greatest)

theorem toNat_ofInt_even {v : Int} (even : v % 2 = 0) (bits : Nat) (wide : 0 < bits) :
    (UInt32.ofInt v).toNat % 2 ^ bits / 2 * 2 = (UInt32.ofInt v).toNat % 2 ^ bits := by
  have parity : (UInt32.ofInt v).toNat % 2 = 0 := by
    rw [toNat_ofInt]
    omega
  have divides : 2 ∣ 2 ^ bits := Dvd.intro_left (2 ^ (bits - 1)) (by
    rw [← Nat.pow_succ, Nat.succ_eq_add_one, Nat.sub_add_cancel wide])
  have kept : (UInt32.ofInt v).toNat % 2 ^ bits % 2 = 0 := by
    rw [Nat.mod_mod_of_dvd _ divides, parity]
  omega

theorem immediateOf_packI {f : IFields} (rd : f.rd.toNat < 2 ^ 5) (rs1 : f.rs1.toNat < 2 ^ 5)
    (funct3 : f.funct3.toNat < 2 ^ 3)
    (major : f.opcode ∈ [Opcode.arithmeticImmediate, Opcode.loads, Opcode.jalr]) :
    immediateOf (packI f) = signExtend (UInt32.ofNat (f.imm.toNat % 2 ^ 12)) 12 := by
  simp only [List.mem_cons, List.not_mem_nil, or_false] at major
  have small : f.opcode.toNat < 2 ^ 7 := by
    rcases major with major | major | major <;> rw [major] <;> decide
  have read := readI_packI small rd rs1 funct3
  have opcode : opcodeOf (packI f) = f.opcode := congrArg IFields.opcode read
  simp only [immediateOf, opcode, read, if_pos major]

theorem immediateOf_packS {f : SFields} (rs1 : f.rs1.toNat < 2 ^ 5) (rs2 : f.rs2.toNat < 2 ^ 5)
    (funct3 : f.funct3.toNat < 2 ^ 3) (major : f.opcode = Opcode.stores) :
    immediateOf (packS f) = signExtend (UInt32.ofNat (f.imm.toNat % 2 ^ 12)) 12 := by
  have small : f.opcode.toNat < 2 ^ 7 := by rw [major]; decide
  have read := readS_packS small rs1 rs2 funct3
  have opcode : opcodeOf (packS f) = Opcode.stores := (congrArg SFields.opcode read).trans major
  simp only [immediateOf, opcode, read]
  rw [if_neg (by decide), if_true]

theorem immediateOf_packB {f : SFields} (rs1 : f.rs1.toNat < 2 ^ 5) (rs2 : f.rs2.toNat < 2 ^ 5)
    (funct3 : f.funct3.toNat < 2 ^ 3) (major : f.opcode = Opcode.branches) :
    immediateOf (packB f) = signExtend (UInt32.ofNat (f.imm.toNat % 2 ^ 13 / 2 * 2)) 13 := by
  have small : f.opcode.toNat < 2 ^ 7 := by rw [major]; decide
  have read := readB_packB small rs1 rs2 funct3
  have opcode : opcodeOf (packB f) = Opcode.branches := (congrArg SFields.opcode read).trans major
  simp only [immediateOf, opcode, read]
  rw [if_neg (by decide), if_neg (by decide), if_true]

theorem immediateOf_packJ {f : UFields} (rd : f.rd.toNat < 2 ^ 5) (major : f.opcode = Opcode.jal) :
    immediateOf (packJ f) = signExtend (UInt32.ofNat (f.imm.toNat % 2 ^ 21 / 2 * 2)) 21 := by
  have small : f.opcode.toNat < 2 ^ 7 := by rw [major]; decide
  have read := readJ_packJ small rd
  have opcode : opcodeOf (packJ f) = Opcode.jal := (congrArg UFields.opcode read).trans major
  simp only [immediateOf, opcode, read]
  rw [if_neg (by decide), if_neg (by decide), if_neg (by decide), if_true]

theorem immediateOf_packU {f : UFields} (rd : f.rd.toNat < 2 ^ 5)
    (major : f.opcode ∈ [Opcode.lui, Opcode.auipc]) :
    immediateOf (packU f) = (f.imm.toNat % 2 ^ 20 : Nat) := by
  simp only [List.mem_cons, List.not_mem_nil, or_false] at major
  have small : f.opcode.toNat < 2 ^ 7 := by
    rcases major with major | major <;> rw [major] <;> decide
  have read := readU_packU small rd
  have opcode : opcodeOf (packU f) = f.opcode := congrArg UFields.opcode read
  have value : (UInt32.ofNat (f.imm.toNat % 2 ^ 20)).toNat = f.imm.toNat % 2 ^ 20 := by
    rw [UInt32.toNat_ofNat']
    omega
  simp only [immediateOf, opcode, read, value]
  rcases major with major | major <;> rw [major] <;> rfl

end Word

/-- The numbers that an immediate field can hold, with its sign. -/
def Format.fieldBounds : Format → Bounds
  | .branch => .branchLabel
  | .jump => .jumpLabel
  | .upperImmediate => .upperLabel
  | .registerRegister | .registerImmediate | .load | .store | .jumpRegister => ⟨-2048, 2047, false⟩

def Format.majors : Format → List UInt32
  | .registerRegister => [Opcode.arithmetic]
  | .registerImmediate => [Opcode.arithmeticImmediate]
  | .load => [Opcode.loads]
  | .store => [Opcode.stores]
  | .branch => [Opcode.branches]
  | .jump => [Opcode.jal]
  | .jumpRegister => [Opcode.jalr]
  | .upperImmediate => [Opcode.lui, Opcode.auipc]

namespace Opcode

/-- The bits of a table entry fit their fields, and only shifts set bits of the immediate. -/
structure Sound (op : Opcode) : Prop where
  major : op.opcode ∈ op.format.majors
  funct3 : op.funct3.toNat < 2 ^ 3
  funct7 : op.funct7.toNat < 2 ^ 7
  immFlag : op.shift = false → op.immFlag = 0
  shift : op.shift = true → op.format = .registerImmediate

theorem sound_of_find? {name : String} {op : Opcode} (found : find? name = some op) : op.Sound := by
  have all : ∀ op ∈ table, op.opcode ∈ op.format.majors ∧ op.funct3.toNat < 2 ^ 3 ∧
      op.funct7.toNat < 2 ^ 7 ∧ (op.shift = false → op.immFlag = 0) ∧
      (op.shift = true → op.format = .registerImmediate) := by decide +kernel
  obtain ⟨major, funct3, funct7, immFlag, shift⟩ := all op (mem_of_find? found)
  exact ⟨major, funct3, funct7, immFlag, shift⟩

end Opcode

namespace Instruction

variable {inst : Instruction} {op : Opcode} {v : Int} {w : UInt32}

theorem Fits.registers_lt (fits : inst.Fits op) :
    ∀ r ∈ inst.registers, r.toUInt32.toNat < 2 ^ 5 := by
  intro r member
  rw [UInt8.toNat_toUInt32]
  exact Nat.lt_succ_of_le (fits.registers r member)

theorem Fits.immediateOf_pack (fits : inst.Fits op) (imm : inst.imm? = some (.num v))
    (plain : op.shift = false) (allowed : op.format.fieldBounds.Allows v)
    (packed : inst.pack op = .ok w) : Word.immediateOf w = v := by
  obtain ⟨major, funct3, _, immFlag, _⟩ := Opcode.sound_of_find? fits.listed
  have registers := fits.registers_lt
  rw [fits.format] at major allowed
  obtain ⟨least, greatest, even⟩ := allowed
  cases inst with
  | r m rd rs1 rs2 => simp [imm?] at imm
  | i m rd rs1 operand =>
    obtain rfl := Option.some.inj imm
    obtain rfl := Except.ok.inj packed
    simp only [Instruction.registers, List.forall_mem_cons] at registers
    simp only [plain, Bool.false_eq_true, if_false, immFlag plain, UInt32.or_zero]
    rw [Word.immediateOf_packI registers.1 registers.2.1 funct3
      (by simp [List.mem_singleton.mp major])]
    exact Word.signExtend_twelveBit least greatest
  | load m rd rs1 operand =>
    obtain rfl := Option.some.inj imm
    obtain rfl := Except.ok.inj packed
    simp only [Instruction.registers, List.forall_mem_cons] at registers
    rw [Word.immediateOf_packI registers.1 registers.2.1 funct3
      (by simp [List.mem_singleton.mp major])]
    exact Word.signExtend_twelveBit least greatest
  | s m rs1 rs2 operand =>
    obtain rfl := Option.some.inj imm
    obtain rfl := Except.ok.inj packed
    simp only [Instruction.registers, List.forall_mem_cons] at registers
    rw [Word.immediateOf_packS registers.1 registers.2.1 funct3 (List.mem_singleton.mp major)]
    exact Word.signExtend_twelveBit least greatest
  | b m rs1 rs2 operand =>
    obtain rfl := Option.some.inj imm
    obtain rfl := Except.ok.inj packed
    simp only [Instruction.registers, List.forall_mem_cons] at registers
    rw [Word.immediateOf_packB registers.1 registers.2.1 funct3 (List.mem_singleton.mp major),
      Word.toNat_ofInt_even (even rfl) 13 (by decide)]
    exact Word.signExtend_ofInt (by decide) (by decide) least
      (Int.lt_of_le_of_lt (b := 4095) greatest (by decide))
  | j m rd operand =>
    obtain rfl := Option.some.inj imm
    obtain rfl := Except.ok.inj packed
    simp only [Instruction.registers, List.forall_mem_cons] at registers
    rw [Word.immediateOf_packJ registers.1 (List.mem_singleton.mp major),
      Word.toNat_ofInt_even (even rfl) 21 (by decide)]
    exact Word.signExtend_ofInt (by decide) (by decide) least
      (Int.lt_of_le_of_lt (b := 2 ^ 20 - 1) greatest (by decide))
  | jalr m rd rs1 operand =>
    obtain rfl := Option.some.inj imm
    obtain rfl := Except.ok.inj packed
    simp only [Instruction.registers, List.forall_mem_cons] at registers
    rw [Word.immediateOf_packI registers.1 registers.2.1 funct3
      (by simp [List.mem_singleton.mp major])]
    exact Word.signExtend_twelveBit least greatest
  | u m rd operand =>
    obtain rfl := Option.some.inj imm
    obtain rfl := Except.ok.inj packed
    simp only [Instruction.registers, List.forall_mem_cons] at registers
    rw [Word.immediateOf_packU registers.1 major]
    have least : 0 ≤ v := least
    have greatest : v ≤ 2 ^ 20 - 1 := greatest
    rw [Word.toNat_ofInt]
    omega

end Instruction

end Rv32Asm
