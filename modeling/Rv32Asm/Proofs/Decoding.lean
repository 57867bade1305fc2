import Rv32Asm.Proofs.Encoding

/-!
The word of an instruction can be decoded.

The reader of the instruction's layout gives back the bits of the table entry, the registers, and
the bits of the immediate that have a place in the word. The fields of a layout cover the whole
word, so that two instructions have the same word only if they agree in all of this.
-/

set_option autoImplicit false
set_option relaxedAutoImplicit false

namespace Rv32Asm

namespace Word

inductive Fields where
  | r (f : RFields)
  | i (f : IFields)
  | s (f : SFields)
  | b (f : SFields)
  | u (f : UFields)
  | j (f : UFields)
deriving DecidableEq

def readAs (w : UInt32) : Format → Fields
  | .registerRegister => .r (readR w)
  | .registerImmediate | .load | .jumpRegister => .i (readI w)
  | .store => .s (readS w)
  | .branch => .b (readB w)
  | .jump => .j (readJ w)
  | .upperImmediate => .u (readU w)

def Fields.opcode : Fields → UInt32
  | .r f => f.opcode
  | .i f => f.opcode
  | .s f => f.opcode
  | .b f => f.opcode
  | .u f => f.opcode
  | .j f => f.opcode

def Fields.funct3? : Fields → Option UInt32
  | .r f => some f.funct3
  | .i f => some f.funct3
  | .s f => some f.funct3
  | .b f => some f.funct3
  | .u _ | .j _ => none

def Fields.funct7? : Fields → Option UInt32
  | .r f => some f.funct7
  | .i _ | .s _ | .b _ | .u _ | .j _ => none

def Fields.imm? : Fields → Option UInt32
  | .r _ => none
  | .i f => some f.imm
  | .s f => some f.imm
  | .b f => some f.imm
  | .u f => some f.imm
  | .j f => some f.imm

theorem opcode_readAs (w : UInt32) (format : Format) : (readAs w format).opcode = opcodeOf w := by
  cases format <;> rfl

theorem readAs_injective {v w : UInt32} {format : Format}
    (same : readAs v format = readAs w format) : v = w := by
  cases format with
  | registerRegister => exact readR_injective (Fields.r.inj same)
  | registerImmediate | load | jumpRegister => exact readI_injective (Fields.i.inj same)
  | store => exact readS_injective (Fields.s.inj same)
  | branch => exact readB_injective (Fields.b.inj same)
  | jump => exact readJ_injective (Fields.j.inj same)
  | upperImmediate => exact readU_injective (Fields.u.inj same)

end Word

namespace Opcode

/-- How many numbers the immediate field of a mnemonic could tell apart if it dropped no bit. -/
def fieldSize (op : Opcode) : Int :=
  match op.format with
  | .registerImmediate => if op.shift then 32 else 0x1000
  | .registerRegister | .load | .store | .jumpRegister => 0x1000
  | .branch => 0x2000
  | .jump => 0x200000
  | .upperImmediate => 0x100000

/-- What the field keeps of a number: its lowest bits, of which branches and jumps drop the
lowest. -/
def keptBits (op : Opcode) (v : Int) : Int :=
  if op.format ∈ [.branch, .jump] then v % op.fieldSize / 2 * 2 else v % op.fieldSize

/-- What the field holds besides the number: bit 10 tells `srai` from `srli`. -/
def fixedBits (op : Opcode) : Nat :=
  if op.name = "srai" then 0x400 else 0

def field (op : Opcode) (v : Int) : UInt32 :=
  UInt32.ofNat ((op.keptBits v).toNat ||| op.fixedBits)

variable {op : Opcode}

theorem Sound.opcode_lt (sound : op.Sound) : op.opcode.toNat < 2 ^ 7 := by
  have small : op.format.majors.all (fun x => x.toNat < 2 ^ 7) = true := by
    cases op.format <;> rfl
  simpa using List.all_eq_true.mp small _ sound.major

theorem fixedBits_eq (listed : op ∈ table) : op.fixedBits = op.immFlag.toNat := by
  have all : ∀ op ∈ table, op.fixedBits = op.immFlag.toNat := by decide +kernel
  exact all op listed

theorem fixedBits_of_plain (listed : op ∈ table) (sound : op.Sound) (plain : op.shift = false) :
    op.fixedBits = 0 := by
  rw [fixedBits_eq listed, sound.immFlag plain]
  rfl

theorem field_of_plain {bits : Nat} (narrow : bits ≤ 32) (size : op.fieldSize = 2 ^ bits)
    (absolute : op.format ∉ [.branch, .jump]) (fixed : op.fixedBits = 0) (v : Int) :
    op.field v = UInt32.ofNat ((UInt32.ofInt v).toNat % 2 ^ bits) := by
  have kept : op.keptBits v = v % 2 ^ bits := by rw [keptBits, if_neg absolute, size]
  rw [field, kept, fixed, Nat.or_zero, ← Word.natCast_toNat_ofInt_mod v narrow, Int.toNat_natCast]

theorem field_of_relative {bits : Nat} (narrow : bits ≤ 32) (size : op.fieldSize = 2 ^ bits)
    (relative : op.format ∈ [.branch, .jump]) (fixed : op.fixedBits = 0) (v : Int) :
    op.field v = UInt32.ofNat ((UInt32.ofInt v).toNat % 2 ^ bits / 2 * 2) := by
  have kept : op.keptBits v = v % 2 ^ bits / 2 * 2 := by rw [keptBits, if_pos relative, size]
  rw [field, kept, fixed, Nat.or_zero, ← Word.natCast_toNat_ofInt_mod v narrow]
  congr 1

theorem field_of_twelveBit (format : op.format ∈ [.registerImmediate, .load, .store, .jumpRegister])
    (plain : op.shift = false) (fixed : op.fixedBits = 0) (v : Int) :
    op.field v = UInt32.ofNat ((UInt32.ofInt v).toNat % 2 ^ 12) := by
  simp only [List.mem_cons, List.not_mem_nil, or_false] at format
  apply field_of_plain (by decide) _ _ fixed
  · rcases format with format | format | format | format <;> simp [fieldSize, format, plain]
  · rcases format with format | format | format | format <;> simp [format]

theorem field_of_shift (listed : op ∈ table) (sound : op.Sound) (shifts : op.shift = true)
    (v : Int) :
    op.field v =
      UInt32.ofNat (((UInt32.ofInt v &&& 0x1f) ||| op.immFlag).toNat % 2 ^ 12) := by
  have format := sound.shift shifts
  have kept : op.keptBits v = v % 2 ^ 5 := by simp [keptBits, fieldSize, format, shifts]
  have amount : (UInt32.ofInt v &&& 0x1f).toNat = (v % 2 ^ 5).toNat := by
    rw [Word.toNat_low _ 5 0x1f rfl, ← Word.natCast_toNat_ofInt_mod v (by decide),
      Int.toNat_natCast]
  have flag : op.immFlag.toNat < 2 ^ 12 := by
    rw [← fixedBits_eq listed, fixedBits]
    split <;> decide
  have below : (v % 2 ^ 5).toNat ||| op.immFlag.toNat < 2 ^ 12 :=
    Nat.or_lt_two_pow (by omega) flag
  rw [field, kept, fixedBits_eq listed, UInt32.toNat_or, amount, Nat.mod_eq_of_lt below]

end Opcode

def Operand.field (op : Opcode) : Operand → UInt32
  | .num v => op.field v
  | .ref _ => 0

namespace Instruction

def fields (op : Opcode) : Instruction → Word.Fields
  | .r _ rd rs1 rs2 =>
    .r ⟨op.opcode, rd.toUInt32, rs1.toUInt32, rs2.toUInt32, op.funct7, op.funct3⟩
  | .i _ rd rs1 imm | .load _ rd rs1 imm | .jalr _ rd rs1 imm =>
    .i ⟨op.opcode, rd.toUInt32, rs1.toUInt32, imm.field op, op.funct3⟩
  | .s _ rs1 rs2 imm => .s ⟨op.opcode, rs1.toUInt32, rs2.toUInt32, imm.field op, op.funct3⟩
  | .b _ rs1 rs2 imm => .b ⟨op.opcode, rs1.toUInt32, rs2.toUInt32, imm.field op, op.funct3⟩
  | .j _ rd imm => .j ⟨op.opcode, rd.toUInt32, imm.field op⟩
  | .u _ rd imm => .u ⟨op.opcode, rd.toUInt32, imm.field op⟩

theorem opcode_fields (op : Opcode) (inst : Instruction) :
    (inst.fields op).opcode = op.opcode := by
  cases inst <;> rfl

theorem funct3?_fields (op : Opcode) (inst : Instruction) :
    (inst.fields op).funct3? =
      if inst.format ∈ [.jump, .upperImmediate] then none else some op.funct3 := by
  cases inst <;> rfl

theorem funct7?_fields (op : Opcode) (inst : Instruction) :
    (inst.fields op).funct7? =
      if inst.format = .registerRegister then some op.funct7 else none := by
  cases inst <;> rfl

theorem imm?_fields (op : Opcode) (inst : Instruction) :
    (inst.fields op).imm? = inst.imm?.map (Operand.field op) := by
  cases inst <;> rfl

variable {inst : Instruction} {op : Opcode} {w : UInt32}

theorem exists_num_of_pack {imm : Operand} (has : inst.imm? = some imm)
    (packed : inst.pack op = .ok w) : ∃ v, imm = .num v := by
  cases imm with
  | num v => exact ⟨v, rfl⟩
  | ref label =>
    cases inst with
    | r => simp [imm?] at has
    | _ =>
      obtain rfl := Option.some.inj has
      simp [pack, Operand.bits, bind, Except.bind] at packed

theorem Fits.mem_table (fits : inst.Fits op) : op ∈ Opcode.table :=
  Opcode.mem_of_find? fits.listed

theorem Fits.plain (fits : inst.Fits op) (other : inst.format ≠ .registerImmediate) :
    op.shift = false ∧ op.fixedBits = 0 := by
  have sound := Opcode.sound_of_find? fits.listed
  have plain : op.shift = false := by
    by_contra shifts
    exact other (fits.format ▸ sound.shift (by simpa using shifts))
  exact ⟨plain, Opcode.fixedBits_of_plain fits.mem_table sound plain⟩

theorem Fits.readAs_pack (fits : inst.Fits op) (packed : inst.pack op = .ok w) :
    Word.readAs w op.format = inst.fields op := by
  have sound := Opcode.sound_of_find? fits.listed
  have major := sound.opcode_lt
  have funct3 := sound.funct3
  have registers := fits.registers_lt
  have format := fits.format
  rw [format]
  cases inst with
  | r m rd rs1 rs2 =>
    obtain rfl := Except.ok.inj packed
    simp only [Instruction.registers, List.forall_mem_cons] at registers
    exact congrArg Word.Fields.r
      (Word.readR_packR major registers.1 registers.2.1 registers.2.2.1 funct3 sound.funct7)
  | i m rd rs1 imm =>
    obtain ⟨v, rfl⟩ := exists_num_of_pack rfl packed
    obtain rfl := Except.ok.inj packed
    simp only [Instruction.registers, List.forall_mem_cons] at registers
    refine congrArg Word.Fields.i
      ((Word.readI_packI major registers.1 registers.2.1 funct3).trans ?_)
    cases shifts : op.shift with
    | true =>
      rw [if_pos rfl, ← Opcode.field_of_shift fits.mem_table sound shifts v]
      rfl
    | false =>
      rw [if_neg (by decide), sound.immFlag shifts, UInt32.or_zero,
        ← Opcode.field_of_twelveBit (by simp [format, Instruction.format]) shifts
          (Opcode.fixedBits_of_plain fits.mem_table sound shifts) v]
      rfl
  | load m rd rs1 imm =>
    obtain ⟨v, rfl⟩ := exists_num_of_pack rfl packed
    obtain rfl := Except.ok.inj packed
    obtain ⟨plain, fixed⟩ := fits.plain (by simp [Instruction.format])
    simp only [Instruction.registers, List.forall_mem_cons] at registers
    refine congrArg Word.Fields.i
      ((Word.readI_packI major registers.1 registers.2.1 funct3).trans ?_)
    rw [← Opcode.field_of_twelveBit (by simp [format, Instruction.format]) plain fixed v]
    rfl
  | s m rs1 rs2 imm =>
    obtain ⟨v, rfl⟩ := exists_num_of_pack rfl packed
    obtain rfl := Except.ok.inj packed
    obtain ⟨plain, fixed⟩ := fits.plain (by simp [Instruction.format])
    simp only [Instruction.registers, List.forall_mem_cons] at registers
    refine congrArg Word.Fields.s
      ((Word.readS_packS major registers.1 registers.2.1 funct3).trans ?_)
    rw [← Opcode.field_of_twelveBit (by simp [format, Instruction.format]) plain fixed v]
    rfl
  | b m rs1 rs2 imm =>
    obtain ⟨v, rfl⟩ := exists_num_of_pack rfl packed
    obtain rfl := Except.ok.inj packed
    obtain ⟨_, fixed⟩ := fits.plain (by simp [Instruction.format])
    simp only [Instruction.registers, List.forall_mem_cons] at registers
    refine congrArg Word.Fields.b
      ((Word.readB_packB major registers.1 registers.2.1 funct3).trans ?_)
    rw [← Opcode.field_of_relative (by decide)
      (by simp [Opcode.fieldSize, format, Instruction.format])
      (by simp [format, Instruction.format]) fixed v]
    rfl
  | j m rd imm =>
    obtain ⟨v, rfl⟩ := exists_num_of_pack rfl packed
    obtain rfl := Except.ok.inj packed
    obtain ⟨_, fixed⟩ := fits.plain (by simp [Instruction.format])
    simp only [Instruction.registers, List.forall_mem_cons] at registers
    refine congrArg Word.Fields.j
      ((Word.readJ_packJ major registers.1).trans ?_)
    rw [← Opcode.field_of_relative (by decide)
      (by simp [Opcode.fieldSize, format, Instruction.format])
      (by simp [format, Instruction.format]) fixed v]
    rfl
  | jalr m rd rs1 imm =>
    obtain ⟨v, rfl⟩ := exists_num_of_pack rfl packed
    obtain rfl := Except.ok.inj packed
    obtain ⟨plain, fixed⟩ := fits.plain (by simp [Instruction.format])
    simp only [Instruction.registers, List.forall_mem_cons] at registers
    refine congrArg Word.Fields.i
      ((Word.readI_packI major registers.1 registers.2.1 funct3).trans ?_)
    rw [← Opcode.field_of_twelveBit (by simp [format, Instruction.format]) plain fixed v]
    rfl
  | u m rd imm =>
    obtain ⟨v, rfl⟩ := exists_num_of_pack rfl packed
    obtain rfl := Except.ok.inj packed
    obtain ⟨_, fixed⟩ := fits.plain (by simp [Instruction.format])
    simp only [Instruction.registers, List.forall_mem_cons] at registers
    refine congrArg Word.Fields.u
      ((Word.readU_packU major registers.1).trans ?_)
    rw [← Opcode.field_of_plain (by decide) (by simp [Opcode.fieldSize, format, Instruction.format])
      (by simp [format, Instruction.format]) fixed v]
    rfl

/-- The word `w` gives back what an instruction put into it. -/
structure Decodes (inst : Instruction) (op : Opcode) (w : UInt32) : Prop where
  fields : Word.readAs w op.format = inst.fields op
  immediate : ∀ v, inst.imm? = some (.num v) → op.shift = false →
    op.format.fieldBounds.Allows v → Word.immediateOf w = v

theorem encode_decodes (fits : inst.Fits op) (numeric : inst.Numeric) :
    ∃ w, inst.encode = .ok w ∧ inst.Decodes op w := by
  obtain ⟨w, packed, encoded⟩ := fits.encode numeric
  refine ⟨w, encoded, fits.readAs_pack packed, ?_⟩
  intro v imm plain allowed
  exact fits.immediateOf_pack imm plain allowed packed

theorem encode_decodes_bge_srai :
    (∃ w, (b "bge" 31 17 (.num (-1366))).encode = .ok w ∧ Word.immediateOf w = -1366 ∧
      Word.readAs w .branch = .b ⟨Opcode.branches, 31, 17, 0x1aaa, 0b101⟩) ∧
    ∃ w, (i "srai" 1 31 (.num (-3))).encode = .ok w ∧
      Word.readAs w .registerImmediate =
        .i ⟨Opcode.arithmeticImmediate, 1, 31, 0x41d, 0b101⟩ := by
  have branch : (b "bge" 31 17 (.num (-1366))).Fits
      (Opcode.plain "bge" .branch Opcode.branches 0b101) :=
    ⟨rfl, rfl, by decide +kernel⟩
  have shift : (i "srai" 1 31 (.num (-3))).Fits (Opcode.shiftBy "srai" 0b101 0b010000000000) :=
    ⟨rfl, rfl, by decide +kernel⟩
  obtain ⟨w, encoded, decoded⟩ := encode_decodes branch (by intro label; simp [imm?])
  obtain ⟨w', encoded', decoded'⟩ := encode_decodes shift (by intro label; simp [imm?])
  refine ⟨⟨w, encoded, decoded.immediate _ rfl rfl (by decide), decoded.fields.trans (by decide)⟩,
    w', encoded', decoded'.fields.trans (by decide)⟩

end Instruction

namespace Opcode

variable {op : Opcode} {v v' : Int}

def SameField (op : Opcode) (v v' : Int) : Prop :=
  if op.shift then v = v' else v % op.fieldSize = v' % op.fieldSize

instance (op : Opcode) (v v' : Int) : Decidable (op.SameField v v') :=
  inferInstanceAs (Decidable (if op.shift then v = v' else _))

theorem keptBits_bounds (op : Opcode) (v : Int) :
    0 ≤ op.keptBits v ∧ op.keptBits v < op.fieldSize := by
  have positive : 0 < op.fieldSize := by
    unfold fieldSize
    split
    · split <;> decide
    all_goals decide
  have nonneg := Int.emod_nonneg v positive.ne'
  have below := Int.emod_lt_of_pos v positive
  unfold keptBits
  split <;> omega

theorem toNat_field (listed : op ∈ table) (v : Int) :
    (op.field v).toNat = (op.keptBits v).toNat + op.fixedBits := by
  have sizes : ∀ op ∈ table, op.fieldSize ≤ 0x200000 ∧
      (op.name = "srai" → op.fieldSize = 32) := by decide +kernel
  obtain ⟨narrow, shift⟩ := sizes op listed
  have bounds := op.keptBits_bounds v
  have sum : (op.keptBits v).toNat ||| op.fixedBits = (op.keptBits v).toNat + op.fixedBits := by
    unfold fixedBits
    split
    · rename_i srai
      rw [shift srai] at bounds
      rw [Nat.or_comm, Nat.add_comm]
      exact (Nat.two_pow_add_eq_or_of_lt (i := 10) (by omega) 1).symm
    · rw [Nat.or_zero, Nat.add_zero]
  have flag : op.fixedBits ≤ 0x400 := by
    unfold fixedBits
    split <;> decide
  rw [field, sum, UInt32.toNat_ofNat']
  omega

/-- The bit that branches and jumps drop is zero in the numbers that they accept. -/
theorem keptBits_of_allows (allowed : op.literalBounds.Allows v) :
    op.keptBits v = v % op.fieldSize := by
  unfold keptBits
  split
  · rename_i relative
    simp only [List.mem_cons, List.not_mem_nil, or_false] at relative
    have even : v % 2 = 0 := by
      apply allowed.2.2
      rcases relative with format | format <;> simp [literalBounds, format] <;> rfl
    have divides : 2 ∣ op.fieldSize := by
      rcases relative with format | format <;> simp [fieldSize, format]
    have kept : v % op.fieldSize % 2 = 0 := by rw [Int.emod_emod_of_dvd v divides, even]
    omega
  · rfl

theorem field_eq_iff (listed : op ∈ table) (allowed : op.literalBounds.Allows v)
    (allowed' : op.literalBounds.Allows v') : op.field v = op.field v' ↔ op.SameField v v' := by
  have bounds := op.keptBits_bounds v
  have bounds' := op.keptBits_bounds v'
  have kept : op.field v = op.field v' ↔ v % op.fieldSize = v' % op.fieldSize := by
    rw [← UInt32.toNat_inj, toNat_field listed, toNat_field listed, ← keptBits_of_allows allowed,
      ← keptBits_of_allows allowed']
    omega
  rw [kept, SameField]
  split
  · rename_i shifts
    have format := (sound_of_find? (find?_name listed)).shift shifts
    have size : op.fieldSize = 32 := by simp [fieldSize, format, shifts]
    have amounts : op.literalBounds = .shiftAmount := by simp [literalBounds, format, shifts]
    rw [amounts] at allowed allowed'
    obtain ⟨least, greatest, _⟩ : 0 ≤ v ∧ v ≤ 31 ∧ _ := allowed
    obtain ⟨least', greatest', _⟩ : 0 ≤ v' ∧ v' ≤ 31 ∧ _ := allowed'
    rw [size]
    omega
  · rfl

/-- The major opcode determines the format, and with the function bits the mnemonic. -/
theorem eq_of_bits {op op' : Opcode} (listed : op ∈ table) (listed' : op' ∈ table)
    (opcode : op.opcode = op'.opcode)
    (funct3 : op.format ∉ [.jump, .upperImmediate] → op.funct3 = op'.funct3)
    (funct7 : op.format = .registerRegister → op.funct7 = op'.funct7)
    (fixed : op.format = .registerImmediate → op.fixedBits = op'.fixedBits) : op = op' := by
  have unique : ∀ op ∈ table, ∀ op' ∈ table, op.opcode = op'.opcode →
      (op.format ∉ [.jump, .upperImmediate] → op.funct3 = op'.funct3) →
      (op.format = .registerRegister → op.funct7 = op'.funct7) →
      (op.format = .registerImmediate → op.fixedBits = op'.fixedBits) → op = op' := by
    decide +kernel
  exact unique op listed op' listed' opcode funct3 funct7 fixed

theorem format_eq_of_opcode {op op' : Opcode} (listed : op ∈ table) (listed' : op' ∈ table)
    (opcode : op.opcode = op'.opcode) : op.format = op'.format := by
  have all : ∀ op ∈ table, ∀ op' ∈ table, op.opcode = op'.opcode → op.format = op'.format := by
    decide +kernel
  exact all op listed op' listed' opcode

theorem fixedBits_eq_of_field {op op' : Opcode} (listed : op ∈ table) (listed' : op' ∈ table)
    (opcode : op.opcode = op'.opcode) (funct3 : op.funct3 = op'.funct3)
    (same : op.field v = op'.field v') : op.fixedBits = op'.fixedBits := by
  have shifts : ∀ op ∈ table, ∀ op' ∈ table, op.opcode = op'.opcode → op.funct3 = op'.funct3 →
      op.fixedBits = op'.fixedBits ∨ op.fieldSize = 32 ∧ op'.fieldSize = 32 := by
    decide +kernel
  rcases shifts op listed op' listed' opcode funct3 with fixed | ⟨size, size'⟩
  · exact fixed
  · have bounds := op.keptBits_bounds v
    have bounds' := op'.keptBits_bounds v'
    rw [size] at bounds
    rw [size'] at bounds'
    rw [← UInt32.toNat_inj, toNat_field listed, toNat_field listed'] at same
    have choices : ∀ op : Opcode, op.fixedBits = 0 ∨ op.fixedBits = 0x400 := by
      intro op
      unfold fixedBits
      split <;> simp
    rcases choices op with fixed | fixed <;> rcases choices op' with fixed' | fixed' <;> omega

end Opcode

namespace Instruction

variable {a b : Instruction} {op op' : Opcode}

def Literal (inst : Instruction) (op : Opcode) : Prop :=
  ∀ imm, inst.imm? = some imm → ∃ v, imm = .num v ∧ op.literalBounds.Allows v

theorem fields_eq_iff (format : a.format = b.format) :
    a.fields op = b.fields op ↔ a.registers = b.registers ∧
      a.imm?.map (Operand.field op) = b.imm?.map (Operand.field op) := by
  cases a <;> cases b <;> simp only [Instruction.format, reduceCtorEq] at format <;>
    simp [fields, registers, imm?, UInt8.toUInt32_inj, and_assoc]

theorem imm?_eq_none_iff (inst : Instruction) :
    inst.imm? = none ↔ inst.format = .registerRegister := by
  cases inst <;> simp [imm?, Instruction.format]

theorem Literal.exists_num (literal : a.Literal op) (has : a.format ≠ .registerRegister) :
    ∃ v, a.imm? = some (.num v) ∧ op.literalBounds.Allows v := by
  obtain ⟨imm, some⟩ := Option.ne_none_iff_exists'.mp ((imm?_eq_none_iff a).not.mpr has)
  obtain ⟨v, rfl, allowed⟩ := literal imm some
  exact ⟨v, some, allowed⟩

theorem Literal.numeric (literal : a.Literal op) : a.Numeric := by
  intro label has
  obtain ⟨v, same, _⟩ := literal _ has
  simp at same

theorem Fits.op_eq_of_fields (fits : a.Fits op) (fits' : b.Fits op') (literal : a.Literal op)
    (literal' : b.Literal op') (same : a.fields op = b.fields op') : op = op' := by
  have listed := fits.mem_table
  have listed' := fits'.mem_table
  have opcode : op.opcode = op'.opcode := by
    rw [← opcode_fields op a, same, opcode_fields]
  have format : op.format = op'.format := Opcode.format_eq_of_opcode listed listed' opcode
  have funct3 (has : op.format ∉ [.jump, .upperImmediate]) : op.funct3 = op'.funct3 := by
    have bits := congrArg Word.Fields.funct3? same
    rw [funct3?_fields, funct3?_fields, ← fits.format, ← fits'.format, ← format, if_neg has,
      if_neg has] at bits
    exact Option.some.inj bits
  have funct7 (has : op.format = .registerRegister) : op.funct7 = op'.funct7 := by
    have bits := congrArg Word.Fields.funct7? same
    rw [funct7?_fields, funct7?_fields, ← fits.format, ← fits'.format, ← format, if_pos has,
      if_pos has] at bits
    exact Option.some.inj bits
  refine Opcode.eq_of_bits listed listed' opcode funct3 funct7 ?_
  intro has
  obtain ⟨v, imm, _⟩ := literal.exists_num (by rw [← fits.format, has]; decide)
  obtain ⟨v', imm', _⟩ := literal'.exists_num (by rw [← fits'.format, ← format, has]; decide)
  have bits := congrArg Word.Fields.imm? same
  rw [imm?_fields, imm?_fields, imm, imm'] at bits
  exact Opcode.fixedBits_eq_of_field listed listed' opcode (funct3 (by simp [has]))
    (Option.some.inj bits)

theorem Fits.mnemonic_eq (fits : a.Fits op) : a.mnemonic = op.name := by
  have found := List.find?_some fits.listed
  exact (beq_iff_eq.mp found).symm

theorem map_field_eq_iff (fits : a.Fits op) (format : a.format = b.format) (literal : a.Literal op)
    (literal' : b.Literal op) :
    a.imm?.map (Operand.field op) = b.imm?.map (Operand.field op) ↔
      ∀ v v', a.imm? = some (.num v) → b.imm? = some (.num v') → op.SameField v v' := by
  by_cases has : a.format = .registerRegister
  · have none := (imm?_eq_none_iff a).mpr has
    have none' := (imm?_eq_none_iff b).mpr (format ▸ has)
    simp [none, none']
  · obtain ⟨v, imm, allowed⟩ := literal.exists_num has
    obtain ⟨v', imm', allowed'⟩ := literal'.exists_num (format ▸ has)
    simp [imm, imm', Operand.field, Opcode.field_eq_iff fits.mem_table allowed allowed']

/-- Instructions have the same word if and only if they have the same mnemonic, the same registers
in the same places, and immediates that their field does not tell apart. -/
theorem encode_eq_iff (fits : a.Fits op) (fits' : b.Fits op') (literal : a.Literal op)
    (literal' : b.Literal op') :
    ∃ w w', a.encode = .ok w ∧ b.encode = .ok w' ∧
      (w = w' ↔ a.mnemonic = b.mnemonic ∧ a.registers = b.registers ∧
        ∀ v v', a.imm? = some (.num v) → b.imm? = some (.num v') → op.SameField v v') := by
  obtain ⟨w, packed, encoded⟩ := fits.encode literal.numeric
  obtain ⟨w', packed', encoded'⟩ := fits'.encode literal'.numeric
  have read := fits.readAs_pack packed
  have read' := fits'.readAs_pack packed'
  refine ⟨w, w', encoded, encoded', ?_, ?_⟩
  · rintro rfl
    have format : op.format = op'.format := by
      apply Opcode.format_eq_of_opcode fits.mem_table fits'.mem_table
      rw [← opcode_fields op a, ← opcode_fields op' b, ← read, ← read', Word.opcode_readAs,
        Word.opcode_readAs]
    have same : a.fields op = b.fields op' := by rw [← read, ← read', format]
    obtain rfl := fits.op_eq_of_fields fits' literal literal' same
    have own : a.format = b.format := by rw [← fits.format, fits'.format]
    obtain ⟨registers, imm⟩ := (fields_eq_iff own).mp same
    exact ⟨by rw [fits.mnemonic_eq, fits'.mnemonic_eq], registers,
      (map_field_eq_iff fits own literal literal').mp imm⟩
  · rintro ⟨mnemonic, registers, imm⟩
    have known := fits.listed
    rw [mnemonic, fits'.listed] at known
    obtain rfl := Option.some.inj known
    have own : a.format = b.format := by rw [← fits.format, fits'.format]
    have same : Word.readAs w op'.format = Word.readAs w' op'.format := by
      rw [read, read', fields_eq_iff own]
      exact ⟨registers, (map_field_eq_iff fits own literal literal').mpr imm⟩
    exact Word.readAs_injective same

/-- A number and the bit pattern of its field have the same word. Shifts to the right that differ in
one bit of the table only have different words. -/
theorem encode_eq_iff_addi_srai :
    (∃ w, (i "addi" 1 2 (.num (-1))).encode = .ok w ∧ (i "addi" 1 2 (.num 4095)).encode = .ok w) ∧
    ∃ w w', (i "srli" 1 2 (.num 31)).encode = .ok w ∧ (i "srai" 1 2 (.num 31)).encode = .ok w' ∧
      w ≠ w' := by
  have literal {m : String} {rd rs1 : Register} {op : Opcode} {v : Int}
      (allowed : op.literalBounds.Allows v) : (i m rd rs1 (.num v)).Literal op := by
    rintro _ ⟨⟩
    exact ⟨v, rfl, allowed⟩
  have addi {v : Int} : (i "addi" 1 2 (.num v)).Fits (Opcode.ri "addi" 0b000) :=
    ⟨rfl, rfl, show ∀ r ∈ [1, 2], _ by decide +kernel⟩
  have srli : (i "srli" 1 2 (.num 31)).Fits (Opcode.shiftBy "srli" 0b101 0) :=
    ⟨rfl, rfl, by decide +kernel⟩
  have srai : (i "srai" 1 2 (.num 31)).Fits (Opcode.shiftBy "srai" 0b101 0b010000000000) :=
    ⟨rfl, rfl, by decide +kernel⟩
  obtain ⟨w, w', encoded, encoded', same⟩ := encode_eq_iff (addi (v := -1)) (addi (v := 4095))
    (literal (by decide)) (literal (by decide))
  obtain ⟨x, x', shifted, shifted', differ⟩ := encode_eq_iff srli srai (literal (by decide))
    (literal (by decide))
  have one : w = w' := same.mpr ⟨rfl, rfl, by rintro v v' ⟨⟩ ⟨⟩; decide⟩
  refine ⟨⟨w, encoded, one ▸ encoded'⟩, x, x', shifted, shifted', ?_⟩
  intro equal
  exact absurd (differ.mp equal).1 (by decide)

end Instruction

end Rv32Asm
