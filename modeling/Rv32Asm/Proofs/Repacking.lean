import Rv32Asm.Proofs.Decoding

/-!
Packing undoes reading.

Every reader takes a word apart into fields of which none is lost and none overlaps another: the
fields pack to the word that they were read from, and a bit that is turned over in the word is
turned over in one field. An immediate with its sign packs like the field that it was read from, as
the packer drops the bits that the sign added.
-/

set_option autoImplicit false
set_option relaxedAutoImplicit false

namespace Rv32Asm.Word

def Fields.pack : Fields → UInt32
  | .r f => packR f
  | .i f => packI f
  | .s f => packS f
  | .b f => packB f
  | .u f => packU f
  | .j f => packJ f

def Fields.toList : Fields → List UInt32
  | .r f => [f.opcode, f.rd, f.rs1, f.rs2, f.funct7, f.funct3]
  | .i f => [f.opcode, f.rd, f.rs1, f.imm, f.funct3]
  | .s f | .b f => [f.opcode, f.rs1, f.rs2, f.imm, f.funct3]
  | .u f | .j f => [f.opcode, f.rd, f.imm]

def Fields.withImm (imm : UInt32) : Fields → Fields
  | .r f => .r f
  | .i f => .i { f with imm := imm }
  | .s f => .s { f with imm := imm }
  | .b f => .b { f with imm := imm }
  | .u f => .u { f with imm := imm }
  | .j f => .j { f with imm := imm }

def flipBit (w : UInt32) (k : Nat) : UInt32 :=
  w ^^^ (1 <<< UInt32.ofNat k)

theorem and_xor_and (v w mask : UInt32) : (v ^^^ w) &&& mask = (v &&& mask) ^^^ (w &&& mask) := by
  simp only [← UInt32.toNat_inj, UInt32.toNat_and, UInt32.toNat_xor, Nat.and_xor_distrib_right]

theorem or_eq_xor {v w : UInt32} (apart : v &&& w = 0) : v ||| w = v ^^^ w := by
  rw [← UInt32.toNat_inj, UInt32.toNat_or, UInt32.toNat_xor]
  apply Nat.eq_of_testBit_eq
  intro k
  have never : (v.toNat &&& w.toNat).testBit k = false := by
    rw [← UInt32.toNat_and, apart]
    exact Nat.zero_testBit k
  rw [Nat.testBit_and] at never
  rw [Nat.testBit_or, Nat.testBit_xor]
  cases here : v.toNat.testBit k <;> simp_all

theorem or_and_or {v w m n : UInt32} (left : v &&& m = v) (right : w &&& n = w) :
    (v ||| w) &&& (m ||| n) = v ||| w := by
  rw [← left, ← right, ← UInt32.toNat_inj]
  simp only [UInt32.toNat_and, UInt32.toNat_or]
  apply Nat.eq_of_testBit_eq
  intro k
  simp only [Nat.testBit_and, Nat.testBit_or]
  cases m.toNat.testBit k <;> cases n.toNat.testBit k <;> simp

/-- A part of a word that is read bit by bit, each into its own place inside of `mask`. -/
structure Piece (read : UInt32 → UInt32) (mask : UInt32) : Prop where
  xor : ∀ v w, read (v ^^^ w) = read v ^^^ read w
  within : ∀ w, read w &&& mask = read w

namespace Piece

variable {f g : UInt32 → UInt32} {m n : UInt32}

theorem low (mask : UInt32) : Piece (· &&& mask) mask where
  xor v w := and_xor_and v w mask
  within w := by rw [UInt32.and_assoc, UInt32.and_self]

theorem slot (k mask : UInt32) : Piece (fun w => (w >>> k) &&& mask) mask where
  xor v w := by rw [UInt32.shiftRight_xor, and_xor_and]
  within w := by rw [UInt32.and_assoc, UInt32.and_self]

theorem moved (piece : Piece f m) (k : UInt32) : Piece (fun w => f w <<< k) (m <<< k) where
  xor v w := by rw [piece.xor, UInt32.shiftLeft_xor]
  within w := by rw [← UInt32.shiftLeft_and, piece.within]

theorem apart (left : Piece f m) (right : Piece g n) (disjoint : m &&& n = 0) (v w : UInt32) :
    f v &&& g w = 0 := by
  calc f v &&& g w = (f v &&& m) &&& (g w &&& n) := by rw [left.within, right.within]
    _ = (f v &&& g w) &&& (m &&& n) := by ac_rfl
    _ = 0 := by rw [disjoint, UInt32.and_zero]

theorem join (left : Piece f m) (right : Piece g n) (disjoint : m &&& n = 0) :
    Piece (fun w => f w ||| g w) (m ||| n) where
  xor v w := by
    have joined (w : UInt32) : f w ||| g w = f w ^^^ g w :=
      or_eq_xor (left.apart right disjoint w w)
    rw [joined, joined, joined, left.xor, right.xor]
    ac_rfl
  within w := or_and_or (left.within w) (right.within w)

end Piece

theorem piece_opcodeOf : Piece opcodeOf 0x7f := .low 0x7f

theorem piece_rdOf : Piece rdOf 0x1f := .slot 7 0x1f

theorem piece_rs1Of : Piece rs1Of 0x1f := .slot 15 0x1f

theorem piece_rs2Of : Piece rs2Of 0x1f := .slot 20 0x1f

theorem piece_funct3Of : Piece funct3Of 0x7 := .slot 12 0x7

theorem piece_funct7Of : Piece funct7Of 0x7f := .slot 25 0x7f

theorem piece_immI : Piece (fun w => (readI w).imm) 0xfff := .slot 20 0xfff

theorem piece_immU : Piece (fun w => (readU w).imm) 0xfffff := .slot 12 0xfffff

theorem piece_immS : Piece (fun w => (readS w).imm) 0xfff :=
  ((Piece.slot 25 0x7f).moved 5).join (.slot 7 0x1f) (by decide)

theorem piece_immB : Piece (fun w => (readB w).imm) 0x1ffe :=
  ((((Piece.slot 31 0x1).moved 12).join ((Piece.slot 7 0x1).moved 11) (by decide)).join
    ((Piece.slot 25 0x3f).moved 5) (by decide)).join ((Piece.slot 8 0xf).moved 1) (by decide)

theorem piece_immJ : Piece (fun w => (readJ w).imm) 0x1ffffe :=
  ((((Piece.slot 31 0x1).moved 20).join ((Piece.slot 21 0x3ff).moved 1) (by decide)).join
    ((Piece.slot 20 0x1).moved 11) (by decide)).join ((Piece.slot 12 0xff).moved 12) (by decide)

theorem toList_readAs_xor (v w : UInt32) (format : Format) :
    (readAs (v ^^^ w) format).toList =
      List.zipWith (· ^^^ ·) (readAs v format).toList (readAs w format).toList := by
  have immI := piece_immI.xor v w
  have immS := piece_immS.xor v w
  have immB := piece_immB.xor v w
  have immU := piece_immU.xor v w
  have immJ := piece_immJ.xor v w
  cases format <;>
    simp only [readAs, Fields.toList, List.zipWith_cons_cons, List.zipWith_nil_right, immI, immS,
      immB, immU, immJ] <;>
    simp only [readR, readI, readS, readB, readU, readJ, piece_opcodeOf.xor, piece_rdOf.xor,
      piece_rs1Of.xor, piece_rs2Of.xor, piece_funct3Of.xor, piece_funct7Of.xor]

private theorem one_field_of_bit : ∀ format ∈ Format.all, ∀ k < 32,
    ∃ n < 6, (readAs (1 <<< UInt32.ofNat k) format).toList.getD n 0 ≠ 0 ∧
      ∀ m < 6, (readAs (1 <<< UInt32.ofNat k) format).toList.getD m 0 ≠ 0 → m = n := by
  decide +kernel

theorem length_toList_le (fields : Fields) : fields.toList.length ≤ 6 := by
  cases fields <;> simp [Fields.toList]

theorem length_toList_readAs (v w : UInt32) (format : Format) :
    (readAs v format).toList.length = (readAs w format).toList.length := by
  cases format <;> simp only [readAs, Fields.toList, List.length_cons, List.length_nil]

/-- A field changes exactly if the bit that is turned over stands in it. -/
theorem flipBit_changes_iff (w : UInt32) (format : Format) (k n : Nat) :
    (readAs (flipBit w k) format).toList[n]? ≠ (readAs w format).toList[n]? ↔
      (readAs (1 <<< UInt32.ofNat k) format).toList.getD n 0 ≠ 0 := by
  have lengths := length_toList_readAs w (1 <<< UInt32.ofNat k) format
  rw [flipBit, toList_readAs_xor, List.getElem?_zipWith, List.getD_eq_getElem?_getD]
  cases here : (readAs w format).toList[n]? with
  | none =>
    have outside : (readAs (1 <<< UInt32.ofNat k) format).toList[n]? = none := by
      rw [List.getElem?_eq_none_iff] at here ⊢
      omega
    simp [outside]
  | some field =>
    have inside : n < (readAs (1 <<< UInt32.ofNat k) format).toList.length := by
      rw [← lengths]
      exact (List.getElem?_eq_some_iff.mp here).1
    have same (b : UInt32) : field ^^^ b = field ↔ b = 0 := by
      rw [← UInt32.xor_right_inj field (b := 0), UInt32.xor_zero]
    simp [List.getElem?_eq_getElem inside, same]

theorem existsUnique_flipBit_changes (w : UInt32) (format : Format) {k : Nat} (bit : k < 32) :
    ∃! n : Nat, (readAs (flipBit w k) format).toList[n]? ≠ (readAs w format).toList[n]? := by
  have listed : format ∈ Format.all := by cases format <;> decide
  obtain ⟨n, _, here, alone⟩ := one_field_of_bit format listed k bit
  simp only [flipBit_changes_iff]
  refine ⟨n, here, fun m there => alone m ?_ there⟩
  by_contra outside
  have short := length_toList_le (readAs (1 <<< UInt32.ofNat k) format)
  apply there
  rw [List.getD_eq_getElem?_getD, List.getElem?_eq_none (by omega)]
  rfl

section Pack

variable (w : UInt32) {imm : UInt32}

theorem Piece.toNat_lt {f : UInt32 → UInt32} {mask : UInt32} (piece : Piece f mask) (bits : Nat)
    (narrow : mask.toNat < 2 ^ bits) : (f w).toNat < 2 ^ bits := by
  rw [← piece.within, UInt32.toNat_and]
  exact Nat.and_lt_two_pow _ narrow

theorem Piece.toNat_even {f : UInt32 → UInt32} {mask : UInt32} (piece : Piece f mask)
    (even : mask.toNat % 2 ^ 1 = 0) : (f w).toNat % 2 ^ 1 = 0 := by
  rw [← piece.within, UInt32.toNat_and, Nat.and_mod_two_pow, even, Nat.and_zero]

theorem packR_readR : packR (readR w) = w :=
  readR_injective (readR_packR (piece_opcodeOf.toNat_lt w 7 (by decide))
    (piece_rdOf.toNat_lt w 5 (by decide)) (piece_rs1Of.toNat_lt w 5 (by decide))
    (piece_rs2Of.toNat_lt w 5 (by decide)) (piece_funct3Of.toNat_lt w 3 (by decide))
    (piece_funct7Of.toNat_lt w 7 (by decide)))

theorem Piece.ofNat_mod {f : UInt32 → UInt32} {mask : UInt32} (piece : Piece f mask) (bits : Nat)
    (narrow : mask.toNat < 2 ^ bits) (same : imm.toNat % 2 ^ bits = (f w).toNat % 2 ^ bits) :
    UInt32.ofNat (imm.toNat % 2 ^ bits) = f w := by
  rw [same, Nat.mod_eq_of_lt (piece.toNat_lt w bits narrow), UInt32.ofNat_toNat]

theorem Piece.ofNat_mod_even {f : UInt32 → UInt32} {mask : UInt32} (piece : Piece f mask)
    (bits : Nat) (narrow : mask.toNat < 2 ^ bits) (even : mask.toNat % 2 ^ 1 = 0)
    (same : imm.toNat % 2 ^ bits = (f w).toNat % 2 ^ bits) :
    UInt32.ofNat (imm.toNat % 2 ^ bits / 2 * 2) = f w := by
  have whole : (f w).toNat / 2 * 2 = (f w).toNat := by
    have half := piece.toNat_even w even
    omega
  rw [same, Nat.mod_eq_of_lt (piece.toNat_lt w bits narrow), whole, UInt32.ofNat_toNat]

theorem packI_readI (same : imm.toNat % 2 ^ 12 = (readI w).imm.toNat % 2 ^ 12) :
    packI { readI w with imm := imm } = w := by
  apply readI_injective
  rw [readI_packI (piece_opcodeOf.toNat_lt w 7 (by decide)) (piece_rdOf.toNat_lt w 5 (by decide))
    (piece_rs1Of.toNat_lt w 5 (by decide)) (piece_funct3Of.toNat_lt w 3 (by decide)),
    piece_immI.ofNat_mod w 12 (by decide) same]

theorem packS_readS (same : imm.toNat % 2 ^ 12 = (readS w).imm.toNat % 2 ^ 12) :
    packS { readS w with imm := imm } = w := by
  apply readS_injective
  rw [readS_packS (piece_opcodeOf.toNat_lt w 7 (by decide)) (piece_rs1Of.toNat_lt w 5 (by decide))
    (piece_rs2Of.toNat_lt w 5 (by decide)) (piece_funct3Of.toNat_lt w 3 (by decide)),
    piece_immS.ofNat_mod w 12 (by decide) same]

theorem packB_readB (same : imm.toNat % 2 ^ 13 = (readB w).imm.toNat % 2 ^ 13) :
    packB { readB w with imm := imm } = w := by
  apply readB_injective
  rw [readB_packB (piece_opcodeOf.toNat_lt w 7 (by decide)) (piece_rs1Of.toNat_lt w 5 (by decide))
    (piece_rs2Of.toNat_lt w 5 (by decide)) (piece_funct3Of.toNat_lt w 3 (by decide)),
    piece_immB.ofNat_mod_even w 13 (by decide) (by decide) same]

theorem packU_readU (same : imm.toNat % 2 ^ 20 = (readU w).imm.toNat % 2 ^ 20) :
    packU { readU w with imm := imm } = w := by
  apply readU_injective
  rw [readU_packU (piece_opcodeOf.toNat_lt w 7 (by decide)) (piece_rdOf.toNat_lt w 5 (by decide)),
    piece_immU.ofNat_mod w 20 (by decide) same]

theorem packJ_readJ (same : imm.toNat % 2 ^ 21 = (readJ w).imm.toNat % 2 ^ 21) :
    packJ { readJ w with imm := imm } = w := by
  apply readJ_injective
  rw [readJ_packJ (piece_opcodeOf.toNat_lt w 7 (by decide)) (piece_rdOf.toNat_lt w 5 (by decide)),
    piece_immJ.ofNat_mod_even w 21 (by decide) (by decide) same]

theorem pack_readAs (format : Format) : (readAs w format).pack = w := by
  cases format with
  | registerRegister => exact packR_readR w
  | registerImmediate | load | jumpRegister => exact packI_readI w rfl
  | store => exact packS_readS w rfl
  | branch => exact packB_readB w rfl
  | jump => exact packJ_readJ w rfl
  | upperImmediate => exact packU_readU w rfl

/-- Extending the sign of a field leaves its own bits as they are. -/
theorem ofInt_signExtend_mod (v : UInt32) {bits : Nat} (narrow : bits ≤ 32) :
    (UInt32.ofInt (signExtend v bits)).toNat % 2 ^ bits = v.toNat % 2 ^ bits := by
  have modulus : ((1 <<< bits : Nat) : Int) = 2 ^ bits := by
    rw [Nat.one_shiftLeft, Int.natCast_pow]
    rfl
  have signed : signExtend v bits % 2 ^ bits = (v.toNat : Int) % 2 ^ bits := by
    rw [signExtend, ← modulus, Int.bmod_emod]
  have kept := natCast_toNat_ofInt_mod (signExtend v bits) narrow
  rw [signed] at kept
  exact_mod_cast kept

theorem pack_withImm_immediateOf {format : Format} (major : opcodeOf w ∈ format.majors) :
    ((readAs w format).withImm (UInt32.ofInt (immediateOf w))).pack = w := by
  cases format with
  | registerRegister => exact packR_readR w
  | registerImmediate | load | jumpRegister =>
    have value : immediateOf w = signExtend (readI w).imm 12 := by
      simp only [Format.majors, List.mem_singleton] at major
      simp [immediateOf, major]
    rw [value]
    exact packI_readI w (ofInt_signExtend_mod _ (by decide))
  | store =>
    have value : immediateOf w = signExtend (readS w).imm 12 := by
      simp only [Format.majors, List.mem_singleton] at major
      simp only [immediateOf, major]
      rw [if_neg (by decide), if_true]
    rw [value]
    exact packS_readS w (ofInt_signExtend_mod _ (by decide))
  | branch =>
    have value : immediateOf w = signExtend (readB w).imm 13 := by
      simp only [Format.majors, List.mem_singleton] at major
      simp only [immediateOf, major]
      rw [if_neg (by decide), if_neg (by decide), if_true]
    rw [value]
    exact packB_readB w (ofInt_signExtend_mod _ (by decide))
  | jump =>
    have value : immediateOf w = signExtend (readJ w).imm 21 := by
      simp only [Format.majors, List.mem_singleton] at major
      simp only [immediateOf, major]
      rw [if_neg (by decide), if_neg (by decide), if_neg (by decide), if_true]
    rw [value]
    exact packJ_readJ w (ofInt_signExtend_mod _ (by decide))
  | upperImmediate =>
    have value : immediateOf w = ((readU w).imm.toNat : Int) := by
      simp only [Format.majors, List.mem_cons, List.not_mem_nil, or_false] at major
      rcases major with major | major <;> simp only [immediateOf, major] <;> rfl
    have kept := natCast_toNat_ofInt_mod ((readU w).imm.toNat : Int) (show 20 ≤ 32 by decide)
    rw [value]
    exact packU_readU w (by exact_mod_cast kept)

end Pack

structure Repacks (w : UInt32) (format : Format) : Prop where
  fields : (readAs w format).pack = w
  /-- Every bit of the word belongs to one field: if it is turned over, that field changes and no
  other. -/
  bits : ∀ k < 32,
    ∃! n : Nat, (readAs (flipBit w k) format).toList[n]? ≠ (readAs w format).toList[n]?
  /-- In a word of the format, the immediate with its sign packs like its field. -/
  signed : opcodeOf w ∈ format.majors →
    ((readAs w format).withImm (UInt32.ofInt (immediateOf w))).pack = w

theorem repacks (w : UInt32) (format : Format) : Repacks w format where
  fields := pack_readAs w format
  bits _ bit := existsUnique_flipBit_changes w format bit
  signed major := pack_withImm_immediateOf w major

end Rv32Asm.Word
