import Rv32Asm.Proofs.Decoding
import Rv32Asm.Proofs.References

/-!
Which immediates reach their words in full.

Literals are checked against the range of their mnemonic, and labels against a range of their
format. The two ranges agree except for shifts: the offset of a label may be too large for a shift
amount. In all other cases the word holds the immediate as it is or in two's complement.
-/

set_option autoImplicit false
set_option relaxedAutoImplicit false

namespace Rv32Asm

open Rv32Asm.Outcome
open Rv32Asm.Link

namespace Opcode

variable {op : Opcode} {v : Int}

/-- The field of a mnemonic holds a number as it is or in two's complement. -/
def Keeps (op : Opcode) (v : Int) : Prop :=
  op.keptBits v = v ∨ op.keptBits v = v + op.fieldSize

instance (op : Opcode) (v : Int) : Decidable (op.Keeps v) :=
  inferInstanceAs (Decidable (_ ∨ _))

theorem keeps_of_allows (allowed : op.literalBounds.Allows v) : op.Keeps v := by
  have room :
      -op.fieldSize ≤ op.literalBounds.least ∧ op.literalBounds.greatest < op.fieldSize := by
    unfold fieldSize literalBounds
    cases op.format <;> cases op.shift <;> decide
  have least := allowed.1
  have greatest := allowed.2.1
  rw [Keeps, keptBits_of_allows allowed]
  by_cases negative : v < 0
  · right
    rw [← Int.add_emod_right, Int.emod_eq_of_lt] <;> omega
  · left
    rw [Int.emod_eq_of_lt] <;> omega

theorem literalBounds_of_shift (sound : op.Sound) (shifts : op.shift = true) :
    op.literalBounds = .shiftAmount ∧ op.fieldSize = 32 := by
  have format := sound.shift shifts
  simp [literalBounds, fieldSize, format, shifts]

theorem not_keeps_of_shift (sound : op.Sound) (shifts : op.shift = true) (large : 32 ≤ v) :
    ¬ op.Keeps v := by
  obtain ⟨_, size⟩ := literalBounds_of_shift sound shifts
  have bounds := op.keptBits_bounds v
  rw [Keeps]
  omega

theorem literalBounds_allows_of_plain (plain : op.shift = false)
    (allowed : op.format.fieldBounds.Allows v) : op.literalBounds.Allows v := by
  have wider : op.literalBounds.least ≤ op.format.fieldBounds.least ∧
      op.format.fieldBounds.greatest ≤ op.literalBounds.greatest ∧
      (op.literalBounds.even = true → op.format.fieldBounds.even = true) := by
    unfold literalBounds
    rw [plain]
    cases op.format <;> decide
  obtain ⟨least, greatest, even⟩ := allowed
  exact ⟨by omega, by omega, fun has => even (wider.2.2 has)⟩

end Opcode

namespace Program

variable {cfg : Config} {source : Bytes} {us : List Record} {p : Program}

def ShiftsTooFar (p : Program) (op : Opcode) (inst : Instruction) : Prop :=
  op.shift = true ∧ ∃ label s, inst.imm? = some (.ref label) ∧ p.symbols.find? label = some s ∧
    32 ≤ s.offset.toNat

/-- All immediates of an assembled program are numbers. Exactly the labels of shifts that are too
far away would be refused as literals, and exactly these lose bits in their words. `us` are the
records before labels were resolved. -/
def ImmediatesKept (us : List Record) (p : Program) : Prop :=
  ∀ (n : Nat) (r : Record) (linked : Instruction) (imm : Operand),
    p.records[n]? = some r → r.statement = .inst linked → linked.imm? = some imm →
    ∃ v u inst op w, imm = .num v ∧ us[n]? = some u ∧ u.statement = .inst inst ∧
      linked.Fits op ∧ linked.encode = .ok w ∧ Word.readAs w op.format = linked.fields op ∧
      (op.literalBounds.Allows v ↔ ¬ p.ShiftsTooFar op inst) ∧
      (op.Keeps v ↔ ¬ p.ShiftsTooFar op inst)

/-- A literal is accepted, and a label is accepted unless it makes a shift too far. -/
theorem Stages.literalBounds_allows_iff (stages : p.Stages cfg source us) {pc : UInt32}
    {span : Span} {inst linked : Instruction} {op : Opcode} {v : Int} (aligned : pc.toNat % 4 = 0)
    (fits : inst.Fits op) (literal : ∀ v ∈ inst.imm?, v.Within op.literalBounds)
    (result : instruction p.symbols pc span inst = .ok linked)
    (imm : linked.imm? = some (.num v)) :
    (op.literalBounds.Allows v ∧ ¬ p.ShiftsTooFar op inst) ∨
      (¬ op.literalBounds.Allows v ∧ p.ShiftsTooFar op inst ∧ 32 ≤ v) := by
  have sound := Opcode.sound_of_find? fits.listed
  rcases instruction_cases result with ⟨label, v', ref, value, rfl⟩ | ⟨numeric, rfl⟩
  · obtain rfl : v' = v := by simpa [Instruction.imm?_withImm ref] using imm
    have allowed := fieldBounds_allows_labelValue
      (fun s found text => SymbolTable.find?_text_mod stages.placed found text) aligned value
    rw [← fits.format] at allowed value
    cases shifts : op.shift with
    | false =>
      left
      refine ⟨Opcode.literalBounds_allows_of_plain shifts allowed, ?_⟩
      intro far
      simp [far.1] at shifts
    | true =>
      obtain ⟨s, found, _, _, _, offset⟩ := labelValue_ok value
      have same : v' = s.offset.toNat := offset (by rw [sound.shift shifts]; decide)
      have far : p.ShiftsTooFar op inst ↔ 32 ≤ v' := by
        constructor
        · rintro ⟨_, label', s', ref', found', large⟩
          obtain rfl : label = label' := by simpa [ref] using ref'
          obtain rfl := Option.some.inj (found.symm.trans found')
          omega
        · intro large
          exact ⟨shifts, label, s, ref, found, by omega⟩
      have accepted : op.literalBounds.Allows v' ↔ v' ≤ 31 := by
        rw [(Opcode.literalBounds_of_shift sound shifts).1]
        constructor
        · intro allows
          exact allows.2.1
        · intro small
          have nonneg : 0 ≤ v' := same ▸ Int.natCast_nonneg _
          exact ⟨nonneg, small, fun odd => by simp [Bounds.shiftAmount] at odd⟩
      rw [far, accepted]
      omega
  · left
    refine ⟨literal _ imm, ?_⟩
    rintro ⟨_, label, _, ref, _⟩
    exact numeric label ref

theorem Stages.instruction_at (stages : p.Stages cfg source us) {n : Nat} {r : Record}
    {linked : Instruction} (place : p.records[n]? = some r)
    (statement : r.statement = .inst linked) :
    ∃ pc u inst, us[n]? = some u ∧ u.statement = .inst inst ∧ pc.toNat % 4 = 0 ∧
      instruction p.symbols pc u.span inst = .ok linked := by
  have inside : n < us.length := by
    rw [stages.linked.length_eq]
    exact (List.getElem?_eq_some_iff.mp place).1
  obtain ⟨pc, stmt, aligned, result, place'⟩ :=
    stages.linked.record_at (List.getElem?_eq_getElem inside)
  obtain rfl := Option.some.inj (place'.symm.trans place)
  obtain rfl : stmt = .inst linked := statement
  refine ⟨pc, us[n], ?_⟩
  cases parsed : us[n].statement with
  | inst inst =>
    rw [parsed] at result
    obtain ⟨linked', result', same⟩ := statement_inst_eq_ok_iff.mp result
    obtain rfl := Statement.inst.inj same
    exact ⟨inst, List.getElem?_eq_getElem inside, rfl, aligned rfl, result'⟩
  | data d =>
    rw [parsed] at result
    obtain ⟨d', _, same⟩ := statement_data_eq_ok_iff.mp result
    cases same

theorem immediatesKept_of_assemble (assembled : assemble cfg source = .ok p) :
    ∃ us, parse cfg source = .ok us ∧ p.ImmediatesKept us := by
  obtain ⟨us, stages⟩ := assemble_stages assembled
  refine ⟨us, stages.parsed, ?_⟩
  intro n r linked imm place statement has
  obtain ⟨pc, u, inst, here, original, aligned, result⟩ := stages.instruction_at place statement
  have wellFormed := parse_wellFormed stages.parsed u (List.mem_of_getElem? here)
  rw [original] at wellFormed
  obtain ⟨op, fits, literal⟩ := wellFormed
  have linkedFits := instruction_fits fits result
  obtain ⟨w, packed, encoded⟩ := linkedFits.encode (instruction_numeric result)
  obtain ⟨v, rfl⟩ := Instruction.exists_num_of_pack has packed
  refine ⟨v, u, inst, op, w, rfl, here, original, linkedFits, encoded,
    linkedFits.readAs_pack packed, ?_⟩
  rcases stages.literalBounds_allows_iff aligned fits literal result has with
    ⟨allowed, near⟩ | ⟨refused, far, large⟩
  · simp [allowed, near, Opcode.keeps_of_allows allowed]
  · have lost := Opcode.not_keeps_of_shift (Opcode.sound_of_find? fits.listed) far.1 large
    simp [refused, far, lost]

def nearShiftSource : Bytes :=
  Text.utf8 ".space 31\nnear: .byte 1\nslli x1, x1, near\nbne x1, x2, 8190"

theorem immediatesKept_nearShiftSource :
    ∃ us p, assemble .standard nearShiftSource = .ok p ∧ parse .standard nearShiftSource = .ok us ∧
      p.records.map Record.statement =
        [.data ⟨".space", 1, .bytes (List.replicate 31 0)⟩, .data ⟨".byte", 1, .values [.num 1]⟩,
          .inst (.i "slli" 1 1 (.num 31)), .inst (.b "bne" 1 2 (.num 8190))] ∧
      p.ImmediatesKept us := by
  have run : (assemble .standard nearShiftSource).map (fun p => p.records.map Record.statement) =
      .ok [.data ⟨".space", 1, .bytes (List.replicate 31 0)⟩, .data ⟨".byte", 1, .values [.num 1]⟩,
        .inst (.i "slli" 1 1 (.num 31)), .inst (.b "bne" 1 2 (.num 8190))] := by decide +kernel
  obtain ⟨p, assembled, statements⟩ := map_eq_ok_iff.mp run
  obtain ⟨us, parsed, kept⟩ := immediatesKept_of_assemble assembled
  exact ⟨us, p, assembled, parsed, statements, kept⟩

def farShiftSource : Bytes :=
  Text.utf8 ".space 32\nfar: .byte 1\nslli x1, x1, far"

/-- The shift by 32 is refused as a literal; from a label it becomes a shift by nothing. -/
theorem farShiftSource_loses_bits :
    (assemble .standard (Text.utf8 "slli x1, x1, 32")).isOk = false ∧
    ∃ p r op, assemble .standard farShiftSource = .ok p ∧ r ∈ p.records ∧
      r.statement = .inst (.i "slli" 1 1 (.num 32)) ∧
      (Instruction.i "slli" 1 1 (.num 32)).Fits op ∧ ¬ op.literalBounds.Allows 32 ∧ ¬ op.Keeps 32 ∧
      (Instruction.i "slli" 1 1 (.num 0)).encode = .ok 0x00009093 ∧ p.words = [0x00009093] := by
  have run : (assemble .standard farShiftSource).map
      (fun p => (p.records.map Record.statement, p.words)) =
      .ok ([.data ⟨".space", 1, .bytes (List.replicate 32 0)⟩, .data ⟨".byte", 1, .values [.num 1]⟩,
        .inst (.i "slli" 1 1 (.num 32))], [0x00009093]) := by decide +kernel
  obtain ⟨p, assembled, same⟩ := map_eq_ok_iff.mp run
  obtain ⟨statements, words⟩ := Prod.mk.inj same
  have member : .inst (.i "slli" 1 1 (.num 32)) ∈ p.records.map Record.statement := by
    rw [statements]
    simp
  obtain ⟨r, here, statement⟩ := List.mem_map.mp member
  exact ⟨by decide +kernel, p, r, Opcode.shiftBy "slli" 0b001 0, assembled, here, statement,
    ⟨rfl, rfl, by decide +kernel⟩, by decide, by decide, by rfl, words⟩

end Program

end Rv32Asm
