import Rv32Asm.Link
import Rv32Asm.Proofs.Records
import Rv32Asm.Word.Encode

/-!
What linking changes.

Linking keeps every record in its place and changes nothing but label operands: labels, lines,
formats, registers and sizes stay. Afterwards no operand is a label.
-/

set_option autoImplicit false
set_option relaxedAutoImplicit false

namespace Rv32Asm

open Rv32Asm.Outcome

namespace Instruction

def Numeric (inst : Instruction) : Prop := ∀ label, inst.imm? ≠ some (.ref label)

theorem imm?_withImm {inst : Instruction} {old : Operand} (has : inst.imm? = some old)
    (new : Operand) : (inst.withImm new).imm? = some new := by
  cases inst with
  | r => simp [imm?] at has
  | _ => rfl

theorem Fits.withImm {inst : Instruction} {op : Opcode} (fits : inst.Fits op) (v : Operand) :
    (inst.withImm v).Fits op := by
  obtain ⟨listed, format, registers⟩ := fits
  cases inst <;> exact ⟨listed, format, registers⟩

theorem Fits.encode {inst : Instruction} {op : Opcode} (fits : inst.Fits op)
    (numeric : inst.Numeric) : ∃ w, inst.pack op = .ok w ∧ inst.encode = .ok w := by
  have packed : inst.encode = inst.pack op := by
    unfold Instruction.encode
    rw [fits.listed]
    simp only [fits.format, if_true]
  rw [packed]
  cases inst with
  | r m rd rs1 rs2 => exact ⟨_, rfl, rfl⟩
  | i m rd rs1 imm | load m rd rs1 imm | s m rs1 rs2 imm | b m rs1 rs2 imm | j m rd imm
  | jalr m rd rs1 imm | u m rd imm =>
    cases imm with
    | num v => exact ⟨_, rfl, rfl⟩
    | ref label => exact absurd rfl (numeric label)

end Instruction

namespace Link

variable {table : SymbolTable} {pc : UInt32} {span : Span}

/-- What linking does to an instruction: it puts a number in place of a label, or nothing. -/
theorem instruction_cases {inst linked : Instruction}
    (result : instruction table pc span inst = .ok linked) :
    (∃ label v, inst.imm? = some (.ref label) ∧
      labelValue table pc span inst.format label = .ok v ∧ linked = inst.withImm (.num v)) ∨
      (inst.Numeric ∧ linked = inst) := by
  unfold instruction at result
  split at result
  · rename_i label has
    simp only [bind_eq_ok_iff, pure_eq_ok_iff] at result
    obtain ⟨v, value, rfl⟩ := result
    exact .inl ⟨label, v, has, value, rfl⟩
  · rename_i none
    exact .inr ⟨none, (Except.ok.inj result).symm⟩

theorem instruction_numeric {inst linked : Instruction}
    (result : instruction table pc span inst = .ok linked) : linked.Numeric := by
  rcases instruction_cases result with ⟨label, v, has, _, rfl⟩ | ⟨numeric, rfl⟩
  · intro other
    simp [Instruction.imm?_withImm has]
  · exact numeric

theorem instruction_fits {inst linked : Instruction} {op : Opcode} (fits : inst.Fits op)
    (result : instruction table pc span inst = .ok linked) : linked.Fits op := by
  rcases instruction_cases result with ⟨label, v, _, _, rfl⟩ | ⟨_, rfl⟩
  · exact fits.withImm _
  · exact fits

theorem directive_cases {d linked : Directive} (result : directive table span d = .ok linked) :
    (∃ bs, d.body = .bytes bs ∧ linked = d) ∨
      ∃ items items', d.body = .values items ∧
        List.Forall₂ (fun v v' => item table d.size span v = .ok v') items items' ∧
        linked = { d with body := .values items' } := by
  unfold directive at result
  split at result
  · rename_i bs body
    exact .inl ⟨bs, body, (Except.ok.inj result).symm⟩
  · rename_i items body
    simp only [bind_eq_ok_iff, pure_eq_ok_iff, mapM_eq_ok_iff] at result
    obtain ⟨items', each, rfl⟩ := result
    exact .inr ⟨items, items', body, each, rfl⟩

theorem statement_inst_eq_ok_iff {inst : Instruction} {linked : Statement} :
    statement table pc span (.inst inst) = .ok linked ↔
      ∃ inst', instruction table pc span inst = .ok inst' ∧ linked = .inst inst' := by
  simp only [statement, bind_eq_ok_iff, pure_eq_ok_iff, @eq_comm _ linked]

theorem statement_data_eq_ok_iff {d : Directive} {linked : Statement} :
    statement table pc span (.data d) = .ok linked ↔
      ∃ d', directive table span d = .ok d' ∧ linked = .data d' := by
  simp only [statement, bind_eq_ok_iff, pure_eq_ok_iff, @eq_comm _ linked]

/-- Records linked one after another, the first at address `pc`. -/
inductive Linked (table : SymbolTable) : UInt32 → List Record → List Record → Prop
  | nil (pc : UInt32) : Linked table pc [] []
  | cons {pc : UInt32} {r : Record} {stmt : Statement} {rs rs' : List Record} :
      statement table pc r.span r.statement = .ok stmt →
      Linked table (nextPc pc r.statement) rs rs' →
      Linked table pc (r :: rs) ({ r with statement := stmt } :: rs')

theorem recordsFrom_eq_ok_iff {rs done out : List Record} :
    recordsFrom table done pc rs = .ok out ↔
      ∃ rs', out = done.reverse ++ rs' ∧ Linked table pc rs rs' := by
  induction rs generalizing done pc with
  | nil =>
    constructor
    · intro result
      obtain rfl := Except.ok.inj result
      exact ⟨[], by simp, .nil pc⟩
    · rintro ⟨rs', rfl, ⟨⟩⟩
      simp [recordsFrom]
  | cons r rs ih =>
    rw [recordsFrom]
    cases first : statement table pc r.span r.statement with
    | error fault =>
      simp only [reduceCtorEq, false_iff]
      rintro ⟨_, _, _ | ⟨ok, _⟩⟩
      simp [first] at ok
    | ok stmt =>
      simp only [ih]
      constructor
      · rintro ⟨rs', rfl, rest⟩
        exact ⟨_, by simp, .cons first rest⟩
      · rintro ⟨_, rfl, _ | ⟨ok, rest⟩⟩
        obtain rfl := Except.ok.inj (first.symm.trans ok)
        exact ⟨_, by simp, rest⟩

end Link

theorem link_eq_ok_iff {table : SymbolTable} {rs rs' : List Record} :
    link table rs = .ok rs' ↔ Link.Linked table 0 rs rs' := by
  simp [link, Link.recordsFrom_eq_ok_iff]

end Rv32Asm
