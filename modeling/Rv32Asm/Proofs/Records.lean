import Rv32Asm.Proofs.Operands

/-!
The records that parsing gives are well-formed.

The encoder, the placement of labels and the emission of data rely on facts that they do not check:
the mnemonic is in the table with the instruction's own format, registers fit into five bits, lists
of items are not empty and have a size that is written. Each grammar rule of a statement establishes
them, and reading one line after another keeps them.
-/

set_option autoImplicit false
set_option relaxedAutoImplicit false

namespace Rv32Asm

open Rv32Asm.Text
open Rv32Asm.Outcome
open Rv32Asm.Operands

namespace Opcode

theorem mem_of_find? {name : String} {op : Opcode} (found : find? name = some op) :
    op ∈ table :=
  List.mem_of_find?_eq_some found

theorem find?_name {op : Opcode} (listed : op ∈ table) : find? op.name = some op := by
  have unique : ∀ op ∈ table, find? op.name = some op := by decide +kernel
  exact unique op listed

end Opcode

theorem Config.mem_table_of_opcode? {cfg : Config} {name : String} {op : Opcode}
    (found : cfg.opcode? name = some op) : op ∈ Opcode.table := by
  unfold Config.opcode? at found
  split at found
  · rename_i listed
    split at found
    · obtain rfl := Option.some.inj found
      exact Opcode.mem_of_find? listed
    · simp at found
  · simp at found

namespace Instruction

def registers : Instruction → List Register
  | r _ rd rs1 rs2 => [rd, rs1, rs2]
  | i _ rd rs1 _ | load _ rd rs1 _ | jalr _ rd rs1 _ => [rd, rs1]
  | s _ rs1 rs2 _ | b _ rs1 rs2 _ => [rs1, rs2]
  | j _ rd _ | u _ rd _ => [rd]

/-- The table entry `op` belongs to the instruction, and its registers fit their fields. -/
structure Fits (inst : Instruction) (op : Opcode) : Prop where
  listed : Opcode.find? inst.mnemonic = some op
  format : op.format = inst.format
  registers : ∀ r ∈ inst.registers, r.toNat ≤ 31

/-- An instruction with its own entry in the table, whose immediate is a label or a literal that
the entry accepts. -/
def WellFormed (inst : Instruction) : Prop :=
  ∃ op, inst.Fits op ∧ ∀ v ∈ inst.imm?, v.Within op.literalBounds

end Instruction

/-- A list of items is not empty, and its size is one that is written. -/
def Directive.WellFormed (d : Directive) : Prop :=
  match d.body with
  | .values items => items ≠ [] ∧ d.size ∈ [1, 2, 4]
  | .bytes _ => True

def Statement.WellFormed : Statement → Prop
  | .inst i => i.WellFormed
  | .data d => d.WellFormed

namespace Parse

variable {c : Context} {ts rest : List Token}

theorem formatOperands_ok {op : Opcode} {inst : Instruction} (listed : op ∈ Opcode.table)
    (read : formatOperands op c ts = .ok (inst, rest)) :
    inst.Fits op ∧ (∀ v ∈ inst.imm?, v.Within op.literalBounds) ∧ rest <:+ ts := by
  have known := Opcode.find?_name listed
  cases format : op.format with
  | registerRegister =>
    simp only [formatOperands, format, bind_eq_ok_iff, pure_eq_ok_iff, Prod.exists,
      Prod.mk.injEq] at read
    obtain ⟨rd, left, first, rs1, rs2, _, pair, rfl, rfl⟩ := read
    obtain ⟨hd, suffix⟩ := register_ok first
    obtain ⟨h1, h2, suffixPair⟩ := registerPair_ok pair
    refine ⟨⟨known, format, ?_⟩, by simp [Instruction.imm?],
      suffixPair.trans ((skipComma_suffix left).trans suffix)⟩
    simp [Instruction.registers, hd, h1, h2]
  | registerImmediate =>
    simp only [formatOperands, format, bind_eq_ok_iff, pure_eq_ok_iff, Prod.exists,
      Prod.mk.injEq] at read
    obtain ⟨rd, rs1, left, pair, imm, _, value, rfl, rfl⟩ := read
    obtain ⟨hd, h1, suffix⟩ := registerPair_ok pair
    obtain ⟨within, suffixImm⟩ := immediate_ok value
    refine ⟨⟨known, format, ?_⟩, ?_, suffixImm.trans ((skipComma_suffix left).trans suffix)⟩
    · simp [Instruction.registers, hd, h1]
    · simpa [Instruction.imm?] using within
  | load =>
    simp only [formatOperands, format, bind_eq_ok_iff, pure_eq_ok_iff, Prod.exists,
      Prod.mk.injEq] at read
    obtain ⟨rd, left, first, imm, rs1, _, place, rfl, rfl⟩ := read
    obtain ⟨hd, suffix⟩ := register_ok first
    obtain ⟨within, h1, suffixMem⟩ := memory_ok place
    refine ⟨⟨known, format, ?_⟩, ?_, suffixMem.trans ((skipComma_suffix left).trans suffix)⟩
    · simp [Instruction.registers, hd, h1]
    · simpa [Instruction.imm?, Opcode.literalBounds_of_offset (.inl format)] using within
  | store =>
    simp only [formatOperands, format, bind_eq_ok_iff, pure_eq_ok_iff, Prod.exists,
      Prod.mk.injEq] at read
    obtain ⟨rs2, left, first, imm, rs1, _, place, rfl, rfl⟩ := read
    obtain ⟨h2, suffix⟩ := register_ok first
    obtain ⟨within, h1, suffixMem⟩ := memory_ok place
    refine ⟨⟨known, format, ?_⟩, ?_, suffixMem.trans ((skipComma_suffix left).trans suffix)⟩
    · simp [Instruction.registers, h1, h2]
    · simpa [Instruction.imm?, Opcode.literalBounds_of_offset (.inr (.inl format))] using within
  | branch =>
    simp only [formatOperands, format, bind_eq_ok_iff, pure_eq_ok_iff, Prod.exists,
      Prod.mk.injEq] at read
    obtain ⟨rs1, rs2, left, pair, imm, _, value, rfl, rfl⟩ := read
    obtain ⟨h1, h2, suffix⟩ := registerPair_ok pair
    obtain ⟨within, suffixImm⟩ := immediate_ok value
    refine ⟨⟨known, format, ?_⟩, ?_, suffixImm.trans ((skipComma_suffix left).trans suffix)⟩
    · simp [Instruction.registers, h1, h2]
    · simpa [Instruction.imm?, Opcode.literalBounds_of_branch format] using within
  | jump =>
    simp only [formatOperands, format] at read
    split at read
    · simp only [bind_eq_ok_iff, pure_eq_ok_iff, Prod.exists, Prod.mk.injEq] at read
      obtain ⟨imm, _, value, rfl, rfl⟩ := read
      obtain ⟨within, suffix⟩ := immediate_ok value
      refine ⟨⟨known, format, by simp [Instruction.registers]⟩, ?_, suffix⟩
      simpa [Instruction.imm?, Opcode.literalBounds_of_jump format] using within
    · simp only [bind_eq_ok_iff, pure_eq_ok_iff, Prod.exists, Prod.mk.injEq] at read
      obtain ⟨rd, left, first, imm, _, value, rfl, rfl⟩ := read
      obtain ⟨hd, suffix⟩ := register_ok first
      obtain ⟨within, suffixImm⟩ := immediate_ok value
      refine ⟨⟨known, format, ?_⟩, ?_, suffixImm.trans ((skipComma_suffix left).trans suffix)⟩
      · simp [Instruction.registers, hd]
      · simpa [Instruction.imm?, Opcode.literalBounds_of_jump format] using within
  | jumpRegister =>
    have bounds : op.literalBounds = .twelveBit :=
      Opcode.literalBounds_of_offset (.inr (.inr format))
    have zeroFits : (Operand.num 0).Within op.literalBounds := by
      rw [bounds]
      decide
    simp only [formatOperands, format, bind_eq_ok_iff, Prod.exists] at read
    obtain ⟨rd, left, first, read⟩ := read
    obtain ⟨hd, suffix⟩ := register_ok first
    split at read
    · simp only [pure_eq_ok_iff, Prod.mk.injEq] at read
      obtain ⟨rfl, rfl⟩ := read
      refine ⟨⟨known, format, ?_⟩, by simpa [Instruction.imm?] using zeroFits, suffix⟩
      simp [Instruction.registers, hd]
    · have suffixLeft := (skipComma_suffix left).trans suffix
      split at read
      · simp only [bind_eq_ok_iff, pure_eq_ok_iff, Prod.exists, Prod.mk.injEq] at read
        obtain ⟨imm, rs1, _, place, rfl, rfl⟩ := read
        obtain ⟨within, h1, suffixMem⟩ := memory_ok place
        refine ⟨⟨known, format, ?_⟩, ?_, suffixMem.trans suffixLeft⟩
        · simp [Instruction.registers, hd, h1]
        · simpa [Instruction.imm?, bounds] using within
      · simp only [bind_eq_ok_iff, Prod.exists] at read
        obtain ⟨rs1, left', second, read⟩ := read
        obtain ⟨h1, suffix'⟩ := register_ok second
        split at read
        · simp only [pure_eq_ok_iff, Prod.mk.injEq] at read
          obtain ⟨rfl, rfl⟩ := read
          refine ⟨⟨known, format, ?_⟩, by simpa [Instruction.imm?] using zeroFits,
            suffix'.trans suffixLeft⟩
          simp [Instruction.registers, hd, h1]
        · simp only [bind_eq_ok_iff, pure_eq_ok_iff, Prod.exists, Prod.mk.injEq] at read
          obtain ⟨imm, _, value, rfl, rfl⟩ := read
          obtain ⟨within, suffixImm⟩ := immediate_ok value
          refine ⟨⟨known, format, ?_⟩, by simpa [Instruction.imm?, bounds] using within,
            suffixImm.trans ((skipComma_suffix left').trans (suffix'.trans suffixLeft))⟩
          simp [Instruction.registers, hd, h1]
  | upperImmediate =>
    simp only [formatOperands, format, bind_eq_ok_iff, pure_eq_ok_iff, Prod.exists,
      Prod.mk.injEq] at read
    obtain ⟨rd, left, first, imm, _, value, rfl, rfl⟩ := read
    obtain ⟨hd, suffix⟩ := register_ok first
    obtain ⟨within, suffixImm⟩ := immediate_ok value
    refine ⟨⟨known, format, ?_⟩, ?_, suffixImm.trans ((skipComma_suffix left).trans suffix)⟩
    · simp [Instruction.registers, hd]
    · simpa [Instruction.imm?, Opcode.literalBounds_of_upperImmediate format] using within

end Parse

theorem Pseudo.expand_ok {p : Pseudo} {c : Context} {ts rest : List Token} {inst : Instruction}
    (read : p.expand c ts = .ok (inst, rest)) : inst.WellFormed ∧ rest <:+ ts := by
  cases p with
  | nop =>
    simp only [expand, Except.ok.injEq, Prod.mk.injEq] at read
    obtain ⟨rfl, rfl⟩ := read
    exact ⟨⟨Opcode.ri "addi" 0b000, ⟨rfl, rfl, by decide +kernel⟩, by decide⟩, List.suffix_refl _⟩
  | ret =>
    simp only [expand, Except.ok.injEq, Prod.mk.injEq] at read
    obtain ⟨rfl, rfl⟩ := read
    exact ⟨⟨Opcode.plain "jalr" .jumpRegister Opcode.jalr 0b000, ⟨rfl, rfl, by decide +kernel⟩,
      by decide⟩, List.suffix_refl _⟩
  | mv =>
    simp only [expand, bind_eq_ok_iff, pure_eq_ok_iff, Prod.exists, Prod.mk.injEq] at read
    obtain ⟨rd, rs, _, pair, rfl, rfl⟩ := read
    obtain ⟨hd, hs, suffix⟩ := registerPair_ok pair
    refine ⟨⟨Opcode.ri "addi" 0b000, ⟨rfl, rfl, ?_⟩, ?_⟩, suffix⟩
    · simp [Instruction.registers, hd, hs]
    · rintro _ ⟨⟩
      decide
  | not =>
    simp only [expand, bind_eq_ok_iff, pure_eq_ok_iff, Prod.exists, Prod.mk.injEq] at read
    obtain ⟨rd, rs, _, pair, rfl, rfl⟩ := read
    obtain ⟨hd, hs, suffix⟩ := registerPair_ok pair
    refine ⟨⟨Opcode.ri "xori" 0b100, ⟨rfl, rfl, ?_⟩, ?_⟩, suffix⟩
    · simp [Instruction.registers, hd, hs]
    · rintro _ ⟨⟩
      decide
  | neg =>
    simp only [expand, bind_eq_ok_iff, pure_eq_ok_iff, Prod.exists, Prod.mk.injEq] at read
    obtain ⟨rd, rs, _, pair, rfl, rfl⟩ := read
    obtain ⟨hd, hs, suffix⟩ := registerPair_ok pair
    refine ⟨⟨Opcode.rr "sub" 0b000 0b0100000 .base, ⟨rfl, rfl, ?_⟩, by simp [Instruction.imm?]⟩,
      suffix⟩
    simp [Instruction.registers, hd, hs]
  | j =>
    simp only [expand, bind_eq_ok_iff, pure_eq_ok_iff, Prod.exists, Prod.mk.injEq] at read
    obtain ⟨target, _, value, rfl, rfl⟩ := read
    obtain ⟨within, suffix⟩ := immediate_ok value
    refine ⟨⟨Opcode.plain "jal" .jump Opcode.jal 0b000, ⟨rfl, rfl, by simp [Instruction.registers]⟩,
      ?_⟩, suffix⟩
    rintro _ ⟨⟩
    exact within

namespace Parse

variable {cfg : Config} {waiting : List Label} {n : Nat} {span : Span} {head : Token}
  {ts : List Token}

theorem instruction_wellFormed {inst : Instruction}
    (read : instruction cfg n span head ts = .ok inst) : inst.WellFormed := by
  simp only [instruction] at read
  split at read
  · simp only [bind_eq_ok_iff, pure_eq_ok_iff, Prod.exists] at read
    obtain ⟨_, rest, expanded, _, _, rfl⟩ := read
    exact (Pseudo.expand_ok expanded).1
  · split at read
    · simp at read
    · rename_i op known
      simp only [bind_eq_ok_iff, pure_eq_ok_iff, Prod.exists] at read
      obtain ⟨_, rest, operands, _, _, rfl⟩ := read
      obtain ⟨fits, literal, _⟩ := formatOperands_ok (Config.mem_table_of_opcode? known) operands
      exact ⟨op, fits, literal⟩

theorem stringData_bytes {c : Context} {d : Directive} (read : stringData c ts = .ok d) :
    ∃ bs, d.body = .bytes bs := by
  simp only [stringData, bind_eq_ok_iff, Prod.exists] at read
  obtain ⟨t, rest, _, read⟩ := read
  split at read
  · split at read
    · simp at read
    · simp only [bind_eq_ok_iff, pure_eq_ok_iff] at read
      obtain ⟨_, _, rfl⟩ := read
      exact ⟨_, rfl⟩
  · simp at read

theorem fillData_bytes {c : Context} {d : Directive} (read : fillData c ts = .ok d) :
    ∃ bs, d.body = .bytes bs := by
  simp only [fillData, bind_eq_ok_iff, Prod.exists] at read
  obtain ⟨t, rest, _, read⟩ := read
  split at read
  · simp only [bind_eq_ok_iff, pure_eq_ok_iff] at read
    obtain ⟨_, _, _, _, _, _, rfl⟩ := read
    exact ⟨_, rfl⟩
  · simp at read

theorem itemSize?_mem {name : String} {size : Int} (known : itemSize? name = some size) :
    size ∈ [1, 2, 4] := by
  unfold itemSize? at known
  split at known
  · simp_all
  · split at known
    · simp_all
    · split at known <;> simp_all

theorem directive_wellFormed {d : Directive}
    (read : directive waiting n span head ts = .ok (some d)) : d.WellFormed := by
  have ofBytes : (∃ bs, d.body = .bytes bs) → d.WellFormed := by
    rintro ⟨bs, body⟩
    simp [Directive.WellFormed, body]
  simp only [directive] at read
  split at read
  · simp only [bind_eq_ok_iff, pure_eq_ok_iff, reduceCtorEq, and_false, exists_false] at read
  split at read
  · simp only [bind_eq_ok_iff, pure_eq_ok_iff, reduceCtorEq, and_false, exists_false] at read
  split at read
  · simp only [bind_eq_ok_iff, Prod.exists] at read
    obtain ⟨t, rest, _, read⟩ := read
    split at read
    · simp only [bind_eq_ok_iff, pure_eq_ok_iff, reduceCtorEq, and_false, exists_false] at read
    · simp at read
  split at read
  · simp only [bind_eq_ok_iff, pure_eq_ok_iff, Option.some.injEq] at read
    obtain ⟨_, text, rfl⟩ := read
    exact ofBytes (stringData_bytes text)
  split at read
  · simp only [bind_eq_ok_iff, pure_eq_ok_iff, Option.some.injEq] at read
    obtain ⟨_, fill, rfl⟩ := read
    exact ofBytes (fillData_bytes fill)
  split at read
  · rename_i size known
    simp only [bind_eq_ok_iff, pure_eq_ok_iff, Option.some.injEq] at read
    obtain ⟨items, values, rfl⟩ := read
    exact ⟨operands_ne_nil values, itemSize?_mem known⟩
  · simp at read

theorem statement_wellFormed {stmt : Statement}
    (read : statement cfg waiting n span head ts = .ok (some stmt)) : stmt.WellFormed := by
  unfold statement at read
  split at read
  · simp at read
  split at read
  · simp only [bind_eq_ok_iff, pure_eq_ok_iff] at read
    obtain ⟨d, line, emitted⟩ := read
    obtain ⟨d, rfl, rfl⟩ := Option.map_eq_some_iff.mp emitted
    exact directive_wellFormed line
  · simp only [bind_eq_ok_iff, pure_eq_ok_iff, Option.some.injEq] at read
    obtain ⟨inst, line, rfl⟩ := read
    exact instruction_wellFormed line

/-- What reading a line can do: its labels are set aside, or a record takes all labels that wait. -/
theorem line_cases {s s' : State} {bs : Bytes} (read : line cfg s (bs, n) = .ok s') :
    ∃ ts labels left, Token.scan n bs = .ok ts ∧ leadingLabels n ts = .ok (labels, left) ∧
      ((left = [] ∧ s' = ⟨labels.reverse ++ s.waiting, s.records⟩) ∨
        ∃ head rest span, left = head :: rest ∧
          span = Span.onLine n head.start ((head :: rest).getLastD head).stop ∧
          ((statement cfg (labels.reverse ++ s.waiting) n span head rest = .ok none ∧
              s' = ⟨labels.reverse ++ s.waiting, s.records⟩) ∨
            ∃ stmt,
              statement cfg (labels.reverse ++ s.waiting) n span head rest = .ok (some stmt) ∧
              s' = ⟨[], ⟨(labels.reverse ++ s.waiting).reverse, n, span, stmt⟩ :: s.records⟩)) := by
  simp only [line, bind_eq_ok_iff, Prod.exists] at read
  obtain ⟨ts, scanned, labels, left, leading, read⟩ := read
  refine ⟨ts, labels, left, scanned, leading, ?_⟩
  cases left with
  | nil =>
    obtain rfl := pure_eq_ok_iff.mp read
    exact .inl ⟨rfl, rfl⟩
  | cons head rest =>
    simp only [bind_eq_ok_iff] at read
    obtain ⟨result, body, read⟩ := read
    refine .inr ⟨head, rest, _, rfl, rfl, ?_⟩
    cases result with
    | none =>
      obtain rfl := pure_eq_ok_iff.mp read
      exact .inl ⟨body, rfl⟩
    | some stmt =>
      obtain rfl := pure_eq_ok_iff.mp read
      exact .inr ⟨stmt, body, rfl⟩

theorem line_forall {P : Statement → Prop}
    (each : ∀ waiting n span head ts stmt,
      statement cfg waiting n span head ts = .ok (some stmt) → P stmt)
    {s s' : State} {numbered : Bytes × Nat} (before : ∀ r ∈ s.records, P r.statement)
    (read : line cfg s numbered = .ok s') : ∀ r ∈ s'.records, P r.statement := by
  obtain ⟨_, _, _, _, _, ⟨_, rfl⟩ | ⟨_, _, _, _, _, ⟨_, rfl⟩ | ⟨stmt, body, rfl⟩⟩⟩ :=
    line_cases read
  · exact before
  · exact before
  · intro r member
    rcases List.mem_cons.mp member with rfl | member
    · exact each _ _ _ _ _ stmt body
    · exact before r member

end Parse

theorem parse_eq_ok_iff {cfg : Config} {source : Bytes} {rs : List Record} :
    parse cfg source = .ok rs ↔
      ∃ s, (Text.lines source).zipIdx.foldlM (Parse.line cfg) ⟨[], []⟩ = .ok s ∧
        Parse.noneWaiting s.waiting = .ok () ∧ rs = s.records.reverse := by
  simp only [parse, Parse.records, bind_eq_ok_iff, pure_eq_ok_iff]
  constructor
  · rintro ⟨s, run, _, idle, rfl⟩
    exact ⟨s, run, idle, rfl⟩
  · rintro ⟨s, run, idle, rfl⟩
    exact ⟨s, run, (), idle, rfl⟩

theorem parse_forall {P : Statement → Prop} {cfg : Config}
    (each : ∀ waiting n span head ts stmt,
      Parse.statement cfg waiting n span head ts = .ok (some stmt) → P stmt)
    {source : Bytes} {rs : List Record} (parsed : parse cfg source = .ok rs) :
    ∀ r ∈ rs, P r.statement := by
  obtain ⟨s, run, _, rfl⟩ := parse_eq_ok_iff.mp parsed
  have kept := foldlM_preserves (P := fun s : Parse.State => ∀ r ∈ s.records, P r.statement)
    (fun _ _ _ before step => Parse.line_forall each before step) _ (by simp) run
  intro r member
  exact kept r (List.mem_reverse.mp member)

theorem parse_wellFormed {cfg : Config} {source : Bytes} {rs : List Record}
    (parsed : parse cfg source = .ok rs) : ∀ r ∈ rs, r.statement.WellFormed :=
  parse_forall (fun _ _ _ _ _ _ read => Parse.statement_wellFormed read) parsed

end Rv32Asm
