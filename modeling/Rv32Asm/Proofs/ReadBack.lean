import Rv32Asm.Hover.Basic
import Rv32Asm.Proofs.Extensions
import Rv32Asm.Proofs.InstructionText
import Rv32Asm.Proofs.Linking

/-!
Written instructions are read back.

Every instruction with a numeric immediate can be written on a line. The line is read as this
instruction if its immediate is within the bounds of the mnemonic, which are those that an editor
shows. Other immediates are refused, and none is changed.
-/

set_option autoImplicit false
set_option relaxedAutoImplicit false

namespace Rv32Asm

open Rv32Asm.Text
open Rv32Asm.Outcome
open Rv32Asm.Operands
open Rv32Asm.Token

section Read

variable (c : Context) {ts rest : List Token} {a b : String} {r s : Register} {v : Int}

theorem kind_of_word {t : Token} (shape : t.shape = word a) :
    t.kind = .ident ∨ t.kind = .number := by
  have kind : t.kind = (word a).1 := congrArg Prod.fst shape
  rw [kind, word]
  split <;> simp

theorem register_of_word {t : Token} (shape : t.shape = word a)
    (known : Register.ofName? a = some r) : register c (t :: rest) = .ok (r, rest) := by
  have plain : ∀ s ∈ Register.spellings, latin (utf8 s.1) = s.1 := by decide +kernel
  have text : t.text = utf8 a := congrArg Prod.snd shape
  refine register_eq_ok_iff.mpr ⟨t, rfl, kind_of_word shape, ?_⟩
  rw [text, plain _ (Register.mem_spellings known), known]

theorem skipComma_of_shape {t : Token} (shape : t.shape = (.comma, [ascii ','])) :
    skipComma (t :: rest) = rest :=
  if_pos (congrArg Prod.fst shape)

theorem immediate_cons (bounds : Bounds) (t : Token) :
    immediate c bounds (t :: rest) = (operand c bounds t).map fun imm => (imm, rest) := by
  show (operand c bounds t >>= fun imm => pure (imm, rest)) = _
  cases operand c bounds t <;> rfl

theorem tokens_of_register {o : Spelled} {os : List Spelled}
    (tokens : ts.map Token.shape = operandShapes (.reg a :: o :: os)) :
    ∃ t comma more, ts = t :: comma :: more ∧ t.shape = word a ∧
      comma.shape = (.comma, [ascii ',']) ∧ more.map Token.shape = operandShapes (o :: os) := by
  simp only [operandShapes, Spelled.shapes, List.map_cons, List.intersperse_cons_cons,
    List.flatten_cons, List.cons_append, List.nil_append, List.map_eq_cons_iff] at tokens
  obtain ⟨t, _, rfl, word, comma, more, rfl, separates, others⟩ := tokens
  exact ⟨t, comma, more, rfl, word, separates, others⟩

theorem operandShapes_singleton (o : Spelled) : operandShapes [o] = o.shapes :=
  List.append_nil o.shapes

theorem register_first {o : Spelled} {os : List Spelled}
    (tokens : ts.map Token.shape = operandShapes (.reg a :: o :: os))
    (known : Register.ofName? a = some r) :
    ∃ comma more, register c ts = .ok (r, comma :: more) ∧ skipComma (comma :: more) = more ∧
      more.map Token.shape = operandShapes (o :: os) := by
  obtain ⟨t, comma, more, rfl, word, separates, others⟩ := tokens_of_register tokens
  exact ⟨comma, more, register_of_word c word known, skipComma_of_shape separates, others⟩

theorem register_last (tokens : ts.map Token.shape = operandShapes [.reg a])
    (known : Register.ofName? a = some r) : register c ts = .ok (r, []) := by
  rw [operandShapes_singleton] at tokens
  obtain ⟨t, _, rfl, word, none⟩ := List.map_eq_cons_iff.mp tokens
  rw [List.map_eq_nil_iff.mp none]
  exact register_of_word c word known

theorem immediate_last (tokens : ts.map Token.shape = operandShapes [.imm v]) (bounds : Bounds) :
    ∃ t, t.shape = (.number, decimalInt v) ∧
      immediate c bounds ts = (operand c bounds t).map fun imm => (imm, []) := by
  rw [operandShapes_singleton] at tokens
  obtain ⟨t, _, rfl, literal, none⟩ := List.map_eq_cons_iff.mp tokens
  rw [List.map_eq_nil_iff.mp none]
  exact ⟨t, literal, immediate_cons c bounds t⟩

theorem memory_last (tokens : ts.map Token.shape = operandShapes [.mem v a])
    (known : Register.ofName? a = some r) :
    ∃ t, t.shape = (.number, decimalInt v) ∧ nextIs .openParen (ts.drop 1) = true ∧
      memory c ts = (operand c .twelveBit t).map fun imm => (imm, r, []) := by
  rw [operandShapes_singleton] at tokens
  simp only [Spelled.shapes, List.map_eq_cons_iff, List.map_eq_nil_iff] at tokens
  obtain ⟨t, _, rfl, offset, u, _, rfl, opening, w, _, rfl, word, z, _, rfl, closing, rfl⟩ := tokens
  have number : t.kind = .number := congrArg Prod.fst offset
  have opens : u.kind = .openParen := congrArg Prod.fst opening
  have closes : z.kind = .closeParen := congrArg Prod.fst closing
  have start : memoryOffset c [t, u, w, z] =
      (operand c .twelveBit t).map fun imm => (imm, [u, w, z]) := by
    have notParen : nextIs .openParen [t, u, w, z] = false := by simp [nextIs, number]
    rw [memoryOffset, notParen, ← immediate_cons]
    rfl
  have opened : exactly c .openParen "\"(\"" [u, w, z] = .ok [w, z] :=
    exactly_eq_ok_iff.mpr ⟨u, rfl, opens⟩
  have closed : exactly c .closeParen "\")\"" [z] = .ok [] :=
    exactly_eq_ok_iff.mpr ⟨z, rfl, closes⟩
  refine ⟨t, offset, by simp [nextIs, opens], ?_⟩
  rw [memory, start]
  cases operand c .twelveBit t with
  | error fault => rfl
  | ok imm =>
    simp only [Except.map, ok_bind, opened, register_of_word c word known, closed]
    rfl

-- The operands of the formats. With an immediate, they are read up to what it is.

theorem registers_of_shapes (tokens : ts.map Token.shape = operandShapes [.reg a, .reg b])
    (known : Register.ofName? a = some r) (known' : Register.ofName? b = some s) :
    registerPair c ts = .ok (r, s, []) := by
  obtain ⟨_, _, first, skipped, tokens⟩ := register_first c tokens known
  have second := register_last c tokens known'
  rw [← skipped] at second
  exact registerPair_eq_ok_iff.mpr ⟨_, first, second⟩

theorem registers_immediate_of_shapes
    (tokens : ts.map Token.shape = operandShapes [.reg a, .reg b, .imm v])
    (known : Register.ofName? a = some r) (known' : Register.ofName? b = some s)
    (bounds : Bounds) :
    ∃ t after, t.shape = (.number, decimalInt v) ∧ registerPair c ts = .ok (r, s, after) ∧
      immediate c bounds (skipComma after) = (operand c bounds t).map fun imm => (imm, []) := by
  obtain ⟨_, _, first, skipped, tokens⟩ := register_first c tokens known
  obtain ⟨comma, more, second, skipped', tokens⟩ := register_first c tokens known'
  obtain ⟨t, literal, last⟩ := immediate_last c tokens bounds
  rw [← skipped] at second
  rw [← skipped'] at last
  exact ⟨t, comma :: more, literal, registerPair_eq_ok_iff.mpr ⟨_, first, second⟩, last⟩

theorem register_immediate_of_shapes (tokens : ts.map Token.shape = operandShapes [.reg a, .imm v])
    (known : Register.ofName? a = some r) (bounds : Bounds) :
    ∃ t after, t.shape = (.number, decimalInt v) ∧ register c ts = .ok (r, after) ∧
      immediate c bounds (skipComma after) = (operand c bounds t).map fun imm => (imm, []) := by
  obtain ⟨comma, more, first, skipped, tokens⟩ := register_first c tokens known
  obtain ⟨t, literal, last⟩ := immediate_last c tokens bounds
  rw [← skipped] at last
  exact ⟨t, comma :: more, literal, first, last⟩

theorem register_memory_of_shapes
    (tokens : ts.map Token.shape = operandShapes [.reg a, .mem v b])
    (known : Register.ofName? a = some r) (known' : Register.ofName? b = some s) :
    ∃ t after, t.shape = (.number, decimalInt v) ∧ register c ts = .ok (r, after) ∧
      after.isEmpty = false ∧ atMemory after = true ∧
      memory c (skipComma after) = (operand c .twelveBit t).map fun imm => (imm, s, []) := by
  obtain ⟨comma, more, first, skipped, tokens⟩ := register_first c tokens known
  obtain ⟨t, offset, opens, last⟩ := memory_last c tokens known'
  have place : atMemory (comma :: more) = true := by rw [atMemory, skipped, opens, Bool.or_true]
  rw [← skipped] at last
  exact ⟨t, comma :: more, offset, first, rfl, place, last⟩

theorem remaining_of_shapes (tokens : ts.map Token.shape = operandShapes [.reg a, .imm v]) :
    remaining ts ≠ 1 := by
  obtain ⟨t, comma, more, rfl, word, separates, tokens⟩ := tokens_of_register tokens
  rw [operandShapes_singleton] at tokens
  obtain ⟨u, _, rfl, literal, none⟩ := List.map_eq_cons_iff.mp tokens
  have commaKind : comma.kind = .comma := congrArg Prod.fst separates
  have number : u.kind = .number := congrArg Prod.fst literal
  rw [List.map_eq_nil_iff.mp none]
  rcases kind_of_word word with kind | kind <;> simp [remaining, kind, commaKind, number]

theorem formatOperands_of_shapes {inst : Instruction} {op : Opcode} {os : List Spelled}
    (spelled : inst.SpelledAs os) (name : op.name = inst.mnemonic)
    (format : op.format = inst.format) (tokens : ts.map Token.shape = operandShapes os) :
    (inst.imm? = none ∧ Parse.formatOperands op c ts = .ok (inst, [])) ∨
      ∃ v t, inst.imm? = some (.num v) ∧ t.shape = (.number, decimalInt v) ∧
        Parse.formatOperands op c ts =
          (operand c op.literalBounds t).map fun imm => (inst.withImm imm, []) := by
  cases spelled with
  | r dest left right =>
    obtain ⟨_, _, first, skipped, tokens⟩ := register_first c tokens dest
    have others := registers_of_shapes c tokens left right
    left
    refine ⟨rfl, ?_⟩
    simp only [Parse.formatOperands, format, Instruction.format, first, ok_bind, skipped, others,
      name]
    rfl
  | i dest left v =>
    obtain ⟨t, after, literal, pair, last⟩ :=
      registers_immediate_of_shapes c tokens dest left op.literalBounds
    right
    refine ⟨v, t, rfl, literal, ?_⟩
    simp only [Parse.formatOperands, format, Instruction.format, pair, ok_bind, last, name]
    cases operand c op.literalBounds t <;> rfl
  | b left right v =>
    obtain ⟨t, after, literal, pair, last⟩ :=
      registers_immediate_of_shapes c tokens left right .branchLiteral
    right
    refine ⟨v, t, rfl, literal, ?_⟩
    rw [Opcode.literalBounds_of_branch format]
    simp only [Parse.formatOperands, format, Instruction.format, pair, ok_bind, last, name]
    cases operand c .branchLiteral t <;> rfl
  | load dest base v =>
    obtain ⟨t, after, offset, first, _, _, last⟩ := register_memory_of_shapes c tokens dest base
    right
    refine ⟨v, t, rfl, offset, ?_⟩
    rw [Opcode.literalBounds_of_offset (.inl format)]
    simp only [Parse.formatOperands, format, Instruction.format, first, ok_bind, last, name]
    cases operand c .twelveBit t <;> rfl
  | s source base v =>
    obtain ⟨t, after, offset, first, _, _, last⟩ := register_memory_of_shapes c tokens source base
    right
    refine ⟨v, t, rfl, offset, ?_⟩
    rw [Opcode.literalBounds_of_offset (.inr (.inl format))]
    simp only [Parse.formatOperands, format, Instruction.format, first, ok_bind, last, name]
    cases operand c .twelveBit t <;> rfl
  | jalr dest base v =>
    obtain ⟨t, after, offset, first, some_token, place, last⟩ :=
      register_memory_of_shapes c tokens dest base
    right
    refine ⟨v, t, rfl, offset, ?_⟩
    rw [Opcode.literalBounds_of_offset (.inr (.inr format))]
    simp only [Parse.formatOperands, format, Instruction.format, first, ok_bind, some_token,
      Bool.false_eq_true, if_false, place, if_true, last, name]
    cases operand c .twelveBit t <;> rfl
  | j dest v =>
    -- A single operand would be the target of a jump that links through `ra`.
    have target := remaining_of_shapes tokens
    obtain ⟨t, after, literal, first, last⟩ :=
      register_immediate_of_shapes c tokens dest .jumpLiteral
    right
    refine ⟨v, t, rfl, literal, ?_⟩
    rw [Opcode.literalBounds_of_jump format]
    simp only [Parse.formatOperands, format, Instruction.format, target, if_false, first, ok_bind,
      last, name]
    cases operand c .jumpLiteral t <;> rfl
  | u dest v =>
    obtain ⟨t, after, literal, first, last⟩ :=
      register_immediate_of_shapes c tokens dest .upper
    right
    refine ⟨v, t, rfl, literal, ?_⟩
    rw [Opcode.literalBounds_of_upperImmediate format]
    simp only [Parse.formatOperands, format, Instruction.format, first, ok_bind, last, name]
    cases operand c .upper t <;> rfl

theorem operand_of_decimal {t : Token} (literal : t.shape = (.number, decimalInt v))
    (bounds : Bounds) :
    operand c bounds t =
      if Number.Fits v then (bounds.check v t.text (t.span c.line)).map fun _ => .num v
      else .error ⟨.overflow t.text, t.span c.line⟩ := by
  have number : t.kind = .number := congrArg Prod.fst literal
  have text : t.text = decimalInt v := congrArg Prod.snd literal
  have known : Number.Literal t.text v := text ▸ Number.literal_decimalInt v
  simp only [operand, number]
  by_cases fits : Number.Fits v
  · rw [Number.ofToken_of_literal known fits, if_pos fits, ok_bind]
    cases bounds.check v t.text (t.span c.line) <;> rfl
  · rw [Number.ofToken_of_large (.inr ⟨v, known, fits⟩), if_neg fits]
    rfl

end Read

theorem Bounds.check_of_not_allows {b : Bounds} {v : Int} (outside : ¬ b.Allows v) (shown : Bytes)
    (span : Span) : ∃ fault, b.check v shown span = .error fault ∧
      fault.cause.kind = .immediateOutOfRange := by
  cases checked : b.check v shown span with
  | ok => exact absurd (Bounds.check_eq_ok_iff.mp checked) outside
  | error fault =>
    refine ⟨fault, rfl, ?_⟩
    unfold Bounds.check at checked
    split at checked
    · obtain rfl := Except.error.inj checked
      rfl
    · split at checked
      · obtain rfl := Except.error.inj checked
        rfl
      · simp at checked

theorem Opcode.fits_of_allows {op : Opcode} {v : Int} (within : op.literalBounds.Allows v) :
    Number.Fits v := by
  have narrow : -0x80000000 ≤ op.literalBounds.least ∧ op.literalBounds.greatest ≤ 0xffffffff := by
    unfold Opcode.literalBounds
    repeat' split
    all_goals decide
  obtain ⟨above, below, _⟩ := within
  exact ⟨by omega, by omega⟩

theorem Instruction.withImm_self {inst : Instruction} {imm : Operand}
    (has : inst.imm? = some imm) : inst.withImm imm = inst := by
  cases inst with
  | r => simp [imm?] at has
  | i m rd rs1 old | load m rd rs1 old | s m rs1 rs2 old | b m rs1 rs2 old | j m rd old
  | jalr m rd rs1 old | u m rd old =>
    obtain rfl := Option.some.inj has
    rfl

namespace Parse

variable {op : Opcode} {head : Token} {ts : List Token}

theorem ofName?_of_opcode? {cfg : Config} {name : String}
    (known : cfg.opcode? name = some op) : Pseudo.ofName? name = none := by
  cases found : Pseudo.ofName? name with
  | none => rfl
  | some p =>
    rw [Pseudo.ofName?_eq_some_iff.mp found, Pseudo.opcode?_name] at known
    simp at known

theorem instruction_of_mnemonic {α : Type} {cfg : Config} {n : Nat} {span : Span}
    {x : Except Fault α} {f : α → Instruction} (name : head.lowered = op.name)
    (known : cfg.opcode? op.name = some op)
    (read : formatOperands op ⟨n, span, op.name, op.format.usage⟩ ts = x.map fun a => (f a, [])) :
    instruction cfg n span head ts = x.map f := by
  simp only [instruction, Token.lowered_eq, name, ofName?_of_opcode? known, known, read]
  cases x <;> rfl

theorem parse_of_instruction (cfg : Config) {source : Bytes} (whole : newline ∉ source)
    (scanned : Token.scan 0 source = .ok (head :: ts)) (kind : head.kind = .ident)
    (plain : head.text.head? ≠ some (ascii '.')) (unlabelled : nextIs .colon ts = false) :
    ∃ span, parse cfg source = (instruction cfg 0 span head ts).map fun inst =>
      [⟨[], 0, span, .inst inst⟩] := by
  have leading : leadingLabels 0 (head :: ts) = .ok ([], head :: ts) :=
    leadingLabels_eq_ok_iff.mpr ⟨[], rfl, .nil, unlabelled⟩
  refine ⟨.onLine 0 head.start ((head :: ts).getLastD head).stop, ?_⟩
  rw [parse, records, lines_of_not_mem whole, List.zipIdx_singleton, List.foldlM_cons, line,
    scanned, ok_bind, leading, ok_bind]
  simp only [statement, kind, ne_eq, not_true_eq_false, if_false, plain]
  cases instruction cfg 0 (.onLine 0 head.start ((head :: ts).getLastD head).stop) head ts <;> rfl

end Parse

theorem Opcode.opcode?_name {cfg : Config} {op : Opcode} (listed : op ∈ Opcode.table)
    (enabled : cfg.hasExtension op.extension.name = true) : cfg.opcode? op.name = some op := by
  have lowered : ∀ op ∈ Opcode.table, lower op.name = op.name := by decide +kernel
  refine Config.opcode?_eq_some_iff.mpr ⟨?_, enabled⟩
  rw [lowered op listed]
  exact Opcode.find?_name listed

theorem Instruction.Fits.name_eq {inst : Instruction} {op : Opcode} (fits : inst.Fits op) :
    op.name = inst.mnemonic :=
  eq_of_beq (List.find?_some fits.listed :)

theorem Instruction.SpelledAs.nextIs_colon {inst : Instruction} {os : List Spelled}
    (spelled : inst.SpelledAs os) {ts : List Token}
    (tokens : ts.map Token.shape = operandShapes os) : nextIs .colon ts = false := by
  obtain ⟨name, o, others, rfl⟩ : ∃ name o others, os = .reg name :: o :: others := by
    cases spelled <;> exact ⟨_, _, _, rfl⟩
  obtain ⟨t, comma, more, rfl, word, _⟩ := tokens_of_register tokens
  rcases kind_of_word word with kind | kind <;> simp [nextIs, kind]

/-- The line of an instruction is read as the instruction, up to what its immediate is. -/
theorem parse_lineText {cfg : Config} {inst : Instruction} {op : Opcode} {os : List Spelled}
    (fits : inst.Fits op) (enabled : cfg.hasExtension op.extension.name = true)
    (spelled : inst.SpelledAs os) :
    (inst.imm? = none ∧ ∃ span, parse cfg (lineText inst.mnemonic os) =
        .ok [⟨[], 0, span, .inst inst⟩]) ∨
      ∃ v t c span, inst.imm? = some (.num v) ∧ t.shape = (.number, decimalInt v) ∧
        parse cfg (lineText inst.mnemonic os) =
          (operand c op.literalBounds t).map fun imm =>
            [⟨[], 0, span, .inst (inst.withImm imm)⟩] := by
  have listed : op ∈ Opcode.table := Opcode.mem_of_find? fits.listed
  have known := Opcode.opcode?_name listed enabled
  have whole := newline_not_mem_lineText listed spelled.known
  obtain ⟨ts, scanned, shapes⟩ := lexes_lineText listed spelled.known 0 0
  obtain ⟨head, ts, rfl, first, tokens⟩ := List.map_eq_cons_iff.mp shapes
  have kind : head.kind = .ident := congrArg Prod.fst first
  have text : head.text = utf8 op.name := congrArg Prod.snd first
  have lowered : head.lowered = op.name := by
    rw [Token.lowered, text]
    exact (Opcode.shape_name listed).2
  have plain : head.text.head? ≠ some (ascii '.') := by
    intro dotted
    have name := head.dotted_lowered_iff.mpr dotted
    rw [lowered] at name
    exact Config.not_dotted_of_opcode? known name
  obtain ⟨span, parsed⟩ := Parse.parse_of_instruction cfg whole scanned kind plain
    (spelled.nextIs_colon tokens)
  rw [← fits.name_eq, parsed]
  rcases formatOperands_of_shapes ⟨0, span, op.name, op.format.usage⟩ spelled fits.name_eq
    fits.format tokens with ⟨none, read⟩ | ⟨v, t, has, literal, read⟩
  · left
    have result : Parse.instruction cfg 0 span head ts = (Except.ok ()).map fun _ => inst :=
      Parse.instruction_of_mnemonic lowered known read
    exact ⟨none, span, by rw [result]; rfl⟩
  · right
    refine ⟨v, t, ⟨0, span, op.name, op.format.usage⟩, span, has, literal, ?_⟩
    rw [Parse.instruction_of_mnemonic lowered known read]
    cases operand _ op.literalBounds t <;> rfl

def Bounds.told (b : Bounds) : String :=
  "The immediate must be between " ++ latin (decimalInt b.least) ++ " and "
    ++ latin (decimalInt b.greatest) ++ (if b.even then " and a multiple of 2" else "") ++ "."

theorem utf8_append (a b : String) : utf8 (a ++ b) = utf8 a ++ utf8 b := by
  simp [utf8]

theorem Hover.rangeNote_tells_bounds {op : Opcode} (has : op.format ≠ .registerRegister) :
    ∃ labels, Hover.rangeNote op = "\n\n" ++ (op.literalBounds.told ++ labels) := by
  have lines (least greatest even labels : String) :
      "\n\nThe immediate must be between " ++ least ++ " and " ++ greatest ++ even ++ "."
        ++ labels = "\n\n" ++ ("The immediate must be between " ++ least ++ " and " ++ greatest
          ++ even ++ "." ++ labels) := by
    have start : "\n\nThe immediate must be between " =
        "\n\n" ++ "The immediate must be between " := by decide +kernel
    rw [start]
    simp only [String.append_assoc]
  rw [Hover.rangeNote, if_neg has]
  exact ⟨_, lines _ _ _ _⟩

theorem Hover.keyword_tells_bounds {cfg : Config} {op : Opcode} (listed : op ∈ Opcode.table)
    (enabled : cfg.hasExtension op.extension.name = true) (has : op.format ≠ .registerRegister) :
    ∃ text, Hover.keyword cfg (utf8 op.name) = some text ∧
      utf8 op.literalBounds.told <:+: text := by
  have known := Opcode.opcode?_name listed enabled
  have plain : ∀ op ∈ Opcode.table, Hover.directiveDocs.lookup op.name = none := by decide +kernel
  obtain ⟨labels, note⟩ := Hover.rangeNote_tells_bounds has
  refine ⟨utf8 (Hover.instruction op), ?_, ?_⟩
  · simp only [Hover.keyword, (Opcode.shape_name listed).2, plain op listed,
      Parse.ofName?_of_opcode? known, known, Option.map_some]
  · rw [Hover.instruction, note]
    simp only [utf8_append]
    rw [← List.append_assoc, ← List.append_assoc]
    exact ⟨_, _, rfl⟩

namespace Instruction

theorem exists_name {r : Register} (small : r.toNat ≤ 31) :
    ∃ name, Register.ofName? name = some r := by
  have named : ∀ n : Fin 32, Register.ofName? (Register.conventionName (UInt8.ofNat n)) =
      some (UInt8.ofNat n) := by decide +kernel
  have here := named ⟨r.toNat, by omega⟩
  rw [UInt8.ofNat_toNat] at here
  exact ⟨_, here⟩

theorem exists_spelledAs {inst : Instruction} (numeric : inst.Numeric)
    (small : ∀ r ∈ inst.registers, r.toNat ≤ 31) : ∃ os, inst.SpelledAs os := by
  have number {imm : Operand} (has : inst.imm? = some imm) : ∃ v, imm = .num v := by
    cases imm with
    | num v => exact ⟨v, rfl⟩
    | ref label => exact absurd has (numeric label)
  have named (r : Register) (member : r ∈ inst.registers) :
      ∃ name, Register.ofName? name = some r := exists_name (small r member)
  cases inst with
  | r m rd rs1 rs2 =>
    obtain ⟨d, dest⟩ := named rd (by simp [registers])
    obtain ⟨a, left⟩ := named rs1 (by simp [registers])
    obtain ⟨b, right⟩ := named rs2 (by simp [registers])
    exact ⟨_, .r dest left right⟩
  | i m rd rs1 imm =>
    obtain ⟨v, rfl⟩ := number rfl
    obtain ⟨d, dest⟩ := named rd (by simp [registers])
    obtain ⟨a, left⟩ := named rs1 (by simp [registers])
    exact ⟨_, .i dest left v⟩
  | load m rd rs1 imm =>
    obtain ⟨v, rfl⟩ := number rfl
    obtain ⟨d, dest⟩ := named rd (by simp [registers])
    obtain ⟨a, base⟩ := named rs1 (by simp [registers])
    exact ⟨_, .load dest base v⟩
  | s m rs1 rs2 imm =>
    obtain ⟨v, rfl⟩ := number rfl
    obtain ⟨b, source⟩ := named rs2 (by simp [registers])
    obtain ⟨a, base⟩ := named rs1 (by simp [registers])
    exact ⟨_, .s source base v⟩
  | b m rs1 rs2 imm =>
    obtain ⟨v, rfl⟩ := number rfl
    obtain ⟨a, left⟩ := named rs1 (by simp [registers])
    obtain ⟨b, right⟩ := named rs2 (by simp [registers])
    exact ⟨_, .b left right v⟩
  | j m rd imm =>
    obtain ⟨v, rfl⟩ := number rfl
    obtain ⟨d, dest⟩ := named rd (by simp [registers])
    exact ⟨_, .j dest v⟩
  | jalr m rd rs1 imm =>
    obtain ⟨v, rfl⟩ := number rfl
    obtain ⟨d, dest⟩ := named rd (by simp [registers])
    obtain ⟨a, base⟩ := named rs1 (by simp [registers])
    exact ⟨_, .jalr dest base v⟩
  | u m rd imm =>
    obtain ⟨v, rfl⟩ := number rfl
    obtain ⟨d, dest⟩ := named rd (by simp [registers])
    exact ⟨_, .u dest v⟩

structure ReadsBack (cfg : Config) (op : Opcode) (inst : Instruction) : Prop where
  written : ∃ os, inst.SpelledAs os
  /-- A line whose immediate is within bounds holds the instruction and nothing else. -/
  accepted : ∀ os, inst.SpelledAs os →
    (∀ v, inst.imm? = some (.num v) → op.literalBounds.Allows v) →
    ∃ span, parse cfg (lineText inst.mnemonic os) = .ok [⟨[], 0, span, .inst inst⟩]
  outOfRange : ∀ os v, inst.SpelledAs os → inst.imm? = some (.num v) → Number.Fits v →
    ¬ op.literalBounds.Allows v →
    ∃ fault, parse cfg (lineText inst.mnemonic os) = .error fault ∧
      fault.cause.kind = .immediateOutOfRange
  overflow : ∀ os v, inst.SpelledAs os → inst.imm? = some (.num v) → ¬ Number.Fits v →
    ∃ fault, parse cfg (lineText inst.mnemonic os) = .error fault ∧
      fault.cause.kind = .numericOverflow
  /-- An editor shows the bounds for the mnemonic. -/
  shown : inst.imm? ≠ none → ∃ text, Hover.keyword cfg (utf8 inst.mnemonic) = some text ∧
    utf8 op.literalBounds.told <:+: text

theorem readsBack_of_fits {cfg : Config} {inst : Instruction} {op : Opcode} (fits : inst.Fits op)
    (numeric : inst.Numeric) (enabled : cfg.hasExtension op.extension.name = true) :
    inst.ReadsBack cfg op where
  written := exists_spelledAs numeric fits.registers
  accepted os spelled within := by
    rcases parse_lineText fits enabled spelled with
      ⟨_, parsed⟩ | ⟨v, t, c, span, has, literal, parsed⟩
    · exact parsed
    · have allowed := within v has
      have checked : op.literalBounds.check v t.text (t.span c.line) = .ok () :=
        Bounds.check_eq_ok_iff.mpr allowed
      rw [operand_of_decimal c literal, if_pos (Opcode.fits_of_allows allowed), checked] at parsed
      refine ⟨span, parsed.trans ?_⟩
      simp only [Except.map, withImm_self has]
  outOfRange os v spelled has fits' outside := by
    rcases parse_lineText fits enabled spelled with
      ⟨none, _⟩ | ⟨w, t, c, span, has', literal, parsed⟩
    · simp [none] at has
    · obtain rfl : w = v := by simpa [has'] using has
      obtain ⟨fault, refused, kind⟩ :=
        Bounds.check_of_not_allows outside t.text (t.span c.line)
      rw [operand_of_decimal c literal, if_pos fits', refused] at parsed
      exact ⟨fault, parsed, kind⟩
  overflow os v spelled has large := by
    rcases parse_lineText fits enabled spelled with
      ⟨none, _⟩ | ⟨w, t, c, span, has', literal, parsed⟩
    · simp [none] at has
    · obtain rfl : w = v := by simpa [has'] using has
      rw [operand_of_decimal c literal, if_neg large] at parsed
      exact ⟨_, parsed, rfl⟩
  shown has := by
    have format : op.format ≠ .registerRegister := by
      rw [fits.format]
      cases inst <;> simp_all [imm?, Instruction.format]
    rw [← fits.name_eq]
    exact Hover.keyword_tells_bounds (Opcode.mem_of_find? fits.listed) enabled format

/-- A branch with a register number and a register name, as far back as it reaches, and with
distances that are odd or too large. -/
theorem readsBack_farBranch :
    (Instruction.b "bge" 5 8 (.num (-4096))).Fits (.plain "bge" .branch Opcode.branches 0b101) ∧
      (∃ span, parse .standard (utf8 "bge 5, fp, -4096") =
        .ok [⟨[], 0, span, .inst (.b "bge" 5 8 (.num (-4096)))⟩]) ∧
      (∃ fault, parse .standard (utf8 "bge 5, fp, 4097") = .error fault ∧
        fault.cause.kind = .immediateOutOfRange) ∧
      ∃ fault, parse .standard (utf8 "bge 5, fp, 4294967296") = .error fault ∧
        fault.cause.kind = .numericOverflow := by
  have fits (v : Int) :
      (Instruction.b "bge" 5 8 (.num v)).Fits (.plain "bge" .branch Opcode.branches 0b101) :=
    ⟨rfl, rfl, by simp [registers]⟩
  have numeric (v : Int) : (Instruction.b "bge" 5 8 (.num v)).Numeric := by simp [Numeric, imm?]
  have spelled (v : Int) :
      (Instruction.b "bge" 5 8 (.num v)).SpelledAs [.reg "5", .reg "fp", .imm v] :=
    .b (by decide +kernel) (by decide +kernel) v
  have reads (v : Int) : ReadsBack .standard (.plain "bge" .branch Opcode.branches 0b101)
      (.b "bge" 5 8 (.num v)) := readsBack_of_fits (fits v) (numeric v) rfl
  refine ⟨fits (-4096), ?_, ?_, ?_⟩
  · have text : utf8 "bge 5, fp, -4096" = lineText "bge" [.reg "5", .reg "fp", .imm (-4096)] := by
      decide +kernel
    rw [text]
    apply (reads (-4096)).accepted _ (spelled _)
    rintro _ ⟨⟩
    decide
  · have text : utf8 "bge 5, fp, 4097" = lineText "bge" [.reg "5", .reg "fp", .imm 4097] := by
      decide +kernel
    rw [text]
    exact (reads 4097).outOfRange _ 4097 (spelled _) rfl (by decide) (by decide)
  · have text : utf8 "bge 5, fp, 4294967296" =
        lineText "bge" [.reg "5", .reg "fp", .imm 4294967296] := by decide +kernel
    rw [text]
    exact (reads 4294967296).overflow _ 4294967296 (spelled _) rfl (by decide)

end Instruction

end Rv32Asm
