import Rv32Asm.Proofs.Layout
import Rv32Asm.Proofs.Scanning

/-!
Assembly has an answer for every source.

The reader of strings, the reader of numbers, linking and the encoder rely on facts that the stages
before them establish. With these facts none of them can fail in a way that is no fault of the
source: there is a program, a fault with a place in the source, or a refused configuration.
-/

set_option autoImplicit false
set_option relaxedAutoImplicit false

namespace Rv32Asm

open Rv32Asm.Outcome
open Rv32Asm.Link

/-- What the readers of a token rely on: numbers have a first byte, and strings have two quotes and
a byte after each backslash between them. -/
def Token.Readable (t : Token) : Prop :=
  (t.kind = .number → t.text ≠ []) ∧
    (t.kind = .string → 2 ≤ t.text.length ∧ Token.unquote t.text ≠ .error .unclosed)

theorem Token.readable_of_scan {n : Nat} {bs : Bytes} {ts : List Token}
    (scanned : Token.scan n bs = .ok ts) : ∀ t ∈ ts, t.Readable := by
  intro t member
  have lexeme := (scans_of_scanFrom scanned).lexemes t member
  refine ⟨fun _ => lexeme.ne_nil, ?_⟩
  intro string
  rw [string] at lexeme
  exact lexeme.unquote_ne_unclosed

theorem Link.Linked.encodable {table : SymbolTable} {pc : UInt32} {us rs : List Record}
    (linked : Linked table pc us rs) (wellFormed : ∀ u ∈ us, u.statement.WellFormed) :
    ∀ r ∈ rs, ∀ i, r.statement = .inst i →
      i.Numeric ∧ ∃ op w, i.Fits op ∧ i.encode = .ok w := by
  induction linked with
  | nil pc => simp
  | @cons pc u stmt us rs first rest ih =>
    rw [List.forall_mem_cons] at wellFormed ⊢
    refine ⟨?_, ih wellFormed.2⟩
    rintro i rfl
    have known := wellFormed.1
    cases statement : u.statement with
    | data d =>
      rw [statement] at first
      obtain ⟨_, _, other⟩ := statement_data_eq_ok_iff.mp first
      simp at other
    | inst i₀ =>
      rw [statement] at first known
      obtain ⟨i', result, same⟩ := statement_inst_eq_ok_iff.mp first
      obtain rfl := Statement.inst.inj same
      obtain ⟨op, fits, _⟩ := known
      have numeric := instruction_numeric result
      have linkedFits := instruction_fits fits result
      obtain ⟨w, _, encoded⟩ := linkedFits.encode numeric
      exact ⟨numeric, op, w, linkedFits, encoded⟩

theorem exists_codeFrom {rs : List Record}
    (encodes : ∀ r ∈ rs, ∀ i, r.statement = .inst i → ∃ w, i.encode = .ok w)
    (done : List CodeWord) (n : Nat) : ∃ code, codeFrom done n rs = .ok code := by
  induction rs generalizing done n with
  | nil => exact ⟨_, rfl⟩
  | cons r rs ih =>
    rw [List.forall_mem_cons] at encodes
    rw [codeFrom]
    cases statement : r.statement with
    | data d => exact ih encodes.2 done n
    | inst i =>
      obtain ⟨w, encoded⟩ := encodes.1 i statement
      simp only [encoded]
      exact ih encodes.2 _ _

theorem assemble_eq_config_iff {cfg : Config} {source : Bytes} {fault : ConfigFault} :
    assemble cfg source = .error (.config fault) ↔ cfg.validate = .error fault := by
  simp only [assemble, bind_eq_error_iff, mapError_eq_error_iff, pure_ne_error, reduceCtorEq,
    and_false, exists_false, or_false, AssembleFault.config.injEq, exists_eq_right]

/-- The encoder refuses no instruction that it is given. -/
theorem assemble_ne_encode {cfg : Config} {source : Bytes} {fault : EncodeFault} :
    assemble cfg source ≠ .error (.encode fault) := by
  simp only [assemble, ne_eq, bind_eq_error_iff, mapError_eq_error_iff, mapError_eq_ok_iff,
    link_eq_ok_iff, pure_ne_error, reduceCtorEq, and_false, exists_false, or_false, false_or,
    AssembleFault.encode.injEq, exists_eq_right]
  rintro ⟨_, _, us, parsed, table, _, rs, linked, refused⟩
  have encodes : ∀ r ∈ rs, ∀ i, r.statement = .inst i → ∃ w, i.encode = .ok w := by
    intro r member i statement
    obtain ⟨_, _, w, _, encoded⟩ := linked.encodable (parse_wellFormed parsed) r member i statement
    exact ⟨w, encoded⟩
  obtain ⟨code, coded⟩ := exists_codeFrom encodes [] 0
  simp [coded] at refused

structure AssemblesSafely (cfg : Config) (source : Bytes) : Prop where
  /-- A configuration is refused exactly if its check refuses it. -/
  config : ∀ fault, assemble cfg source = .error (.config fault) ↔ cfg.validate = .error fault
  /-- Otherwise there is a program or a fault of the source. -/
  answer : cfg.validate = .ok () →
    (∃ p, assemble cfg source = .ok p) ∨ ∃ fault, assemble cfg source = .error (.source fault)
  tokens : ∀ bs ∈ Text.lines source, ∀ n ts, Token.scan n bs = .ok ts → ∀ t ∈ ts, t.Readable
  /-- Operand readers stay within the tokens of the line and give the instruction its format. -/
  operands : ∀ op ∈ Opcode.table, ∀ c ts inst rest,
    Parse.formatOperands op c ts = .ok (inst, rest) → inst.Fits op ∧ rest <:+ ts
  shorthands : ∀ (s : Pseudo) c ts inst rest,
    s.expand c ts = .ok (inst, rest) → inst.WellFormed ∧ rest <:+ ts
  records : ∀ us, parse cfg source = .ok us → ∀ u ∈ us, u.statement.WellFormed
  /-- Linking writes a number only where there is a label. -/
  numbers : ∀ table pc span inst linked, Link.instruction table pc span inst = .ok linked →
    linked = inst ∨ ∃ label v, inst.imm? = some (.ref label) ∧ linked = inst.withImm (.num v)
  /-- The encoder gets instructions without labels that fit their table entry. -/
  encoder : ∀ us table rs, parse cfg source = .ok us → SymbolTable.ofRecords us = .ok table →
    link table us = .ok rs → ∀ r ∈ rs, ∀ i, r.statement = .inst i →
      i.Numeric ∧ ∃ op w, i.Fits op ∧ i.encode = .ok w

theorem assemblesSafely (cfg : Config) (source : Bytes) : AssemblesSafely cfg source where
  config _ := assemble_eq_config_iff
  answer valid := by
    cases result : assemble cfg source with
    | ok p => exact .inl ⟨p, rfl⟩
    | error fault =>
      cases fault with
      | config fault =>
        rw [assemble_eq_config_iff, valid] at result
        simp at result
      | source fault => exact .inr ⟨fault, rfl⟩
      | encode fault => exact absurd result assemble_ne_encode
  tokens _ _ _ _ scanned := Token.readable_of_scan scanned
  operands op listed c ts inst rest read := by
    obtain ⟨fits, _, suffix⟩ := Parse.formatOperands_ok listed read
    exact ⟨fits, suffix⟩
  shorthands _ _ _ _ _ read := Pseudo.expand_ok read
  records _ parsed := parse_wellFormed parsed
  numbers table pc span inst linked result := by
    rcases instruction_cases result with ⟨label, v, ref, _, same⟩ | ⟨_, same⟩
    · exact .inr ⟨label, v, ref, same⟩
    · exact .inl same
  encoder _ _ _ parsed _ linked := (link_eq_ok_iff.mp linked).encodable (parse_wellFormed parsed)

end Rv32Asm
