import Rv32Asm.Proofs.Composition
import Rv32Asm.Proofs.InstructionText
import Rv32Asm.Proofs.Interleaving
import Rv32Asm.Proofs.Layout
import Rv32Asm.Proofs.RelocatedProgram

/-!
Zero bytes in front of a source.

Lines with `.space` directives have no labels and no instructions, so what follows them is linked
and encoded as without them, except that its data labels start from the offset that the zero bytes
leave. This offset is reduced modulo 2^32. If nothing is left of it, the program has the same words
and the same offsets as without the zero bytes.
-/

set_option autoImplicit false
set_option relaxedAutoImplicit false

namespace Rv32Asm

open Rv32Asm.Text
open Rv32Asm.Outcome
open Rv32Asm.Token
open Rv32Asm.Parse

def spaceData (m : Nat) : Directive := ⟨".space", 1, .bytes (List.replicate m 0)⟩

structure Record.Pads (m : Nat) (r : Record) : Prop where
  labels : r.labels = []
  statement : r.statement = .data (spaceData m)

def spaceLine (m : Nat) : Bytes := utf8 ".space" ++ ascii ' ' :: decimal m

section Line

variable {m : Nat}

theorem lexes_spaceLine (m : Nat) :
    Lexes (spaceLine m) [(.ident, utf8 ".space"), (.number, decimal m)] := by
  have word : Lexeme .ident (utf8 ".space") :=
    .ident (b := ascii '.') (by decide) (List.all_eq_true.mp (by decide))
  have number : Lexeme .number (decimal m) := Number.lexeme_decimalInt m
  have last : Lexes (decimal m) [(.number, decimal m)] := by
    have alone := Lexes.token number (apart_nil.ends .number) .nil
    rwa [List.append_nil] at alone
  exact .token word ((apart_space _).ends .ident) (last.blank (by decide))

theorem newline_not_mem_spaceLine (m : Nat) : newline ∉ spaceLine m := by
  have number : newline ∉ decimal m :=
    newline_not_mem_of_lexeme (Number.lexeme_decimalInt m) (by decide)
  have word : newline ∉ utf8 ".space" ∧ newline ≠ ascii ' ' := by decide
  rw [spaceLine, List.mem_append, List.mem_cons, not_or, not_or]
  exact ⟨word.1, word.2, number⟩

theorem parse_spaceLine (cfg : Config) (small : m ≤ 0x1000000) :
    ∃ r, parse cfg (spaceLine m) = .ok [r] ∧ r.Pads m := by
  obtain ⟨ts, scanned, shapes⟩ := lexes_spaceLine m 0 0
  obtain ⟨head, t, rfl⟩ : ∃ head t, ts = [head, t] :=
    List.length_eq_two.mp (by simpa using congrArg List.length shapes)
  simp only [List.map_cons, List.map_nil, shape, List.cons.injEq, Prod.mk.injEq, and_true] at shapes
  obtain ⟨⟨kind, text⟩, numberKind, numberText⟩ := shapes
  have lowered : head.lowered = ".space" := by
    have name : latin ((utf8 ".space").map lowerByte) = ".space" := by decide +kernel
    rw [Token.lowered, text, name]
  have value : Number.read t.text = .ok (m : Int) := by
    have literal : Number.Literal t.text m := numberText ▸ Number.literal_decimalInt m
    have fits : Number.Fits m := by
      simp only [Number.Fits]
      omega
    rw [Number.read_of_literal literal, if_pos fits]
  have within : Bounds.fill.Allows m := by
    have greatest : (m : Int) ≤ 0x1000000 := by omega
    exact ⟨Int.natCast_nonneg m, greatest, by simp [Bounds.fill]⟩
  have directive : DirectiveForm [] head.lowered [t] (some (spaceData m)) := by
    have form : DirectiveForm [] ".space" [t]
        (some ⟨".space", 1, .bytes (List.replicate (m : Int).toNat 0)⟩) :=
      .fill (by simp) (.literal numberKind value within)
    rw [Int.toNat_natCast] at form
    rw [lowered]
    exact form
  have whole := newline_not_mem_spaceLine m
  exact ⟨_, parse_of_directive whole scanned kind (by simp [numberKind]) directive, rfl, rfl⟩

end Line

theorem Record.Pads.move {m : Nat} {r : Record} (pads : r.Pads m) (move : Move) :
    (r.move move).Pads m where
  labels := by rw [Record.move, pads.labels, List.map_nil]
  statement := pads.statement

def spaceLines (count m : Nat) : Bytes := unlines (List.replicate count (spaceLine m))

theorem parse_spaceLines (cfg : Config) {m : Nat} (small : m ≤ 0x1000000) (count : Nat) :
    ∃ fs, parse cfg (spaceLines (count + 1) m) = .ok fs ∧ fs.length = count + 1 ∧
      ∀ r ∈ fs, r.Pads m := by
  obtain ⟨r, first, pads⟩ := parse_spaceLine cfg small
  induction count with
  | zero =>
    have alone : spaceLines 1 m = spaceLine m := by simp [spaceLines, unlines]
    exact ⟨[r], alone ▸ first, rfl, by simpa using pads⟩
  | succ count ih =>
    obtain ⟨fs, parsed, length, each⟩ := ih
    have split : spaceLines (count + 2) m =
        spaceLine m ++ newline :: spaceLines (count + 1) m := by
      simp only [spaceLines, List.replicate_succ, unlines_cons_cons]
    refine ⟨r :: fs.map (Record.move (.down (lines (spaceLine m)).length)), ?_, ?_, ?_⟩
    · rw [split, parse_append first, parsed]
      rfl
    · rw [List.length_cons, List.length_map, length]
    · rw [List.forall_mem_cons, List.forall_mem_map]
      exact ⟨pads, fun q member => (each q member).move _⟩

section Padded

variable {m : Nat} {fs : List Record}

theorem definitionsFrom_pads (pads : ∀ r ∈ fs, r.Pads m) (offset : Segment → UInt32) :
    definitionsFrom offset fs = [] := by
  induction fs generalizing offset with
  | nil => rfl
  | cons r fs ih =>
    rw [List.forall_mem_cons] at pads
    rw [definitionsFrom, ih pads.2, List.append_nil, Record.symbolsAt, pads.1.labels, List.map_nil]

theorem offsetAfter_pads (pads : ∀ r ∈ fs, r.Pads m) (offset : Segment → UInt32) :
    offsetAfter offset fs .text = offset .text ∧
      offsetAfter offset fs .data = offset .data + UInt32.ofNat (fs.length * m) := by
  induction fs generalizing offset with
  | nil => simp [offsetAfter]
  | cons r fs ih =>
    rw [List.forall_mem_cons] at pads
    have here : r.segment = .data := Record.segment_of_data pads.1.statement
    have size : r.statement.byteCount = UInt32.ofNat m := by
      rw [pads.1.statement]
      simp [Statement.byteCount, spaceData, Directive.byteCount]
    have next : offsetAfter offset (r :: fs) = offsetAfter (offsetAfter offset [r]) fs := rfl
    have first (seg : Segment) : offsetAfter offset [r] seg = offset seg + r.sizeIn seg := rfl
    obtain ⟨text, data⟩ := ih pads.2 (offsetAfter offset [r])
    rw [next, text, data, first, first]
    constructor
    · simp [Record.sizeIn, here]
    · rw [Record.sizeIn, if_pos here, size, List.length_cons, Nat.succ_mul, Nat.add_comm,
        UInt32.ofNat_add, UInt32.add_assoc]

theorem linked_pads (pads : ∀ r ∈ fs, r.Pads m) {table : SymbolTable} {pc : UInt32}
    {us rs : List Record} (linked : Link.Linked table pc us rs) :
    Link.Linked table pc (fs ++ us) (fs ++ rs) := by
  induction fs with
  | nil => exact linked
  | cons r fs ih =>
    rw [List.forall_mem_cons] at pads
    have kept : Link.statement table pc r.span r.statement = .ok r.statement := by
      rw [pads.1.statement]
      rfl
    have next : Link.nextPc pc r.statement = pc := by
      rw [pads.1.statement]
      rfl
    exact .cons kept (next.symm ▸ ih pads.2)

theorem codeFrom_pads (pads : ∀ r ∈ fs, r.Pads m) (done : List CodeWord) (n : Nat)
    (rs : List Record) : codeFrom done n (fs ++ rs) = codeFrom done n rs := by
  induction fs with
  | nil => rfl
  | cons r fs ih =>
    rw [List.forall_mem_cons] at pads
    rw [List.cons_append, codeFrom, pads.1.statement]
    exact ih pads.2

theorem length_segmentBytes_pads (pads : ∀ r ∈ fs, r.Pads m) (order : ByteOrder) :
    (segmentBytes order .data fs).length = fs.length * m := by
  induction fs with
  | nil => simp [segmentBytes]
  | cons r fs ih =>
    rw [List.forall_mem_cons] at pads
    have here : r.segment = .data := Record.segment_of_data pads.1.statement
    have bytes : r.emitted order = List.replicate m 0 := by
      rw [Record.emitted, pads.1.statement]
      rfl
    rw [segmentBytes_cons, if_pos here, bytes, List.length_append, List.length_replicate, ih pads.2,
      List.length_cons, Nat.succ_mul, Nat.add_comm]

/-- Zero bytes in front of a source change no word and no offset if their number is a multiple of
2^32. -/
theorem assemble_padded {cfg : Config} {front source : Bytes} {p : Program}
    (parsed : parse cfg front = .ok fs) (pads : ∀ r ∈ fs, r.Pads m)
    (level : UInt32.ofNat (fs.length * m) = 0) (assembled : assemble cfg source = .ok p) :
    ∃ p', assemble cfg (front ++ newline :: source) = .ok p' ∧ p'.words = p.words ∧
      p'.symbols = p.symbols.move (.down (lines front).length) ∧
      p'.records = fs ++ p.records.map (Record.move (.down (lines front).length)) := by
  obtain ⟨us, stages⟩ := assemble_stages assembled
  let down := Move.down (lines front).length
  have records : parse cfg (front ++ newline :: source) =
      .ok (fs ++ us.map (Record.move down)) := by
    rw [parse_append parsed, stages.parsed]
    rfl
  have placed : SymbolTable.ofRecords (fs ++ us.map (Record.move down)) =
      .ok (p.symbols.move down) := by
    have behind : SymbolTable.ofRecords (us.map (Record.move down)) =
        .ok (p.symbols.move down) := by
      rw [SymbolTable.ofRecords_move, stages.placed]
      rfl
    have start : offsetAfter (fun _ => 0) fs = fun _ => 0 := by
      obtain ⟨text, data⟩ := offsetAfter_pads pads fun _ => 0
      funext seg
      cases seg with
      | text => exact text
      | data => rw [data, level, UInt32.add_zero]
    have same : definitions (fs ++ us.map (Record.move down)) =
        definitions (us.map (Record.move down)) := by
      rw [definitions, definitionsFrom_append, definitionsFrom_pads pads, start]
      rfl
    rw [SymbolTable.ofRecords_eq_ok_iff, same]
    exact SymbolTable.ofRecords_eq_ok_iff.mp behind
  have linked : link (p.symbols.move down) (fs ++ us.map (Record.move down)) =
      .ok (fs ++ p.records.map (Record.move down)) := by
    rw [link_eq_ok_iff]
    apply linked_pads pads
    rw [← link_eq_ok_iff, link_move, link_eq_ok_iff.mpr stages.linked]
    rfl
  have coded : codeFrom [] 0 (fs ++ p.records.map (Record.move down)) =
      .ok (p.code.map (CodeWord.move down)) := by
    have behind := codeFrom_move down p.records [] 0
    rw [codeFrom_pads pads]
    rw [codeFrom_eq_ok_iff.mpr ⟨_, rfl, stages.coded⟩] at behind
    exact behind
  have run : assemble cfg (front ++ newline :: source) = .ok {
      config := cfg
      source := (lines (front ++ newline :: source)).toArray
      symbols := p.symbols.move down
      records := fs ++ p.records.map (Record.move down)
      code := p.code.map (CodeWord.move down)
      data := (fs ++ p.records.map (Record.move down)).flatMap fun r =>
        r.statement.dataBytes cfg.order } := by
    simp only [assemble, bind_eq_ok_iff, mapError_eq_ok_iff, pure_eq_ok_iff]
    exact ⟨_, stages.valid, _, records, _, placed, _, linked, _, coded, rfl⟩
  refine ⟨_, run, ?_, rfl, rfl⟩
  rw [Program.words, Program.words, List.map_map]
  rfl

end Padded

end Rv32Asm
