import Rv32Asm.Proofs.Emission
import Rv32Asm.Proofs.Grammar
import Rv32Asm.Proofs.Scanning

/-!
String literals are assembled as they are written.

The scanner decides where a literal ends, and its bytes are read between the quotes on their own.
Both agree on what an escape is: between the quotes of a token stand whole escapes and bytes that
are neither quotes nor backslashes. So whatever spelling of a byte string is chosen, the data are
these bytes, and a token that cannot be read has an escape that is not known.
-/

set_option autoImplicit false
set_option relaxedAutoImplicit false

namespace Rv32Asm

open Rv32Asm.Text
open Rv32Asm.Outcome

namespace Token

/-- The texts that can stand between the quotes of a literal, with the bytes that they are written
for: each byte stands for itself or is escaped. -/
inductive Writes : Bytes → Bytes → Prop
  | nil : Writes [] []
  | escape {c b : UInt8} {body bs : Bytes} (known : escapes.lookup c = some b)
      (rest : Writes body bs) : Writes (ascii '\\' :: c :: body) (b :: bs)
  | raw {b : UInt8} {body bs : Bytes} (quote : b ≠ ascii '"') (single : b ≠ ascii '\\')
      (rest : Writes body bs) : Writes (b :: body) (b :: bs)

theorem Writes.enclosed {body bs : Bytes} (writes : Writes body bs) : Enclosed body := by
  induction writes with
  | nil => exact .nil
  | escape known rest ih => exact .escape _ ih
  | raw quote single rest ih => exact .raw quote single ih

namespace Enclosed

variable {body : Bytes}

theorem writes_iff_spells (enclosed : Enclosed body) {bs : Bytes} :
    Writes body bs ↔ Spells body bs := by
  constructor
  · intro writes
    induction writes with
    | nil => exact .nil
    | escape known rest ih => exact .escape known (ih rest.enclosed)
    | raw quote single rest ih => exact .plain single (ih rest.enclosed)
  · intro spells
    induction enclosed generalizing bs with
    | nil =>
      cases spells
      exact .nil
    | escape c rest ih =>
      cases spells with
      | escape known spells => exact .escape known (ih spells)
      | plain single => exact absurd rfl single
    | raw quote single rest ih =>
      cases spells with
      | escape => exact absurd rfl single
      | plain _ spells => exact .raw quote single (ih spells)

end Enclosed

theorem unquote_enclosed (body : Bytes) :
    unquote (ascii '"' :: (body ++ [ascii '"'])) = unescapeFrom [] body := by
  simp [unquote]

def FirstUnknown (body : Bytes) (c : UInt8) : Prop :=
  ∃ front back bs, body = front ++ ascii '\\' :: c :: back ∧ Writes front bs ∧
    escapes.lookup c = none

theorem firstUnknown_escape_iff {c d : UInt8} {body : Bytes} :
    FirstUnknown (ascii '\\' :: c :: body) d ↔
      (escapes.lookup c = none ∧ d = c) ∨
        ((∃ b, escapes.lookup c = some b) ∧ FirstUnknown body d) := by
  constructor
  · rintro ⟨front, back, bs, split, writes, unknown⟩
    cases writes with
    | nil =>
      simp only [List.nil_append, List.cons.injEq, true_and] at split
      obtain ⟨rfl, _⟩ := split
      exact .inl ⟨unknown, rfl⟩
    | @escape c' b front bs known writes =>
      simp only [List.cons_append, List.cons.injEq, true_and] at split
      obtain ⟨rfl, rfl⟩ := split
      exact .inr ⟨⟨b, known⟩, front, back, bs, rfl, writes, unknown⟩
    | raw quote single =>
      simp only [List.cons_append, List.cons.injEq] at split
      exact absurd split.1.symm single
  · rintro (⟨unknown, rfl⟩ | ⟨⟨b, known⟩, front, back, bs, rfl, writes, unknown⟩)
    · exact ⟨[], body, [], rfl, .nil, unknown⟩
    · exact ⟨ascii '\\' :: c :: front, back, b :: bs, rfl, .escape known writes, unknown⟩

theorem firstUnknown_raw_iff {b c : UInt8} {body : Bytes} (quote : b ≠ ascii '"')
    (single : b ≠ ascii '\\') : FirstUnknown (b :: body) c ↔ FirstUnknown body c := by
  constructor
  · rintro ⟨front, back, bs, split, writes, unknown⟩
    cases writes with
    | nil =>
      simp only [List.nil_append, List.cons.injEq] at split
      exact absurd split.1 single
    | escape =>
      simp only [List.cons_append, List.cons.injEq] at split
      exact absurd split.1 single
    | @raw _ front bs _ _ writes =>
      simp only [List.cons_append, List.cons.injEq] at split
      exact ⟨front, back, bs, split.2, writes, unknown⟩
  · rintro ⟨front, back, bs, rfl, writes, unknown⟩
    exact ⟨b :: front, back, b :: bs, rfl, .raw quote single writes, unknown⟩

theorem Enclosed.unescapeFrom_eq_error_iff {body : Bytes} (enclosed : Enclosed body) {done : Bytes}
    {flaw : StringFlaw} :
    unescapeFrom done body = .error flaw ↔ ∃ c, flaw = .unknownEscape c ∧ FirstUnknown body c := by
  induction enclosed generalizing done with
  | nil => simp [unescapeFrom, FirstUnknown]
  | @escape c body rest ih =>
    simp only [unescapeFrom_escape, firstUnknown_escape_iff]
    cases found : escapes.lookup c with
    | none => simp [eq_comm]
    | some b => simpa using ih
  | @raw b body quote single rest ih =>
    simp only [unescapeFrom_plain done body single, firstUnknown_raw_iff quote single]
    exact ih

theorem Lexeme.reads {text : Bytes} (lexeme : Lexeme .string text) :
    ∃ body, text = ascii '"' :: (body ++ [ascii '"']) ∧
      (∀ bs, unquote text = .ok bs ↔ Writes body bs) ∧
      ∀ flaw, unquote text = .error flaw ↔ ∃ c, flaw = .unknownEscape c ∧ FirstUnknown body c := by
  obtain ⟨body, enclosed, rfl⟩ := lexeme_string_iff.mp lexeme
  refine ⟨body, rfl, ?_, ?_⟩
  · intro bs
    rw [unquote_enclosed, enclosed.writes_iff_spells, unescapeFrom_eq_ok_iff]
    simp
  · intro flaw
    rw [unquote_enclosed]
    exact enclosed.unescapeFrom_eq_error_iff

/-- Every byte string has a spelling on one line. -/
theorem exists_writes (bs : Bytes) : ∃ body, newline ∉ body ∧ Writes body bs := by
  induction bs with
  | nil => exact ⟨[], by simp, .nil⟩
  | cons b bs ih =>
    obtain ⟨body, whole, writes⟩ := ih
    by_cases special : b = newline ∨ b = ascii '"' ∨ b = ascii '\\'
    · have escaped : ∃ c, c ≠ newline ∧ escapes.lookup c = some b := by
        rcases special with rfl | rfl | rfl
        · exact ⟨ascii 'n', by decide, by decide⟩
        · exact ⟨ascii '"', by decide, by decide⟩
        · exact ⟨ascii '\\', by decide, by decide⟩
      obtain ⟨c, other, known⟩ := escaped
      refine ⟨ascii '\\' :: c :: body, ?_, .escape known writes⟩
      simp only [List.mem_cons, not_or]
      exact ⟨by decide, other.symm, whole⟩
    · simp only [not_or] at special
      obtain ⟨other, quote, single⟩ := special
      refine ⟨b :: body, ?_, .raw quote single writes⟩
      simp only [List.mem_cons, not_or]
      exact ⟨Ne.symm other, whole⟩

theorem Lexes.blanks {blank bs : Bytes} {shapes : List (TokenKind × Bytes)}
    (blanks : ∀ b ∈ blank, isBlank b = true) (lexes : Lexes bs shapes) :
    Lexes (blank ++ bs) shapes := by
  induction blank with
  | nil => exact lexes
  | cons b blank ih =>
    rw [List.forall_mem_cons] at blanks
    exact (ih blanks.2).blank blanks.1

theorem Trailer.silent {bs : Bytes} (trailer : Trailer bs) : Lexes bs [] := by
  obtain ⟨blank, rest, rfl, blanks, rfl | starts⟩ := trailer
  · exact Lexes.nil.blanks blanks
  · exact (Lexes.comment starts).blanks blanks

theorem apart_blanks {blank bs : Bytes} (blanks : ∀ b ∈ blank, isBlank b = true)
    (apart : Apart bs) : Apart (blank ++ bs) := by
  have separates : ∀ b, isBlank b = true → isNameByte b = false :=
    forall_byte (by decide +kernel)
  cases blank with
  | nil => exact apart
  | cons b blank =>
    rintro _ ⟨⟩
    exact separates b (blanks b List.mem_cons_self)

end Token

open Rv32Asm.Token
open Rv32Asm.Parse

def literalLine (name : String) (blank body trailer : Bytes) : Bytes :=
  utf8 name ++ (blank ++ (ascii '"' :: (body ++ [ascii '"']) ++ trailer))

def stringNames : List String := [".string", ".asciz", ".ascii"]

section Line

variable {name : String} {blank body trailer : Bytes}

theorem lexes_literalLine (known : name ∈ stringNames) (blanks : ∀ b ∈ blank, isBlank b = true)
    (enclosed : Enclosed body) (silent : Trailer trailer) :
    Lexes (literalLine name blank body trailer)
      [(.ident, utf8 name), (.string, ascii '"' :: (body ++ [ascii '"']))] := by
  have word : Lexeme .ident (utf8 name) := by
    have shape : ∀ name ∈ stringNames, ∃ b rest, utf8 name = b :: rest ∧ isNameStart b = true ∧
        rest.all isNameByte = true := by
      simp only [stringNames, List.forall_mem_cons]
      exact ⟨⟨_, _, rfl, by decide, by decide⟩, ⟨_, _, rfl, by decide, by decide⟩,
        ⟨_, _, rfl, by decide, by decide⟩, by simp⟩
    obtain ⟨b, rest, bytes, starts, continues⟩ := shape name known
    rw [bytes]
    exact .ident starts (List.all_eq_true.mp continues)
  have string : Lexeme .string (ascii '"' :: (body ++ [ascii '"'])) :=
    lexeme_string_iff.mpr ⟨body, enclosed, rfl⟩
  have literal : Lexes (ascii '"' :: (body ++ [ascii '"']) ++ trailer)
      [(.string, ascii '"' :: (body ++ [ascii '"']))] :=
    .token string (by rintro (never | never) <;> cases never) silent.silent
  have apart : Apart (ascii '"' :: (body ++ [ascii '"']) ++ trailer) :=
    string.apart (by decide) (by decide) trailer
  exact .token word ((apart_blanks blanks apart).ends .ident) (literal.blanks blanks)

theorem newline_not_mem_literalLine (known : name ∈ stringNames)
    (blanks : ∀ b ∈ blank, isBlank b = true) (whole : newline ∉ body)
    (single : newline ∉ trailer) : newline ∉ literalLine name blank body trailer := by
  have names : ∀ name ∈ stringNames, newline ∉ utf8 name := by decide
  have spaces : newline ∉ blank := by
    intro member
    have blank := blanks newline member
    simp [isBlank, newline] at blank
  have quote : newline ≠ ascii '"' := by decide
  simp only [literalLine, List.mem_append, List.mem_cons, List.not_mem_nil, or_false, not_or]
  exact ⟨names name known, spaces, ⟨quote, whole, quote⟩, single⟩

theorem parse_of_single_line {cfg : Config} {source : Bytes} (whole : newline ∉ source)
    {rs : List Record} (read : line cfg ⟨[], []⟩ (source, 0) = .ok ⟨[], rs⟩) :
    parse cfg source = .ok rs.reverse := by
  refine parse_eq_ok_iff.mpr ⟨⟨[], rs⟩, ?_, rfl, rfl⟩
  rw [lines_of_not_mem whole, List.zipIdx_singleton, List.foldlM_cons, read]
  rfl

theorem parse_of_directive {cfg : Config} {source : Bytes} {head t : Token} {d : Directive}
    (whole : newline ∉ source) (scanned : Token.scan 0 source = .ok [head, t])
    (kind : head.kind = .ident) (other : t.kind ≠ .colon)
    (directive : DirectiveForm [] head.lowered [t] (some d)) :
    parse cfg source = .ok [⟨[], 0, .onLine 0 head.start t.stop, .data d⟩] := by
  have form : StatementForm cfg [] [head, t] (some (.data d)) := .directive kind directive
  have leading : leadingLabels 0 [head, t] = .ok ([], [head, t]) := by
    simp [leadingLabels, other]
  have read : line cfg ⟨[], []⟩ (source, 0) =
      .ok ⟨[], [⟨[], 0, .onLine 0 head.start t.stop, .data d⟩]⟩ :=
    line_eq_ok_iff_bodyForm.mpr ⟨[head, t], [], [head, t], scanned, leading, .record form⟩
  exact parse_of_single_line whole read

theorem parse_literalLine (cfg : Config) {bs : Bytes} (known : name ∈ stringNames)
    (blanks : ∀ b ∈ blank, isBlank b = true) (writes : Writes body bs) (whole : newline ∉ body)
    (silent : Trailer trailer) (single : newline ∉ trailer) :
    ∃ span, parse cfg (literalLine name blank body trailer) = .ok [⟨[], 0, span,
      .data ⟨name, 1, .bytes (if name = ".ascii" then bs else bs ++ [0])⟩⟩] := by
  obtain ⟨ts, scanned, shapes⟩ := lexes_literalLine known blanks writes.enclosed silent 0 0
  rcases ts with _ | ⟨head, _ | ⟨t, _ | ⟨more, ts⟩⟩⟩
  · simp at shapes
  · simp at shapes
  · simp only [List.map_cons, List.map_nil, shape, List.cons.injEq, Prod.mk.injEq, and_true]
      at shapes
    obtain ⟨⟨kind, text⟩, stringKind, stringText⟩ := shapes
    have lowered : head.lowered = name := by
      have names : ∀ name ∈ stringNames, latin ((utf8 name).map lowerByte) = name := by
        decide +kernel
      rw [Token.lowered, text, names name known]
    have quotes : t.Quotes bs := by
      refine ⟨stringKind, ?_⟩
      rw [stringText]
      simpa using writes.enclosed.writes_iff_spells.mp writes
    let d : Directive := ⟨name, 1, .bytes (if name = ".ascii" then bs else bs ++ [0])⟩
    have directive : DirectiveForm [] head.lowered [t] (some d) := by
      rw [lowered]
      exact .text known quotes
    have alone := newline_not_mem_literalLine known blanks whole single
    exact ⟨_, parse_of_directive alone scanned kind (by simp [stringKind]) directive⟩
  · simp at shapes

end Line

theorem build_of_bytes (cfg : Config) (source : Bytes) (span : Span) (name : String) (bs : Bytes) :
    ∃ p, build cfg source [⟨[], 0, span, .data ⟨name, 1, .bytes bs⟩⟩] = .ok p ∧ p.text = [] ∧
      p.data = bs :=
  ⟨_, rfl, rfl, List.append_nil bs⟩

theorem stringData_of_flaw {c : Operands.Context} {t : Token} {flaw : StringFlaw}
    (kind : t.kind = .string) (flawed : unquote t.text = .error flaw) (rest : List Token) :
    stringData c (t :: rest) = .error ⟨.badString t.text flaw, t.span c.line⟩ := by
  simp only [stringData, Operands.next, ok_bind, kind, if_true, flawed]

structure LiteralsVerbatim (cfg : Config) : Prop where
  /-- Every byte string can be written on one line. -/
  writable : ∀ bs, ∃ body, newline ∉ body ∧ Writes body bs
  /-- However it is written, and whatever comment follows, it is assembled as it is. -/
  assembled : ∀ name ∈ stringNames, ∀ blank body bs trailer,
    (∀ b ∈ blank, isBlank b = true) → Writes body bs → newline ∉ body → Trailer trailer →
    newline ∉ trailer →
    ∃ p, assemble cfg (literalLine name blank body trailer) = .ok p ∧ p.text = [] ∧
      p.data = if name = ".ascii" then bs else bs ++ [0]
  /-- A string token stands for the bytes that it is written for, or has an unknown escape. -/
  tokens : ∀ n line ts, Token.scan n line = .ok ts → ∀ t ∈ ts, t.kind = .string →
    ∃ body, t.text = ascii '"' :: (body ++ [ascii '"']) ∧
      (∀ bs, unquote t.text = .ok bs ↔ Writes body bs) ∧
      (∀ flaw, unquote t.text = .error flaw ↔
        ∃ c, flaw = .unknownEscape c ∧ FirstUnknown body c) ∧
      ∀ flaw, unquote t.text = .error flaw → ∀ c rest,
        stringData c (t :: rest) = .error ⟨.badString t.text flaw, t.span c.line⟩ ∧
          (Cause.badString t.text flaw).kind = .syntaxError

theorem literalsVerbatim_of_validate {cfg : Config} (valid : cfg.validate = .ok ()) :
    LiteralsVerbatim cfg where
  writable := exists_writes
  assembled name known blank body bs trailer blanks writes whole silent single := by
    obtain ⟨span, parsed⟩ := parse_literalLine cfg known blanks writes whole silent single
    obtain ⟨p, built, text, data⟩ := build_of_bytes cfg (literalLine name blank body trailer) span
      name (if name = ".ascii" then bs else bs ++ [0])
    refine ⟨p, ?_, text, data⟩
    rw [assemble_eq, valid, parsed]
    exact built
  tokens n line ts scanned t member kind := by
    have lexeme := (scans_of_scanFrom scanned).lexemes t member
    rw [kind] at lexeme
    obtain ⟨body, text, reads, refuses⟩ := lexeme.reads
    refine ⟨body, text, reads, refuses, ?_⟩
    intro flaw flawed c rest
    exact ⟨stringData_of_flaw kind flawed rest, rfl⟩

theorem literalsVerbatim_quotedComment :
    Config.standard.validate = .ok () ∧
      ∃ p, assemble .standard (utf8 ".asciz \"\\\"#\\n\" # \"") = .ok p ∧ p.text = [] ∧
        p.data = [0x22, 0x23, 0x0a, 0] := by
  have valid : Config.standard.validate = .ok () := by decide +kernel
  have body : Writes (utf8 "\\\"#\\n") [0x22, 0x23, 0x0a] :=
    .escape (by decide) (.raw (by decide) (by decide) (.escape (by decide) .nil))
  have blank : ∀ b ∈ utf8 " ", isBlank b = true := List.all_eq_true.mp (by decide)
  have trailer : Trailer (utf8 " # \"") :=
    ⟨utf8 " ", utf8 "# \"", by decide, blank, .inr (by decide)⟩
  have source : utf8 ".asciz \"\\\"#\\n\" # \"" =
      literalLine ".asciz" (utf8 " ") (utf8 "\\\"#\\n") (utf8 " # \"") := by decide +kernel
  obtain ⟨p, assembled, text, data⟩ := (literalsVerbatim_of_validate valid).assembled ".asciz"
    (by decide) (utf8 " ") _ _ _ blank body (by decide) trailer (by decide)
  rw [source]
  exact ⟨valid, p, assembled, text, data⟩

end Rv32Asm
