import Rv32Asm.Proofs.Bindings
import Rv32Asm.Proofs.HoverRoles

/-!
What an editor tells of labels.

Where a label is described as used, it is an operand that the reader took for this label, and the
value is the number that linking put in its place. Where it is described as defined, the line
defines it, and its segment and offset are those of the symbol table. The other way round, every
label is described at its definition, and at its uses if it is not spelled like a register.
-/

set_option autoImplicit false
set_option relaxedAutoImplicit false

namespace Rv32Asm

open Rv32Asm.Text
open Rv32Asm.Token
open Rv32Asm.Outcome
open Rv32Asm.Operands
open Rv32Asm.Phrase
open Rv32Asm.Parse

namespace Parse

variable {cfg : Config} {source : Bytes} {us : List Record} {n : Nat} {bs : Bytes}

theorem Labelled.name_or_colon {labels : List Label} {front : List Token}
    (labelled : Labelled n labels front) {t : Token} (member : t ∈ front) :
    ⟨t.text, t.span n⟩ ∈ labels ∨ t.kind = .colon := by
  induction labelled with
  | nil => simp at member
  | @cons name colon labels front _ mark _ ih =>
    rcases List.mem_cons.mp member with rfl | member
    · exact .inl List.mem_cons_self
    rcases List.mem_cons.mp member with rfl | member
    · exact .inr mark
    rcases ih member with label | colon
    · exact .inl (List.mem_cons_of_mem _ label)
    · exact .inr colon

theorem Labelled.exists_name {labels : List Label} {front : List Token}
    (labelled : Labelled n labels front) {label : Label} (member : label ∈ labels) :
    ∃ t ∈ front, t.kind = .ident ∧ label = ⟨t.text, t.span n⟩ := by
  induction labelled with
  | nil => simp at member
  | @cons name colon labels front kind _ _ ih =>
    rcases List.mem_cons.mp member with rfl | member
    · exact ⟨name, List.mem_cons_self, kind, rfl⟩
    · obtain ⟨t, inside, kind, same⟩ := ih member
      exact ⟨t, List.mem_cons_of_mem _ (List.mem_cons_of_mem _ inside), kind, same⟩

theorem labelled_of_parse (parsed : parse cfg source = .ok us)
    (here : (lines source)[n]? = some bs) :
    ∃ front body, Token.scan n bs = .ok (front ++ body) ∧ Labelled n (labelsOn (bs, n)) front ∧
      nextIs .colon (body.drop 1) = false := by
  obtain ⟨s, s', read, _⟩ := line_of_parse parsed here
  obtain ⟨_, labels, body, scanned, leading, _⟩ := line_eq_ok_iff_bodyForm.mp read
  obtain ⟨front, rfl, labelled, last⟩ := leadingLabels_eq_ok_iff.mp leading
  refine ⟨front, body, scanned, ?_, last⟩
  obtain ⟨names, split, rfl⟩ := labelled.splitNames last
  have own : labelsOn (bs, n) = names.map fun t => ⟨t.text, t.span n⟩ := by
    simp only [labelsOn, tokensOn, scanned, split]
  rw [own]
  exact labelled

theorem lexeme_of_label (parsed : parse cfg source = .ok us) {label : Label}
    (member : label ∈ us.flatMap Record.labels) : Lexeme .ident label.name := by
  rw [labels_of_parse parsed] at member
  obtain ⟨⟨bs, n⟩, numbered, defined⟩ := List.mem_flatMap.mp member
  have here : (lines source)[n]? = some bs := List.mem_zipIdx_iff_getElem?.mp numbered
  obtain ⟨front, body, scanned, labelled, _⟩ := labelled_of_parse parsed here
  obtain ⟨t, inside, kind, rfl⟩ := labelled.exists_name defined
  exact kind ▸ (scans_of_scanFrom scanned).lexemes t (List.mem_append_left _ inside)

end Parse

theorem Token.Fills.eq_label {t : Token} {role : Role} (fills : t.Fills (some role))
    (kind : t.kind = .ident) (plain : Register.ofName? (latin t.text) = none) :
    role = .label t.text := by
  cases fills with
  | register name => exact absurd name.2 (by simp [plain])
  | number other => simp [kind] at other
  | label => rfl

namespace Hover

variable {p : Program} {n first i : Nat} {t : Token}

theorem operand_cases {text : Bytes} (shown : operand p n t = some text) :
    (∃ v, text = integerLiteral v) ∨ (∃ r, text = utf8 (Hover.register r (latin t.text))) ∨
      (t.kind = .ident ∧ Register.ofName? (latin t.text) = none ∧
        ∃ s, p.symbols.find? t.text = some s ∧
          text = labelReference t.text (referenceValue p n s)) := by
  unfold operand at shown
  split at shown
  · obtain ⟨v, _, rfl⟩ := Option.map_eq_some_iff.mp shown
    exact .inl ⟨v, rfl⟩
  · rename_i kind
    cases known : Register.ofName? (latin t.text) with
    | some r =>
      simp only [known, Option.some.injEq] at shown
      exact .inr (.inl ⟨r, shown.symm⟩)
    | none =>
      simp only [known, Option.map_eq_some_iff] at shown
      obtain ⟨s, found, rfl⟩ := shown
      exact .inr (.inr ⟨kind, rfl, s, found, rfl⟩)
  · simp at shown

theorem register_take (r : Register) (name : String) :
    (utf8 (Hover.register r name)).take 3 ≠ utf8 "Ref" ∧
      (utf8 (Hover.register r name)).take 3 ≠ utf8 "Def" := by
  have others : utf8 "Ref" ∉ registerOpenings ∧ utf8 "Def" ∉ registerOpenings := by decide +kernel
  have member := List.mem_of_getElem? (take_register r name)
  constructor
  · intro same
    exact others.1 (same ▸ member)
  · intro same
    exact others.2 (same ▸ member)

theorem token_eq_definition {s : Symbol} (shown : token p n first i t = some (labelDefinition s)) :
    i < first ∧
      ∃ s', p.symbols.find? t.text = some s' ∧ labelDefinition s' = labelDefinition s := by
  have start := take_labelDefinition s
  unfold token at shown
  split at shown
  · rename_i before
    obtain ⟨s', found, same⟩ := Option.map_eq_some_iff.mp shown
    exact ⟨before, s', found, same⟩
  split at shown
  · exact absurd start (keyword_unlabelled shown).2.2
  rcases operand_cases shown with ⟨v, same⟩ | ⟨r, same⟩ | ⟨_, _, s', _, same⟩
  · rw [same, take_integerLiteral] at start
    exact absurd start (by decide)
  · rw [same] at start
    exact absurd start (register_take r _).2
  · rw [same, take_labelReference] at start
    exact absurd start (by decide)

/-- A token is described as a label that is used only if it is a name behind the name of the
statement, and no register. -/
theorem token_eq_reference {name : Bytes} {v : Int}
    (shown : token p n first i t = some (labelReference name v)) :
    first ≤ i ∧ ¬ (i = first ∧ t.kind = .ident) ∧ t.kind = .ident ∧
      Register.ofName? (latin t.text) = none ∧ operand p n t = some (labelReference name v) := by
  have start := take_labelReference name v
  unfold token at shown
  split at shown
  · obtain ⟨s, _, same⟩ := Option.map_eq_some_iff.mp shown
    rw [← same, take_labelDefinition] at start
    exact absurd start (by decide)
  rename_i behind
  split at shown
  · exact absurd start (keyword_unlabelled shown).2.1
  rename_i operand
  rcases operand_cases shown with ⟨v, same⟩ | ⟨r, same⟩ | ⟨kind, none, _⟩
  · rw [same, take_integerLiteral] at start
    exact absurd start (by decide)
  · rw [same] at start
    exact absurd start (register_take r _).1
  · exact ⟨Nat.le_of_not_lt behind, operand, kind, none, shown⟩

end Hover

namespace Program

variable {cfg : Config} {source : Bytes} {us : List Record} {p : Program}

/-- A label operand that is not spelled like a register is described with the number that stands
in its place. -/
theorem Stages.operand_of_label (stages : p.Stages cfg source us) {k j : Nat} {u r : Record}
    {rest : List Token} {ps : List Phrase} {t : Token} (here : us[k]? = some u)
    (linked : p.records[k]? = some r) (reads : Reads cfg source u.line rest ps u.statement)
    (plays : Plays ps rest j t (.label t.text)) (kind : t.kind = .ident)
    (plain : Register.ofName? (latin t.text) = none) :
    ∃ v, Hover.operand p u.line t = some (Hover.labelReference t.text v) ∧
      u.statement.valueAt j = some (.ref t.text) ∧ r.statement.valueAt j = some (.num v) := by
  obtain ⟨_, _, reading⟩ := reads
  have ref := reading.valueAt_of_label plays.part
  obtain ⟨q, pc, there, line, record, result⟩ := stages.linked_at here
  obtain rfl := Option.some.inj (linked.symm.trans there)
  obtain ⟨s, v, found, value, offset⟩ := Link.valueAt_linked result ref
  refine ⟨v, ?_, ref, value⟩
  have shown : Hover.referenceValue p u.line s = v := by
    cases statement : r.statement with
    | inst i =>
      rw [statement] at value
      have imm : i.imm? = some (.num v) := value
      simp [Hover.referenceValue, record, Record.instruction?, statement, imm]
    | data d =>
      rw [offset (by rw [statement]; rfl)]
      simp [Hover.referenceValue, record, Record.instruction?, statement]
  simp only [Hover.operand, kind, plain, found, Option.map_some, shown]

theorem mem_rest_of_reference (assembled : assemble cfg source = .ok p) {n : Nat} {bs : Bytes}
    {front rest : List Token} {head : Token} (line : (lines source)[n]? = some bs)
    (divides : Divides n bs front head rest) {char : Int} {name : Bytes} {v : Int}
    (shown : p.hover? n char = some (Hover.labelReference name v)) :
    ∃ t ∈ rest, (t.start ≤ char ∧ char < t.stop) ∧ t.kind = .ident ∧
      Register.ofName? (latin t.text) = none ∧
      Hover.operand p n t = some (Hover.labelReference name v) := by
  obtain ⟨m, bs', ts, i, t, same, line', scanned, here, inside, shown⟩ := exists_of_hover? shown
  obtain rfl : n = m := by omega
  rw [source_of_assemble assembled, List.getElem?_toArray] at line'
  obtain rfl := Option.some.inj (line.symm.trans line')
  obtain rfl := Except.ok.inj (divides.scanned.symm.trans scanned)
  obtain ⟨labels, labelled⟩ := divides.labelled
  have first : Hover.labelTokens (front ++ head :: rest) = front.length :=
    Hover.labelTokens_append labelled divides.last
  rw [first] at shown
  obtain ⟨behind, operand, kind, plain, shown⟩ := Hover.token_eq_reference shown
  refine ⟨t, ?_, inside, kind, plain, shown⟩
  rw [List.getElem?_append_right behind] at here
  cases place : i - front.length with
  | zero => exact absurd ⟨by omega, kind⟩ operand
  | succ m =>
    rw [place, List.getElem?_cons_succ] at here
    exact List.mem_of_getElem? here

theorem not_colon_of_lexeme {text : Bytes} (name : Lexeme .ident text) : ¬ Lexeme .colon text := by
  intro colon
  cases colon with
  | mark known =>
    have other := isNameByte_of_punctuation? known
    cases name with
    | mark known' => simpa using punctuation?_mem known'
    | ident start => simp [isNameByte, start] at other

theorem Stages.lexeme_of_find? (stages : p.Stages cfg source us) {name : Bytes} {s : Symbol}
    (found : p.symbols.find? name = some s) : Lexeme .ident name := by
  obtain ⟨label, member, rfl⟩ :=
    ((SymbolTable.binds_of_ofRecords stages.placed).names name).mp ⟨s, found⟩
  exact lexeme_of_label stages.parsed member

theorem name_of_find? {t : SymbolTable} {name : Bytes} {s : Symbol}
    (found : t.find? name = some s) : s.name = name := by
  simpa using List.find?_some found

theorem Stages.symbol_of_definition (stages : p.Stages cfg source us) {n : Nat}
    {labels : List Label} {front : List Token} {t : Token} {s s' : Symbol}
    (labelled : Labelled n labels front) (member : t ∈ front) (lexeme : Lexeme t.kind t.text)
    (found : p.symbols.find? t.text = some s')
    (same : Hover.labelDefinition s' = Hover.labelDefinition s) :
    ⟨t.text, t.span n⟩ ∈ labels ∧ t.text = s.name ∧ s'.segment = s.segment ∧
      s'.offset = s.offset := by
  have name := stages.lexeme_of_find? found
  have named := name_of_find? found
  obtain ⟨names, segments, offsets⟩ :=
    Hover.labelDefinition_inj (named ▸ Hover.tick_not_mem_of_lexeme name) same
  rcases labelled.name_or_colon member with label | colon
  · exact ⟨label, named.symm.trans names, segments, offsets⟩
  · exact absurd (colon ▸ lexeme) (not_colon_of_lexeme name)

theorem Stages.reference_of_hover? (stages : p.Stages cfg source us)
    (assembled : assemble cfg source = .ok p) {line char : Int} {name : Bytes} {v : Int}
    {r : Record} (shown : p.hover? line char = some (Hover.labelReference name v))
    (record : p.recordAt? line = some r) :
    ∃ (k j : Nat) (u : Record) (rest : List Token) (ps : List Phrase) (t : Token),
      us[k]? = some u ∧ p.records[k]? = some r ∧ (u.line : Int) = line ∧
      Reads cfg source u.line rest ps u.statement ∧ Plays ps rest j t (.label name) ∧
      t.start ≤ char ∧ char < t.stop ∧
      u.statement.valueAt j = some (.ref name) ∧ r.statement.valueAt j = some (.num v) := by
  obtain ⟨member, here⟩ := stages.recordAt?_eq_some_iff.mp record
  obtain ⟨k, u, pc, place, linked, same, _⟩ := stages.exists_linked_at member
  obtain ⟨bs, front, head, rest, text, divides, form⟩ :=
    record_on_line stages.parsed (List.mem_of_getElem? place)
  rw [← here, same] at shown
  obtain ⟨t, operand, inside, kind, plain, shown⟩ :=
    mem_rest_of_reference assembled text divides shown
  obtain ⟨_, ⟨ps, reading⟩ | ⟨only, rfl, other, _⟩⟩ := form.reading
  · obtain ⟨bounds, listed⟩ := reading.listed
    rcases listed.plays_or_mark operand with ⟨j, role, plays⟩ | mark
    · obtain rfl := (plays.fills listed).eq_label kind plain
      have reads : Reads cfg source u.line rest ps u.statement := .intro text divides reading
      obtain ⟨w, told, ref, value⟩ := stages.operand_of_label place linked reads plays kind plain
      have lexeme : Lexeme t.kind t.text :=
        (scans_of_scanFrom divides.scanned).lexemes t (by simp [operand])
      have texts := Option.some.inj (told.symm.trans shown)
      obtain ⟨rfl, rfl⟩ :=
        Hover.labelReference_inj (Hover.tick_not_mem_of_lexeme (kind ▸ lexeme)) texts
      exact ⟨k, j, u, rest, ps, t, place, linked, by omega, reads, plays, inside.1, inside.2, ref,
        value⟩
    · simp [kind] at mark
  · -- Strings and fillings have no names among their tokens.
    obtain rfl := List.mem_singleton.mp operand
    exact absurd kind other

theorem Stages.definition_of_hover? (stages : p.Stages cfg source us)
    (assembled : assemble cfg source = .ok p) {line char : Int} {s : Symbol}
    (shown : p.hover? line char = some (Hover.labelDefinition s)) :
    ∃ (n : Nat) (bs : Bytes) (label : Label), line = n ∧ (lines source)[n]? = some bs ∧
      label ∈ labelsOn (bs, n) ∧ label.name = s.name ∧
      label.span.start.char ≤ char ∧ char < label.span.stop.char ∧
      ∃ s', p.symbols.find? s.name = some s' ∧ s'.segment = s.segment ∧ s'.offset = s.offset := by
  obtain ⟨n, bs, ts, i, t, rfl, line, scanned, here, inside, shown⟩ := exists_of_hover? shown
  rw [source_of_assemble assembled, List.getElem?_toArray] at line
  obtain ⟨front, body, scanned', labelled, last⟩ := labelled_of_parse stages.parsed line
  obtain rfl := Except.ok.inj (scanned'.symm.trans scanned)
  rw [Hover.labelTokens_append labelled last] at shown
  obtain ⟨before, s', found, same⟩ := Hover.token_eq_definition shown
  have member : t ∈ front := by
    rw [List.getElem?_append_left before] at here
    exact List.mem_of_getElem? here
  have lexeme := (scans_of_scanFrom scanned).lexemes t (List.mem_append_left _ member)
  obtain ⟨label, name, segment, offset⟩ :=
    stages.symbol_of_definition labelled member lexeme found same
  rw [name] at found
  exact ⟨n, bs, _, rfl, line, label, name, inside.1, inside.2, s', found, segment, offset⟩

theorem Stages.hover?_of_label (stages : p.Stages cfg source us)
    (assembled : assemble cfg source = .ok p) {k j : Nat} {u r : Record} {rest : List Token}
    {ps : List Phrase} {t : Token} {name : Bytes} (here : us[k]? = some u)
    (linked : p.records[k]? = some r) (reads : Reads cfg source u.line rest ps u.statement)
    (plays : Plays ps rest j t (.label name)) (plain : Register.ofName? (latin name) = none)
    {char : Int} (inside : t.start ≤ char ∧ char < t.stop) :
    ∃ v, r.statement.valueAt j = some (.num v) ∧
      p.hover? u.line char = some (Hover.labelReference name v) := by
  have ⟨text, divides, reading⟩ := reads
  obtain ⟨bounds, listed⟩ := reading.listed
  obtain ⟨kind, rfl⟩ : t.kind = .ident ∧ name = t.text := by
    cases plays.fills listed with
    | label kind => exact ⟨kind, rfl⟩
  obtain ⟨v, told, _, value⟩ := stages.operand_of_label here linked reads plays kind plain
  have member : t ∈ rest := (List.mem_filter.mp (List.mem_of_getElem? plays.here)).1
  refine ⟨v, value, ?_⟩
  rw [hover?_of_divides assembled text divides member inside, told]

theorem Stages.hover?_of_definition (stages : p.Stages cfg source us)
    (assembled : assemble cfg source = .ok p) {n : Nat} {bs : Bytes} {label : Label}
    (line : (lines source)[n]? = some bs) (defined : label ∈ labelsOn (bs, n)) {char : Int}
    (inside : label.span.start.char ≤ char ∧ char < label.span.stop.char) :
    ∃ s, p.symbols.find? label.name = some s ∧
      p.hover? n char = some (Hover.labelDefinition s) := by
  obtain ⟨front, body, scanned, labelled, last⟩ := labelled_of_parse stages.parsed line
  obtain ⟨t, member, _, rfl⟩ := labelled.exists_name defined
  obtain ⟨i, here⟩ := List.getElem?_of_mem member
  have before : i < front.length := (List.getElem?_eq_some_iff.mp here).1
  have label : ⟨t.text, t.span n⟩ ∈ us.flatMap Record.labels := by
    rw [labels_of_parse stages.parsed]
    exact List.mem_flatMap.mpr ⟨(bs, n), List.mem_zipIdx_iff_getElem?.mpr line, defined⟩
  obtain ⟨s, found⟩ :=
    ((SymbolTable.binds_of_ofRecords stages.placed).names t.text).mpr ⟨_, label, rfl⟩
  refine ⟨s, found, ?_⟩
  have known : p.source[n]? = some bs := by
    rw [source_of_assemble assembled, List.getElem?_toArray, line]
  have place : (front ++ body)[i]? = some t := by rw [List.getElem?_append_left before, here]
  rw [hover?_at known scanned place inside, Hover.labelTokens_append labelled last, Hover.token,
    if_pos before, found, Option.map_some]

/-- What is told of labels is what the assembler did with them; `us` are the records of the source
before linking. -/
structure TellsLabels (cfg : Config) (source : Bytes) (us : List Record) (p : Program) : Prop where
  /-- A label that is described as used, on a line with a record, is an operand of the line that was
  read as this label, and linking put the value into its place. -/
  reference : ∀ (line char : Int) (name : Bytes) (v : Int) (r : Record),
    p.hover? line char = some (Hover.labelReference name v) → p.recordAt? line = some r →
    ∃ (k j : Nat) (u : Record) (rest : List Token) (ps : List Phrase) (t : Token),
      us[k]? = some u ∧ p.records[k]? = some r ∧ (u.line : Int) = line ∧
      Reads cfg source u.line rest ps u.statement ∧ Plays ps rest j t (.label name) ∧
      t.start ≤ char ∧ char < t.stop ∧
      u.statement.valueAt j = some (.ref name) ∧ r.statement.valueAt j = some (.num v)
  /-- A label that is described as defined is a label of the line, with its own symbol. -/
  definition : ∀ (line char : Int) (s : Symbol),
    p.hover? line char = some (Hover.labelDefinition s) →
    ∃ (n : Nat) (bs : Bytes) (label : Label), line = n ∧ (lines source)[n]? = some bs ∧
      label ∈ labelsOn (bs, n) ∧ label.name = s.name ∧
      label.span.start.char ≤ char ∧ char < label.span.stop.char ∧
      ∃ s', p.symbols.find? s.name = some s' ∧ s'.segment = s.segment ∧ s'.offset = s.offset
  /-- Every label operand that is not spelled like a register is described as used. -/
  used : ∀ (k j : Nat) (u r : Record) (rest : List Token) (ps : List Phrase) (t : Token)
      (name : Bytes), us[k]? = some u → p.records[k]? = some r →
    Reads cfg source u.line rest ps u.statement → Plays ps rest j t (.label name) →
    Register.ofName? (latin name) = none → ∀ char : Int, t.start ≤ char → char < t.stop →
    ∃ v, r.statement.valueAt j = some (.num v) ∧
      p.hover? u.line char = some (Hover.labelReference name v)
  /-- Every label is described as defined where it is. -/
  defined : ∀ (n : Nat) (bs : Bytes) (label : Label), (lines source)[n]? = some bs →
    label ∈ labelsOn (bs, n) → ∀ char : Int,
    label.span.start.char ≤ char → char < label.span.stop.char →
    ∃ s, p.symbols.find? label.name = some s ∧ p.hover? n char = some (Hover.labelDefinition s)

theorem tellsLabels_of_assemble (assembled : assemble cfg source = .ok p) :
    ∃ us, parse cfg source = .ok us ∧ p.TellsLabels cfg source us := by
  obtain ⟨us, stages⟩ := assemble_stages assembled
  refine ⟨us, stages.parsed, ?_, ?_, ?_, ?_⟩
  · intro line char name v r shown record
    exact stages.reference_of_hover? assembled shown record
  · intro line char s shown
    exact stages.definition_of_hover? assembled shown
  · intro k j u r rest ps t name here linked reads plays plain char least greatest
    exact stages.hover?_of_label assembled here linked reads plays plain ⟨least, greatest⟩
  · intro n bs label line defined char least greatest
    exact stages.hover?_of_definition assembled line defined ⟨least, greatest⟩

/-- Labels in both segments, used before and after their definitions: in a branch, in a load with an
offset, and in a list of data with numbers. -/
def labelledSource : Bytes :=
  utf8 ("start: top: beq x1, x2, end\n  lw a0, data(zero) # offset\n" ++
    "data:\n item: .word 7, data top\nend: jal start")

theorem tellsLabels_labelledSource :
    ∃ p us, assemble .standard labelledSource = .ok p ∧
      parse .standard labelledSource = .ok us ∧ p.TellsLabels .standard labelledSource us ∧
      [(0, 25), (1, 10), (3, 16), (4, 9), (0, 8), (3, 1), (3, 5)].map (fun q => p.hover? q.1 q.2) =
        [some (Hover.labelReference (utf8 "end") 8), some (Hover.labelReference (utf8 "data") 0),
          some (Hover.labelReference (utf8 "data") 0),
          some (Hover.labelReference (utf8 "start") (-8)),
          some (Hover.labelDefinition ⟨utf8 "top", .text, 0, 0⟩),
          some (Hover.labelDefinition ⟨utf8 "item", .data, 0, 3⟩), none] := by
  have run : (assemble .standard labelledSource).map (fun p =>
      [(0, 25), (1, 10), (3, 16), (4, 9), (0, 8), (3, 1), (3, 5)].map fun q => p.hover? q.1 q.2) =
      .ok [some (Hover.labelReference (utf8 "end") 8),
        some (Hover.labelReference (utf8 "data") 0), some (Hover.labelReference (utf8 "data") 0),
        some (Hover.labelReference (utf8 "start") (-8)),
        some (Hover.labelDefinition ⟨utf8 "top", .text, 0, 0⟩),
        some (Hover.labelDefinition ⟨utf8 "item", .data, 0, 3⟩), none] := by
    decide +kernel
  obtain ⟨p, assembled, shown⟩ := map_eq_ok_iff.mp run
  obtain ⟨us, parsed, tells⟩ := tellsLabels_of_assemble assembled
  exact ⟨p, us, assembled, parsed, tells, shown⟩

end Program

end Rv32Asm
