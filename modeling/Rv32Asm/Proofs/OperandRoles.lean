import Rv32Asm.Proofs.Extensions
import Rv32Asm.Proofs.LabelOwners
import Rv32Asm.Proofs.References

/-!
What the reader takes each operand token for.

The operands of a statement give every token of the statement its role: a register, a number or a
label. A label stands at one place of the statement, and linking puts a number there. The records of
a source are the statements of its lines.
-/

set_option autoImplicit false
set_option relaxedAutoImplicit false

namespace Rv32Asm

open Rv32Asm.Text
open Rv32Asm.Outcome
open Rv32Asm.Operands
open Rv32Asm.Phrase

inductive Role where
  | register (r : Register)
  | number (v : Int)
  | label (name : Bytes)
deriving DecidableEq

def Operand.role : Operand → Role
  | .num v => .number v
  | .ref name => .label name

theorem Operand.role_eq_label_iff {v : Operand} {name : Bytes} :
    v.role = .label name ↔ v = .ref name := by
  cases v <;> simp [role]

namespace Token

def withoutCommas (ts : List Token) : List Token :=
  ts.filter fun t => t.kind ≠ .comma

theorem withoutCommas_append (ts us : List Token) :
    withoutCommas (ts ++ us) = withoutCommas ts ++ withoutCommas us :=
  List.filter_append ..

/-- The token can have a role. Parentheses have none. -/
inductive Fills (t : Token) : Option Role → Prop
  | register {r : Register} (name : t.Names r) : Fills t (some (.register r))
  | number {v : Int} (kind : t.kind = .number) (value : Number.read t.text = .ok v) :
      Fills t (some (.number v))
  | label (kind : t.kind = .ident) : Fills t (some (.label t.text))
  | mark (kind : t.kind = .openParen ∨ t.kind = .closeParen) : Fills t none

theorem Denotes.fills {bounds : Bounds} {t : Token} {v : Operand} (value : t.Denotes bounds v) :
    t.Fills (some v.role) := by
  cases value with
  | label kind => exact .label kind
  | literal kind value => exact .number kind value

end Token

namespace Phrase

def roles : Phrase → List (Option Role)
  | reg r => [some (.register r)]
  | val v => [some v.role]
  | mem none r => [none, some (.register r), none]
  | mem (some v) r => [some v.role, none, some (.register r), none]

/-- The token has number `j` among those that are no commas, and the operands give it this role. -/
structure Plays (ps : List Phrase) (ts : List Token) (j : Nat) (t : Token) (role : Role) :
    Prop where
  here : (Token.withoutCommas ts)[j]? = some t
  part : (ps.flatMap roles)[j]? = some (some role)

variable {bounds : Bounds} {p : Phrase} {ps : List Phrase} {ts us : List Token}

theorem Written.fills (written : Written bounds p us) :
    List.Forall₂ Token.Fills (Token.withoutCommas us) p.roles := by
  have word {t : Token} (kind : t.kind = .ident ∨ t.kind = .number) : t.kind ≠ .comma := by
    rcases kind with kind | kind <;> simp [kind]
  cases written with
  | @reg t r name =>
    have kept : Token.withoutCommas [t] = [t] := by simp [Token.withoutCommas, word name.1]
    rw [kept]
    exact .cons (.register name) .nil
  | @val t v value =>
    have kept : Token.withoutCommas [t] = [t] := by simp [Token.withoutCommas, word value.kind]
    rw [kept]
    exact .cons value.fills .nil
  | @base opening t closing r opens name closes =>
    have kept : Token.withoutCommas [opening, t, closing] = [opening, t, closing] := by
      simp [Token.withoutCommas, word name.1, opens, closes]
    rw [kept]
    exact .cons (.mark (.inl opens)) (.cons (.register name) (.cons (.mark (.inr closes)) .nil))
  | @offset u opening t closing v r value opens name closes =>
    have kept : Token.withoutCommas [u, opening, t, closing] = [u, opening, t, closing] := by
      simp [Token.withoutCommas, word value.kind, word name.1, opens, closes]
    rw [kept]
    exact .cons value.fills (.cons (.mark (.inl opens)) (.cons (.register name)
      (.cons (.mark (.inr closes)) .nil)))

theorem Follow.fills (follow : Follow bounds ps ts) :
    List.Forall₂ Token.Fills (Token.withoutCommas ts) (ps.flatMap roles) := by
  induction follow with
  | nil => exact .nil
  | @cons p ps between us rest separator written more ih =>
    have none : Token.withoutCommas between = [] := by
      cases separator with
      | none => rfl
      | comma kind => simp [Token.withoutCommas, kind]
    rw [Token.withoutCommas_append, Token.withoutCommas_append, none, List.nil_append,
      List.flatMap_cons]
    exact List.rel_append written.fills ih

theorem Listed.fills (listed : Listed bounds ps ts) :
    List.Forall₂ Token.Fills (Token.withoutCommas ts) (ps.flatMap roles) := by
  cases listed with
  | nil => exact .nil
  | cons written more =>
    rw [Token.withoutCommas_append, List.flatMap_cons]
    exact List.rel_append written.fills more.fills

theorem Plays.fills {j : Nat} {t : Token} {role : Role} (listed : Listed bounds ps ts)
    (plays : Plays ps ts j t role) : t.Fills (some role) := by
  obtain ⟨inside, here⟩ := List.getElem?_eq_some_iff.mp plays.here
  obtain ⟨inside', part⟩ := List.getElem?_eq_some_iff.mp plays.part
  have fills := listed.fills.get inside inside'
  rwa [List.get_eq_getElem, List.get_eq_getElem, here, part] at fills

theorem Listed.plays_or_mark (listed : Listed bounds ps ts) {t : Token} (member : t ∈ ts) :
    (∃ j role, Plays ps ts j t role) ∨ t.kind ∈ [.comma, .openParen, .closeParen] := by
  by_cases comma : t.kind = .comma
  · right
    simp [comma]
  have kept : t ∈ Token.withoutCommas ts := List.mem_filter.mpr ⟨member, by simpa using comma⟩
  obtain ⟨j, here⟩ := List.getElem?_of_mem kept
  obtain ⟨inside, same⟩ := List.getElem?_eq_some_iff.mp here
  have inside' : j < (ps.flatMap roles).length := listed.fills.length_eq ▸ inside
  have fills := listed.fills.get inside inside'
  rw [List.get_eq_getElem, List.get_eq_getElem, same] at fills
  cases part : (ps.flatMap roles)[j] with
  | some role =>
    left
    exact ⟨j, role, here, by rw [List.getElem?_eq_getElem inside', part]⟩
  | none =>
    right
    rw [part] at fills
    cases fills with
    | mark kind => rcases kind with kind | kind <;> simp [kind]

theorem label_mem_roles_iff {name : Bytes} :
    some (.label name) ∈ p.roles ↔
      p = .val (.ref name) ∨ ∃ r, p = .mem (some (.ref name)) r := by
  cases p with
  | reg r => simp [roles]
  | val v => simp [roles, eq_comm, Operand.role_eq_label_iff]
  | mem offset r =>
    cases offset with
    | none => simp [roles]
    | some v => simp [roles, eq_comm, Operand.role_eq_label_iff]

end Phrase

theorem Format.Form.imm?_of_label {format : Format} {name : String} {ps : List Phrase}
    {inst : Instruction} {label : Bytes} (form : format.Form name ps inst)
    (part : some (.label label) ∈ ps.flatMap roles) : inst.imm? = some (.ref label) := by
  rw [List.mem_flatMap] at part
  simp only [label_mem_roles_iff] at part
  cases form <;> simp_all [Instruction.imm?]

theorem Pseudo.Form.imm?_of_label {p : Pseudo} {ps : List Phrase} {inst : Instruction}
    {label : Bytes} (form : p.Form ps inst) (part : some (.label label) ∈ ps.flatMap roles) :
    inst.imm? = some (.ref label) := by
  rw [List.mem_flatMap] at part
  simp only [label_mem_roles_iff] at part
  cases form <;> simp_all [Instruction.imm?]

/-- The value that a statement holds for the token with number `j`, if that is a value: the
immediate of an instruction, and the item with that number of a directive. -/
def Statement.valueAt (stmt : Statement) (j : Nat) : Option Operand :=
  match stmt with
  | .inst i => i.imm?
  | .data d =>
    match d.body with
    | .values items => items[j]?
    | .bytes _ => none

namespace Parse

/-- The operands of the statement that a name makes with the tokens after it. Strings and fillings
have no operands in this sense. -/
inductive Reading (cfg : Config) (name : String) (ts : List Token) :
    List Phrase → Statement → Prop
  | shorthand {p : Pseudo} {ps : List Phrase} {inst : Instruction} (known : name = p.name)
      (listed : Listed .jumpLiteral ps ts) (form : p.Form ps inst) :
      Reading cfg name ts ps (.inst inst)
  | mnemonic {op : Opcode} {ps : List Phrase} {inst : Instruction}
      (known : cfg.opcode? name = some op) (listed : Listed op.literalBounds ps ts)
      (form : op.format.Form op.name ps inst) : Reading cfg name ts ps (.inst inst)
  | items {size : Int} {vs : List Operand} (known : (name, size) ∈ itemSizes)
      (some_item : vs ≠ []) (listed : Listed (.data size) (vs.map .val) ts) :
      Reading cfg name ts (vs.map .val) (.data ⟨name, size, .values vs⟩)

namespace Reading

variable {cfg : Config} {name : String} {ts : List Token} {ps : List Phrase} {stmt : Statement}

theorem listed (reading : Reading cfg name ts ps stmt) : ∃ bounds, Listed bounds ps ts := by
  cases reading with
  | shorthand _ listed | mnemonic _ listed | items _ _ listed => exact ⟨_, listed⟩

theorem statementForm {head : Token} (reading : Reading cfg head.lowered ts ps stmt)
    (kind : head.kind = .ident) (waiting : List Label) :
    StatementForm cfg waiting (head :: ts) (some stmt) := by
  cases reading with
  | shorthand known listed form => exact .inst kind (.shorthand known listed form)
  | mnemonic known listed form => exact .inst kind (.mnemonic known listed form)
  | items known some_item listed => exact .directive kind (.items known some_item listed)

theorem of_instructionForm {inst : Instruction} (form : InstructionForm cfg name ts inst) :
    ∃ ps, Reading cfg name ts ps (.inst inst) := by
  cases form with
  | shorthand known listed form => exact ⟨_, .shorthand known listed form⟩
  | mnemonic known listed form => exact ⟨_, .mnemonic known listed form⟩

theorem valueAt_of_label (reading : Reading cfg name ts ps stmt) {j : Nat} {label : Bytes}
    (part : (ps.flatMap roles)[j]? = some (some (.label label))) :
    stmt.valueAt j = some (.ref label) := by
  cases reading with
  | shorthand _ _ form => exact form.imm?_of_label (List.mem_of_getElem? part)
  | mnemonic _ _ form => exact form.imm?_of_label (List.mem_of_getElem? part)
  | @items size vs _ _ _ =>
    have each : (vs.map Phrase.val).flatMap roles = vs.map fun v => some v.role := by
      rw [List.flatMap_map, List.map_eq_flatMap]
      rfl
    rw [each, List.getElem?_map, Option.map_eq_some_iff] at part
    obtain ⟨v, here, role⟩ := part
    rw [Operand.role_eq_label_iff.mp (Option.some.inj role)] at here
    exact here

end Reading

/-- A statement that takes bytes has operands, or it is a directive with one token that is no
name. -/
theorem StatementForm.reading {cfg : Config} {waiting : List Label} {head : Token}
    {ts : List Token} {stmt : Statement}
    (form : StatementForm cfg waiting (head :: ts) (some stmt)) :
    head.kind = .ident ∧
      ((∃ ps, Reading cfg head.lowered ts ps stmt) ∨
        ∃ t, ts = [t] ∧ t.kind ≠ .ident ∧ stmt.segment = .data) := by
  generalize result : some stmt = r at form
  cases form with
  | inst kind form =>
    obtain rfl := Option.some.inj result
    exact ⟨kind, .inl (Reading.of_instructionForm form)⟩
  | directive kind form =>
    obtain ⟨d, rfl, rfl⟩ := Option.map_eq_some_iff.mp result.symm
    refine ⟨kind, ?_⟩
    generalize head.lowered = name at form
    cases form with
    | items known some_item listed => exact .inl ⟨_, .items known some_item listed⟩
    | @text _ t _ _ quotes => exact .inr ⟨t, rfl, by simp [quotes.1], rfl⟩
    | @fill _ t _ _ count =>
      cases count with
      | literal kind => exact .inr ⟨t, rfl, by simp [kind], rfl⟩

structure Divides (n : Nat) (bs : Bytes) (front : List Token) (head : Token)
    (rest : List Token) : Prop where
  scanned : Token.scan n bs = .ok (front ++ head :: rest)
  labelled : ∃ labels, Labelled n labels front
  kind : head.kind = .ident
  last : nextIs .colon rest = false

inductive Reads (cfg : Config) (source : Bytes) (n : Nat) (rest : List Token) (ps : List Phrase)
    (stmt : Statement) : Prop
  | intro {bs : Bytes} {front : List Token} {head : Token} (line : (lines source)[n]? = some bs)
      (divides : Divides n bs front head rest) (reading : Reading cfg head.lowered rest ps stmt) :
      Reads cfg source n rest ps stmt

section Run

variable {cfg : Config} {source : Bytes} {us : List Record} {s s' : State} {n : Nat} {bs : Bytes}

theorem line_records (read : line cfg s (bs, n) = .ok s') :
    s'.records = s.records ∨
      ∃ r front head rest, s'.records = r :: s.records ∧ r.line = n ∧
        Divides n bs front head rest ∧
        StatementForm cfg [] (head :: rest) (some r.statement) := by
  obtain ⟨_, labels, body, scanned, leading, form⟩ := line_eq_ok_iff_bodyForm.mp read
  obtain ⟨front, rfl, labelled, last⟩ := leadingLabels_eq_ok_iff.mp leading
  cases form with
  | blank | setting => exact .inl rfl
  | record form =>
    exact .inr ⟨_, _, _, _, rfl, rfl, ⟨scanned, ⟨_, labelled⟩, form.reading.1, last⟩,
      form.of_some []⟩

/-- Lines are read one after another, so the records are the statements of the lines. -/
theorem records_of_lines {ns : List (Bytes × Nat)} (run : ns.foldlM (line cfg) s = .ok s')
    {r : Record} (member : r ∈ s'.records) :
    r ∈ s.records ∨
      ∃ bs front head rest, (bs, r.line) ∈ ns ∧ Divides r.line bs front head rest ∧
        StatementForm cfg [] (head :: rest) (some r.statement) := by
  induction ns generalizing s with
  | nil =>
    obtain rfl : s = s' := pure_eq_ok_iff.mp run
    exact .inl member
  | cons next ns ih =>
    obtain ⟨bs, n⟩ := next
    rw [List.foldlM_cons, bind_eq_ok_iff] at run
    obtain ⟨s₁, read, later⟩ := run
    rcases ih later with known | ⟨bs', front, head, rest, inside, divides, form⟩
    · rcases line_records read with same | ⟨u, front, head, rest, records, here, divides, form⟩
      · exact .inl (same ▸ known)
      · rw [records] at known
        rcases List.mem_cons.mp known with rfl | known
        · right
          subst here
          exact ⟨bs, front, head, rest, List.mem_cons_self, divides, form⟩
        · exact .inl known
    · exact .inr ⟨bs', front, head, rest, List.mem_cons_of_mem _ inside, divides, form⟩

theorem record_on_line (parsed : parse cfg source = .ok us) {u : Record} (member : u ∈ us) :
    ∃ bs front head rest, (lines source)[u.line]? = some bs ∧ Divides u.line bs front head rest ∧
      StatementForm cfg [] (head :: rest) (some u.statement) := by
  obtain ⟨s, run, _, rfl⟩ := parse_eq_ok_iff.mp parsed
  rcases records_of_lines run (List.mem_reverse.mp member) with none | found
  · simp at none
  · obtain ⟨bs, front, head, rest, inside, divides, form⟩ := found
    exact ⟨bs, front, head, rest, by simpa using List.mem_zipIdx_iff_getElem?.mp inside, divides,
      form⟩

theorem Divides.line {front rest : List Token} {head : Token} {stmt : Statement}
    (divides : Divides n bs front head rest)
    (form : StatementForm cfg [] (head :: rest) (some stmt))
    (read : Parse.line cfg s (bs, n) = .ok s') :
    ∃ u ∈ s'.records, u.line = n ∧ u.statement = stmt := by
  obtain ⟨labels, labelled⟩ := divides.labelled
  have leading : leadingLabels n (front ++ head :: rest) = .ok (labels, head :: rest) :=
    leadingLabels_eq_ok_iff.mpr ⟨front, rfl, labelled, divides.last⟩
  have body : BodyForm cfg n (labels.reverse ++ s.waiting) s.records (head :: rest) _ :=
    .record (form.of_some _)
  have own := line_eq_ok_iff_bodyForm.mpr ⟨_, labels, _, divides.scanned, leading, body⟩
  obtain rfl := Except.ok.inj (read.symm.trans own)
  exact ⟨_, List.mem_cons_self, rfl, rfl⟩

theorem line_of_parse (parsed : parse cfg source = .ok us) (here : (lines source)[n]? = some bs) :
    ∃ s s', line cfg s (bs, n) = .ok s' ∧ s'.records ⊆ us := by
  obtain ⟨last, run, _, rfl⟩ := parse_eq_ok_iff.mp parsed
  have inside : (bs, n) ∈ (lines source).zipIdx := List.mem_zipIdx_iff_getElem?.mpr here
  obtain ⟨before, after, split⟩ := List.append_of_mem inside
  rw [split, List.foldlM_append, bind_eq_ok_iff] at run
  obtain ⟨s, _, run⟩ := run
  rw [List.foldlM_cons, bind_eq_ok_iff] at run
  obtain ⟨s', read, later⟩ := run
  refine ⟨s, s', read, ?_⟩
  intro u member
  exact List.mem_reverse.mpr ((lines_suffix later).subset member)

theorem Reads.record {rest : List Token} {ps : List Phrase} {stmt : Statement}
    (reads : Reads cfg source n rest ps stmt) (parsed : parse cfg source = .ok us) :
    ∃ u ∈ us, u.line = n ∧ u.statement = stmt := by
  obtain ⟨here, divides, reading⟩ := reads
  obtain ⟨s, s', read, kept⟩ := line_of_parse parsed here
  obtain ⟨u, member, line, statement⟩ :=
    divides.line (reading.statementForm divides.kind []) read
  exact ⟨u, kept member, line, statement⟩

end Run

end Parse

namespace Link

variable {table : SymbolTable} {pc : UInt32} {span : Span}

theorem valueAt_linked {stmt linked : Statement} {j : Nat} {label : Bytes}
    (result : statement table pc span stmt = .ok linked)
    (ref : stmt.valueAt j = some (.ref label)) :
    ∃ s v, table.find? label = some s ∧ linked.valueAt j = some (.num v) ∧
      (linked.segment = .data → v = s.offset.toNat) := by
  cases stmt with
  | inst i =>
    obtain ⟨i', linked, rfl⟩ := statement_inst_eq_ok_iff.mp result
    have imm : i.imm? = some (.ref label) := ref
    rcases instruction_cases linked with ⟨other, v, has, value, rfl⟩ | ⟨numeric, rfl⟩
    · obtain rfl : label = other := by simpa [imm] using has
      obtain ⟨s, found, _⟩ := labelValue_ok value
      exact ⟨s, v, found, Instruction.imm?_withImm has (.num v), by simp [Statement.segment]⟩
    · exact absurd imm (numeric label)
  | data d =>
    obtain ⟨d', linked, rfl⟩ := statement_data_eq_ok_iff.mp result
    rcases directive_cases linked with ⟨bs, body, rfl⟩ | ⟨items, items', body, each, rfl⟩
    · simp [Statement.valueAt, body] at ref
    · simp only [Statement.valueAt, body] at ref
      obtain ⟨inside, same⟩ := List.getElem?_eq_some_iff.mp ref
      have inside' : j < items'.length := each.length_eq ▸ inside
      have itemLinked := each.get inside inside'
      simp only [List.get_eq_getElem, same] at itemLinked
      obtain ⟨s, found, value, _⟩ := item_ref_ok itemLinked
      refine ⟨s, s.offset.toNat, found, ?_, fun _ => rfl⟩
      show items'[j]? = _
      rw [List.getElem?_eq_getElem inside', value]

end Link

end Rv32Asm
