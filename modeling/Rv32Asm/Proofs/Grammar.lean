import Rv32Asm.Proofs.Lexeme
import Rv32Asm.Proofs.Phrases
import Rv32Asm.Proofs.Records

/-!
The grammar of a source line.

A line has labels and then nothing, an instruction or a directive. The reader accepts a line if and
only if the line follows this grammar, and then does what the grammar says: labels wait, and a
statement that takes bytes becomes a record with all labels that wait. One case is left out of the
grammar: a section directive with a colon behind it, which the reader takes for a label.
-/

set_option autoImplicit false
set_option relaxedAutoImplicit false

namespace Rv32Asm

open Rv32Asm.Text
open Rv32Asm.Outcome
open Rv32Asm.Operands
open Rv32Asm.Phrase

def Token.lowered (t : Token) : String :=
  latin (t.text.map lowerByte)

theorem Token.lowered_eq (t : Token) : latin (t.text.map lowerByte) = t.lowered := rfl

def Token.Quotes (t : Token) (bs : Bytes) : Prop :=
  t.kind = .string ∧ Token.Spells (t.text.drop 1).dropLast bs

def Dotted (name : String) : Prop := name.toList.head? = some '.'

theorem Token.dotted_lowered_iff (t : Token) :
    Dotted t.lowered ↔ t.text.head? = some (ascii '.') := by
  have byte : ∀ b, Char.ofNat (lowerByte b).toNat = '.' ↔ b = ascii '.' :=
    forall_byte (by decide +kernel)
  cases text : t.text with
  | nil => simp [Dotted, Token.lowered, latin, text]
  | cons b bs => simp [Dotted, Token.lowered, latin, text, byte]

theorem Config.not_dotted_of_opcode? {cfg : Config} {name : String} {op : Opcode}
    (found : cfg.opcode? name = some op) : ¬ Dotted name := by
  have plain : ∀ op ∈ Opcode.table, op.name.toList.head? ≠ some '.' := by decide +kernel
  intro dotted
  unfold Config.opcode? at found
  split at found
  · rename_i listed
    have named := List.find?_some listed
    rw [beq_iff_eq] at named
    apply plain _ (Opcode.mem_of_find? listed)
    rw [named, lower, String.toList_ofList, List.head?_map, dotted]
    rfl
  · simp at found

namespace Pseudo

theorem ofName?_eq_some_iff {name : String} {p : Pseudo} :
    ofName? name = some p ↔ name = p.name := by
  constructor
  · intro found
    have named := List.find?_some found
    exact (eq_of_beq named).symm
  · rintro rfl
    cases p <;> decide

theorem not_dotted (p : Pseudo) : ¬ Dotted p.name := by
  unfold Dotted
  cases p <;> decide

theorem opcode?_name (cfg : Config) (p : Pseudo) : cfg.opcode? p.name = none := by
  have unlisted : Opcode.find? (lower p.name) = none := by cases p <;> decide +kernel
  simp [Config.opcode?, unlisted]

end Pseudo

namespace Parse

inductive InstructionForm (cfg : Config) (name : String) (ts : List Token) : Instruction → Prop
  | shorthand {p : Pseudo} {ps : List Phrase} {inst : Instruction} (known : name = p.name)
      (listed : Listed .jumpLiteral ps ts) (form : p.Form ps inst) :
      InstructionForm cfg name ts inst
  | mnemonic {op : Opcode} {ps : List Phrase} {inst : Instruction}
      (known : cfg.opcode? name = some op) (listed : Listed op.literalBounds ps ts)
      (form : op.format.Form op.name ps inst) : InstructionForm cfg name ts inst

def itemSizes : List (String × Int) := [(".byte", 1), (".half", 2), (".word", 4)]

/-- The directives by their names and the tokens after them, with the data that they hold. A change
of section must not come while labels wait. -/
inductive DirectiveForm (waiting : List Label) : String → List Token → Option Directive → Prop
  | sectionChange {ts : List Token} (idle : waiting = []) :
      DirectiveForm waiting ".section" ts none
  | segment {name : String} (known : name ∈ [".text", ".data"]) (idle : waiting = []) :
      DirectiveForm waiting name [] none
  | global {name : String} {t : Token} (known : name ∈ [".globl", ".global"])
      (symbol : t.kind = .ident) : DirectiveForm waiting name [t] none
  | items {name : String} {size : Int} {vs : List Operand} {ts : List Token}
      (known : (name, size) ∈ itemSizes) (some_item : vs ≠ [])
      (listed : Listed (.data size) (vs.map .val) ts) :
      DirectiveForm waiting name ts (some ⟨name, size, .values vs⟩)
  | text {name : String} {t : Token} {bs : Bytes} (known : name ∈ [".string", ".asciz", ".ascii"])
      (quotes : t.Quotes bs) :
      DirectiveForm waiting name [t]
        (some ⟨name, 1, .bytes (if name = ".ascii" then bs else bs ++ [0])⟩)
  | fill {name : String} {t : Token} {n : Int} (known : name ∈ [".space", ".zero"])
      (count : t.Denotes .fill (.num n)) :
      DirectiveForm waiting name [t] (some ⟨name, 1, .bytes (List.replicate n.toNat 0)⟩)

inductive StatementForm (cfg : Config) (waiting : List Label) :
    List Token → Option Statement → Prop
  | inst {head : Token} {ts : List Token} {inst : Instruction} (kind : head.kind = .ident)
      (form : InstructionForm cfg head.lowered ts inst) :
      StatementForm cfg waiting (head :: ts) (some (.inst inst))
  | directive {head : Token} {ts : List Token} {d : Option Directive} (kind : head.kind = .ident)
      (form : DirectiveForm waiting head.lowered ts d) :
      StatementForm cfg waiting (head :: ts) (d.map .data)

inductive Labelled (n : Nat) : List Label → List Token → Prop
  | nil : Labelled n [] []
  | cons {t colon : Token} {labels : List Label} {ts : List Token} (name : t.kind = .ident)
      (mark : colon.kind = .colon) (more : Labelled n labels ts) :
      Labelled n (⟨t.text, t.span n⟩ :: labels) (t :: colon :: ts)

/-- What the rest of a line does, after its labels have joined those that wait. -/
inductive BodyForm (cfg : Config) (n : Nat) (waiting : List Label) (records : List Record) :
    List Token → State → Prop
  | blank : BodyForm cfg n waiting records [] ⟨waiting, records⟩
  | setting {ts : List Token} (form : StatementForm cfg waiting ts none) :
      BodyForm cfg n waiting records ts ⟨waiting, records⟩
  | record {head : Token} {rest : List Token} {stmt : Statement}
      (form : StatementForm cfg waiting (head :: rest) (some stmt)) :
      BodyForm cfg n waiting records (head :: rest)
        ⟨[], ⟨waiting.reverse, n, .onLine n head.start ((head :: rest).getLastD head).stop, stmt⟩
          :: records⟩

/-- A section directive with a colon behind it, which is also a label. -/
def SectionColon : List Token → Prop
  | head :: colon :: _ => head.lowered = ".section" ∧ colon.kind = .colon
  | _ => False

variable {cfg : Config} {waiting : List Label} {n : Nat} {span : Span} {head : Token}
  {ts : List Token} {c : Context}

theorem finish_eq_ok_iff : finish c ts = .ok () ↔ ts = [] := by
  cases ts <;> simp [finish]

theorem noneWaiting_eq_ok_iff : noneWaiting waiting = .ok () ↔ waiting = [] := by
  unfold noneWaiting
  split
  · rename_i label last
    simp only [reduceCtorEq, false_iff]
    rintro rfl
    simp at last
  · rename_i last
    simpa using last

theorem finish_bind_eq_ok_iff {α : Type} {x : Except Fault (α × List Token)} {a : α} :
    (do let (a, ts) ← x; finish c ts; return a) = .ok a ↔ x = .ok (a, []) := by
  simp only [bind_eq_ok_iff, pure_eq_ok_iff, Prod.exists]
  constructor
  · rintro ⟨_, rest, read, ⟨⟩, done, rfl⟩
    rw [read, finish_eq_ok_iff.mp done]
  · intro read
    exact ⟨a, [], read, (), rfl, rfl⟩

theorem instruction_eq_ok_iff {inst : Instruction} :
    instruction cfg n span head ts = .ok inst ↔ InstructionForm cfg head.lowered ts inst := by
  simp only [instruction, Token.lowered_eq]
  cases found : Pseudo.ofName? head.lowered with
  | some p =>
    have known := Pseudo.ofName?_eq_some_iff.mp found
    refine finish_bind_eq_ok_iff.trans (Pseudo.expand_eq_ok_iff.trans ?_)
    constructor
    · rintro ⟨ps, listed, form⟩
      exact .shorthand known listed form
    · intro form
      cases form with
      | shorthand named listed form =>
        rw [Pseudo.ofName?_eq_some_iff.mpr named] at found
        obtain rfl := Option.some.inj found
        exact ⟨_, listed, form⟩
      | mnemonic named => simp [known, Pseudo.opcode?_name] at named
  | none =>
    have unknown {p : Pseudo} : head.lowered ≠ p.name := by
      intro known
      simp [Pseudo.ofName?_eq_some_iff.mpr known] at found
    cases listed : cfg.opcode? head.lowered with
    | none =>
      simp only [reduceCtorEq, false_iff]
      intro form
      cases form with
      | shorthand known => exact unknown known
      | mnemonic known => simp [listed] at known
    | some op =>
      refine finish_bind_eq_ok_iff.trans (formatOperands_eq_ok_iff.trans ?_)
      constructor
      · rintro ⟨ps, operands, form⟩
        exact .mnemonic listed operands form
      · intro form
        cases form with
        | shorthand known => exact absurd known unknown
        | mnemonic known operands form =>
          obtain rfl := Option.some.inj (listed.symm.trans known)
          exact ⟨_, operands, form⟩

theorem stringData_eq_ok_iff {d : Directive} :
    stringData c ts = .ok d ↔
      ∃ t bs, ts = [t] ∧ t.Quotes bs ∧
        d = ⟨c.name, 1, .bytes (if c.name = ".ascii" then bs else bs ++ [0])⟩ := by
  simp only [stringData, bind_eq_ok_iff, Prod.exists, next_eq_ok_iff]
  constructor
  · rintro ⟨t, rest, rfl, read⟩
    split at read
    · rename_i kind
      split at read
      · simp at read
      · rename_i bs literal
        simp only [bind_eq_ok_iff, pure_eq_ok_iff] at read
        obtain ⟨⟨⟩, done, rfl⟩ := read
        rw [finish_eq_ok_iff.mp done]
        exact ⟨t, bs, rfl, ⟨kind, Token.unquote_eq_ok_iff.mp literal⟩, rfl⟩
    · simp at read
  · rintro ⟨t, bs, rfl, ⟨kind, spells⟩, rfl⟩
    refine ⟨t, [], rfl, ?_⟩
    rw [if_pos kind, Token.unquote_eq_ok_iff.mpr spells]
    rfl

theorem fillData_eq_ok_iff {d : Directive} :
    fillData c ts = .ok d ↔
      ∃ t count, ts = [t] ∧ t.Denotes .fill (.num count) ∧
        d = ⟨c.name, 1, .bytes (List.replicate count.toNat 0)⟩ := by
  simp only [fillData, zeros_eq, bind_eq_ok_iff, Prod.exists, next_eq_ok_iff]
  constructor
  · rintro ⟨t, rest, rfl, read⟩
    split at read
    · rename_i kind
      simp only [bind_eq_ok_iff, pure_eq_ok_iff] at read
      obtain ⟨count, value, ⟨⟩, within, ⟨⟩, done, rfl⟩ := read
      rw [finish_eq_ok_iff.mp done]
      exact ⟨t, count, rfl, .literal kind (Number.ofToken_eq_ok_iff.mp value)
        (Bounds.check_eq_ok_iff.mp within), rfl⟩
    · simp at read
  · rintro ⟨t, count, rfl, denotes, rfl⟩
    refine ⟨t, [], rfl, ?_⟩
    cases denotes with
    | literal kind value within =>
      simp only [kind, ↓reduceIte, bind_eq_ok_iff, pure_eq_ok_iff]
      exact ⟨count, Number.ofToken_eq_ok_iff.mpr value, (), Bounds.check_eq_ok_iff.mpr within, (),
        rfl, rfl⟩

theorem itemSize?_eq_some_iff {name : String} {size : Int} :
    itemSize? name = some size ↔ (name, size) ∈ itemSizes := by
  constructor
  · intro known
    unfold itemSize? at known
    split at known
    · simp_all [itemSizes]
    split at known
    · simp_all [itemSizes]
    split at known
    · simp_all [itemSizes]
    · simp at known
  · intro listed
    have sizes : ∀ e ∈ itemSizes, itemSize? e.1 = some e.2 := by decide
    exact sizes _ listed

theorem directive_eq_ok_iff {d : Option Directive} :
    directive waiting n span head ts = .ok d ↔ DirectiveForm waiting head.lowered ts d := by
  simp only [directive]
  rw [Token.lowered_eq]
  generalize head.lowered = name
  constructor
  · intro read
    split at read
    · rename_i known
      simp only [bind_eq_ok_iff, pure_eq_ok_iff] at read
      obtain ⟨⟨⟩, idle, rfl⟩ := read
      rw [known]
      exact .sectionChange (noneWaiting_eq_ok_iff.mp idle)
    split at read
    · rename_i known
      simp only [bind_eq_ok_iff, pure_eq_ok_iff] at read
      obtain ⟨⟨⟩, idle, ⟨⟩, done, rfl⟩ := read
      rw [finish_eq_ok_iff.mp done]
      exact .segment (by simpa using known) (noneWaiting_eq_ok_iff.mp idle)
    split at read
    · rename_i known
      simp only [bind_eq_ok_iff, Prod.exists, next_eq_ok_iff] at read
      obtain ⟨t, rest, rfl, read⟩ := read
      split at read
      · rename_i symbol
        simp only [bind_eq_ok_iff, pure_eq_ok_iff] at read
        obtain ⟨⟨⟩, done, rfl⟩ := read
        rw [finish_eq_ok_iff.mp done]
        exact .global (by simpa using known) symbol
      · simp at read
    split at read
    · rename_i known
      simp only [bind_eq_ok_iff, pure_eq_ok_iff, stringData_eq_ok_iff] at read
      obtain ⟨_, ⟨t, bs, rfl, quotes, rfl⟩, rfl⟩ := read
      exact .text (by simpa using known) quotes
    split at read
    · rename_i known
      simp only [bind_eq_ok_iff, pure_eq_ok_iff, fillData_eq_ok_iff] at read
      obtain ⟨_, ⟨t, count, rfl, value, rfl⟩, rfl⟩ := read
      exact .fill (by simpa using known) value
    split at read
    · rename_i size known
      simp only [bind_eq_ok_iff, pure_eq_ok_iff, operands_eq_ok_iff] at read
      obtain ⟨items, ⟨some_item, listed⟩, rfl⟩ := read
      exact .items (itemSize?_eq_some_iff.mp known) some_item listed
    · simp at read
  · intro form
    cases form with
    | sectionChange idle =>
      subst idle
      rfl
    | segment known idle =>
      subst idle
      simp only [List.mem_cons, List.not_mem_nil, or_false] at known
      rcases known with rfl | rfl <;> rfl
    | @global _ t known symbol =>
      simp only [List.mem_cons, List.not_mem_nil, or_false] at known
      rcases known with rfl | rfl
      all_goals
        simp only [String.reduceEq, or_self, or_true, true_or, ↓reduceIte, bind_eq_ok_iff]
        exact ⟨(t, []), rfl, by simp [symbol]; rfl⟩
    | @items _ size vs _ known some_item listed =>
      have size := itemSize?_eq_some_iff.mpr known
      have read (c : Context) := (operands_eq_ok_iff (c := c)).mpr ⟨some_item, listed⟩
      simp only [itemSizes, List.mem_cons, List.not_mem_nil, or_false, Prod.mk.injEq] at known
      rcases known with ⟨rfl, rfl⟩ | ⟨rfl, rfl⟩ | ⟨rfl, rfl⟩
      all_goals
        simp only [String.reduceEq, or_self, ↓reduceIte, size, read]
        rfl
    | @text name t bs known quotes =>
      have read (usage : String) : stringData ⟨n, span, name, usage⟩ [t] = _ :=
        stringData_eq_ok_iff.mpr ⟨t, bs, rfl, quotes, rfl⟩
      simp only [List.mem_cons, List.not_mem_nil, or_false] at known
      rcases known with rfl | rfl | rfl
      all_goals
        simp only [String.reduceEq, or_self, or_true, true_or, ↓reduceIte, read]
        rfl
    | @fill name t count known value =>
      have read (usage : String) : fillData ⟨n, span, name, usage⟩ [t] = _ :=
        fillData_eq_ok_iff.mpr ⟨t, count, rfl, value, rfl⟩
      simp only [List.mem_cons, List.not_mem_nil, or_false] at known
      rcases known with rfl | rfl
      all_goals
        simp only [String.reduceEq, or_self, or_true, true_or, ↓reduceIte, read]
        rfl

theorem InstructionForm.not_dotted {name : String} {inst : Instruction}
    (form : InstructionForm cfg name ts inst) : ¬ Dotted name := by
  cases form with
  | shorthand known => exact known ▸ Pseudo.not_dotted _
  | mnemonic known => exact Config.not_dotted_of_opcode? known

theorem DirectiveForm.dotted {name : String} {d : Option Directive}
    (form : DirectiveForm waiting name ts d) : Dotted name := by
  unfold Dotted
  cases form with
  | sectionChange => decide
  | segment known | global known | text known | fill known =>
    revert known name
    decide
  | items known =>
    have dots : ∀ e ∈ itemSizes, e.1.toList.head? = some '.' := by decide
    exact dots _ known

theorem statement_eq_ok_iff {stmt : Option Statement} :
    statement cfg waiting n span head ts = .ok stmt ↔
      StatementForm cfg waiting (head :: ts) stmt := by
  unfold statement
  constructor
  · intro read
    split at read
    · simp at read
    rename_i kind
    rw [not_ne_iff] at kind
    split at read
    · simp only [bind_eq_ok_iff, pure_eq_ok_iff, directive_eq_ok_iff] at read
      obtain ⟨d, form, rfl⟩ := read
      exact .directive kind form
    · simp only [bind_eq_ok_iff, pure_eq_ok_iff, instruction_eq_ok_iff] at read
      obtain ⟨inst, form, rfl⟩ := read
      exact .inst kind form
  · intro form
    cases form with
    | inst kind form =>
      have plain : head.text.head? ≠ some (ascii '.') := by
        rw [Ne, ← Token.dotted_lowered_iff]
        exact form.not_dotted
      rw [if_neg (not_not_intro kind), if_neg plain, instruction_eq_ok_iff.mpr form]
      rfl
    | directive kind form =>
      have dotted := (Token.dotted_lowered_iff head).mp form.dotted
      rw [if_neg (not_not_intro kind), if_pos dotted, directive_eq_ok_iff.mpr form]
      rfl

theorem leadingLabels_eq_ok_iff {labels : List Label} {rest : List Token} :
    leadingLabels n ts = .ok (labels, rest) ↔
      ∃ front, ts = front ++ rest ∧ Labelled n labels front ∧
        nextIs .colon (rest.drop 1) = false := by
  induction ts using leadingLabels.induct generalizing labels rest with
  | case1 t colon ts mark name ih =>
    simp only [leadingLabels, mark, name, ↓reduceIte, bind_eq_ok_iff, pure_eq_ok_iff, Prod.exists,
      Prod.mk.injEq]
    constructor
    · rintro ⟨labels, _, read, rfl, rfl⟩
      obtain ⟨front, rfl, labelled, last⟩ := ih.mp read
      exact ⟨t :: colon :: front, rfl, .cons name mark labelled, last⟩
    · rintro ⟨front, split, labelled, last⟩
      cases labelled with
      | nil =>
        obtain rfl : _ = rest := split
        simp [nextIs, mark] at last
      | @cons _ _ labels front _ _ more =>
        simp only [List.cons_append, List.cons.injEq] at split
        obtain ⟨rfl, rfl, rfl⟩ := split
        exact ⟨labels, rest, ih.mpr ⟨front, rfl, more, last⟩, rfl, rfl⟩
  | case2 t colon ts mark name =>
    simp only [leadingLabels, mark, name, ↓reduceIte, reduceCtorEq, false_iff]
    rintro ⟨front, split, labelled, last⟩
    cases labelled with
    | nil =>
      obtain rfl : _ = rest := split
      simp [nextIs, mark] at last
    | cons ident =>
      simp only [List.cons_append, List.cons.injEq] at split
      exact name (split.1 ▸ ident)
  | case3 t colon ts mark =>
    simp only [leadingLabels, mark, ↓reduceIte, Except.ok.injEq, Prod.mk.injEq]
    constructor
    · rintro ⟨rfl, rfl⟩
      exact ⟨[], rfl, .nil, by simp [nextIs, mark]⟩
    · rintro ⟨front, split, labelled, last⟩
      cases labelled with
      | nil => exact ⟨rfl, split⟩
      | cons _ mark' =>
        simp only [List.cons_append, List.cons.injEq] at split
        exact absurd (split.2.1 ▸ mark') mark
  | case4 ts short =>
    obtain ⟨read, none⟩ :
        leadingLabels n ts = .ok ([], ts) ∧ nextIs .colon (ts.drop 1) = false := by
      rcases ts with _ | ⟨t, _ | ⟨colon, ts⟩⟩
      · exact ⟨rfl, rfl⟩
      · exact ⟨rfl, rfl⟩
      · exact absurd rfl (short t colon ts)
    simp only [read, Except.ok.injEq, Prod.mk.injEq]
    constructor
    · rintro ⟨rfl, rfl⟩
      exact ⟨[], rfl, .nil, none⟩
    · rintro ⟨front, split, labelled, last⟩
      cases labelled with
      | nil => exact ⟨rfl, split⟩
      | cons => exact absurd split (short _ _ _)

/-- The only statement that a colon can come second in is a change of section. -/
theorem StatementForm.lowered_eq_of_colon {stmt : Option Statement}
    (form : StatementForm cfg waiting (head :: ts) stmt) (mark : nextIs .colon ts = true) :
    head.lowered = ".section" := by
  have operands {bounds : Bounds} {ps : List Phrase} (listed : Listed bounds ps ts) : False := by
    simp [listed.nextIs_colon] at mark
  cases form with
  | inst kind form =>
    cases form with
    | shorthand _ listed | mnemonic _ listed => exact (operands listed).elim
  | directive kind form =>
    generalize head.lowered = name at form
    cases form with
    | sectionChange => rfl
    | segment => simp [nextIs] at mark
    | global _ symbol => simp [nextIs, symbol] at mark
    | items _ _ listed => exact (operands listed).elim
    | text _ quotes => simp [nextIs, quotes.1] at mark
    | fill _ count => rcases count.kind with kind | kind <;> simp [nextIs, kind] at mark

theorem BodyForm.sectionColon {records : List Record} {body : List Token} {s' : State}
    (form : BodyForm cfg n waiting records body s')
    (mark : nextIs .colon (body.drop 1) = true) : SectionColon body := by
  have statement {stmt : Option Statement} (form : StatementForm cfg waiting body stmt) :
      SectionColon body := by
    match body with
    | [] | [t] => simp [nextIs] at mark
    | head :: colon :: rest =>
      have colon : colon.kind = .colon := by simpa [nextIs] using mark
      exact ⟨form.lowered_eq_of_colon mark, colon⟩
  cases form with
  | blank => simp [nextIs] at mark
  | setting form | record form => exact statement form

theorem SectionColon.nextIs_colon {body : List Token} (label : SectionColon body) :
    nextIs .colon (body.drop 1) = true := by
  match body with
  | head :: colon :: rest => simpa [nextIs] using label.2

theorem line_eq_ok_iff_bodyForm {s s' : State} {bs : Bytes} :
    line cfg s (bs, n) = .ok s' ↔
      ∃ ts labels body, Token.scan n bs = .ok ts ∧ leadingLabels n ts = .ok (labels, body) ∧
        BodyForm cfg n (labels.reverse ++ s.waiting) s.records body s' := by
  constructor
  · intro read
    obtain ⟨ts, labels, body, scanned, leading, ⟨rfl, rfl⟩ | ⟨head, rest, span, rfl, rfl, body⟩⟩ :=
      line_cases read
    · exact ⟨ts, labels, [], scanned, leading, .blank⟩
    refine ⟨ts, labels, head :: rest, scanned, leading, ?_⟩
    rcases body with ⟨body, rfl⟩ | ⟨stmt, body, rfl⟩
    · exact .setting (statement_eq_ok_iff.mp body)
    · exact .record (statement_eq_ok_iff.mp body)
  · rintro ⟨ts, labels, body, scanned, leading, form⟩
    simp only [line, bind_eq_ok_iff, Prod.exists]
    refine ⟨ts, scanned, labels, body, leading, ?_⟩
    cases form with
    | blank => rfl
    | setting form =>
      cases body with
      | nil => rfl
      | cons head rest =>
        simp only [statement_eq_ok_iff.mpr form]
        rfl
    | record form =>
      simp only [statement_eq_ok_iff.mpr form]
      rfl

/-- A line can be read if and only if it follows the grammar, and then does what that says. -/
theorem line_eq_ok_iff {s s' : State} {bs : Bytes} :
    line cfg s (bs, n) = .ok s' ↔
      ∃ labels front body, Token.scan n bs = .ok (front ++ body) ∧ Labelled n labels front ∧
        BodyForm cfg n (labels.reverse ++ s.waiting) s.records body s' ∧ ¬ SectionColon body := by
  rw [line_eq_ok_iff_bodyForm]
  constructor
  · rintro ⟨_, labels, body, scanned, leading, form⟩
    obtain ⟨front, rfl, labelled, last⟩ := leadingLabels_eq_ok_iff.mp leading
    refine ⟨labels, front, body, scanned, labelled, form, ?_⟩
    intro label
    exact Bool.false_ne_true (last.symm.trans label.nextIs_colon)
  · rintro ⟨labels, front, body, scanned, labelled, form, plain⟩
    have last : nextIs .colon (body.drop 1) = false :=
      Bool.eq_false_iff.mpr fun mark => plain (form.sectionColon mark)
    exact ⟨_, labels, body, scanned, leadingLabels_eq_ok_iff.mpr ⟨front, rfl, labelled, last⟩, form⟩

/-- A section directive may have anything behind it. With a colon there it is a label, and a number
is no statement. -/
theorem section_colon_not_accepted :
    (∃ labels front body s', Token.scan 0 (utf8 ".section : 5") = .ok (front ++ body) ∧
      Labelled 0 labels front ∧ BodyForm .standard 0 (labels.reverse ++ []) [] body s') ∧
    (line .standard ⟨[], []⟩ (utf8 ".section : 5", 0)).isOk = false := by
  let head : Token := ⟨.ident, utf8 ".section", 0, 8⟩
  let rest : List Token := [⟨.colon, utf8 ":", 9, 10⟩, ⟨.number, utf8 "5", 11, 12⟩]
  have scanned : Token.scan 0 (utf8 ".section : 5") = .ok (head :: rest) := by decide +kernel
  have form : DirectiveForm [] head.lowered rest none := by
    have lowered : head.lowered = ".section" := by decide +kernel
    rw [lowered]
    exact .sectionChange rfl
  have body : BodyForm .standard 0 [] [] (head :: rest) ⟨[], []⟩ := .setting (.directive rfl form)
  exact ⟨⟨[], [], head :: rest, ⟨[], []⟩, scanned, .nil, body⟩, by decide +kernel⟩

end Parse

end Rv32Asm
