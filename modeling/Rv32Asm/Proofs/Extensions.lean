import Rv32Asm.Proofs.Emission
import Rv32Asm.Proofs.Grammar
import Rv32Asm.Proofs.Layout

/-!
Switching on the multiplication extension changes no program that does without it.

Configurations enter parsing through the table entries of mnemonics. A line that is accepted under
one configuration is accepted under every other one that has an entry for its mnemonic, with the
same record. Without the extension the first line that needs it is refused, at its mnemonic.
-/

set_option autoImplicit false
set_option relaxedAutoImplicit false

namespace Rv32Asm

open Rv32Asm.Outcome
open Rv32Asm.Link

def multiplyMnemonics : List String :=
  ["mul", "mulh", "mulhsu", "mulhu", "div", "divu", "rem", "remu"]

def Statement.multiplies : Statement → Bool
  | .inst i => multiplyMnemonics.contains i.mnemonic
  | .data _ => false

def Record.multiplies (r : Record) : Bool := r.statement.multiplies

theorem Opcode.extension_eq_iff {op : Opcode} (listed : op ∈ table) :
    op.extension = .multiply ↔ multiplyMnemonics.contains op.name = true := by
  have all : ∀ op ∈ table,
      (op.extension = .multiply ↔ multiplyMnemonics.contains op.name = true) := by
    decide +kernel
  exact all op listed

namespace Config

variable {cfg cfg' base full : Config} {name : String} {op : Opcode}

theorem opcode?_eq_some_iff :
    cfg.opcode? name = some op ↔
      Opcode.find? (Text.lower name) = some op ∧ cfg.hasExtension op.extension.name = true := by
  unfold opcode?
  cases Opcode.find? (Text.lower name) with
  | none => simp
  | some entry =>
    by_cases enabled : cfg.hasExtension entry.extension.name = true
    · simp only [enabled, if_true, Option.some.injEq]
      constructor
      · rintro rfl
        exact ⟨rfl, enabled⟩
      · exact And.left
    · simp only [enabled, if_false, reduceCtorEq, Option.some.injEq, false_iff]
      rintro ⟨rfl, other⟩
      exact enabled other

theorem hasExtension_base (cfg : Config) : cfg.hasExtension Extension.base.name = true := rfl

theorem extension_eq_base (without : cfg.hasExtension "m" = false)
    (enabled : cfg.hasExtension op.extension.name = true) : op.extension = .base := by
  cases extension : op.extension with
  | base => rfl
  | multiply =>
    rw [extension] at enabled
    exact absurd (without.symm.trans enabled) Bool.false_ne_true

/-- The entries of `cfg` for allowed mnemonics are entries of `cfg'`. -/
def Shares (allowed : String → Prop) (cfg cfg' : Config) : Prop :=
  ∀ name op, allowed op.name → cfg.opcode? name = some op → cfg'.opcode? name = some op

theorem shares_full (without : base.hasExtension "m" = false) :
    Shares (fun _ => True) base full := by
  intro name op _ known
  obtain ⟨listed, enabled⟩ := opcode?_eq_some_iff.mp known
  refine opcode?_eq_some_iff.mpr ⟨listed, ?_⟩
  rw [extension_eq_base without enabled]
  exact hasExtension_base full

theorem shares_base : Shares (fun m => multiplyMnemonics.contains m = false) full base := by
  intro name op plain known
  obtain ⟨listed, _⟩ := opcode?_eq_some_iff.mp known
  refine opcode?_eq_some_iff.mpr ⟨listed, ?_⟩
  cases extension : op.extension with
  | base => exact hasExtension_base base
  | multiply =>
    have multiplies := (Opcode.extension_eq_iff (Opcode.mem_of_find? listed)).mp extension
    exact absurd (plain.symm.trans multiplies) Bool.false_ne_true

theorem opcode?_eq_none (without : base.hasExtension "m" = false)
    (known : full.opcode? name = some op) (multiplies : multiplyMnemonics.contains op.name = true) :
    base.opcode? name = none := by
  obtain ⟨listed, _⟩ := opcode?_eq_some_iff.mp known
  have extension := (Opcode.extension_eq_iff (Opcode.mem_of_find? listed)).mpr multiplies
  rw [Option.eq_none_iff_forall_ne_some]
  intro entry other
  obtain ⟨again, enabled⟩ := opcode?_eq_some_iff.mp other
  obtain rfl := Option.some.inj (listed.symm.trans again)
  rw [extension_eq_base without enabled] at extension
  simp at extension

end Config

theorem Format.Form.mnemonic_eq {name : String} {format : Format} {ps : List Phrase}
    {inst : Instruction} (form : format.Form name ps inst) : inst.mnemonic = name := by
  cases form <;> rfl

theorem Pseudo.Form.plain {p : Pseudo} {ps : List Phrase} {inst : Instruction}
    (form : p.Form ps inst) : multiplyMnemonics.contains inst.mnemonic = false := by
  cases form <;> simp [multiplyMnemonics, Instruction.mnemonic]

def Statement.Allowed (allowed : String → Prop) : Statement → Prop
  | .inst i => allowed i.mnemonic
  | .data _ => True

theorem Statement.allowed_of_plain {stmt : Statement} (plain : stmt.multiplies = false) :
    stmt.Allowed fun m => multiplyMnemonics.contains m = false := by
  cases stmt with
  | inst i => exact plain
  | data d => trivial

namespace Parse

section Shares

variable {allowed : String → Prop} {cfg cfg' : Config} {waiting : List Label} {n : Nat}
  {ts : List Token}

theorem InstructionForm.shared (shares : cfg.Shares allowed cfg') {name : String}
    {inst : Instruction} (form : InstructionForm cfg name ts inst)
    (fine : allowed inst.mnemonic) : InstructionForm cfg' name ts inst := by
  cases form with
  | shorthand known listed form => exact .shorthand known listed form
  | mnemonic known listed form =>
    rw [form.mnemonic_eq] at fine
    exact .mnemonic (shares _ _ fine known) listed form

theorem StatementForm.shared (shares : cfg.Shares allowed cfg') {stmt : Option Statement}
    (form : StatementForm cfg waiting ts stmt) (fine : ∀ s ∈ stmt, s.Allowed allowed) :
    StatementForm cfg' waiting ts stmt := by
  cases form with
  | inst kind form => exact .inst kind (form.shared shares (fine _ rfl))
  | directive kind form => exact .directive kind form

theorem BodyForm.shared (shares : cfg.Shares allowed cfg') {records : List Record} {s' : State}
    (form : BodyForm cfg n waiting records ts s')
    (fine : ∀ r ∈ s'.records, r.statement.Allowed allowed) :
    BodyForm cfg' n waiting records ts s' := by
  cases form with
  | blank => exact .blank
  | setting form => exact .setting (form.shared shares (by simp))
  | @record head rest stmt form =>
    have own : stmt.Allowed allowed := fine _ List.mem_cons_self
    exact .record (form.shared shares (by simpa using own))

theorem line_shared (shares : cfg.Shares allowed cfg') {s s' : State} {numbered : Bytes × Nat}
    (read : line cfg s numbered = .ok s')
    (fine : ∀ r ∈ s'.records, r.statement.Allowed allowed) :
    line cfg' s numbered = .ok s' := by
  obtain ⟨ts, labels, body, scanned, leading, form⟩ := line_eq_ok_iff_bodyForm.mp read
  exact line_eq_ok_iff_bodyForm.mpr ⟨ts, labels, body, scanned, leading, form.shared shares fine⟩

theorem lines_suffix {ls : List (Bytes × Nat)} {s s' : State}
    (run : ls.foldlM (line cfg) s = .ok s') : s.records <:+ s'.records := by
  have kept : ∀ t numbered t', s.records <:+ t.records → line cfg t numbered = .ok t' →
      s.records <:+ t'.records := by
    intro t numbered t' before read
    obtain ⟨_, _, _, _, _, ⟨_, rfl⟩ | ⟨_, _, _, _, _, ⟨_, rfl⟩ | ⟨stmt, _, rfl⟩⟩⟩ := line_cases read
    · exact before
    · exact before
    · exact before.trans (List.suffix_cons _ _)
  exact foldlM_preserves kept ls (List.suffix_refl _) run

theorem lines_shared (shares : cfg.Shares allowed cfg') {ls : List (Bytes × Nat)} {s s' : State}
    (run : ls.foldlM (line cfg) s = .ok s')
    (fine : ∀ r ∈ s'.records, r.statement.Allowed allowed) :
    ls.foldlM (line cfg') s = .ok s' := by
  induction ls generalizing s with
  | nil =>
    rw [List.foldlM_nil] at run ⊢
    exact run
  | cons numbered ls ih =>
    rw [List.foldlM_cons, bind_eq_ok_iff] at run ⊢
    obtain ⟨t, read, rest⟩ := run
    have earlier : ∀ r ∈ t.records, r.statement.Allowed allowed := by
      intro r member
      exact fine r ((lines_suffix rest).subset member)
    exact ⟨t, line_shared shares read earlier, ih rest⟩

end Shares

section Refusal

variable {base full : Config} {n : Nat}

theorem instruction_refused (without : base.hasExtension "m" = false) {span : Span} {head : Token}
    {ts : List Token} {inst : Instruction} (read : instruction full n span head ts = .ok inst)
    (multiplies : multiplyMnemonics.contains inst.mnemonic = true) :
    instruction base n span head ts = .error ⟨.unknownMnemonic head.text, head.span n⟩ := by
  cases instruction_eq_ok_iff.mp read with
  | shorthand known listed form =>
    rw [form.plain] at multiplies
    exact absurd multiplies Bool.false_ne_true
  | @mnemonic op ps inst known listed form =>
    -- Shorthands are looked up first, but none has the name of a table entry.
    have shorthand : Pseudo.ofName? head.lowered = none := by
      rw [Option.eq_none_iff_forall_ne_some]
      intro p found
      rw [Pseudo.ofName?_eq_some_iff.mp found, Pseudo.opcode?_name] at known
      simp at known
    rw [form.mnemonic_eq] at multiplies
    have unknown := Config.opcode?_eq_none without known multiplies
    simp only [instruction, Token.lowered_eq, shorthand, unknown]

theorem statement_refused (without : base.hasExtension "m" = false) {waiting : List Label}
    {span : Span} {head : Token} {ts : List Token} {stmt : Statement}
    (read : statement full waiting n span head ts = .ok (some stmt))
    (multiplies : stmt.multiplies = true) :
    statement base waiting n span head ts =
      .error ⟨.unknownMnemonic head.text, head.span n⟩ := by
  unfold statement at read ⊢
  split at read
  · simp at read
  split at read
  · simp only [bind_eq_ok_iff, pure_eq_ok_iff] at read
    obtain ⟨d, _, emitted⟩ := read
    obtain ⟨d, rfl, rfl⟩ := Option.map_eq_some_iff.mp emitted
    simp [Statement.multiplies] at multiplies
  · rename_i kind plain
    simp only [bind_eq_ok_iff, pure_eq_ok_iff, Option.some.injEq] at read
    obtain ⟨inst, read, rfl⟩ := read
    rw [if_neg kind, if_neg plain, instruction_refused without read multiplies]
    rfl

/-- The record has its first token after the labels of a line. -/
def StartsWith (bs : Bytes) (r : Record) (head : Token) : Prop :=
  r.span.start = ⟨r.line, head.start⟩ ∧ ∃ ts labels rest, Token.scan r.line bs = .ok ts ∧
    leadingLabels r.line ts = .ok (labels, head :: rest)

/-- The first line with an instruction of the extension is refused without it. -/
theorem line_refused (without : base.hasExtension "m" = false) {s s' : State} {bs : Bytes}
    (read : line full s (bs, n) = .ok s') (clean : ∀ r ∈ s.records, r.multiplies = false)
    (needed : ¬ ∀ r ∈ s'.records, r.multiplies = false) :
    ∃ r head, s'.records = r :: s.records ∧ r.multiplies = true ∧ r.line = n ∧
      StartsWith bs r head ∧
      line base s (bs, n) = .error ⟨.unknownMnemonic head.text, head.span n⟩ := by
  obtain ⟨ts, labels, _, scanned, leading, ⟨_, rfl⟩ | ⟨head, rest, span, rfl, rfl, body⟩⟩ :=
    line_cases read
  · exact absurd clean needed
  rcases body with ⟨_, rfl⟩ | ⟨stmt, body, rfl⟩
  · exact absurd clean needed
  have multiplies : stmt.multiplies = true := by
    rw [← Bool.not_eq_false]
    intro plain
    exact needed (List.forall_mem_cons.mpr ⟨plain, clean⟩)
  refine ⟨_, head, rfl, multiplies, rfl, ⟨rfl, ts, labels, rest, scanned, leading⟩, ?_⟩
  simp only [line, scanned, leading, ok_bind, statement_refused without body multiplies]
  rfl

theorem lines_refused (without : base.hasExtension "m" = false) {ls : List (Bytes × Nat)}
    {s s' : State} {r : Record} (run : ls.foldlM (line full) s = .ok s')
    (clean : ∀ r ∈ s.records, r.multiplies = false)
    (first : s'.records.reverse.find? Record.multiplies = some r) :
    ∃ bs head, (bs, r.line) ∈ ls ∧ StartsWith bs r head ∧
      ls.foldlM (line base) s = .error ⟨.unknownMnemonic head.text, head.span r.line⟩ := by
  induction ls generalizing s with
  | nil =>
    obtain rfl := pure_eq_ok_iff.mp run
    have member := List.mem_of_find?_eq_some first
    have multiplies := List.find?_some first
    rw [clean r (List.mem_reverse.mp member)] at multiplies
    simp at multiplies
  | cons numbered ls ih =>
    obtain ⟨bs, n⟩ := numbered
    rw [List.foldlM_cons, bind_eq_ok_iff] at run
    obtain ⟨t, read, rest⟩ := run
    rw [List.foldlM_cons]
    -- The first use is in a later line or in this one.
    by_cases still : ∀ r ∈ t.records, r.multiplies = false
    · have shared : line base s (bs, n) = .ok t := by
        refine line_shared Config.shares_base read ?_
        intro r member
        exact Statement.allowed_of_plain (still r member)
      obtain ⟨bs', head, member, starts, refused⟩ := ih rest still
      rw [shared]
      exact ⟨bs', head, List.mem_cons_of_mem _ member, starts, refused⟩
    · obtain ⟨u, head, records, multiplies, rfl, starts, refused⟩ :=
        line_refused without read clean still
      -- Nothing read later comes before `u`, so `u` is still the first use at the end.
      obtain ⟨later, split⟩ := lines_suffix rest
      have none : s.records.reverse.find? Record.multiplies = none := by
        rw [List.find?_eq_none]
        intro r member
        simp [clean r (List.mem_reverse.mp member)]
      have found : s'.records.reverse.find? Record.multiplies = some u := by
        rw [← split, records, List.reverse_append, List.reverse_cons, List.append_assoc,
          List.find?_append, none, Option.none_or, List.singleton_append,
          List.find?_cons_of_pos multiplies]
      obtain rfl := Option.some.inj (found.symm.trans first)
      rw [refused]
      exact ⟨bs, head, List.mem_cons_self, starts, rfl⟩

end Refusal

end Parse

theorem parse_shared {allowed : String → Prop} {cfg cfg' : Config}
    (shares : cfg.Shares allowed cfg') {source : Bytes} {rs : List Record} (parsed : parse cfg source = .ok rs)
    (fine : ∀ r ∈ rs, r.statement.Allowed allowed) : parse cfg' source = .ok rs := by
  obtain ⟨s, run, idle, rfl⟩ := parse_eq_ok_iff.mp parsed
  refine parse_eq_ok_iff.mpr ⟨s, Parse.lines_shared shares run ?_, idle, rfl⟩
  intro r member
  exact fine r (List.mem_reverse.mpr member)

theorem parse_refused {base full : Config} (without : base.hasExtension "m" = false)
    {source : Bytes} {rs : List Record} {r : Record} (parsed : parse full source = .ok rs)
    (first : rs.find? Record.multiplies = some r) :
    ∃ bs head, (Text.lines source)[r.line]? = some bs ∧ Parse.StartsWith bs r head ∧
      parse base source = .error ⟨.unknownMnemonic head.text, head.span r.line⟩ := by
  obtain ⟨s, run, _, rfl⟩ := parse_eq_ok_iff.mp parsed
  obtain ⟨bs, head, member, starts, refused⟩ := Parse.lines_refused without run (by simp) first
  refine ⟨bs, head, List.mk_mem_zipIdx_iff_getElem?.mp member, starts, ?_⟩
  rw [parse, Parse.records, refused]
  rfl

theorem Instruction.mnemonic_withImm (inst : Instruction) (v : Operand) :
    (inst.withImm v).mnemonic = inst.mnemonic := by
  cases inst <;> rfl

namespace Link

variable {table : SymbolTable} {pc : UInt32}

theorem multiplies_of_statement {span : Span} {stmt linked : Statement}
    (result : statement table pc span stmt = .ok linked) :
    linked.multiplies = stmt.multiplies := by
  cases stmt with
  | inst i =>
    obtain ⟨i', changed, rfl⟩ := statement_inst_eq_ok_iff.mp result
    rcases instruction_cases changed with ⟨_, _, _, _, rfl⟩ | ⟨_, rfl⟩
    · simp only [Statement.multiplies, Instruction.mnemonic_withImm]
    · rfl
  | data d =>
    obtain ⟨_, _, rfl⟩ := statement_data_eq_ok_iff.mp result
    rfl

theorem Linked.find?_multiplies {us rs : List Record} (linked : Linked table pc us rs) :
    (rs.find? Record.multiplies).map (fun r => (r.line, r.span)) =
      (us.find? Record.multiplies).map fun u => (u.line, u.span) := by
  induction linked with
  | nil pc => rfl
  | @cons pc u stmt us rs first rest ih =>
    have same : Record.multiplies { u with statement := stmt } = u.multiplies :=
      multiplies_of_statement first
    by_cases here : u.multiplies = true
    · rw [List.find?_cons_of_pos here, List.find?_cons_of_pos (same.trans here)]
      rfl
    · rw [List.find?_cons_of_neg here, List.find?_cons_of_neg (same ▸ here), ih]

end Link

structure Program.SameOutput (p q : Program) : Prop where
  text : p.text = q.text
  data : p.data = q.data
  words : p.words = q.words
  symbols : p.symbols = q.symbols
  records : p.records = q.records
  code : p.code = q.code

theorem Program.Stages.sameOutput_under {cfg cfg' : Config} {source : Bytes} {us : List Record}
    {p : Program} (stages : p.Stages cfg source us) (orders : cfg.byteOrder = cfg'.byteOrder) :
    p.SameOutput (p.under cfg') := by
  have order : cfg.order = cfg'.order := by rw [Config.order, Config.order, orders]
  refine ⟨?_, ?_, rfl, rfl, rfl, rfl⟩
  · rw [Program.text, Program.text, Program.order, stages.config, order]
    rfl
  · rw [stages.data, order]
    rfl

/-- Without the extension, `base` gives the programs of `full` that do not use it, and refuses the
first use in the others. -/
structure Conservative (base full : Config) (source : Bytes) : Prop where
  kept : ∀ p, assemble base source = .ok p →
    ∃ q, assemble full source = .ok q ∧ p.SameOutput q
  plain : ∀ q, assemble full source = .ok q → (∀ r ∈ q.records, r.multiplies = false) →
    ∃ p, assemble base source = .ok p ∧ q.SameOutput p
  refused : ∀ q r, assemble full source = .ok q → q.records.find? Record.multiplies = some r →
    ∃ bs head, (Text.lines source)[r.line]? = some bs ∧ Parse.StartsWith bs r head ∧
      assemble base source = .error (.source ⟨.unknownMnemonic head.text, head.span r.line⟩)

theorem conservative_of_hasExtension {base full : Config} (valid : base.validate = .ok ())
    (valid' : full.validate = .ok ()) (orders : base.byteOrder = full.byteOrder)
    (without : base.hasExtension "m" = false) (source : Bytes) :
    Conservative base full source where
  kept p assembled := by
    obtain ⟨us, stages⟩ := assemble_stages assembled
    have parsed : parse full source = .ok us := by
      refine parse_shared (Config.shares_full without) stages.parsed ?_
      intro r _
      cases r.statement <;> trivial
    refine ⟨p.under full, ?_, stages.sameOutput_under orders⟩
    rw [assemble_under valid valid' (parsed.trans stages.parsed.symm), assembled]
    rfl
  plain q assembled unused := by
    obtain ⟨us, stages⟩ := assemble_stages assembled
    have found := stages.linked.find?_multiplies
    rw [List.find?_eq_none.mpr (by simpa using unused), Option.map_none, eq_comm,
      Option.map_eq_none_iff, List.find?_eq_none] at found
    have parsed : parse base source = .ok us := by
      refine parse_shared Config.shares_base stages.parsed ?_
      intro r member
      have plain : r.multiplies = false := by simpa using found r member
      exact Statement.allowed_of_plain plain
    refine ⟨q.under base, ?_, stages.sameOutput_under orders.symm⟩
    rw [assemble_under valid' valid (parsed.trans stages.parsed.symm), assembled]
    rfl
  refused q r assembled first := by
    obtain ⟨us, stages⟩ := assemble_stages assembled
    have found := stages.linked.find?_multiplies
    rw [first, Option.map_some, eq_comm, Option.map_eq_some_iff] at found
    obtain ⟨u, found, same⟩ := found
    obtain ⟨line, span⟩ := Prod.mk.inj same
    obtain ⟨bs, head, there, starts, refused⟩ := parse_refused without stages.parsed found
    rw [Parse.StartsWith, line, span] at starts
    rw [line] at there refused
    refine ⟨bs, head, there, starts, ?_⟩
    rw [assemble_eq, valid, refused]
    rfl

/-- Mnemonics of the extension as a label, as an operand and, in another letter case, as
themselves. -/
def remainderSource : Bytes :=
  Text.utf8 "mul: beq x1, x2, mul\n.word mul\nrem: REM x3, x4, x5\ndiv x6, x7, x8"

theorem conservative_remainderSource :
    (assemble ⟨"little", some ["M"]⟩ remainderSource).isOk = true ∧
      Conservative ⟨"little", none⟩ ⟨"little", some ["M"]⟩ remainderSource := by
  have valid : Config.validate ⟨"little", none⟩ = .ok () := by decide +kernel
  have valid' : Config.validate ⟨"little", some ["M"]⟩ = .ok () := by decide +kernel
  have without : Config.hasExtension ⟨"little", none⟩ "m" = false := by decide +kernel
  exact ⟨by decide +kernel, conservative_of_hasExtension valid valid' rfl without _⟩

end Rv32Asm
