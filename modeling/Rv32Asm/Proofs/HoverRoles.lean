import Rv32Asm.Hover.Basic
import Rv32Asm.Proofs.HoverTexts
import Rv32Asm.Proofs.SourceLines

/-!
What an editor tells of the tokens of an assembled source.

An operand is described by its spelling alone, while the reader goes by its place in the statement.
The two differ for a register that is written as a number and for a label that is spelled like a
register. A label that is described as one is always a label of the statement, and the value shown
for it is the number that linking put in its place.
-/

set_option autoImplicit false
set_option relaxedAutoImplicit false

namespace Rv32Asm

open Rv32Asm.Text
open Rv32Asm.Token
open Rv32Asm.Outcome
open Rv32Asm.Operands
open Rv32Asm.Phrase
open Rv32Asm.Parse

theorem latin_inj {a b : Bytes} (same : latin a = latin b) : a = b := by
  have byte : ∀ c : UInt8, UInt8.ofNat (Char.ofNat c.toNat).toNat = c :=
    forall_byte (by decide +kernel)
  have chars := congrArg String.toList same
  rw [latin, latin, String.toList_ofList, String.toList_ofList] at chars
  have codes := congrArg (List.map fun c => UInt8.ofNat c.toNat) chars
  simpa [Function.comp_def, byte] using codes

theorem Register.read_of_ofName? {text : Bytes} {r : Register} (lexeme : Lexeme .number text)
    (known : ofName? (latin text) = some r) : Number.read text = .ok r.toNat := by
  have table : spellings.all (fun e => decide (latin (utf8 e.1) = e.1 ∧
      ((utf8 e.1).head?.any (fun b => isNameStart b) = true ∨
        Number.read (utf8 e.1) = .ok (e.2.toNat : Int)))) = true := by
    decide +kernel
  obtain ⟨plain, spelled⟩ :=
    of_decide_eq_true (List.all_eq_true.mp table _ (mem_spellings known))
  rw [latin_inj plain] at spelled
  rcases spelled with name | value
  · cases lexeme with
    | mark mark => simpa using punctuation?_mem mark
    | @number b body starts =>
      have other : ∀ b : UInt8, isNameStart b = true →
          (isDigit b || (b == ascii '-' || b == ascii '+')) = false :=
        forall_byte (by decide +kernel)
      have first := other b (by simpa using name)
      simp_all [startsNumber]
  · exact value

namespace Token

theorem Scans.eq_of_column {col : Nat} {bs : Bytes} {ts : List Token} (scans : Scans col bs ts)
    {i j : Nat} {t u : Token} {char : Int} (left : ts[i]? = some t) (right : ts[j]? = some u)
    (inside : t.start ≤ char ∧ char < t.stop) (inside' : u.start ≤ char ∧ char < u.stop) :
    i = j := by
  have before {i j : Nat} {t u : Token} (left : ts[i]? = some t) (right : ts[j]? = some u)
      (lt : i < j) : t.stop ≤ u.start := by
    obtain ⟨below, rfl⟩ := List.getElem?_eq_some_iff.mp left
    obtain ⟨below', rfl⟩ := List.getElem?_eq_some_iff.mp right
    exact List.pairwise_iff_getElem.mp scans.ordered i j below below' lt
  rcases Nat.lt_trichotomy i j with lt | same | gt
  · have order := before left right lt
    omega
  · exact same
  · have order := before right left gt
    omega

end Token

/-- How the role of an operand token is shown. A register that is written as a number is shown as
the number, and a label that is spelled like a register is shown as the register. -/
def Role.shownAs (t : Token) : Role → Role
  | .register r => if t.kind = .number then .number r.toNat else .register r
  | .number v => .number v
  | .label name =>
    match Register.ofName? (latin name) with
    | some r => .register r
    | none => .label name

/-- The spelling of the token hides its role. -/
def Role.Disguised (t : Token) : Role → Prop
  | .register _ => t.kind = .number
  | .number _ => False
  | .label name => (Register.ofName? (latin name)).isSome = true

theorem Role.shownAs_eq_iff {t : Token} {role : Role} :
    role.shownAs t = role ↔ ¬ role.Disguised t := by
  cases role with
  | register r =>
    unfold shownAs Disguised
    split <;> simp_all
  | number v => simp [shownAs, Disguised]
  | label name => cases known : Register.ofName? (latin name) <;> simp [shownAs, Disguised, known]

theorem Token.Fills.of_shownAs {t : Token} {role : Role} {name : Bytes}
    (fills : t.Fills (some role)) (shown : role.shownAs t = .label name) :
    t.kind = .ident ∧ name = t.text := by
  cases fills with
  | register =>
    simp only [Role.shownAs] at shown
    split at shown <;> simp at shown
  | number => simp [Role.shownAs] at shown
  | label kind =>
    cases known : Register.ofName? (latin t.text) with
    | some r => simp [Role.shownAs, known] at shown
    | none =>
      simp only [Role.shownAs, known, Role.label.injEq] at shown
      exact ⟨kind, shown.symm⟩

namespace Hover

inductive Describes (i : Instruction) (t : Token) : Role → Bytes → Prop
  | register (r : Register) :
      Describes i t (.register r) (utf8 (Hover.register r (latin t.text)))
  | number (v : Int) : Describes i t (.number v) (integerLiteral v)
  | label (name : Bytes) {v : Int} (value : i.imm? = some (.num v)) :
      Describes i t (.label name) (labelReference name v)

/-- A text is about one role only. -/
theorem Describes.unique {i : Instruction} {t : Token} {role other : Role} {text : Bytes}
    (plain : ∀ name, role = .label name → tick ∉ name) (describes : Describes i t role text)
    (again : Describes i t other text) : other = role := by
  have registers {r : Register} {name : String} {text : Bytes}
      (same : utf8 (Hover.register r name) = text) : text.take 3 ∈ registerOpenings :=
    same ▸ List.mem_of_getElem? (take_register r name)
  have numbers (v : Int) : (integerLiteral v).take 3 ∉ registerOpenings := by
    rw [take_integerLiteral]
    decide +kernel
  have labels (name : Bytes) (v : Int) : (labelReference name v).take 3 ∉ registerOpenings := by
    rw [take_labelReference]
    decide +kernel
  have apart (v w : Int) (name : Bytes) : integerLiteral v ≠ labelReference name w := by
    intro same
    have start := congrArg (List.take 3) same
    rw [take_integerLiteral, take_labelReference] at start
    revert start
    decide
  cases describes with
  | register r =>
    generalize shown : utf8 (Hover.register r (latin t.text)) = text at again
    cases again with
    | register q => rw [register_inj shown]
    | number v => exact absurd (registers shown) (numbers v)
    | label name => exact absurd (registers shown) (labels name _)
  | number v =>
    generalize shown : integerLiteral v = text at again
    cases again with
    | register q => exact absurd (registers shown.symm) (numbers v)
    | number w => rw [integerLiteral_inj shown]
    | label name => exact absurd shown (apart v _ name)
  | @label name v value =>
    generalize shown : labelReference name v = text at again
    cases again with
    | register q => exact absurd (registers shown.symm) (labels name v)
    | number w => exact absurd shown.symm (apart w v name)
    | label other => rw [(labelReference_inj (plain name rfl) shown).1]

theorem labelTokens_append {n : Nat} {labels : List Label} {front rest : List Token}
    (labelled : Labelled n labels front) (last : nextIs .colon (rest.drop 1) = false) :
    labelTokens (front ++ rest) = front.length := by
  induction labelled with
  | nil =>
    rcases rest with _ | ⟨t, _ | ⟨colon, rest⟩⟩
    · rfl
    · rfl
    · have other : colon.kind ≠ .colon := by
        intro mark
        simp [nextIs, mark] at last
      simp [labelTokens, other]
  | cons _ mark _ ih => simp [labelTokens, mark, ih]

theorem operand_of_fills {p : Program} {n : Nat} {t : Token} {role : Role} {i : Instruction}
    (lexeme : Lexeme t.kind t.text) (fills : t.Fills (some role))
    (record : (p.recordAt? n).bind Record.instruction? = some i)
    (resolved : ∀ name, role = .label name →
      ∃ s v, p.symbols.find? name = some s ∧ i.imm? = some (.num v)) :
    ∃ text, operand p n t = some text ∧ Describes i t (role.shownAs t) text := by
  cases fills with
  | @register r name =>
    obtain ⟨kind | kind, known⟩ := name
    · refine ⟨utf8 (Hover.register r (latin t.text)), ?_, ?_⟩
      · simp only [operand, kind, known]
      · have shown : (Role.register r).shownAs t = .register r := by simp [Role.shownAs, kind]
        rw [shown]
        exact .register r
    · have value := Register.read_of_ofName? (kind ▸ lexeme) known
      refine ⟨integerLiteral r.toNat, ?_, ?_⟩
      · simp [operand, kind, value, Except.toOption]
      · have shown : (Role.register r).shownAs t = .number r.toNat := by simp [Role.shownAs, kind]
        rw [shown]
        exact .number r.toNat
  | @number v kind value =>
    refine ⟨integerLiteral v, ?_, .number v⟩
    simp [operand, kind, value, Except.toOption]
  | label kind =>
    cases known : Register.ofName? (latin t.text) with
    | some r =>
      refine ⟨utf8 (Hover.register r (latin t.text)), ?_, ?_⟩
      · simp only [operand, kind, known]
      · have shown : (Role.label t.text).shownAs t = .register r := by simp [Role.shownAs, known]
        rw [shown]
        exact .register r
    | none =>
      obtain ⟨s, v, found, value⟩ := resolved t.text rfl
      refine ⟨labelReference t.text v, ?_, ?_⟩
      · simp [operand, kind, known, found, referenceValue, record, value]
      · have shown : (Role.label t.text).shownAs t = .label t.text := by simp [Role.shownAs, known]
        rw [shown]
        exact .label t.text value

end Hover

namespace Program

variable {cfg : Config} {source : Bytes} {us : List Record} {p : Program}

theorem hover?_at {n i : Nat} {bs : Bytes} {ts : List Token} {t : Token} {char : Int}
    (line : p.source[n]? = some bs) (scanned : Token.scan n bs = .ok ts) (here : ts[i]? = some t)
    (inside : t.start ≤ char ∧ char < t.stop) :
    p.hover? n char = Hover.token p n (Hover.labelTokens ts) i t := by
  have scans := Token.scans_of_scanFrom scanned
  have found : ts.zipIdx.find? (fun e => (e.1.start : Int) ≤ char && char < e.1.stop) =
      some (t, i) := by
    rw [find?_eq_some_iff_of_unique]
    · exact ⟨List.mem_zipIdx_iff_getElem?.mpr here, by simpa using inside⟩
    · rintro ⟨u, j⟩ left ⟨v, k⟩ right first second
      have here : ts[j]? = some u := List.mem_zipIdx_iff_getElem?.mp left
      have there : ts[k]? = some v := List.mem_zipIdx_iff_getElem?.mp right
      simp only [Bool.and_eq_true, decide_eq_true_eq] at first second
      obtain rfl : j = k := scans.eq_of_column here there first second
      rw [Option.some.inj (here.symm.trans there)]
  have nonneg : ¬ (n : Int) < 0 := by omega
  simp only [hover?, nonneg, if_false, Int.toNat_natCast, line, scanned]
  generalize result : List.find? _ ts.zipIdx = first
  obtain rfl : first = some (t, i) := result.symm.trans found
  rfl

theorem exists_of_hover? {line char : Int} {text : Bytes} (shown : p.hover? line char = some text) :
    ∃ n bs ts i t, line = (n : Nat) ∧ p.source[n]? = some bs ∧ Token.scan n bs = .ok ts ∧
      ts[i]? = some t ∧ (t.start ≤ char ∧ char < t.stop) ∧
      Hover.token p n (Hover.labelTokens ts) i t = some text := by
  unfold hover? at shown
  split at shown
  · simp at shown
  rename_i nonneg
  split at shown
  · simp at shown
  rename_i bs here
  split at shown
  · simp at shown
  rename_i ts scanned
  split at shown
  · simp at shown
  rename_i t i found
  refine ⟨line.toNat, bs, ts, i, t, by omega, here, scanned, ?_, ?_, shown⟩
  · exact List.mem_zipIdx_iff_getElem?.mp (List.mem_of_find?_eq_some found)
  · simpa using List.find?_some found

theorem Stages.linked_at (stages : p.Stages cfg source us) {k : Nat} {u : Record}
    (here : us[k]? = some u) :
    ∃ r pc, p.records[k]? = some r ∧ r.line = u.line ∧ p.recordAt? u.line = some r ∧
      Link.statement p.symbols pc u.span u.statement = .ok r.statement := by
  obtain ⟨pc, stmt, _, result, place⟩ := stages.linked.record_at here
  refine ⟨{ u with statement := stmt }, pc, place, rfl, ?_, result⟩
  exact stages.recordAt?_eq_some_iff.mpr ⟨List.mem_of_getElem? place, rfl⟩

theorem hover?_of_divides (assembled : assemble cfg source = .ok p) {n : Nat} {bs : Bytes}
    {front rest : List Token} {head t : Token} (line : (lines source)[n]? = some bs)
    (divides : Divides n bs front head rest) (member : t ∈ rest) {char : Int}
    (inside : t.start ≤ char ∧ char < t.stop) :
    p.hover? n char = Hover.operand p n t := by
  obtain ⟨k, here⟩ := List.getElem?_of_mem member
  obtain ⟨labels, labelled⟩ := divides.labelled
  have first : Hover.labelTokens (front ++ head :: rest) = front.length :=
    Hover.labelTokens_append labelled divides.last
  have place : (front ++ head :: rest)[front.length + (k + 1)]? = some t := by
    rw [List.getElem?_append_right (by omega), Nat.add_sub_cancel_left, List.getElem?_cons_succ,
      here]
  have known : p.source[n]? = some bs := by
    rw [source_of_assemble assembled, List.getElem?_toArray, line]
  rw [hover?_at known divides.scanned place inside, Hover.token, first, if_neg (by omega),
    if_neg (by omega)]

theorem Stages.exists_linked_at (stages : p.Stages cfg source us) {r : Record}
    (member : r ∈ p.records) :
    ∃ (k : Nat) (u : Record) (pc : UInt32), us[k]? = some u ∧ p.records[k]? = some r ∧
      r.line = u.line ∧ Link.statement p.symbols pc u.span u.statement = .ok r.statement := by
  obtain ⟨k, place⟩ := List.getElem?_of_mem member
  have inside : k < us.length := by
    rw [stages.linked.length_eq]
    exact (List.getElem?_eq_some_iff.mp place).1
  obtain ⟨q, pc, there, line, _, result⟩ := stages.linked_at (List.getElem?_eq_getElem inside)
  obtain rfl := Option.some.inj (place.symm.trans there)
  exact ⟨k, _, pc, List.getElem?_eq_getElem inside, place, line, result⟩

/-- The operand tokens of instructions are described by their spelling. -/
structure HoversBySpelling (cfg : Config) (source : Bytes) (p : Program) : Prop where
  instructions : ∀ r ∈ p.records, ∀ i, r.statement = .inst i →
    ∃ rest ps inst, Reads cfg source r.line rest ps (.inst inst)
  /-- The text at every column of an operand token is about one role. That is the role in which the
  token was read, unless the spelling hides it. -/
  operands : ∀ n rest ps inst, Reads cfg source n rest ps (.inst inst) →
    ∃ r i, p.recordAt? n = some r ∧ r.statement = .inst i ∧
      ∀ j t role, Plays ps rest j t role → ∀ char : Int, t.start ≤ char → char < t.stop →
        ∃ text, p.hover? n char = some text ∧ Hover.Describes i t (role.shownAs t) text ∧
          (∀ other, Hover.Describes i t other text → other = role.shownAs t) ∧
          (role.shownAs t = role ↔ ¬ role.Disguised t)
  /-- The other tokens are marks, and nothing is told of them. -/
  marks : ∀ n rest ps inst, Reads cfg source n rest ps (.inst inst) → ∀ t ∈ rest,
    (∃ j role, Plays ps rest j t role) ∨ t.kind ∈ [.comma, .openParen, .closeParen] ∧
      ∀ char : Int, t.start ≤ char → char < t.stop → p.hover? n char = none

theorem hoversBySpelling_of_assemble (assembled : assemble cfg source = .ok p) :
    p.HoversBySpelling cfg source := by
  obtain ⟨us, stages⟩ := assemble_stages assembled
  constructor
  case instructions =>
    intro r member i statement
    obtain ⟨k, u, pc, here, _, line, result⟩ := stages.exists_linked_at member
    obtain ⟨bs, front, head, rest, source, divides, form⟩ :=
      record_on_line stages.parsed (List.mem_of_getElem? here)
    cases unlinked : u.statement with
    | inst inst =>
      rw [unlinked] at form
      obtain ⟨_, ⟨ps, reading⟩ | ⟨t, _, _, data⟩⟩ := form.reading
      · exact ⟨rest, ps, inst, line ▸ .intro source divides reading⟩
      · simp [Statement.segment] at data
    | data d =>
      rw [unlinked, statement] at result
      obtain ⟨d', _, other⟩ := Link.statement_data_eq_ok_iff.mp result
      simp at other
  case operands =>
    intro n rest ps inst reads
    obtain ⟨u, member, here, unlinked⟩ := reads.record stages.parsed
    obtain ⟨k, place⟩ := List.getElem?_of_mem member
    obtain ⟨r, pc, _, _, record, result⟩ := stages.linked_at place
    rw [here] at record
    have linked := result
    rw [unlinked] at linked
    obtain ⟨i, linked, statement⟩ := Link.statement_inst_eq_ok_iff.mp linked
    refine ⟨r, i, record, statement, ?_⟩
    intro j t role plays char least greatest
    obtain ⟨line, divides, reading⟩ := reads
    obtain ⟨bounds, listed⟩ := reading.listed
    have member : t ∈ rest := (List.mem_filter.mp (List.mem_of_getElem? plays.here)).1
    have fills := plays.fills listed
    have lexeme : Lexeme t.kind t.text :=
      (scans_of_scanFrom divides.scanned).lexemes t (by simp [member])
    have instruction : (p.recordAt? n).bind Record.instruction? = some i := by
      simp [record, Record.instruction?, statement]
    have resolved : ∀ name, role = .label name →
        ∃ s v, p.symbols.find? name = some s ∧ i.imm? = some (.num v) := by
      rintro name rfl
      have ref := reading.valueAt_of_label plays.part
      rw [← unlinked] at ref
      obtain ⟨s, v, found, value, _⟩ := Link.valueAt_linked result ref
      rw [statement] at value
      exact ⟨s, v, found, value⟩
    obtain ⟨text, shown, describes⟩ := Hover.operand_of_fills lexeme fills instruction resolved
    refine ⟨text, ?_, describes, ?_, Role.shownAs_eq_iff⟩
    · rw [hover?_of_divides assembled line divides member ⟨least, greatest⟩, shown]
    · intro other again
      refine describes.unique ?_ again
      intro name label
      obtain ⟨kind, rfl⟩ := fills.of_shownAs label
      exact Hover.tick_not_mem_of_lexeme (kind ▸ lexeme)
  case marks =>
    rintro n rest ps inst ⟨line, divides, reading⟩ t member
    obtain ⟨bounds, listed⟩ := reading.listed
    rcases listed.plays_or_mark member with plays | mark
    · exact .inl plays
    · right
      refine ⟨mark, ?_⟩
      intro char least greatest
      rw [hover?_of_divides assembled line divides member ⟨least, greatest⟩, Hover.operand]
      simp only [List.mem_cons, List.not_mem_nil, or_false] at mark
      rcases mark with kind | kind | kind <;> rw [kind]

def disguisedSource : Bytes :=
  utf8 "a0: add 1, x2 ra\n  LW t0, -4(sp) # load\n beq a0, 0, end\nj a0\nend: ret"

theorem hoversBySpelling_disguisedSource :
    ∃ p, assemble .standard disguisedSource = .ok p ∧
      p.HoversBySpelling .standard disguisedSource ∧
      p.hover? 0 8 = some (Hover.integerLiteral 1) ∧
      p.hover? 2 5 = some (utf8 (Hover.register 10 "a0")) ∧
      p.hover? 2 14 = some (Hover.labelReference (utf8 "end") 8) ∧
      p.hover? 3 2 = some (utf8 (Hover.register 10 "a0")) := by
  have run : (assemble .standard disguisedSource).map (fun p =>
      (p.hover? 0 8, p.hover? 2 5, p.hover? 2 14, p.hover? 3 2)) =
      .ok (some (Hover.integerLiteral 1), some (utf8 (Hover.register 10 "a0")),
        some (Hover.labelReference (utf8 "end") 8), some (utf8 (Hover.register 10 "a0"))) := by
    decide +kernel
  obtain ⟨p, assembled, same⟩ := map_eq_ok_iff.mp run
  simp only [Prod.mk.injEq] at same
  exact ⟨p, assembled, hoversBySpelling_of_assemble assembled, same⟩

/-- The first operand of an addition is read as a register and shown as a number, and the target of
a jump is read as a label and shown as a register. -/
theorem disguised_operands_misread :
    (∃ p rest ps inst j t, assemble .standard (utf8 "add 1, 2, 3") = .ok p ∧
      Reads .standard (utf8 "add 1, 2, 3") 0 rest ps (.inst inst) ∧
      Plays ps rest j t (.register 1) ∧ t.start = 4 ∧
      p.hover? 0 4 = some (Hover.integerLiteral 1) ∧
      ∀ i, ¬ Hover.Describes i t (.register 1) (Hover.integerLiteral 1)) ∧
    ∃ p rest ps inst j t, assemble .standard (utf8 "a0: j a0") = .ok p ∧
      Reads .standard (utf8 "a0: j a0") 0 rest ps (.inst inst) ∧
      Plays ps rest j t (.label (utf8 "a0")) ∧ t.start = 6 ∧
      p.hover? 0 6 = some (utf8 (Hover.register 10 "a0")) ∧
      ∀ i, ¬ Hover.Describes i t (.label (utf8 "a0")) (utf8 (Hover.register 10 "a0")) := by
  constructor
  · let head : Token := ⟨.ident, utf8 "add", 0, 3⟩
    let first : Token := ⟨.number, utf8 "1", 4, 5⟩
    let second : Token := ⟨.number, utf8 "2", 7, 8⟩
    let third : Token := ⟨.number, utf8 "3", 10, 11⟩
    let rest : List Token :=
      [first, ⟨.comma, utf8 ",", 5, 6⟩, second, ⟨.comma, utf8 ",", 8, 9⟩, third]
    have run : (assemble .standard (utf8 "add 1, 2, 3")).map (fun p => p.hover? 0 4) =
        .ok (some (Hover.integerLiteral 1)) := by decide +kernel
    obtain ⟨p, assembled, shown⟩ := map_eq_ok_iff.mp run
    have divides : Divides 0 (utf8 "add 1, 2, 3") [] head rest :=
      ⟨by decide +kernel, ⟨[], .nil⟩, rfl, rfl⟩
    have known : Config.standard.opcode? head.lowered =
        some (Opcode.rr "add" 0b000 0b0000000 .base) := by decide +kernel
    have listed (bounds : Bounds) : Listed bounds [.reg 1, .reg 2, .reg 3] rest :=
      .cons (.reg ⟨.inr rfl, by decide +kernel⟩)
        (.cons (.comma rfl) (.reg ⟨.inr rfl, by decide +kernel⟩)
          (.cons (.comma rfl) (.reg ⟨.inr rfl, by decide +kernel⟩) .nil))
    refine ⟨p, rest, _, _, 0, first, assembled,
      .intro (by decide +kernel) divides (.mnemonic known (listed _) .r), ⟨rfl, rfl⟩, rfl, shown,
      ?_⟩
    intro i describes
    have other := Hover.Describes.unique (by simp) (.number 1) describes
    simp at other
  · let head : Token := ⟨.ident, utf8 "j", 4, 5⟩
    let target : Token := ⟨.ident, utf8 "a0", 6, 8⟩
    have run : (assemble .standard (utf8 "a0: j a0")).map (fun p => p.hover? 0 6) =
        .ok (some (utf8 (Hover.register 10 "a0"))) := by decide +kernel
    obtain ⟨p, assembled, shown⟩ := map_eq_ok_iff.mp run
    have divides : Divides 0 (utf8 "a0: j a0")
        [⟨.ident, utf8 "a0", 0, 2⟩, ⟨.colon, utf8 ":", 2, 3⟩] head [target] :=
      ⟨by decide +kernel, ⟨_, .cons rfl rfl .nil⟩, rfl, rfl⟩
    have known : head.lowered = Pseudo.j.name := by decide +kernel
    refine ⟨p, [target], _, _, 0, target, assembled, .intro (by decide +kernel) divides
      (.shorthand known (.cons (.val (.label rfl)) .nil) .j), ⟨rfl, rfl⟩, rfl, shown, ?_⟩
    intro i describes
    have plain : Hover.tick ∉ utf8 "a0" := by decide
    have name : latin target.text = "a0" := by decide +kernel
    have other := Hover.Describes.unique (by simpa using plain) describes
      (name ▸ .register 10 :
        Hover.Describes i target (.register 10) (utf8 (Hover.register 10 "a0")))
    simp at other

end Program

end Rv32Asm
