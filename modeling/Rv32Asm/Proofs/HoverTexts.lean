import Rv32Asm.Proofs.OperandRoles
import Rv32Asm.Proofs.ReadBack
import Rv32Asm.Proofs.Utf8

/-!
What can be told from the texts that an editor shows.

The first three bytes say what is described: a register, a number, a label where it is used or
where it is defined, or a keyword. What is described can then be read off the text: the number of
the register, the value, the name of the label with its value, or with its segment and offset.
-/

set_option autoImplicit false
set_option relaxedAutoImplicit false

namespace Rv32Asm

open Rv32Asm.Text
open Rv32Asm.Token

namespace Number

theorem Radix.Spells.unique {r : Radix} {digits : Bytes} {n m : Nat} (spells : r.Spells digits n)
    (again : r.Spells digits m) : n = m := by
  obtain ⟨ds, each, rfl⟩ := spells
  obtain ⟨es, others, rfl⟩ := again
  have same : ds = es := by
    induction each generalizing es with
    | nil =>
      cases others
      rfl
    | cons digit _ ih =>
      cases others with
      | cons digit' others =>
        have head := (Radix.digit_iff.mp digit).1.symm.trans (Radix.digit_iff.mp digit').1
        rw [Option.some.inj head, ih _ others]
  rw [same]

theorem decimal_inj {n m : Nat} (same : decimal n = decimal m) : n = m := by
  have spells := spells_decimal n
  rw [same] at spells
  exact spells.unique (spells_decimal m)

theorem decimalInt_inj {v w : Int} (same : decimalInt v = decimalInt w) : v = w := by
  have minus (n : Nat) (rest : Bytes) : decimal n ≠ ascii '-' :: rest := by
    intro split
    have digit := isDigit_of_spells (spells_decimal n) (ascii '-') (by simp [split])
    revert digit
    decide
  cases v with
  | ofNat n =>
    cases w with
    | ofNat m => exact congrArg Int.ofNat (decimal_inj same)
    | negSucc m => exact absurd same (minus n _)
  | negSucc n =>
    cases w with
    | ofNat m => exact absurd same.symm (minus m _)
    | negSucc m =>
      have digits := decimal_inj (List.cons.inj same).2
      rw [Nat.succ.inj digits]

end Number

namespace Hover

def tick : UInt8 := 0x60

theorem tick_not_mem_of_spells {r : Number.Radix} {digits : Bytes} {n : Nat}
    (spells : r.Spells digits n) : tick ∉ digits := by
  obtain ⟨ds, each, -⟩ := spells
  induction each with
  | nil => simp
  | cons digit _ ih =>
    rw [List.mem_cons, not_or]
    refine ⟨?_, ih⟩
    rintro rfl
    have value := (Number.Radix.digit_iff.mp digit).1
    have none : Number.digitValue? tick = none := by decide
    simp [none] at value

theorem tick_not_mem_decimalInt (v : Int) : tick ∉ decimalInt v := by
  have digits (n : Nat) := tick_not_mem_of_spells (Number.spells_decimal n)
  cases v with
  | ofNat n => exact digits n
  | negSucc n =>
    show tick ∉ ascii '-' :: decimal (n + 1)
    rw [List.mem_cons, not_or]
    exact ⟨by decide, digits (n + 1)⟩

theorem tick_not_mem_of_lexeme {text : Bytes} (lexeme : Lexeme .ident text) : tick ∉ text := by
  cases lexeme with
  | mark known =>
    have kind := punctuation?_mem known
    simp at kind
  | @ident b body start names =>
    have other : isNameByte tick = false := by decide
    intro member
    rcases List.mem_cons.mp member with rfl | member
    · simp [isNameByte, start] at other
    · simp [names tick member] at other

theorem spells_hexNumber (n : Nat) :
    Number.Radix.hexadecimal.Spells ((hexNumber n).map ascii) n ∧
      Number.Radix.hexadecimal.Spells ((hexNumber n).map fun c => ascii c.toUpper) n := by
  have table : ∀ d : Fin 16, Number.Radix.hexadecimal.Digit (ascii (Nat.digitChar d)) d ∧
      Number.Radix.hexadecimal.Digit (ascii (Nat.digitChar d).toUpper) d := by
    simp only [Number.Radix.Digit]
    decide
  constructor
  · exact Number.spells_toDigits (r := .hexadecimal) (fun d below => (table ⟨d, below⟩).1) n
  · exact Number.spells_toDigits (r := .hexadecimal) (fun d below => (table ⟨d, below⟩).2) n

/-- What stands before a mark, and what comes after it, if both sides have as many marks there. -/
theorem quoted_inj {a b x y : Bytes} (plain : tick ∉ a) (marks : x.count tick = y.count tick)
    (same : a ++ tick :: x = b ++ tick :: y) : a = b ∧ x = y := by
  rcases List.append_eq_append_iff.mp same with ⟨c, rfl, split⟩ | ⟨c, rfl, split⟩
  · cases c with
    | nil => simpa using split
    | cons d c =>
      rw [List.cons_append] at split
      rw [(List.cons.inj split).2, List.count_append, List.count_cons_self] at marks
      omega
  · cases c with
    | nil => simpa [eq_comm] using split
    | cons d c =>
      obtain ⟨rfl, _⟩ := List.cons.inj split
      simp at plain

theorem labelReference_eq (name : Bytes) (v : Int) :
    labelReference name v = utf8 "Reference to label `" ++
      (name ++ tick :: (utf8 "\n\nEvaluates to `" ++ (decimalInt v ++ [tick]))) := by
  have middle : utf8 "`\n\nEvaluates to `" = tick :: utf8 "\n\nEvaluates to `" := by decide
  have last : utf8 "`" = [tick] := by decide
  rw [labelReference, middle, last]
  simp only [List.append_assoc, List.cons_append]

theorem labelReference_inj {name other : Bytes} {v w : Int} (plain : tick ∉ name)
    (same : labelReference name v = labelReference other w) : name = other ∧ v = w := by
  rw [labelReference_eq, labelReference_eq, List.append_cancel_left_eq] at same
  have marks : (utf8 "\n\nEvaluates to `" ++ (decimalInt v ++ [tick])).count tick =
      (utf8 "\n\nEvaluates to `" ++ (decimalInt w ++ [tick])).count tick := by
    simp only [List.count_append, List.count_eq_zero.mpr (tick_not_mem_decimalInt _)]
  obtain ⟨names, values⟩ := quoted_inj plain marks same
  rw [List.append_cancel_left_eq, List.append_cancel_right_eq] at values
  exact ⟨names, Number.decimalInt_inj values⟩

theorem integerLiteral_inj {v w : Int} (same : integerLiteral v = integerLiteral w) : v = w := by
  have middle : utf8 "` (`0x" = tick :: utf8 " (`0x" := by decide
  have none (u : Int) := List.count_eq_zero.mpr
    (tick_not_mem_of_spells (spells_hexNumber (UInt32.ofInt u).toNat).1)
  simp only [integerLiteral, middle, List.append_assoc, List.cons_append,
    List.append_cancel_left_eq] at same
  have digits :=
    quoted_inj (tick_not_mem_decimalInt v) (by simp only [List.count_append, none]) same
  exact Number.decimalInt_inj digits.1

def offsetWord (segment : Segment) : String :=
  if segment = .text then "Address" else "Offset"

def definitionRest (segment : Segment) (offset : Nat) : Bytes :=
  utf8 ".\n\n" ++ (utf8 (offsetWord segment) ++ (utf8 " of 0x"
    ++ ((hexNumber offset).map (fun c => ascii c.toUpper)
      ++ (utf8 " in the " ++ (utf8 segment.name ++ utf8 " segment")))))

theorem labelDefinition_eq (s : Symbol) :
    labelDefinition s = utf8 "Definition of label `" ++
      (s.name ++ tick :: definitionRest s.segment s.offset.toNat) := by
  have middle : utf8 "`.\n\n" = tick :: utf8 ".\n\n" := by decide
  obtain ⟨name, segment, offset, line⟩ := s
  cases segment
  all_goals
    simp only [labelDefinition, middle, definitionRest, List.append_assoc, List.cons_append]
    rfl

theorem count_tick_definitionRest (segment : Segment) (offset : Nat) :
    (definitionRest segment offset).count tick = 0 := by
  have none := List.count_eq_zero.mpr (tick_not_mem_of_spells (spells_hexNumber offset).2)
  simp only [definitionRest, List.count_append, none]
  cases segment <;> decide

theorem definitionRest_inj {a b : Segment} {m n : Nat}
    (same : definitionRest a m = definitionRest b n) : a = b ∧ m = n := by
  have text (offset : Nat) : (definitionRest .text offset).take 4 = utf8 ".\n\nA" := rfl
  have data (offset : Nat) : (definitionRest .data offset).take 4 = utf8 ".\n\nO" := rfl
  have segments : a = b := by
    have start := congrArg (List.take 4) same
    cases a <;> cases b
    · rfl
    · rw [text, data] at start
      revert start
      decide
    · rw [text, data] at start
      revert start
      decide
    · rfl
  subst segments
  simp only [definitionRest, List.append_cancel_left_eq, List.append_cancel_right_eq] at same
  have spells := (spells_hexNumber m).2
  rw [same] at spells
  exact ⟨rfl, spells.unique (spells_hexNumber n).2⟩

theorem labelDefinition_inj {s t : Symbol} (plain : tick ∉ s.name)
    (same : labelDefinition s = labelDefinition t) :
    s.name = t.name ∧ s.segment = t.segment ∧ s.offset = t.offset := by
  rw [labelDefinition_eq, labelDefinition_eq, List.append_cancel_left_eq] at same
  have marks := (count_tick_definitionRest s.segment s.offset.toNat).trans
    (count_tick_definitionRest t.segment t.offset.toNat).symm
  obtain ⟨names, rest⟩ := quoted_inj plain marks same
  obtain ⟨segments, offsets⟩ := definitionRest_inj rest
  exact ⟨names, segments, UInt32.toNat_inj.mp offsets⟩

theorem take_labelReference (name : Bytes) (v : Int) :
    (labelReference name v).take 3 = utf8 "Ref" := rfl

theorem take_labelDefinition (s : Symbol) : (labelDefinition s).take 3 = utf8 "Def" := rfl

theorem take_integerLiteral (v : Int) : (integerLiteral v).take 3 = utf8 "Int" := rfl

/-- The first bytes say that no label is described. -/
def Unlabelled (text : Bytes) : Prop :=
  3 ≤ text.length ∧ text.take 3 ≠ utf8 "Ref" ∧ text.take 3 ≠ utf8 "Def"

instance (text : Bytes) : Decidable (Unlabelled text) := inferInstanceAs (Decidable (_ ∧ _))

theorem Unlabelled.append {a : String} (unlabelled : Unlabelled (utf8 a)) (b : String) :
    Unlabelled (utf8 (a ++ b)) := by
  obtain ⟨long, start⟩ := unlabelled
  rw [utf8_append]
  refine ⟨?_, ?_⟩
  · rw [List.length_append]
    omega
  · rwa [List.take_append_of_le_length long]

theorem instruction_unlabelled (op : Opcode) : Unlabelled (utf8 (instruction op)) := by
  have titles : ∀ e ∈ instructionDocs,
      Unlabelled (utf8 e.2.title ++ utf8 " Instruction.\n\nFormat: `") := by decide +kernel
  have title : Unlabelled (utf8 ((instructionDocs.lookup op.name).getD ⟨"", ""⟩).title ++
      utf8 " Instruction.\n\nFormat: `") := by
    cases found : instructionDocs.lookup op.name with
    | none => decide
    | some doc =>
      obtain ⟨before, after, split, _⟩ := List.lookup_eq_some_iff.mp found
      exact titles (op.name, doc) (by simp [split])
  rw [← utf8_append] at title
  unfold instruction
  exact ((((title.append _).append _).append _).append _).append _

theorem pseudo_unlabelled (p : Pseudo) : Unlabelled (utf8 (pseudo p)) := by
  have title : Unlabelled
      (utf8 (pseudoDoc p).title ++ utf8 " Pseudo-Instruction.\n\nFormat: `") := by
    cases p <;> decide +kernel
  rw [← utf8_append] at title
  unfold pseudo
  exact (((title.append _).append _).append _).append _

theorem directive_unlabelled (name : String) (doc : Doc) :
    Unlabelled (utf8 (directive name doc)) := by
  have title : Unlabelled (utf8 "Data Directive `") := by decide
  unfold directive
  exact ((((title.append _).append _).append _).append _).append _

/-- No keyword is described like a label. -/
theorem keyword_unlabelled {cfg : Config} {word text : Bytes}
    (found : keyword cfg word = some text) : Unlabelled text := by
  simp only [keyword] at found
  generalize latin (word.map lowerByte) = name at found
  cases listed : directiveDocs.lookup name with
  | some doc =>
    simp only [listed, Option.some.injEq] at found
    exact found ▸ directive_unlabelled name doc
  | none =>
    simp only [listed] at found
    cases short : Pseudo.ofName? name with
    | some p =>
      simp only [short, Option.some.injEq] at found
      exact found ▸ pseudo_unlabelled p
    | none =>
      simp only [short, Option.map_eq_some_iff] at found
      obtain ⟨op, _, same⟩ := found
      exact same ▸ instruction_unlabelled op

theorem utf8_inj {a b : String} (same : utf8 a = utf8 b) : a = b := by
  rw [← decodeLossy_utf8 a, ← decodeLossy_utf8 b, same]

theorem numberName_inj {r q : Register} (same : r.numberName = q.numberName) :
    r.toNat = q.toNat := by
  have digits : Nat.toDigits 10 r.toNat = Nat.toDigits 10 q.toNat := by
    have names := congrArg String.toList same
    simpa [Register.numberName, Nat.repr] using names
  rw [← Nat.ofDigitChars_ten_toDigits (n := r.toNat), digits, Nat.ofDigitChars_ten_toDigits]

theorem register_of_le {r : Register} (large : 5 ≤ r.toNat) (name : String) :
    register r name =
      if name.toList.head? = some 'x' then
        "Register `" ++ r.numberName ++ "`. 32-Bit General Purpose Register"
      else
        "Register `" ++ name ++ "` (`" ++ r.numberName ++ "`). 32-Bit General Purpose Register" := by
  unfold register
  split
  all_goals first | rfl | exact absurd large (by decide)

def registerOpenings : List Bytes := ["Zer", "Ret", "Sta", "Glo", "Thr", "Reg"].map utf8

theorem take_register (r : Register) (name : String) :
    registerOpenings[min r.toNat 5]? = some ((utf8 (register r name)).take 3) := by
  by_cases large : 5 ≤ r.toNat
  · have start : (utf8 "Register `").take 3 = utf8 "Reg" := by decide
    rw [Nat.min_eq_right large, register_of_le large]
    split
    all_goals
      simp only [utf8_append, List.append_assoc]
      rw [List.take_append_of_le_length (by decide), start]
      rfl
  · have few : r = 0 ∨ r = 1 ∨ r = 2 ∨ r = 3 ∨ r = 4 := by
      revert large
      revert r
      exact forall_byte (by decide +kernel)
    -- These texts do not depend on the name.
    have same : register r name = register r "" := by
      rcases few with rfl | rfl | rfl | rfl | rfl <;> rfl
    rw [same]
    rcases few with rfl | rfl | rfl | rfl | rfl <;> decide +kernel

theorem register_inj {r q : Register} {name : String}
    (same : utf8 (register r name) = utf8 (register q name)) : r = q := by
  have openings : registerOpenings[min r.toNat 5]? = registerOpenings[min q.toNat 5]? := by
    rw [take_register r name, take_register q name, same]
  have distinct : registerOpenings.Nodup := by decide +kernel
  have inside : min r.toNat 5 < registerOpenings.length := by
    show min r.toNat 5 < 6
    omega
  have numbers := (List.getElem?_inj inside distinct).mp openings
  apply UInt8.toNat_inj.mp
  by_cases large : 5 ≤ r.toNat
  · have large' : 5 ≤ q.toNat := by omega
    have number : utf8 r.numberName = utf8 q.numberName := by
      rw [register_of_le large, register_of_le large'] at same
      split at same
      all_goals simpa only [utf8_append, List.append_assoc, List.append_cancel_left_eq,
        List.append_cancel_right_eq] using same
    exact numberName_inj (utf8_inj number)
  · omega

end Hover

end Rv32Asm
