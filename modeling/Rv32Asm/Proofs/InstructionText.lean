import Rv32Asm.Proofs.Literals
import Rv32Asm.Proofs.Numerals

/-!
Instructions as text.

An instruction is written as its mnemonic, and then its registers and its immediate as its format
orders them. A register may go by any of its names, some of which are numbers, and immediates are
in decimal. The line is scanned into the mnemonic and the operands again.
-/

set_option autoImplicit false
set_option relaxedAutoImplicit false

namespace Rv32Asm

open Rv32Asm.Text
open Rv32Asm.Token

inductive Spelled where
  | reg (name : String)
  | imm (v : Int)
  | mem (v : Int) (name : String)

def Spelled.text : Spelled → Bytes
  | reg name => utf8 name
  | imm v => decimalInt v
  | mem v name => decimalInt v ++ (ascii '(' :: (utf8 name ++ [ascii ')']))

def operandText (os : List Spelled) : Bytes :=
  ((os.map Spelled.text).intersperse [ascii ',', ascii ' ']).flatten

def lineText (mnemonic : String) (os : List Spelled) : Bytes :=
  utf8 mnemonic ++ (ascii ' ' :: operandText os)

/-- The operands of an instruction, with any of the names of its registers. -/
inductive Instruction.SpelledAs : Instruction → List Spelled → Prop
  | r {m d a b : String} {rd rs1 rs2 : Register} (dest : Register.ofName? d = some rd)
      (left : Register.ofName? a = some rs1) (right : Register.ofName? b = some rs2) :
      SpelledAs (.r m rd rs1 rs2) [.reg d, .reg a, .reg b]
  | i {m d a : String} {rd rs1 : Register} (dest : Register.ofName? d = some rd)
      (left : Register.ofName? a = some rs1) (v : Int) :
      SpelledAs (.i m rd rs1 (.num v)) [.reg d, .reg a, .imm v]
  | load {m d a : String} {rd rs1 : Register} (dest : Register.ofName? d = some rd)
      (base : Register.ofName? a = some rs1) (v : Int) :
      SpelledAs (.load m rd rs1 (.num v)) [.reg d, .mem v a]
  | s {m a b : String} {rs1 rs2 : Register} (source : Register.ofName? b = some rs2)
      (base : Register.ofName? a = some rs1) (v : Int) :
      SpelledAs (.s m rs1 rs2 (.num v)) [.reg b, .mem v a]
  | b {m a b : String} {rs1 rs2 : Register} (left : Register.ofName? a = some rs1)
      (right : Register.ofName? b = some rs2) (v : Int) :
      SpelledAs (.b m rs1 rs2 (.num v)) [.reg a, .reg b, .imm v]
  | j {m d : String} {rd : Register} (dest : Register.ofName? d = some rd) (v : Int) :
      SpelledAs (.j m rd (.num v)) [.reg d, .imm v]
  | jalr {m d a : String} {rd rs1 : Register} (dest : Register.ofName? d = some rd)
      (base : Register.ofName? a = some rs1) (v : Int) :
      SpelledAs (.jalr m rd rs1 (.num v)) [.reg d, .mem v a]
  | u {m d : String} {rd : Register} (dest : Register.ofName? d = some rd) (v : Int) :
      SpelledAs (.u m rd (.num v)) [.reg d, .imm v]

namespace Number

theorem digit_digitChar {d : Nat} (below : d < 10) :
    Radix.decimal.Digit (ascii d.digitChar) d := by
  have table : ∀ d : Fin 10, Radix.decimal.Digit (ascii (Nat.digitChar d)) d := by
    simp only [Radix.Digit]
    decide
  exact table ⟨d, below⟩

/-- Digits that are shown each as a digit of its value spell the number. -/
theorem spells_toDigits {r : Radix} {shown : Char → UInt8}
    (digit : ∀ d < r.base, r.Digit (shown d.digitChar) d) (n : Nat) :
    r.Spells ((Nat.toDigits r.base n).map shown) n := by
  have base : 1 < r.base := by cases r <;> decide
  induction n using Nat.strongRecOn with
  | ind n ih =>
    by_cases small : n < r.base
    · rw [Nat.toDigits_of_lt_base small]
      exact ⟨[n], .cons (digit n small) .nil, by simp⟩
    · -- The remainder is the last digit, and the digits before it are those of the quotient.
      have last : n % r.base < r.base := Nat.mod_lt n (by omega)
      obtain ⟨ds, digits, value⟩ := ih (n / r.base) (Nat.div_lt_self (by omega) base)
      rw [Nat.toDigits_of_base_le base (by omega), List.map_append]
      refine ⟨ds ++ [n % r.base], List.rel_append digits (.cons (digit _ last) .nil), ?_⟩
      rw [List.reverse_append, List.reverse_singleton, List.singleton_append, Nat.ofDigits_cons,
        value]
      exact Nat.mod_add_div n r.base

theorem spells_decimal (n : Nat) : Radix.decimal.Spells (decimal n) n :=
  spells_toDigits (fun _ below => digit_digitChar below) n

theorem decimal_ne_nil (n : Nat) : decimal n ≠ [] := by
  simp [decimal, Nat.toDigits_ne_nil]

theorem literal_decimalInt (v : Int) : Literal (decimalInt v) v := by
  have known : "" ∈ Radix.decimal.marks := by decide
  cases v with
  | ofNat n => exact .mk .none known (decimal_ne_nil n) (spells_decimal n)
  | negSucc n => exact .mk .minus known (decimal_ne_nil (n + 1)) (spells_decimal (n + 1))

theorem isDigit_of_spells {digits : Bytes} {n : Nat} (spells : Radix.decimal.Spells digits n) :
    ∀ b ∈ digits, isDigit b = true := by
  obtain ⟨ds, each, -⟩ := spells
  induction each with
  | nil => simp
  | cons digit _ ih =>
    rw [List.forall_mem_cons]
    exact ⟨isDigit_of_decimal digit, ih⟩

theorem lexeme_decimalInt (v : Int) : Lexeme .number (decimalInt v) := by
  have digits (n : Nat) := isDigit_of_spells (spells_decimal n)
  have names (n : Nat) : ∀ b ∈ decimal n, isNameByte b = true := by
    intro b member
    rw [isNameByte, digits n b member, Bool.or_true]
  have first (n : Nat) : ∃ b body, decimal n = b :: body ∧ isDigit b = true := by
    obtain ⟨b, body, split⟩ := List.exists_cons_of_ne_nil (decimal_ne_nil n)
    exact ⟨b, body, split, digits n b (by simp [split])⟩
  cases v with
  | ofNat n =>
    obtain ⟨b, body, split, digit⟩ := first n
    show Lexeme .number (decimal n)
    rw [split]
    refine .number (by simp [startsNumber, digit]) ?_
    intro c member
    exact names n c (by simp [split, member])
  | negSucc n =>
    obtain ⟨b, body, split, digit⟩ := first (n + 1)
    refine .number ?_ (names (n + 1))
    simp [startsNumber, split, digit]

end Number

section Scan

/-- A name as a token: some registers are known by their numbers. -/
def word (name : String) : TokenKind × Bytes :=
  (if (utf8 name).head?.any isDigit then .number else .ident, utf8 name)

def Spelled.shapes : Spelled → List (TokenKind × Bytes)
  | reg name => [word name]
  | imm v => [(.number, decimalInt v)]
  | mem v name =>
    [(.number, decimalInt v), (.openParen, [ascii '(']), word name, (.closeParen, [ascii ')'])]

def operandShapes (os : List Spelled) : List (TokenKind × Bytes) :=
  ((os.map Spelled.shapes).intersperse [(.comma, [ascii ','])]).flatten

def Spelled.Known : Spelled → Prop
  | reg name | mem _ name => ∃ r, Register.ofName? name = some r
  | imm _ => True

theorem Instruction.SpelledAs.known {inst : Instruction} {os : List Spelled}
    (spelled : inst.SpelledAs os) : ∀ o ∈ os, o.Known := by
  cases spelled <;> simp [Spelled.Known, *]

theorem lexeme_word {name : String} (some_byte : utf8 name ≠ [])
    (names : ∀ b ∈ utf8 name, isNameByte b = true) : Lexeme (word name).1 (word name).2 := by
  obtain ⟨b, body, split⟩ := List.exists_cons_of_ne_nil some_byte
  rw [split, List.forall_mem_cons] at names
  obtain ⟨first, others⟩ := names
  rw [word, split]
  by_cases digit : isDigit b = true
  · simp only [List.head?_cons, Option.any_some, digit, if_true]
    exact .number (by simp [startsNumber, digit]) others
  · simp only [List.head?_cons, Option.any_some, digit, if_false, Bool.false_eq_true]
    refine .ident ?_ others
    simpa [isNameByte, digit] using first

theorem Register.mem_spellings {name : String} {r : Register}
    (known : Register.ofName? name = some r) : (name, r) ∈ Register.spellings := by
  obtain ⟨before, after, split, _⟩ := List.lookup_eq_some_iff.mp known
  rw [split]
  simp

theorem Register.lexeme_name {name : String} {r : Register}
    (known : Register.ofName? name = some r) : Lexeme (word name).1 (word name).2 := by
  have plain : ∀ s ∈ Register.spellings, utf8 s.1 ≠ [] ∧ (utf8 s.1).all isNameByte = true := by
    decide +kernel
  obtain ⟨some_byte, names⟩ := plain _ (Register.mem_spellings known)
  exact lexeme_word some_byte (List.all_eq_true.mp names)

theorem Spelled.lexes {o : Spelled} (known : o.Known) {rest : Bytes}
    {others : List (TokenKind × Bytes)} (apart : Apart rest) (lexes : Lexes rest others) :
    Lexes (o.text ++ rest) (o.shapes ++ others) := by
  cases o with
  | reg name =>
    obtain ⟨r, named⟩ := known
    exact .token (Register.lexeme_name named) (apart.ends _) lexes
  | imm v => exact .token (Number.lexeme_decimalInt v) (apart.ends _) lexes
  | mem v name =>
    obtain ⟨r, named⟩ := known
    have opening : Lexeme .openParen [ascii '('] := .mark rfl
    have closing : Lexeme .closeParen [ascii ')'] := .mark rfl
    have closed : Lexes ([ascii ')'] ++ rest) _ := .token closing (apart.ends _) lexes
    have nameEnds := (closing.apart (by decide) (by decide) rest).ends (word name).1
    have named : Lexes (utf8 name ++ ([ascii ')'] ++ rest))
        (word name :: (.closeParen, [ascii ')']) :: others) :=
      .token (Register.lexeme_name named) nameEnds closed
    have opened : Lexes ([ascii '('] ++ (utf8 name ++ ([ascii ')'] ++ rest))) _ :=
      .token opening (fun word => by simp at word) named
    have whole : Lexes (decimalInt v ++ ([ascii '('] ++ (utf8 name ++ ([ascii ')'] ++ rest)))) _ :=
      .token (Number.lexeme_decimalInt v) ((opening.apart (by decide) (by decide) _).ends _) opened
    simpa [Spelled.text, Spelled.shapes] using whole

theorem lexes_operandText {os : List Spelled} (known : ∀ o ∈ os, o.Known) :
    Lexes (operandText os) (operandShapes os) := by
  induction os with
  | nil => exact .nil
  | cons o os ih =>
    rw [List.forall_mem_cons] at known
    cases os with
    | nil =>
      have alone := o.lexes known.1 apart_nil .nil
      simpa [operandText, operandShapes] using alone
    | cons next os =>
      have comma : Lexeme .comma [ascii ','] := .mark rfl
      have further : Lexes ([ascii ','] ++ (ascii ' ' :: operandText (next :: os))) _ :=
        .token comma ((apart_space _).ends _) ((ih known.2).blank (by decide))
      have whole := o.lexes known.1 (comma.apart (by decide) (by decide) _) further
      simpa [operandText, operandShapes] using whole

theorem newline_not_mem_of_lexeme {kind : TokenKind} {text : Bytes} (lexeme : Lexeme kind text)
    (single : kind ≠ .string) : newline ∉ text := by
  have word {b : UInt8} {body : Bytes} (first : b ≠ newline)
      (names : ∀ c ∈ body, isNameByte c = true) : newline ∉ b :: body := by
    intro member
    rcases List.mem_cons.mp member with same | inside
    · exact first same.symm
    · exact absurd (names newline inside) (by decide)
  cases lexeme with
  | mark known =>
    intro member
    obtain rfl := List.mem_singleton.mp member
    simp [punctuation?, newline, ascii] at known
  | quoted => exact absurd rfl single
  | number starts names =>
    refine word ?_ names
    rintro rfl
    simp [startsNumber, isDigit, newline, ascii] at starts
  | ident starts names =>
    refine word ?_ names
    rintro rfl
    exact absurd starts (by decide)

theorem Spelled.newline_not_mem {o : Spelled} (known : o.Known) : newline ∉ o.text := by
  have number (v : Int) : newline ∉ decimalInt v :=
    newline_not_mem_of_lexeme (Number.lexeme_decimalInt v) (by decide)
  have named {name : String} (known : ∃ r, Register.ofName? name = some r) :
      newline ∉ utf8 name := by
    obtain ⟨r, known⟩ := known
    apply newline_not_mem_of_lexeme (Register.lexeme_name known)
    rw [word]
    split <;> simp
  cases o with
  | reg name => exact named known
  | imm v => exact number v
  | mem v name =>
    have parens : newline ≠ ascii '(' ∧ newline ≠ ascii ')' := by decide
    simp [text, number v, named known, parens]

theorem newline_not_mem_operandText {os : List Spelled} (known : ∀ o ∈ os, o.Known) :
    newline ∉ operandText os := by
  induction os with
  | nil => simp [operandText]
  | cons o os ih =>
    rw [List.forall_mem_cons] at known
    have first := o.newline_not_mem known.1
    cases os with
    | nil => simpa [operandText] using first
    | cons next os =>
      have separator : newline ≠ ascii ',' ∧ newline ≠ ascii ' ' := by decide
      have others : newline ∉ operandText (next :: os) := ih known.2
      simp only [operandText, List.map_cons, List.intersperse_cons_cons, List.flatten_cons,
        List.mem_append, List.mem_cons, List.not_mem_nil, or_false, not_or] at others ⊢
      exact ⟨first, separator, others⟩

theorem Opcode.shape_name {op : Opcode} (listed : op ∈ Opcode.table) :
    Lexeme .ident (utf8 op.name) ∧ latin ((utf8 op.name).map lowerByte) = op.name := by
  have plain : ∀ op ∈ Opcode.table, utf8 op.name ≠ [] ∧ (utf8 op.name).all isNameByte = true ∧
      (word op.name).1 = .ident ∧ latin ((utf8 op.name).map lowerByte) = op.name := by
    decide +kernel
  obtain ⟨some_byte, names, ident, lowered⟩ := plain op listed
  have lexeme := lexeme_word some_byte (List.all_eq_true.mp names)
  rw [ident] at lexeme
  exact ⟨lexeme, lowered⟩

theorem lexes_lineText {op : Opcode} (listed : op ∈ Opcode.table) {os : List Spelled}
    (known : ∀ o ∈ os, o.Known) :
    Lexes (lineText op.name os) ((.ident, utf8 op.name) :: operandShapes os) :=
  .token (Opcode.shape_name listed).1 ((apart_space _).ends _)
    ((lexes_operandText known).blank (by decide))

theorem newline_not_mem_lineText {op : Opcode} (listed : op ∈ Opcode.table) {os : List Spelled}
    (known : ∀ o ∈ os, o.Known) : newline ∉ lineText op.name os := by
  have name := newline_not_mem_of_lexeme (Opcode.shape_name listed).1 (by decide)
  have space : newline ≠ ascii ' ' := by decide
  rw [lineText, List.mem_append, List.mem_cons]
  simp [name, space, newline_not_mem_operandText known]

end Scan

end Rv32Asm
