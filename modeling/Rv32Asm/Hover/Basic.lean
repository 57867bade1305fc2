import Rv32Asm.Hover.Docs
import Rv32Asm.Program

/-!
What an editor shows for the token under the cursor, as Markdown.

A token is a label definition, the keyword of its statement, or an operand, by its place on the
line.
-/

set_option autoImplicit false
set_option relaxedAutoImplicit false

namespace Rv32Asm.Hover

open Rv32Asm.Text

def hexNumber (n : Nat) : List Char :=
  Nat.toDigits 16 n

def labelDefinition (s : Symbol) : Bytes :=
  utf8 "Definition of label `" ++ s.name ++ utf8 "`.\n\n"
    ++ utf8 (match s.segment with
      | .text => "Address"
      | .data => "Offset")
    ++ utf8 " of 0x" ++ (hexNumber s.offset.toNat).map (fun c => ascii c.toUpper)
    ++ utf8 " in the " ++ utf8 s.segment.name ++ utf8 " segment"

def labelReference (name : Bytes) (value : Int) : Bytes :=
  utf8 "Reference to label `" ++ name ++ utf8 "`\n\nEvaluates to `" ++ decimalInt value ++ utf8 "`"

/-- The text for a number. The hexadecimal form shows its lowest 32 bits. -/
def integerLiteral (value : Int) : Bytes :=
  utf8 "Integer Literal `" ++ decimalInt value ++ utf8 "` (`0x"
    ++ (hexNumber (UInt32.ofInt value).toNat).map ascii ++ utf8 "`)"

def register (r : Register) (name : String) : String :=
  match r with
  | 0 => "Zero Register `zero` (`x0`)\n\nAlways evaluates to `0`"
  | 1 => "Return Address Register `ra` (`x1`)\n\n"
      ++ "Contains the return address of the current function"
  | 2 => "Stack Pointer Register `sp` (`x2`)\n\nContains the address of the top of the stack"
  | 3 => "Global Pointer Register `gp` (`x3`)\n\n"
      ++ "Contains the address of the start of the global data segment"
  | 4 => "Thread Pointer Register `tp` (`x4`)\n\n"
      ++ "Contains the address of the thread-local storage segment"
  | _ =>
    if name.toList.head? = some 'x' then
      "Register `" ++ r.numberName ++ "`. 32-Bit General Purpose Register"
    else "Register `" ++ name ++ "` (`" ++ r.numberName ++ "`). 32-Bit General Purpose Register"

def usageOf (op : Opcode) : String :=
  op.name ++ String.ofList (op.format.usage.toList.drop "<opcode>".length)

/-- The immediates that a mnemonic accepts, in words. Instructions without an immediate have none
to tell of. -/
def rangeNote (op : Opcode) : String :=
  if op.format = .registerRegister then ""
  else
    let bounds := op.literalBounds
    "\n\nThe immediate must be between " ++ latin (decimalInt bounds.least) ++ " and "
      ++ latin (decimalInt bounds.greatest)
      ++ (if bounds.even then " and a multiple of 2" else "") ++ "."
      ++ (match op.format with
        | .branch | .jump =>
          " An instruction label may be used and is encoded relative to this instruction."
        | _ =>
          if op.shift then "" else " A label may be used and evaluates to its segment offset.")

def instruction (op : Opcode) : String :=
  let doc := (instructionDocs.lookup op.name).getD ⟨"", ""⟩
  doc.title ++ " Instruction.\n\nFormat: `" ++ usageOf op ++ "`\n\nOperation: `" ++ doc.operation
    ++ "`" ++ rangeNote op

def pseudo (p : Pseudo) : String :=
  (pseudoDoc p).title ++ " Pseudo-Instruction.\n\nFormat: `" ++ p.usage ++ "`\n\nAssembles to `"
    ++ (pseudoDoc p).operation ++ "`"

def directive (name : String) (doc : Doc) : String :=
  "Data Directive `" ++ name ++ "`.\n\nFormat: `" ++ doc.title ++ "`\n\n" ++ doc.operation

/-- The text for the keyword of a statement: a directive, a shorthand or a mnemonic, in any letter
case. -/
def keyword (cfg : Config) (word : Bytes) : Option Bytes :=
  let name := latin (word.map lowerByte)
  match directiveDocs.lookup name with
  | some doc => some (utf8 (directive name doc))
  | none =>
    match Pseudo.ofName? name with
    | some p => some (utf8 (pseudo p))
    | none => (cfg.opcode? name).map fun op => utf8 (instruction op)

/-- The value shown for a label that is used on a line: the immediate of the line's instruction, and
the label's offset if the line has none. -/
def referenceValue (p : Program) (line : Nat) (s : Symbol) : Int :=
  match (p.recordAt? line).bind Record.instruction? with
  | some inst =>
    match inst.imm? with
    | some (.num v) => v
    | some (.ref _) => 0
    | none => s.offset.toNat
  | none => s.offset.toNat

/-- The text for an operand: a number, a register or a label. Register names come before labels. -/
def operand (p : Program) (line : Nat) (t : Token) : Option Bytes :=
  match t.kind with
  | .number => (Number.read t.text).toOption.map integerLiteral
  | .ident =>
    match Register.ofName? (latin t.text) with
    | some r => some (utf8 (register r (latin t.text)))
    | none =>
      (p.symbols.find? t.text).map fun s => labelReference t.text (referenceValue p line s)
  | _ => none

def labelTokens : List Token → Nat
  | _ :: colon :: ts => if colon.kind = .colon then labelTokens ts + 2 else 0
  | _ => 0

/-- The text for the token with number `i` on a line whose statement starts with token `first`. -/
def token (p : Program) (line first i : Nat) (t : Token) : Option Bytes :=
  if i < first then (p.symbols.find? t.text).map labelDefinition
  else if i = first ∧ t.kind = .ident then keyword p.config t.text
  else operand p line t

end Rv32Asm.Hover

namespace Rv32Asm

/-- The text for the token at a place in the source of a program. Places outside the source have
none. -/
def Program.hover? (p : Program) (line char : Int) : Option Bytes :=
  if line < 0 then none
  else
    match p.source[line.toNat]? with
    | none => none
    | some bs =>
      match Token.scan line.toNat bs with
      | .error _ => none
      | .ok ts =>
        match ts.zipIdx.find? fun (t, _) => (t.start : Int) ≤ char && char < t.stop with
        | none => none
        | some (t, i) => Hover.token p line.toNat (Hover.labelTokens ts) i t

end Rv32Asm
