import Rv32Asm.Text.Bytes
import Rv32Asm.Text.Span

/-!
What can be wrong with a source text.

A fault is a cause and the span of text it is about. The wording of every cause is in
`Cause.message`.
-/

set_option autoImplicit false
set_option relaxedAutoImplicit false

namespace Rv32Asm

open Rv32Asm.Text

inductive FaultKind where
  | unknownRegister
  | unknownMnemonic
  | syntaxError
  | numericOverflow
  | duplicateLabel
  | undefinedLabel
  | immediateOutOfRange
deriving DecidableEq, Repr, Inhabited

namespace FaultKind

def name : FaultKind → String
  | unknownRegister => "UnknownRegister"
  | unknownMnemonic => "UnknownMnemonic"
  | syntaxError => "SyntaxError"
  | numericOverflow => "NumericOverflow"
  | duplicateLabel => "DuplicateLabel"
  | undefinedLabel => "UndefinedLabel"
  | immediateOutOfRange => "ImmediateOutOfRange"

/-- The kinds in the order of their numbers, which start at one. -/
def all : List FaultKind :=
  [unknownRegister, unknownMnemonic, syntaxError, numericOverflow, duplicateLabel, undefinedLabel,
   immediateOutOfRange]

def ofNumber? (n : Int) : Option FaultKind :=
  if n < 1 then none else all[n.toNat - 1]?

def describeNumber (n : Int) : String :=
  match ofNumber? n with
  | some kind => kind.name
  | none => "ErrorKind(" ++ latin (decimalInt n) ++ ")"

end FaultKind

inductive StringFlaw where
  | unclosed
  | unknownEscape (escape : UInt8)
deriving DecidableEq, Repr

def StringFlaw.message : StringFlaw → Bytes
  | unclosed => utf8 "missing closing quote"
  | unknownEscape b => utf8 "unknown escape \\" ++ showByte b

inductive Cause where
  | unknownRegister (name : Bytes)
  | unknownMnemonic (name : Bytes)
  /-- Operands are missing. -/
  | badOperands (name usage : String)
  | unexpected (expected : String) (found : Bytes)
  /-- The line ends where something is expected. -/
  | lineEnd (expected : String)
  | unknownDirective (name : Bytes)
  | badString (literal : Bytes) (flaw : StringFlaw)
  | badSymbol (name : Bytes) (rule : String)
  | danglingLabel (label : Bytes)
  | badInteger (literal : Bytes)
  | overflow (literal : Bytes)
  | duplicateLabel (label : Bytes) (firstLine : Nat)
  | undefinedLabel (label : Bytes)
  | labelOutsideText (label : Bytes)
  | outOfRange (value : Bytes) (least greatest : Int)
  | oddOffset (value : Bytes)
  | labelTooFar (label : Bytes) (distance : Int) (bits : Nat)
deriving DecidableEq, Repr

namespace Cause

def kind : Cause → FaultKind
  | unknownRegister _ => .unknownRegister
  | unknownMnemonic _ => .unknownMnemonic
  | overflow _ => .numericOverflow
  | duplicateLabel .. => .duplicateLabel
  | undefinedLabel _ | labelOutsideText _ => .undefinedLabel
  | outOfRange .. | oddOffset _ | labelTooFar .. => .immediateOutOfRange
  | badOperands .. | unexpected .. | lineEnd _ | unknownDirective _ | badString .. | badSymbol ..
  | danglingLabel _ | badInteger _ => .syntaxError

def message : Cause → Bytes
  | unknownRegister name => utf8 "Expected register, got: \"" ++ name ++ utf8 "\""
  | unknownMnemonic name => utf8 "Invalid instruction: \"" ++ name ++ utf8 "\""
  | badOperands name usage =>
    utf8 "Invalid instruction format for " ++ utf8 name ++ utf8 "\nFormat: " ++ utf8 usage
  | unexpected expected found =>
    utf8 "Expected " ++ utf8 expected ++ utf8 ", got: \"" ++ found ++ utf8 "\""
  | lineEnd expected => utf8 "Expected " ++ utf8 expected ++ utf8 ", got end of line"
  | unknownDirective name => utf8 "Invalid data section: \"" ++ name ++ utf8 "\""
  | badString literal flaw =>
    utf8 "Invalid string literal " ++ literal ++ utf8 ": " ++ flaw.message
  | badSymbol name rule => utf8 "Invalid symbol name: \"" ++ name ++ utf8 "\", " ++ utf8 rule
  | danglingLabel label =>
    utf8 "Label \"" ++ label ++ utf8 "\" is not followed by an instruction or data directive"
  | badInteger literal => utf8 "Expected integer literal, got: \"" ++ literal ++ utf8 "\""
  | overflow literal => utf8 "Integer literal \"" ++ literal ++ utf8 "\" does not fit in 32 bits"
  | duplicateLabel label firstLine =>
    utf8 "Label \"" ++ label ++ utf8 "\" is already defined on line " ++ decimal (firstLine + 1)
  | undefinedLabel label => utf8 "Unresolved symbol name: \"" ++ label ++ utf8 "\""
  | labelOutsideText label =>
    utf8 "Label \"" ++ label ++ utf8 "\" is not defined in the text segment"
  | outOfRange value least greatest =>
    utf8 "Immediate value \"" ++ value ++ utf8 "\" is out of range [" ++ decimalInt least
      ++ utf8 ", " ++ decimalInt greatest ++ utf8 "]"
  | oddOffset value => utf8 "Offset \"" ++ value ++ utf8 "\" must be a multiple of 2"
  | labelTooFar label distance bits =>
    utf8 "Label \"" ++ label ++ utf8 "\" is too far away (" ++ decimalInt distance
      ++ utf8 " bytes) for a " ++ decimal bits ++ utf8 " bit offset. Use jal or auipc instead"

end Cause

structure Fault where
  cause : Cause
  span : Span
deriving DecidableEq, Repr

namespace Fault

/-- The text of a fault with its place, counted from one. -/
def report (f : Fault) : Bytes :=
  utf8 "line " ++ decimal (f.span.start.line + 1) ++ utf8 ":" ++ decimal (f.span.start.char + 1)
    ++ utf8 ": " ++ f.cause.message

end Fault

end Rv32Asm
