import Rv32Asm.Fault

/-!
The tokens of a source line.

Scanning works on bytes. White space separates tokens, and a comment ends the line. Every token is
as long as it can be.
-/

set_option autoImplicit false
set_option relaxedAutoImplicit false

namespace Rv32Asm

open Rv32Asm.Text

inductive TokenKind where
  | ident
  | number
  | string
  | comma
  | colon
  | openParen
  | closeParen
deriving DecidableEq, Repr, Inhabited

structure Token where
  kind : TokenKind
  text : Bytes
  start : Nat
  stop : Nat
deriving DecidableEq, Repr, Inhabited

namespace Token

def span (t : Token) (line : Nat) : Span :=
  Span.onLine line t.start t.stop

def isBlank (b : UInt8) : Bool :=
  b == 0x20 || b == 0x09 || b == 0x0d || b == 0x0b || b == 0x0c

def isDigit (b : UInt8) : Bool :=
  ascii '0' ≤ b && b ≤ ascii '9'

/-- A byte that a name may start with: a letter, an underscore, a dot or a dollar sign. -/
def isNameStart (b : UInt8) : Bool :=
  (ascii 'a' ≤ b && b ≤ ascii 'z') || (ascii 'A' ≤ b && b ≤ ascii 'Z')
    || b == ascii '_' || b == ascii '.' || b == ascii '$'

def isNameByte (b : UInt8) : Bool :=
  isNameStart b || isDigit b

/-- Whether a comment starts here: a number sign, a semicolon or two slashes. -/
def startsComment : Bytes → Bool
  | b :: rest => b == ascii '#' || b == ascii ';' || (b == ascii '/' && rest.head? == some (ascii '/'))
  | [] => false

def punctuation? (b : UInt8) : Option TokenKind :=
  if b = ascii ',' then some .comma
  else if b = ascii ':' then some .colon
  else if b = ascii '(' then some .openParen
  else if b = ascii ')' then some .closeParen
  else none

/-- Whether a number starts with byte `b` before `rest`: a digit, or a sign before a digit. -/
def startsNumber (b : UInt8) (rest : Bytes) : Bool :=
  isDigit b || ((b == ascii '-' || b == ascii '+') && rest.head?.any isDigit)

/-- The number of bytes up to and with the closing quote of a string, after `count` bytes. A
backslash takes the byte after it along. -/
def quoteEnd? (count : Nat) : Bytes → Option Nat
  | [] => none
  | [b] => if b = ascii '"' then some (count + 1) else none
  | b :: c :: rest =>
    if b = ascii '\\' then quoteEnd? (count + 2) rest
    else if b = ascii '"' then some (count + 1)
    else quoteEnd? (count + 1) (c :: rest)

def scanFrom (line col : Nat) (bs : Bytes) : Except Fault (List Token) :=
  match bs with
  | [] => .ok []
  | b :: rest =>
    if isBlank b then scanFrom line (col + 1) rest
    else if startsComment (b :: rest) then .ok []
    else match punctuation? b with
      | some kind => do
        let ts ← scanFrom line (col + 1) rest
        return ⟨kind, [b], col, col + 1⟩ :: ts
      | none =>
        if b = ascii '"' then
          match quoteEnd? 0 rest with
          | none =>
            .error ⟨.badString (b :: rest) .unclosed, .onLine line col (col + rest.length + 1)⟩
          | some count => do
            let ts ← scanFrom line (col + 1 + count) (rest.drop count)
            return ⟨.string, b :: rest.take count, col, col + 1 + count⟩ :: ts
        else if startsNumber b rest || isNameStart b then do
          let body := rest.takeWhile isNameByte
          let kind := if startsNumber b rest then TokenKind.number else .ident
          let ts ← scanFrom line (col + 1 + body.length) (rest.dropWhile isNameByte)
          return ⟨kind, b :: body, col, col + 1 + body.length⟩ :: ts
        else .error ⟨.unexpected "operand" (showByte b), .onLine line col (col + 1)⟩
termination_by bs.length
decreasing_by
  · simp
  · simp
  · simp only [List.length_drop, List.length_cons]
    omega
  · have := (List.dropWhile_sublist isNameByte (l := rest)).length_le
    simp only [List.length_cons]
    omega

def scan (line : Nat) (bs : Bytes) : Except Fault (List Token) :=
  scanFrom line 0 bs

/-- The bytes between the quotes of a string literal, with escapes replaced, after the bytes in
`done`, which are in reverse. -/
def unescapeFrom (done : Bytes) : Bytes → Except StringFlaw Bytes
  | [] => .ok done.reverse
  | [b] => if b = ascii '\\' then .error .unclosed else .ok (b :: done).reverse
  | b :: c :: rest =>
    if b = ascii '\\' then
      if c = ascii 'n' then unescapeFrom (0x0a :: done) rest
      else if c = ascii 't' then unescapeFrom (0x09 :: done) rest
      else if c = ascii 'r' then unescapeFrom (0x0d :: done) rest
      else if c = ascii '0' then unescapeFrom (0 :: done) rest
      else if c = ascii '\\' || c = ascii '"' then unescapeFrom (c :: done) rest
      else .error (.unknownEscape c)
    else unescapeFrom (b :: done) (c :: rest)

def unquote (literal : Bytes) : Except StringFlaw Bytes :=
  unescapeFrom [] (literal.drop 1).dropLast

end Token

end Rv32Asm
