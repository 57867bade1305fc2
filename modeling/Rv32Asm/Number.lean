import Rv32Asm.Token

/-!
Number literals: decimal, hexadecimal after `0x` and binary after `0b`, with an optional sign. The
value must fit in 32 bits, with or without sign.
-/

set_option autoImplicit false
set_option relaxedAutoImplicit false

namespace Rv32Asm.Number

open Rv32Asm.Text

inductive Flaw where
  | malformed
  | tooLarge
deriving DecidableEq, Repr

/-- The value of a digit or letter: letters count on from ten, in either case. -/
def digitValue? (b : UInt8) : Option Nat :=
  if Token.isDigit b then some (b.toNat - 0x30)
  else if ascii 'a' ≤ lowerByte b && lowerByte b ≤ ascii 'z' then some ((lowerByte b).toNat - 0x57)
  else none

/-- Takes one more digit. The literal is too large from the digit on that takes it past 64 bits. -/
def pushDigit (base acc : Nat) (b : UInt8) : Except Flaw Nat :=
  match digitValue? b with
  | none => .error .malformed
  | some d =>
    if base ≤ d then .error .malformed
    else if UInt64.size ≤ acc * base + d then .error .tooLarge
    else .ok (acc * base + d)

def magnitude (base : Nat) : Bytes → Except Flaw Nat
  | [] => .error .malformed
  | ds => ds.foldlM (pushDigit base) 0

/-- Whether a literal is negative, and the literal without its sign. -/
def splitSign : Bytes → Bool × Bytes
  | b :: rest =>
    if b = ascii '-' then (true, rest)
    else if b = ascii '+' then (false, rest)
    else (false, b :: rest)
  | [] => (false, [])

def splitBase : Bytes → Nat × Bytes
  | z :: b :: rest =>
    if z = ascii '0' && lowerByte b = ascii 'x' then (16, rest)
    else if z = ascii '0' && lowerByte b = ascii 'b' then (2, rest)
    else (10, z :: b :: rest)
  | ds => (10, ds)

def read (literal : Bytes) : Except Flaw Int :=
  let (negative, unsigned) := splitSign literal
  let (base, digits) := splitBase unsigned
  match magnitude base digits with
  | .error flaw => .error flaw
  | .ok m =>
    if negative then if 0x80000000 < m then .error .tooLarge else .ok (-(m : Int))
    else if UInt32.size ≤ m then .error .tooLarge
    else .ok m

def ofToken (line : Nat) (t : Token) : Except Fault Int :=
  match read t.text with
  | .ok v => .ok v
  | .error .malformed => .error ⟨.badInteger t.text, t.span line⟩
  | .error .tooLarge => .error ⟨.overflow t.text, t.span line⟩

example : (read (utf8 "-0x80000000")).toOption = some (-2147483648) := by decide +kernel
example : read (utf8 "0b2") matches .error .malformed := by decide +kernel

end Rv32Asm.Number
