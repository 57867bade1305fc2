import Rv32Asm.Text.Utf8

/-!
The tokens of a JSON text: punctuation, literals, numbers and strings.
-/

set_option autoImplicit false
set_option relaxedAutoImplicit false

namespace Rv32Asm.Json

open Rv32Asm.Text

inductive Token where
  | openObject
  | closeObject
  | openArray
  | closeArray
  | colon
  | comma
  | null
  | bool (value : Bool)
  | num (literal : String)
  | str (text : String)
deriving DecidableEq, Repr

def isSpace (b : UInt8) : Bool :=
  b == 0x20 || b == 0x09 || b == 0x0a || b == 0x0d

def isDigit (b : UInt8) : Bool :=
  ascii '0' ≤ b && b ≤ ascii '9'

def hexValue? (b : UInt8) : Option Nat :=
  if isDigit b then some (b.toNat - 0x30)
  else if ascii 'a' ≤ b && b ≤ ascii 'f' then some (b.toNat - 0x57)
  else if ascii 'A' ≤ b && b ≤ ascii 'F' then some (b.toNat - 0x37)
  else none

def escapeCode? (b : UInt8) : Option Nat :=
  if b = ascii '"' || b = ascii '\\' || b = ascii '/' then some b.toNat
  else if b = ascii 'b' then some 0x08
  else if b = ascii 'f' then some 0x0c
  else if b = ascii 'n' then some 0x0a
  else if b = ascii 'r' then some 0x0d
  else if b = ascii 't' then some 0x09
  else none

/-- A part of a string: a byte as written, or the number that an escape gives. -/
inductive Part where
  | byte (b : UInt8)
  | code (n : Nat)

inductive StringState where
  | plain
  | escape
  | code (digitsLeft value : Nat)

def stringParts (state : StringState) (done : List Part) : Bytes → Option (List Part × Bytes)
  | [] => none
  | b :: rest =>
    match state with
    | .plain =>
      if b = ascii '"' then some (done.reverse, rest)
      else if b = ascii '\\' then stringParts .escape done rest
      else if b < 0x20 then none
      else stringParts .plain (.byte b :: done) rest
    | .escape =>
      if b = ascii 'u' then stringParts (.code 3 0) done rest
      else match escapeCode? b with
        | some n => stringParts .plain (.code n :: done) rest
        | none => none
    | .code digitsLeft value =>
      match hexValue? b with
      | none => none
      | some d =>
        match digitsLeft with
        | 0 => stringParts .plain (.code (value * 16 + d) :: done) rest
        | left + 1 => stringParts (.code left (value * 16 + d)) done rest

/-- The first half of a pair of numbers that stand for one character. -/
def isHighHalf (n : Nat) : Bool := 0xd800 ≤ n && n < 0xdc00

def isLowHalf (n : Nat) : Bool := 0xdc00 ≤ n && n < 0xe000

/-- The character of an escape that stands alone; half of a pair gives the replacement
character. -/
def codeChar (n : Nat) : Char :=
  if isHighHalf n || isLowHalf n then '\ufffd' else Char.ofNat n

/-- The characters of string parts. `run` holds the bytes since the last escape and `done` the
characters before them, both in reverse. -/
def partChars (run : Bytes) (done : List Char) : List Part → List Char
  | [] => (decodeLossyFrom [] run.reverse).reverse ++ done
  | .byte b :: parts => partChars (b :: run) done parts
  | .code high :: .code low :: parts =>
    let before := (decodeLossyFrom [] run.reverse).reverse ++ done
    if isHighHalf high && isLowHalf low then
      partChars [] (Char.ofNat (0x10000 + (high - 0xd800) * 0x400 + (low - 0xdc00)) :: before) parts
    else partChars [] (codeChar high :: before) (.code low :: parts)
  | .code n :: parts =>
    partChars [] (codeChar n :: ((decodeLossyFrom [] run.reverse).reverse ++ done)) parts

def string? (bs : Bytes) : Option (String × Bytes) :=
  (stringParts .plain [] bs).map fun (parts, rest) =>
    (String.ofList (partChars [] [] parts).reverse, rest)

def digits? (bs : Bytes) : Option (Bytes × Bytes) :=
  match bs.takeWhile isDigit with
  | [] => none
  | ds => some (ds, bs.dropWhile isDigit)

/-- The digits before the point: a zero alone, or digits that do not start with a zero. -/
def whole? (bs : Bytes) : Option (Bytes × Bytes) :=
  match digits? bs with
  | some (d :: ds, rest) => if d = ascii '0' then some ([d], ds ++ rest) else some (d :: ds, rest)
  | _ => none

def fraction? : Bytes → Option (Bytes × Bytes)
  | b :: rest =>
    if b = ascii '.' then (digits? rest).map fun (ds, rest) => (b :: ds, rest)
    else some ([], b :: rest)
  | [] => some ([], [])

def sign (allowed : List UInt8) : Bytes → Bytes × Bytes
  | b :: rest => if allowed.contains b then ([b], rest) else ([], b :: rest)
  | [] => ([], [])

def exponent? : Bytes → Option (Bytes × Bytes)
  | b :: rest =>
    if b = ascii 'e' || b = ascii 'E' then
      let (s, rest) := sign [ascii '+', ascii '-'] rest
      (digits? rest).map fun (ds, rest) => (b :: s ++ ds, rest)
    else some ([], b :: rest)
  | [] => some ([], [])

def number? (bs : Bytes) : Option (Bytes × Bytes) := do
  let (minus, bs) := sign [ascii '-'] bs
  let (whole, bs) ← whole? bs
  let (fraction, bs) ← fraction? bs
  let (exponent, bs) ← exponent? bs
  return (minus ++ whole ++ fraction ++ exponent, bs)

def token? (b : UInt8) (rest : Bytes) : Option (Token × Bytes) :=
  if b = ascii '\x7b' then some (.openObject, rest)
  else if b = ascii '\x7d' then some (.closeObject, rest)
  else if b = ascii '[' then some (.openArray, rest)
  else if b = ascii ']' then some (.closeArray, rest)
  else if b = ascii ':' then some (.colon, rest)
  else if b = ascii ',' then some (.comma, rest)
  else if b = ascii '"' then (string? rest).map fun (s, rest) => (.str s, rest)
  else if b = ascii 'n' then (dropFront? (utf8 "ull") rest).map fun rest => (.null, rest)
  else if b = ascii 't' then (dropFront? (utf8 "rue") rest).map fun rest => (.bool true, rest)
  else if b = ascii 'f' then (dropFront? (utf8 "alse") rest).map fun rest => (.bool false, rest)
  else (number? (b :: rest)).map fun (literal, rest) => (.num (latin literal), rest)

/-- The tokens of a byte sequence after those in `done`, which is in reverse. Every token takes a
byte, so the length of the text is fuel enough. -/
def tokensFrom (done : List Token) : (fuel : Nat) → Bytes → Option (List Token)
  | 0, bs => if bs.all isSpace then some done.reverse else none
  | fuel + 1, bs =>
    match bs.dropWhile isSpace with
    | [] => some done.reverse
    | b :: rest =>
      match token? b rest with
      | some (t, rest) => tokensFrom (t :: done) fuel rest
      | none => none

def tokens? (bs : Bytes) : Option (List Token) :=
  tokensFrom [] bs.length bs

end Rv32Asm.Json
