import Rv32Asm.Text.Bytes

/-!
White space around text.

`trim` removes the white space characters of Unicode from both ends of a byte sequence. Bytes that
do not form a character are never removed.
-/

set_option autoImplicit false
set_option relaxedAutoImplicit false

namespace Rv32Asm.Text

def blanks : List Char :=
  ['\t', '\n', '\x0b', '\x0c', '\r', ' ', '\u0085', '\u00a0', '\u1680',
   '\u2000', '\u2001', '\u2002', '\u2003', '\u2004', '\u2005', '\u2006', '\u2007', '\u2008',
   '\u2009', '\u200a', '\u2028', '\u2029', '\u202f', '\u205f', '\u3000']

def dropForm? (forms : List Bytes) (bs : Bytes) : Option Bytes :=
  forms.findSome? (dropFront? · bs)

/-- Removes the given forms from the front of `bs` as long as it starts with one of them, at most
`fuel` times. -/
def dropForms (forms : List Bytes) : (fuel : Nat) → Bytes → Bytes
  | 0, bs => bs
  | fuel + 1, bs =>
    match dropForm? forms bs with
    | some rest => dropForms forms fuel rest
    | none => bs

def blankForms : List Bytes :=
  blanks.map String.utf8EncodeChar

def trimStart (bs : Bytes) : Bytes :=
  dropForms blankForms bs.length bs

def trimEnd (bs : Bytes) : Bytes :=
  (dropForms (blankForms.map List.reverse) bs.length bs.reverse).reverse

def trim (bs : Bytes) : Bytes :=
  trimEnd (trimStart bs)

example : trim (utf8 " \t\u00a0a b\u3000\r") = utf8 "a b" := by decide
example : trim [0x20, 0x80, 0x20] = [0x80] := by decide

end Rv32Asm.Text
