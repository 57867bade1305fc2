import Rv32Asm.Text.Printable

/-!
Text in quotes, as messages show a name that may hold any character.
-/

set_option autoImplicit false
set_option relaxedAutoImplicit false

namespace Rv32Asm.Text

def hexChars : (width : Nat) → Nat → List Char
  | 0, _ => []
  | width + 1, n => (n / 16 ^ width % 16).digitChar :: hexChars width n

def quoteChar (c : Char) : List Char :=
  if c = '"' || c = '\\' then ['\\', c]
  else if isPrintable c then [c]
  else if c = '\x07' then ['\\', 'a']
  else if c = '\x08' then ['\\', 'b']
  else if c = '\x0c' then ['\\', 'f']
  else if c = '\n' then ['\\', 'n']
  else if c = '\r' then ['\\', 'r']
  else if c = '\t' then ['\\', 't']
  else if c = '\x0b' then ['\\', 'v']
  else if c.toNat < 0x80 then '\\' :: 'x' :: hexChars 2 c.toNat
  else if c.toNat < 0x10000 then '\\' :: 'u' :: hexChars 4 c.toNat
  else '\\' :: 'U' :: hexChars 8 c.toNat

/-- A text in double quotes: quotes and backslashes are escaped, and so is every character that
does not print. -/
def quote (s : String) : String :=
  String.ofList ('"' :: s.toList.flatMap quoteChar ++ ['"'])

def quoteSingle (c : Char) : String :=
  String.ofList ('\'' :: (if c = '"' then [c] else if c = '\'' then ['\\', c] else quoteChar c) ++ ['\''])

example : quote "a\"\\\n\x01" = "\"a\\\"\\\\\\n\\x01\"" := by decide +kernel
example : quoteSingle '\n' = "'\\n'" := by decide +kernel
example : quote "é\u200b" = "\"é\\u200b\"" := by decide +kernel

end Rv32Asm.Text
