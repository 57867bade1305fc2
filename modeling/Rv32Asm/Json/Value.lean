import Rv32Asm.Text.Utf8

/-!
JSON values and their text.

Numbers keep the literal they were written with, and objects keep their members in the order of
the text, repeated names included.
-/

set_option autoImplicit false
set_option relaxedAutoImplicit false

namespace Rv32Asm

inductive Json where
  | null
  | bool (value : Bool)
  | num (literal : String)
  | str (text : String)
  | arr (items : List Json)
  | obj (members : List (String × Json))
deriving Inhabited

namespace Json

def int (n : Int) : Json :=
  .num (Text.latin (Text.decimalInt n))

def nat (n : Nat) : Json :=
  .num (Text.latin (Text.decimal n))

/-- Bytes as a JSON string, with replacement characters for bytes that form no character. -/
def text (bs : Bytes) : Json :=
  .str (Text.decodeLossy bs)

/-- The member of an object with the given name, the last one if the name is repeated. -/
def member? (name : String) : Json → Option Json
  | .obj members => (members.reverse.find? fun m => m.1 == name).map Prod.snd
  | _ => none

def escapeChar (c : Char) : List Char :=
  if c = '"' then ['\\', '"']
  else if c = '\\' then ['\\', '\\']
  else if c.toNat < 0x20 then
    '\\' :: 'u' :: '0' :: '0' :: [(c.toNat / 16).digitChar, (c.toNat % 16).digitChar]
  else [c]

def quoted (s : String) : String :=
  String.ofList ('"' :: s.toList.flatMap escapeChar ++ ['"'])

mutual

def write (out : String) : Json → String
  | .null => out ++ "null"
  | .bool value => out ++ (if value then "true" else "false")
  | .num literal => out ++ literal
  | .str text => out ++ quoted text
  | .arr items => writeItems (out ++ "[") true items ++ "]"
  | .obj members => writeMembers (out ++ "\x7b") true members ++ "\x7d"

def writeItems (out : String) (first : Bool) : List Json → String
  | [] => out
  | item :: items => writeItems (write (if first then out else out ++ ",") item) false items

def writeMembers (out : String) (first : Bool) : List (String × Json) → String
  | [] => out
  | (name, value) :: members =>
    writeMembers (write ((if first then out else out ++ ",") ++ quoted name ++ ":") value) false
      members

end

def render (value : Json) : String :=
  write "" value

end Json

end Rv32Asm
