import Rv32Asm.Editor.Message

/-!
Messages as they travel: a header with the length of the body, an empty line, and the body.
-/

set_option autoImplicit false
set_option relaxedAutoImplicit false

namespace Rv32Asm.Editor

open Rv32Asm.Text

def Outgoing.body (m : Outgoing) : Bytes :=
  utf8 (Json.obj (("jsonrpc", .str "2.0") :: m.members)).render

def Outgoing.frame (m : Outgoing) : Bytes :=
  utf8 "Content-Length: " ++ decimal m.body.length ++ utf8 "\r\n\r\n" ++ m.body

/-- The length of the body, if a header line says it. -/
def contentLength? (line : String) : Option Nat :=
  match line.splitOn ":" with
  | [name, value] =>
    if name.trimAscii.toString.toLower = "content-length" then value.trimAscii.toString.toNat? else none
  | _ => none

end Rv32Asm.Editor
