import Rv32Asm.Diagnostic
import Rv32Asm.Json.Parse
import Rv32Asm.Json.Update

/-!
The conversation between the playground page and the assembler. Each message of the page is a JSON
text and has one reply.
-/

set_option autoImplicit false
set_option relaxedAutoImplicit false

namespace Rv32Asm.Playground

open Rv32Asm.Json
open Rv32Asm.Text

structure Request where
  type : String
  source : String
deriving DecidableEq, Repr

def Request.update : Update Request :=
  .record "Request" "request"
    [.lens "type" Request.type (fun r s => { r with type := s }) (.text "string"),
     .lens "source" Request.source (fun r s => { r with source := s }) (.text "string")]

inductive Reply where
  | result (program : Program)
  | diagnostic (d : Diagnostic)
  | error (text : String)

def assembleReply (cfg : Config) (source : Bytes) : Reply :=
  match assemble cfg source with
  | .ok p => .result p
  | .error (.source f) => .diagnostic (.ofFault (.source f))
  | .error (.config f) => .error f.message
  | .error (.encode f) => .error f.message

def reply (cfg : Config) (message : Bytes) : Reply :=
  match Json.parse? message with
  | none => .error "malformed request"
  | some document =>
    match Request.update.run document ⟨"", ""⟩ with
    | .error _ => .error "malformed request"
    | .ok request =>
      if request.type = "assemble" then assembleReply cfg (utf8 request.source)
      else .error ("unknown message type: " ++ request.type)

def symbolJson (s : Symbol) : Json :=
  .obj [("name", .text s.name), ("segment", .str s.segment.name), ("offset", .nat s.offset.toNat)]

def Reply.toJson : Reply → Json
  | .result p =>
    .obj [("type", .str "result"), ("text", .text (hex p.text)), ("data", .text (hex p.data)),
      ("words", .arr (p.words.map fun w => .text (hexWord w))),
      ("symbols", .arr (p.symbols.symbols.map symbolJson))]
  | .diagnostic d => .obj [("type", .str "diagnostic"), ("diagnostic", d.toJson)]
  | .error text => .obj [("type", .str "error"), ("text", .str text)]

end Rv32Asm.Playground
