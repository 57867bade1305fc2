import Rv32Asm.Diagnostic
import Rv32Asm.Editor.Params

/-!
The messages between an editor and the language server.
-/

set_option autoImplicit false
set_option relaxedAutoImplicit false

namespace Rv32Asm.Editor

open Rv32Asm.Json

/-- What a request is known by: a word of 64 bits or a name. -/
inductive RequestId where
  | number (n : UInt64)
  | name (s : String)
deriving DecidableEq, Repr

namespace RequestId

/-- Reads an id. Numbers wrap around to words. -/
def ofJson? : Json → Option RequestId
  | .num literal => literal.toInt?.map fun n => .number (UInt64.ofInt n)
  | .str s => some (.name s)
  | _ => none

def toJson : RequestId → Json
  | number n => .nat n.toNat
  | name s => .str s

end RequestId

/-- A message of the editor. One with an id is a request and has a reply. -/
structure Incoming where
  method : String
  id : Option RequestId := none
  params : Option Json := none

/-- The id that a reply carries. Replies to messages without one carry zero. -/
def Incoming.replyId (m : Incoming) : RequestId :=
  m.id.getD (.number 0)

/-- Reads a message of the editor. One whose id is neither a number nor a name is no request, and
a message without a method, such as the reply to a call, is none. -/
def Incoming.ofJson? (j : Json) : Option Incoming :=
  match j.member? "method" with
  | some (.str method) =>
    some { method, id := (j.member? "id").bind RequestId.ofJson?, params := j.member? "params" }
  | _ => none

inductive ParamFault where
  | missing
  | mismatch (m : Mismatch)
deriving DecidableEq, Repr

def ParamFault.message : ParamFault → String
  | missing => "missing parameters"
  | mismatch m => m.message

inductive Call where
  | start (client : Option Client)
  | started
  | opened (uri : Uri) (version : Int) (text : String)
  | closed (uri : Uri)
  | changed (uri : Uri) (version : Int) (texts : List String)
  | diagnose (uri : Uri)
  | saving (uri : Uri)
  | hover (uri : Uri) (line char : Int)
  | shutdown
  | exit
  | unknown
deriving DecidableEq, Repr

def Incoming.read {α : Type} (m : Incoming) (update : Update α) (zero : α) : Except ParamFault α :=
  match m.params with
  | none => .error .missing
  | some params => (update.run params zero).mapError .mismatch

/-- What a message says. The methods that take no parameters do not look at them. -/
def Incoming.call (m : Incoming) : Except ParamFault Call :=
  match m.method with
  | "initialize" => (m.read StartParams.update {}).map fun p => .start p.client
  | "initialized" => .ok .started
  | "textDocument/didOpen" =>
    (m.read openUpdate {}).map fun d => .opened d.uri d.version d.text
  | "textDocument/didClose" => (m.read closeUpdate "").map .closed
  | "textDocument/didChange" =>
    (m.read ChangeParams.update {}).map fun p => .changed p.uri p.version (p.texts.toList?.getD [])
  | "textDocument/diagnostic" => (m.read diagnosticUpdate "").map .diagnose
  | "textDocument/willSaveWaitUntil" => (m.read SaveParams.update {}).map fun p => .saving p.uri
  | "textDocument/hover" => (m.read PlaceParams.update {}).map fun p => .hover p.uri p.line p.char
  | "shutdown" => .ok .shutdown
  | "exit" => .ok .exit
  | _ => .ok .unknown

structure Edit where
  span : Span
  text : Bytes
deriving DecidableEq, Repr

def Edit.toJson (e : Edit) : Json :=
  .obj [("range", e.span.toJson), ("newText", .text e.text)]

inductive Answer where
  | nothing
  | capabilities
  | diagnostics (items : List Diagnostic)
  | edits (items : List Edit)
  | hover (text : Bytes)
deriving DecidableEq, Repr

/-- What the server can do, as a JSON value. Documents are sent whole, and assemble on their own. -/
def capabilitiesJson : Json :=
  .obj [("capabilities", .obj [("textDocumentSync", .nat 1),
      ("diagnosticProvider", .obj [("interFileDependencies", .bool false),
        ("workspaceDiagnostics", .bool false)]),
      ("hoverProvider", .bool true)]),
    ("serverInfo", .obj [("name", .str "riscv-assembler")])]

def Answer.toJson : Answer → Json
  | nothing => .null
  | capabilities => capabilitiesJson
  | diagnostics items => .obj [("kind", .str "full"), ("items", .arr (items.map Diagnostic.toJson))]
  | edits items => .arr (items.map Edit.toJson)
  | hover text => .obj [("contents", .obj [("kind", .str "markdown"), ("value", .text text)])]

inductive Refusal where
  | badParams
  | unknownMethod (method : String)
deriving DecidableEq, Repr

def Refusal.code : Refusal → Int
  | badParams => -32602
  | unknownMethod _ => -32601

def Refusal.message : Refusal → String
  | badParams => "invalid parameters"
  | unknownMethod method => "method not supported: " ++ method

inductive Outgoing where
  | reply (id : RequestId) (answer : Answer)
  | refuse (id : RequestId) (refusal : Refusal)
  | publish (uri : Uri) (version : Int) (items : List Diagnostic)
  /-- Asks to be called before a document is saved. -/
  | register (number : Nat)

def registrationJson : Json :=
  .obj [("registrations", .arr [.obj [("id", .str "textDocumentSync.willSaveWaitUntil"),
    ("method", .str "textDocument/willSaveWaitUntil"),
    ("registerOptions", .obj [("documentSelector", .arr [.obj [("scheme", .str "file"),
      ("language", .str "riscv")]])])]])]

def Outgoing.members : Outgoing → List (String × Json)
  | reply id answer => [("id", id.toJson), ("result", answer.toJson)]
  | refuse id refusal =>
    [("id", id.toJson), ("error", .obj [("code", .int refusal.code), ("message", .str refusal.message)])]
  | publish uri version items =>
    [("method", .str "textDocument/publishDiagnostics"),
     ("params", .obj [("uri", .str uri), ("version", .int version),
       ("diagnostics", .arr (items.map Diagnostic.toJson))])]
  | register number =>
    [("id", .nat number), ("method", .str "client/registerCapability"),
     ("params", registrationJson)]

end Rv32Asm.Editor
