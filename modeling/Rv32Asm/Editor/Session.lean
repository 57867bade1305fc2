import Rv32Asm.Editor.Message
import Rv32Asm.Hover.Basic
import Rv32Asm.Log
import Rv32Asm.Tidy

/-!
A session with an editor: a step function from messages to messages over the documents that are
open.
-/

set_option autoImplicit false
set_option relaxedAutoImplicit false

namespace Rv32Asm.Editor

open Rv32Asm.Text

/-- An open document: its text, and the program it assembles to, if it does. -/
structure Document where
  text : Bytes
  program : Option Program

abbrev Documents := List (Uri × Document)

namespace Documents

def find? (docs : Documents) (uri : Uri) : Option Document :=
  docs.lookup uri

def erase (docs : Documents) (uri : Uri) : Documents :=
  docs.filter fun entry => entry.1 != uri

def insert (docs : Documents) (uri : Uri) (doc : Document) : Documents :=
  (uri, doc) :: docs.erase uri

end Documents

/-- Assembles a text into a document and what there is to say about it, which is at most one
thing. -/
def Document.ofText (cfg : Config) (text : Bytes) : Document × List Diagnostic :=
  match assemble cfg text with
  | .ok program => (⟨text, some program⟩, [])
  | .error fault => (⟨text, none⟩, [.ofFault fault])

def wholeSpan (text : Bytes) : Span :=
  let rows := lines text
  ⟨⟨0, 0⟩, ⟨rows.length - 1, (rows.getLastD []).length⟩⟩

/-- The edits that tidy a text: none if it is tidy already. -/
def tidyEdits (text : Bytes) : List Edit :=
  let tidied := tidy text
  if tidied = text then [] else [⟨wholeSpan text, tidied⟩]

structure Session where
  config : Config
  documents : Documents := []
  /-- The number of the next call of the server. -/
  nextCall : Nat := 0
  isOpen : Bool := true

structure Reaction where
  messages : List Outgoing := []
  log : List String := []

def serverLine (message : String) : String :=
  logLine ("RISC-V Language Server: " ++ message)

namespace Session

def setText (s : Session) (uri : Uri) (version : Int) (text : String) : Session × Reaction :=
  let (doc, items) := Document.ofText s.config (utf8 text)
  ({ s with documents := s.documents.insert uri doc }, { messages := [.publish uri version items] })

def diagnose (s : Session) (uri : Uri) : Session × List Diagnostic :=
  match s.documents.find? uri with
  | none => (s, [])
  | some old =>
    let (doc, items) := Document.ofText s.config old.text
    ({ s with documents := s.documents.insert uri doc }, items)

def hover? (s : Session) (uri : Uri) (line char : Int) : Option Bytes := do
  let doc ← s.documents.find? uri
  let program ← doc.program
  program.hover? line char

/-- What a call leads to. Replies carry `id`; unknown calls are refused if they want a reply. -/
def handle (s : Session) (m : Incoming) : Call → Session × Reaction
  | .start client =>
    ({ s with nextCall := s.nextCall + 1 },
     { messages := [.reply m.replyId .capabilities, .register s.nextCall],
       log :=
         (client.map fun c => serverLine ("initializing for " ++ c.name ++ " " ++ c.version)).toList
           ++ [serverLine "registering remaining capabilities"] })
  | .started => (s, {})
  | .opened uri version text => s.setText uri version text
  | .closed uri => ({ s with documents := s.documents.erase uri }, {})
  | .changed uri version texts =>
    match texts.getLast? with
    | none => (s, {})
    | some text => s.setText uri version text
  | .diagnose uri =>
    let (s, items) := s.diagnose uri
    (s, { messages := [.reply m.replyId (.diagnostics items)] })
  | .saving uri =>
    match s.documents.find? uri with
    | none => (s, { messages := [.reply m.replyId (.edits [])] })
    | some doc =>
      (s, { messages := [.reply m.replyId (.edits (tidyEdits doc.text))],
            log := [serverLine ("reformatted document " ++ uri)] })
  | .hover uri line char =>
    (s, { messages := [.reply m.replyId (((s.hover? uri line char).map .hover).getD .nothing)] })
  | .shutdown => (s, { messages := [.reply m.replyId .nothing] })
  | .exit => ({ s with isOpen := false }, {})
  | .unknown =>
    (s, { messages := (m.id.map fun id => .refuse id (.unknownMethod m.method)).toList })

/-- What a message leads to. Every message is logged first; one whose parameters cannot be read
changes nothing. -/
def step (s : Session) (m : Incoming) : Session × Reaction :=
  let received := serverLine ("received request: " ++ m.method)
  match m.call with
  | .ok call =>
    let (s, r) := s.handle m call
    (s, { r with log := received :: r.log })
  | .error fault =>
    (s, { messages := (m.id.map fun id => .refuse id .badParams).toList,
          log := [received,
            serverLine ("invalid parameters for " ++ m.method ++ ": " ++ fault.message)] })

end Session

end Rv32Asm.Editor
