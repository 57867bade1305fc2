import Rv32Asm.Json.Update

/-!
The parameters of an editor's messages. Of each message only the members that are used are read.
-/

set_option autoImplicit false
set_option relaxedAutoImplicit false

namespace Rv32Asm.Editor

open Rv32Asm.Json

abbrev Uri := String

def uriUpdate : Update Uri := .text "languageServer.DocumentUri"

def textUpdate : Update String := .text "string"

structure Client where
  name : String := ""
  version : String := ""
deriving DecidableEq, Repr

def Client.update : Update Client :=
  .record "ClientInfo" "languageServer.ClientInfo"
    [.lens "name" Client.name (fun c s => { c with name := s }) textUpdate,
     .lens "version" Client.version (fun c s => { c with version := s }) textUpdate]

structure StartParams where
  process : Int := 0
  root : Uri := ""
  client : Option Client := none
deriving DecidableEq, Repr

def StartParams.update : Update StartParams :=
  .record "InitializeParams" "languageServer.InitializeParams"
    [.lens "processId" StartParams.process (fun p n => { p with process := n }) .integer,
     .lens "rootUri" StartParams.root (fun p s => { p with root := s }) uriUpdate,
     .lens "clientInfo" StartParams.client (fun p c => { p with client := c })
       (.optional {} Client.update)]

structure DocumentItem where
  uri : Uri := ""
  language : String := ""
  version : Int := 0
  text : String := ""
deriving DecidableEq, Repr

def DocumentItem.update : Update DocumentItem :=
  .record "TextDocumentItem" "languageServer.TextDocumentItem"
    [.lens "uri" DocumentItem.uri (fun d s => { d with uri := s }) uriUpdate,
     .lens "languageId" DocumentItem.language (fun d s => { d with language := s }) textUpdate,
     .lens "version" DocumentItem.version (fun d n => { d with version := n }) .integer,
     .lens "text" DocumentItem.text (fun d s => { d with text := s }) textUpdate]

def identifierUpdate : Update Uri :=
  .record "TextDocumentIdentifier" "languageServer.TextDocumentIdentifier"
    [.lens "uri" id (fun _ s => s) uriUpdate]

def openUpdate : Update DocumentItem :=
  .record "DidOpenTextDocumentParams" "languageServer.DidOpenTextDocumentParams"
    [.lens "textDocument" id (fun _ d => d) DocumentItem.update]

def closeUpdate : Update Uri :=
  .record "DidCloseTextDocumentParams" "languageServer.DidCloseTextDocumentParams"
    [.lens "textDocument" id (fun _ d => d) identifierUpdate]

/-- New texts of a document, each of which is the whole of it. -/
structure ChangeParams where
  uri : Uri := ""
  version : Int := 0
  texts : Slots String := ⟨none, []⟩
deriving Repr

def versionedUpdate : Update ChangeParams :=
  .record "VersionedTextDocumentIdentifier" "languageServer.VersionedTextDocumentIdentifier"
    [.lens "uri" ChangeParams.uri (fun p s => { p with uri := s }) uriUpdate,
     .lens "version" ChangeParams.version (fun p n => { p with version := n }) .integer]

def changedTextUpdate : Update String :=
  .record "TextDocumentContentChangeEvent" "languageServer.TextDocumentContentChangeEvent"
    [.lens "text" id (fun _ s => s) textUpdate]

def ChangeParams.update : Update ChangeParams :=
  .record "DidChangeTextDocumentParams" "languageServer.DidChangeTextDocumentParams"
    [.lens "textDocument" id (fun _ p => p) versionedUpdate,
     .lens "contentChanges" ChangeParams.texts (fun p t => { p with texts := t })
       (.list "[]languageServer.TextDocumentContentChangeEvent" "" changedTextUpdate)]

def diagnosticUpdate : Update Uri :=
  .record "DocumentDiagnosticsParams" "languageServer.DocumentDiagnosticsParams"
    [.lens "textDocument" id (fun _ d => d) identifierUpdate]

structure SaveParams where
  uri : Uri := ""
  reason : Int := 0
deriving DecidableEq, Repr

def SaveParams.update : Update SaveParams :=
  .record "DocumentWillSaveWaitUntilParams" "languageServer.DocumentWillSaveWaitUntilParams"
    [.lens "textDocument" SaveParams.uri (fun p d => { p with uri := d }) identifierUpdate,
     .lens "reason" SaveParams.reason (fun p n => { p with reason := n }) .integer]

structure PlaceParams where
  uri : Uri := ""
  line : Int := 0
  char : Int := 0
deriving DecidableEq, Repr

def positionUpdate : Update PlaceParams :=
  .record "TextPosition" "assembler.TextPosition"
    [.lens "line" PlaceParams.line (fun p n => { p with line := n }) .integer,
     .lens "character" PlaceParams.char (fun p n => { p with char := n }) .integer]

def PlaceParams.update : Update PlaceParams :=
  .record "TextDocumentPositionParams" "languageServer.TextDocumentPositionParams"
    [.lens "textDocument" PlaceParams.uri (fun p d => { p with uri := d }) identifierUpdate,
     .lens "position" id (fun _ p => p) positionUpdate]

end Rv32Asm.Editor
