import Rv32Asm.Text.Blank
import Rv32Asm.Token

/-!
Tidy source text.

Every statement starts in the column after the longest label, tokens are separated by single
spaces, and comments follow after one space. Directives without a label start in the first column.
Lines that cannot be scanned stay as they are.
-/

set_option autoImplicit false
set_option relaxedAutoImplicit false

namespace Rv32Asm.Tidy

open Rv32Asm.Text

inductive Line where
  /-- A line that cannot be scanned. -/
  | raw (bs : Bytes)
  /-- Label names, a statement and a comment, each of which may be missing. -/
  | parts (labels : List Bytes) (statement comment : Bytes)
deriving DecidableEq, Repr

/-- The label names at the start of a line, and the tokens after them. Any token before a colon
counts. -/
def splitLabels : List Token → List Bytes × List Token
  | t :: colon :: ts =>
    if colon.kind = .colon then
      let (labels, ts) := splitLabels ts
      (t.text :: labels, ts)
    else ([], t :: colon :: ts)
  | ts => ([], ts)

/-- Whether a token follows the one before it without a space: commas and closing parentheses do,
and so does what stands next to an opening parenthesis, unless it is a comma before it. -/
def isTight (before t : Token) : Bool :=
  t.kind == .comma || t.kind == .closeParen || before.kind == .openParen
    || (t.kind == .openParen && before.kind != .comma)

def joinAfter (before : Token) : List Token → Bytes
  | [] => []
  | t :: ts =>
    (if isTight before t then t.text else ascii ' ' :: t.text) ++ joinAfter t ts

def join : List Token → Bytes
  | [] => []
  | t :: ts => t.text ++ joinAfter t ts

/-- Takes a line apart. The comment is what follows the last token. -/
def Line.ofBytes (bs : Bytes) : Line :=
  match Token.scan 0 bs with
  | .error _ => .raw bs
  | .ok ts =>
    let (labels, stmt) := splitLabels ts
    let stop := (ts.getLast?.map Token.stop).getD 0
    .parts labels (join stmt) (trim (bs.drop stop))

def Line.labelWidth : Line → Nat
  | .raw _ => 0
  | .parts labels _ _ => labels.foldl (fun width label => max width label.length) 0

def spaces (n : Nat) : Bytes :=
  List.replicate n (ascii ' ')

def labelText (labels : List Bytes) : Bytes :=
  ((labels.map fun label => label ++ [ascii ':']).intersperse [ascii ' ']).flatten

/-- A line without its comment, with statements in column `indent`. -/
def Line.body (indent : Nat) (labels : List Bytes) (statement : Bytes) : Bytes :=
  if !labels.isEmpty then
    let front := labelText labels
    if statement.isEmpty then front
    else front ++ spaces (max 1 (indent - front.length)) ++ statement
  else if statement.head? = some (ascii '.') then statement
  else spaces indent ++ statement

def Line.render (indent : Nat) : Line → Bytes
  | .raw bs => bs
  | .parts labels statement comment =>
    if labels.isEmpty && statement.isEmpty && comment.isEmpty then []
    else
      let body := Line.body indent labels statement
      if comment.isEmpty then body
      else if labels.isEmpty && statement.isEmpty then body ++ comment
      else body ++ ascii ' ' :: comment

/-- The column of statements: two more than the length of the longest label. -/
def indent (ls : List Line) : Nat :=
  ls.foldl (fun width l => max width l.labelWidth) 0 + 2

end Rv32Asm.Tidy

namespace Rv32Asm

def tidy (source : Bytes) : Bytes :=
  let ls := (Text.lines source).map Tidy.Line.ofBytes
  Text.unlines (ls.map (Tidy.Line.render (Tidy.indent ls)))

end Rv32Asm
