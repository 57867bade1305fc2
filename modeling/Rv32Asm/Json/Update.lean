import Rv32Asm.Json.Value
import Rv32Asm.Text.CaseFold

/-!
Typed values out of JSON.

Reading is an update of a value that is already there: members that the document does not have
keep their value, `null` keeps texts and numbers, and a member that is repeated updates again. A
value of the wrong type is a mismatch, and the first one in the order of the document is reported.
-/

set_option autoImplicit false
set_option relaxedAutoImplicit false

namespace Rv32Asm.Json

open Rv32Asm.Text

/-- A step into a value: to a member, by the name that the document gives it, or to an element. -/
inductive Step where
  | member (name : String)
  | element (index : Nat)
deriving DecidableEq, Repr

def Step.text : Step → String
  | member name => name
  | element index => latin (decimal index)

/-- Where a value stands: the outermost record around it, and the steps that lead from there. -/
structure Place where
  record : String
  path : List Step
deriving DecidableEq, Repr

namespace Place

def enter (p : Place) (step : Step) : Place :=
  { p with path := p.path ++ [step] }

/-- Whether the value at the place is a member of a record rather than an element of a list. -/
def isMember (p : Place) : Bool :=
  match p.path.getLast? with
  | some (.member _) => true
  | _ => false

def text (p : Place) : String :=
  (if p.isMember then "Go struct field " else "") ++
    ".".intercalate (p.record :: p.path.map Step.text)

end Place

/-- A value that is not of the type it should have. Values at the top have no place. -/
structure Mismatch where
  found : String
  expected : String
  place : Option Place
deriving DecidableEq, Repr

def Mismatch.message (m : Mismatch) : String :=
  "json: cannot unmarshal " ++ m.found ++ " into " ++ (m.place.map Place.text).getD "Go value" ++
    " of type " ++ m.expected

/-- An update of a value by a JSON value at a place. -/
abbrev Update (α : Type) := Option Place → Json → α → Except Mismatch α

def typeName : Json → String
  | .null => "null"
  | .bool _ => "bool"
  | .num _ => "number"
  | .str _ => "string"
  | .arr _ => "array"
  | .obj _ => "object"

namespace Update

/-- A text; `type` is what a mismatch calls it. -/
def text (type : String) : Update String
  | _, .str s, _ => .ok s
  | _, .null, old => .ok old
  | place, value, _ => .error ⟨value.typeName, type, place⟩

def isWord (n : Int) : Bool :=
  -0x8000000000000000 ≤ n && n < 0x8000000000000000

/-- An integer of 64 bits. A number that is not one is shown in the mismatch. -/
def integer : Update Int
  | _, .null, old => .ok old
  | place, .num literal, _ =>
    match literal.toInt?.filter isWord with
    | some n => .ok n
    | none => .error ⟨"number " ++ literal, "int", place⟩
  | place, value, _ => .error ⟨value.typeName, "int", place⟩

/-- A value that may be absent: `null` takes it away, anything else updates it, from `zero` if it
is not there. -/
def optional {α : Type} (zero : α) (update : Update α) : Update (Option α)
  | _, .null, _ => .ok none
  | place, value, old => (update place value (old.getD zero)).map some

end Update

/-- A list that is updated in place. Elements past the end of a shorter list are kept, and come
back when a later list leaves them out with `null`. -/
structure Slots (α : Type) where
  /-- The length of the list, which may be absent altogether. -/
  length : Option Nat
  elements : List α
deriving Repr

namespace Slots

def ofList {α : Type} (l : List α) : Slots α := ⟨some l.length, l⟩

def toList? {α : Type} (s : Slots α) : Option (List α) :=
  s.length.map s.elements.take

end Slots

namespace Update

/-- Updates elements one by one from `index` on, with `zero` where there is none yet. -/
def elements {α : Type} (zero : α) (update : Update α) (place : Option Place) (index : Nat) :
    List Json → List α → Except Mismatch (List α)
  | [], old => .ok old
  | value :: values, old => do
    let first ← update (place.map (·.enter (.element index))) value (old.headD zero)
    let rest ← elements zero update place (index + 1) values old.tail
    return first :: rest

def list {α : Type} (type : String) (zero : α) (update : Update α) : Update (Slots α)
  | _, .null, _ => .ok ⟨none, []⟩
  | _, .arr [], _ => .ok ⟨some 0, []⟩
  | place, .arr values, old => do
    let slots ← elements zero update place 0 values old.elements
    return ⟨some values.length, slots⟩
  | place, value, _ => .error ⟨value.typeName, type, place⟩

end Update

structure Member (α : Type) where
  name : String
  update : Update α

/-- The member `name` of a record, which is read by `get` and written by `set`. -/
def Member.lens {α β : Type} (name : String) (get : α → β) (set : α → β → α) (update : Update β) :
    Member α :=
  ⟨name, fun place value old => (update place value (get old)).map (set old)⟩

namespace Update

/-- The member that a name of a document means: the one with that name, or else one whose name
differs in letter case only. -/
def findMember {α : Type} (members : List (Member α)) (name : String) : Option (Member α) :=
  (members.find? fun m => m.name == name).or (members.find? fun m => foldEq m.name name)

/-- A record. Its mismatches call it `type`, and those inside it call it `name` if it is the
outermost one. Members of the document that the record does not have are skipped. -/
def record {α : Type} (name type : String) (members : List (Member α)) : Update α
  | _, .null, old => .ok old
  | place, .obj values, old =>
    values.foldlM (fun old (key, value) =>
      match findMember members key with
      | none => .ok old
      | some m =>
        m.update (some ((place.getD ⟨name, []⟩).enter (.member key))) value old) old
  | place, value, _ => .error ⟨value.typeName, type, place⟩

def run {α : Type} (update : Update α) (document : Json) (old : α) : Except Mismatch α :=
  update none document old

end Update

end Rv32Asm.Json
