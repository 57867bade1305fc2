import Rv32Asm.Json.Token
import Rv32Asm.Json.Value

/-!
Reading JSON text.

A machine takes the tokens one by one and keeps the arrays and objects that are still open on a
stack. Nesting is limited to `maxDepth`.
-/

set_option autoImplicit false
set_option relaxedAutoImplicit false

namespace Rv32Asm.Json

/-- An array or object that is still open, its contents in reverse; an object also has the name
of the member being read. -/
inductive Frame where
  | array (items : List Json)
  | object (members : List (String × Json)) (name : String)

inductive Mode where
  | value
  /-- The first item of an array, or its end. -/
  | firstItem
  /-- The first member name of an object, or its end. -/
  | firstName
  | name
  | colon
  /-- A comma, or the end of what is open. -/
  | comma
  | done (result : Json)

structure Machine where
  mode : Mode
  depth : Nat
  stack : List Frame

def maxDepth : Nat := 10000

namespace Machine

def start : Machine := ⟨.value, 0, []⟩

def finish (depth : Nat) (v : Json) : List Frame → Machine
  | [] => ⟨.done v, depth, []⟩
  | .array items :: stack => ⟨.comma, depth, .array (v :: items) :: stack⟩
  | .object members name :: stack => ⟨.comma, depth, .object ((name, v) :: members) name :: stack⟩

def enter (m : Machine) (mode : Mode) (frame : Frame) : Option Machine :=
  if m.depth < maxDepth then some ⟨mode, m.depth + 1, frame :: m.stack⟩ else none

def value (m : Machine) : Token → Option Machine
  | .null => some (finish m.depth .null m.stack)
  | .bool b => some (finish m.depth (.bool b) m.stack)
  | .num literal => some (finish m.depth (.num literal) m.stack)
  | .str s => some (finish m.depth (.str s) m.stack)
  | .openArray => m.enter .firstItem (.array [])
  | .openObject => m.enter .firstName (.object [] "")
  | _ => none

def memberName (m : Machine) : Token → Option Machine
  | .str s =>
    match m.stack with
    | .object members _ :: stack => some ⟨.colon, m.depth, .object members s :: stack⟩
    | _ => none
  | _ => none

def leave (m : Machine) : Token → Option Machine
  | .closeArray =>
    match m.stack with
    | .array items :: stack => some (finish (m.depth - 1) (.arr items.reverse) stack)
    | _ => none
  | .closeObject =>
    match m.stack with
    | .object members _ :: stack => some (finish (m.depth - 1) (.obj members.reverse) stack)
    | _ => none
  | _ => none

def afterItem (m : Machine) (t : Token) : Option Machine :=
  match t, m.stack with
  | .comma, .array items :: stack => some ⟨.value, m.depth, .array items :: stack⟩
  | .comma, .object members name :: stack => some ⟨.name, m.depth, .object members name :: stack⟩
  | _, _ => m.leave t

def step (m : Machine) (t : Token) : Option Machine :=
  match m.mode with
  | .value => m.value t
  | .firstItem => if t = .closeArray then m.leave t else m.value t
  | .firstName => if t = .closeObject then m.leave t else m.memberName t
  | .name => m.memberName t
  | .colon => if t = .colon then some ⟨.value, m.depth, m.stack⟩ else none
  | .comma => m.afterItem t
  | .done _ => none

end Machine

def parse? (bs : Bytes) : Option Json := do
  let ts ← tokens? bs
  let m ← ts.foldlM Machine.step Machine.start
  match m.mode with
  | .done v => some v
  | _ => none

end Rv32Asm.Json
