import Rv32Asm.Bounds
import Rv32Asm.Instruction
import Rv32Asm.Number

/-!
Reading the operands of a statement.

Each reader takes the tokens that are left and gives the operand and the tokens after it. Between
two operands one comma may stand; readers do not skip it, so that the first operand of a statement
cannot have one before it.
-/

set_option autoImplicit false
set_option relaxedAutoImplicit false

namespace Rv32Asm.Operands

open Rv32Asm.Text

structure Context where
  line : Nat
  span : Span
  name : String
  usage : String

def next (c : Context) : List Token → Except Fault (Token × List Token)
  | [] => .error ⟨.badOperands c.name c.usage, c.span⟩
  | t :: ts => .ok (t, ts)

def skipComma : List Token → List Token
  | t :: ts => if t.kind = .comma then ts else t :: ts
  | [] => []

def finish (c : Context) : List Token → Except Fault Unit
  | [] => .ok ()
  | t :: _ => .error ⟨.unexpected "end of line" t.text, t.span c.line⟩

/-- The number of tokens left, commas apart. -/
def remaining (ts : List Token) : Nat :=
  ts.countP fun t => t.kind != .comma

def register (c : Context) (ts : List Token) : Except Fault (Register × List Token) := do
  let (t, ts) ← next c ts
  if t.kind = .ident ∨ t.kind = .number then
    match Register.ofName? (latin t.text) with
    | some r => .ok (r, ts)
    | none => .error ⟨.unknownRegister t.text, t.span c.line⟩
  else .error ⟨.unexpected "register" t.text, t.span c.line⟩

def registerPair (c : Context) (ts : List Token) :
    Except Fault (Register × Register × List Token) := do
  let (a, ts) ← register c ts
  let (b, ts) ← register c (skipComma ts)
  return (a, b, ts)

def operand (c : Context) (bounds : Bounds) (t : Token) : Except Fault Operand :=
  match t.kind with
  | .number => do
    let v ← Number.ofToken c.line t
    bounds.check v t.text (t.span c.line)
    return .num v
  | .ident => .ok (.ref t.text)
  | _ => .error ⟨.unexpected "immediate or label" t.text, t.span c.line⟩

def immediate (c : Context) (bounds : Bounds) (ts : List Token) :
    Except Fault (Operand × List Token) := do
  let (t, ts) ← next c ts
  let v ← operand c bounds t
  return (v, ts)

/-- A token of one kind, which messages call `expected`. -/
def exactly (c : Context) (kind : TokenKind) (expected : String) (ts : List Token) :
    Except Fault (List Token) := do
  let (t, ts) ← next c ts
  if t.kind = kind then return ts
  else .error ⟨.unexpected expected t.text, t.span c.line⟩

def nextIs (kind : TokenKind) (ts : List Token) : Bool :=
  ts.head?.any fun t => t.kind == kind

/-- The offset before a parenthesis, which is zero if it is left out. -/
def memoryOffset (c : Context) (ts : List Token) : Except Fault (Operand × List Token) :=
  if ts.isEmpty || nextIs .openParen ts then .ok (.num 0, ts)
  else immediate c .twelveBit ts

/-- A memory operand: an offset and a register in parentheses. -/
def memory (c : Context) (ts : List Token) : Except Fault (Operand × Register × List Token) := do
  let (imm, ts) ← memoryOffset c ts
  let ts ← exactly c .openParen "\"(\"" ts
  let (r, ts) ← register c ts
  let ts ← exactly c .closeParen "\")\"" ts
  return (imm, r, ts)

/-- Whether a memory operand is next, after a comma or not. -/
def atMemory (ts : List Token) : Bool :=
  nextIs .openParen (skipComma ts) || nextIs .openParen ((skipComma ts).drop 1)

/-- Operands up to the end of the line, each behind a comma or not. -/
def moreOperands (c : Context) (bounds : Bounds) : List Token → Except Fault (List Operand)
  | [] => .ok []
  | [t] =>
    if t.kind = .comma then .error ⟨.badOperands c.name c.usage, c.span⟩
    else do
      let v ← operand c bounds t
      return [v]
  | t :: u :: ts =>
    if t.kind = .comma then do
      let v ← operand c bounds u
      let vs ← moreOperands c bounds ts
      return v :: vs
    else do
      let v ← operand c bounds t
      let vs ← moreOperands c bounds (u :: ts)
      return v :: vs

def operands (c : Context) (bounds : Bounds) : List Token → Except Fault (List Operand)
  | [] => .error ⟨.lineEnd "value", c.span⟩
  | t :: ts => do
    let v ← operand c bounds t
    let vs ← moreOperands c bounds ts
    return v :: vs

end Rv32Asm.Operands
