import Rv32Asm.Config
import Rv32Asm.Instruction
import Rv32Asm.Text.Span

/-!
What a source line says: an instruction or a data directive, with the labels before it.
-/

set_option autoImplicit false
set_option relaxedAutoImplicit false

namespace Rv32Asm

inductive Segment where
  | text
  | data
deriving DecidableEq, Repr, Inhabited

namespace Segment

def name : Segment → String
  | text => "text"
  | data => "data"

def number : Segment → Nat
  | text => 0
  | data => 1

/-- The segment with a number; every number but zero stands for the data segment. -/
def ofNumber (n : Int) : Segment :=
  if n = 0 then text else data

end Segment

inductive DataBody where
  | values (items : List Operand)
  | bytes (bs : Bytes)
deriving DecidableEq, Repr, Inhabited

/-- A data directive. The parser only makes items of one, two or four bytes. -/
structure Directive where
  name : String
  size : Int
  body : DataBody
deriving DecidableEq, Repr, Inhabited

namespace Directive

/-- The number of bytes that a directive takes, modulo 2^32. -/
def byteCount (d : Directive) : UInt32 :=
  match d.body with
  | .values items => UInt32.ofNat items.length * UInt32.ofInt d.size
  | .bytes bs => UInt32.ofNat bs.length

/-- The bytes of one data item of the given size. Labels count as zero, and sizes other than one,
two and four give nothing. -/
def itemBytes (order : ByteOrder) (size : Int) (item : Operand) : Bytes :=
  let v := match item with
    | .num v => v
    | .ref _ => 0
  if size = 1 then [UInt8.ofInt v]
  else if size = 2 then order.bytes16 (UInt16.ofInt v)
  else if size = 4 then order.bytes32 (UInt32.ofInt v)
  else []

def emit (order : ByteOrder) (d : Directive) : Bytes :=
  match d.body with
  | .values items => items.flatMap (itemBytes order d.size)
  | .bytes bs => bs

end Directive

inductive Statement where
  | inst (instruction : Instruction)
  | data (directive : Directive)
deriving DecidableEq, Repr, Inhabited

namespace Statement

def segment : Statement → Segment
  | inst _ => .text
  | data _ => .data

def byteCount : Statement → UInt32
  | inst _ => 4
  | data d => d.byteCount

end Statement

structure Label where
  name : Bytes
  span : Span
deriving DecidableEq, Repr, Inhabited

/-- A statement with its place in the source and the labels that stand for it. The labels may come
from earlier lines that held nothing else. -/
structure Record where
  labels : List Label
  line : Nat
  span : Span
  statement : Statement
deriving DecidableEq, Repr, Inhabited

namespace Record

def segment (r : Record) : Segment := r.statement.segment

def instruction? (r : Record) : Option Instruction :=
  match r.statement with
  | .inst i => some i
  | .data _ => none

end Record

end Rv32Asm
