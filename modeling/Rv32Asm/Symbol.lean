import Rv32Asm.Fault
import Rv32Asm.Statement.Basic

/-!
Labels and their offsets.

`SymbolTable.ofRecords` walks the records in order and gives each label the offset of its record
within the record's segment. Offsets are 32 bit words and wrap.
-/

set_option autoImplicit false
set_option relaxedAutoImplicit false

namespace Rv32Asm

structure Symbol where
  name : Bytes
  segment : Segment
  offset : UInt32
  line : Nat
deriving DecidableEq, Repr, Inhabited

namespace Symbol

/-- The order of symbols in listings: by segment, then offset, then name. -/
def before (a b : Symbol) : Bool :=
  if a.segment ≠ b.segment then a.segment.number < b.segment.number
  else if a.offset ≠ b.offset then a.offset < b.offset
  else a.name ≤ b.name

end Symbol

/-- The labels of a program, the latest definition first. No name is defined twice. -/
structure SymbolTable where
  entries : List Symbol
deriving DecidableEq, Repr, Inhabited

namespace SymbolTable

def empty : SymbolTable := ⟨[]⟩

def find? (t : SymbolTable) (name : Bytes) : Option Symbol :=
  t.entries.find? fun s => s.name == name

def size (t : SymbolTable) : Nat := t.entries.length

def names (t : SymbolTable) : List Bytes :=
  (t.entries.map Symbol.name).mergeSort fun a b => decide (a ≤ b)

def symbols (t : SymbolTable) : List Symbol :=
  t.entries.mergeSort Symbol.before

/-- Adds a symbol whose label stands at `span`. The name must be new. -/
def define (t : SymbolTable) (s : Symbol) (span : Span) : Except Fault SymbolTable :=
  match t.find? s.name with
  | some first => .error ⟨.duplicateLabel s.name first.line, span⟩
  | none => .ok ⟨s :: t.entries⟩

end SymbolTable

structure Placement where
  text : UInt32
  data : UInt32
  table : SymbolTable
deriving DecidableEq, Repr

namespace Placement

def start : Placement := ⟨0, 0, .empty⟩

def offset (p : Placement) : Segment → UInt32
  | .text => p.text
  | .data => p.data

def advance (p : Placement) (size : UInt32) : Segment → Placement
  | .text => { p with text := p.text + size }
  | .data => { p with data := p.data + size }

/-- Places a record that takes `size` bytes: its labels get the next free offset of its segment. -/
def placeSized (p : Placement) (r : Record) (size : UInt32) : Except Fault Placement := do
  let table ← r.labels.foldlM (fun (t : SymbolTable) label =>
    t.define ⟨label.name, r.segment, p.offset r.segment, label.span.start.line⟩ label.span) p.table
  return ({ p with table := table } : Placement).advance size r.segment

end Placement

/-- Bytes with their number modulo 2^32. -/
structure Counted where
  bytes : Bytes
  count : UInt32
  counts : count = UInt32.ofNat bytes.length

namespace Counted

def of (bs : Bytes) : Counted := ⟨bs, UInt32.ofNat bs.length, rfl⟩

/-- Counts bytes, unless they are the very ones that were counted last. -/
def next (last : Counted) (bs : Bytes) : Counted :=
  let same := withPtrEq bs last.bytes (fun _ => UInt32.ofNat bs.length == last.count)
    fun same => by rw [same, last.counts, beq_self_eq_true]
  if same then last else of bs

def size (last : Counted) : Statement → UInt32 × Counted
  | .data ⟨_, _, .bytes bs⟩ =>
    let counted := last.next bs
    (counted.count, counted)
  | s => (s.byteCount, last)

def place (s : Placement × Counted) (r : Record) : Except Fault (Placement × Counted) := do
  let counted := s.2.size r.statement
  let p ← s.1.placeSized r counted.1
  return (p, counted.2)

end Counted

def SymbolTable.ofRecords (rs : List Record) : Except Fault SymbolTable := do
  let s ← rs.foldlM Counted.place (Placement.start, Counted.of [])
  return s.1.table

end Rv32Asm
