import Rv32Asm.Bounds
import Rv32Asm.Symbol

/-!
Replacing label operands by numbers.

In branches and jumps a label becomes its distance from the instruction. Everywhere else it becomes
its offset within its segment.
-/

set_option autoImplicit false
set_option relaxedAutoImplicit false

namespace Rv32Asm.Link

open Rv32Asm.Text

def symbol (table : SymbolTable) (label : Bytes) (span : Span) : Except Fault Symbol :=
  match table.find? label with
  | some s => .ok s
  | none => .error ⟨.undefinedLabel label, span⟩

/-- The distance from the instruction at `pc` to a symbol of the text segment. `bits` is the width
of the field that holds it. -/
def distance (bounds : Bounds) (bits : Nat) (label : Bytes) (s : Symbol) (pc : UInt32)
    (span : Span) : Except Fault Int :=
  if s.segment ≠ .text then .error ⟨.labelOutsideText label, span⟩
  else
    let d : Int := (s.offset.toNat : Int) - pc.toNat
    if d < bounds.least ∨ bounds.greatest < d then .error ⟨.labelTooFar label d bits, span⟩
    else .ok d

/-- The number that a label stands for in an instruction of the given format at `pc`. -/
def labelValue (table : SymbolTable) (pc : UInt32) (span : Span) (format : Format)
    (label : Bytes) : Except Fault Int := do
  let s ← symbol table label span
  match format with
  | .branch => distance .branchLabel 13 label s pc span
  | .jump => distance .jumpLabel 21 label s pc span
  | .upperImmediate =>
    Bounds.upperLabel.check s.offset.toNat label span
    return s.offset.toNat
  | _ =>
    Bounds.absoluteLabel.check s.offset.toNat label span
    return s.offset.toNat

def instruction (table : SymbolTable) (pc : UInt32) (span : Span) (inst : Instruction) :
    Except Fault Instruction :=
  match inst.imm? with
  | some (.ref label) => do
    let v ← labelValue table pc span inst.format label
    return inst.withImm (.num v)
  | _ => .ok inst

def item (table : SymbolTable) (size : Int) (span : Span) : Operand → Except Fault Operand
  | .num v => .ok (.num v)
  | .ref label => do
    let s ← symbol table label span
    (Bounds.data size).check s.offset.toNat
      (label ++ utf8 " = " ++ decimal s.offset.toNat) span
    return .num s.offset.toNat

def directive (table : SymbolTable) (span : Span) (d : Directive) : Except Fault Directive :=
  match d.body with
  | .bytes _ => .ok d
  | .values items => do
    let items ← items.mapM (item table d.size span)
    return { d with body := .values items }

def statement (table : SymbolTable) (pc : UInt32) (span : Span) :
    Statement → Except Fault Statement
  | .inst i => do
    let i ← instruction table pc span i
    return .inst i
  | .data d => do
    let d ← directive table span d
    return .data d

/-- The address after a statement: instructions take four bytes of text. -/
def nextPc (pc : UInt32) : Statement → UInt32
  | .inst _ => pc + 4
  | .data _ => pc

/-- Records from address `pc` on with numbers in place of their labels, after the records in
`done`, which are in reverse. -/
def recordsFrom (table : SymbolTable) (done : List Record) (pc : UInt32) :
    List Record → Except Fault (List Record)
  | [] => .ok done.reverse
  | r :: rs =>
    match statement table pc r.span r.statement with
    | .error fault => .error fault
    | .ok stmt =>
      recordsFrom table ({ r with statement := stmt } :: done) (nextPc pc r.statement) rs

end Rv32Asm.Link

namespace Rv32Asm

/-- Records with numbers in place of their labels. -/
def link (table : SymbolTable) (rs : List Record) : Except Fault (List Record) :=
  Link.recordsFrom table [] 0 rs

end Rv32Asm
