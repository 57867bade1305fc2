import Rv32Asm.Statement.Basic
import Rv32Asm.Statement.Pseudo

/-!
Reading source text into records.

Lines are read in order, and the first fault ends the reading. Labels wait until a statement comes
that they stand for; a change of section or the end of the text must not come first.
-/

set_option autoImplicit false
set_option relaxedAutoImplicit false

namespace Rv32Asm.Parse

open Rv32Asm.Text
open Rv32Asm.Operands

def formatOperands (op : Opcode) (c : Context) (ts : List Token) :
    Except Fault (Instruction × List Token) :=
  match op.format with
  | .registerRegister => do
    let (rd, ts) ← register c ts
    let (rs1, rs2, ts) ← registerPair c (skipComma ts)
    return (.r op.name rd rs1 rs2, ts)
  | .registerImmediate => do
    let (rd, rs1, ts) ← registerPair c ts
    let (imm, ts) ← immediate c op.literalBounds (skipComma ts)
    return (.i op.name rd rs1 imm, ts)
  | .load => do
    let (rd, ts) ← register c ts
    let (imm, rs1, ts) ← memory c (skipComma ts)
    return (.load op.name rd rs1 imm, ts)
  | .store => do
    let (rs2, ts) ← register c ts
    let (imm, rs1, ts) ← memory c (skipComma ts)
    return (.s op.name rs1 rs2 imm, ts)
  | .branch => do
    let (rs1, rs2, ts) ← registerPair c ts
    let (imm, ts) ← immediate c .branchLiteral (skipComma ts)
    return (.b op.name rs1 rs2 imm, ts)
  | .jump =>
    -- A target alone links through `ra`.
    if remaining ts = 1 then do
      let (imm, ts) ← immediate c .jumpLiteral ts
      return (.j op.name 1 imm, ts)
    else do
      let (rd, ts) ← register c ts
      let (imm, ts) ← immediate c .jumpLiteral (skipComma ts)
      return (.j op.name rd imm, ts)
  | .jumpRegister => do
    let (r, ts) ← register c ts
    -- A register alone is the target and links through `ra`.
    if ts.isEmpty then return (.jalr op.name 1 r (.num 0), ts)
    else if atMemory ts then
      let (imm, rs1, ts) ← memory c (skipComma ts)
      return (.jalr op.name r rs1 imm, ts)
    else
      let (rs1, ts) ← register c (skipComma ts)
      if ts.isEmpty then return (.jalr op.name r rs1 (.num 0), ts)
      else
        let (imm, ts) ← immediate c .twelveBit (skipComma ts)
        return (.jalr op.name r rs1 imm, ts)
  | .upperImmediate => do
    let (rd, ts) ← register c ts
    let (imm, ts) ← immediate c .upper (skipComma ts)
    return (.u op.name rd imm, ts)

/-- The instruction of a line whose first token is `head`. Shorthands come before mnemonics. -/
def instruction (cfg : Config) (line : Nat) (span : Span) (head : Token) (ts : List Token) :
    Except Fault Instruction :=
  let name := latin (head.text.map lowerByte)
  match Pseudo.ofName? name with
  | some p => do
    let c : Context := ⟨line, span, name, p.usage⟩
    let (inst, ts) ← p.expand c ts
    finish c ts
    return inst
  | none =>
    match cfg.opcode? name with
    | none => .error ⟨.unknownMnemonic head.text, head.span line⟩
    | some op => do
      let c : Context := ⟨line, span, name, op.format.usage⟩
      let (inst, ts) ← formatOperands op c ts
      finish c ts
      return inst

def leadingLabels (line : Nat) : List Token → Except Fault (List Label × List Token)
  | t :: colon :: ts =>
    if colon.kind = .colon then
      if t.kind = .ident then do
        let (labels, ts) ← leadingLabels line ts
        return (⟨t.text, t.span line⟩ :: labels, ts)
      else
        .error ⟨.badSymbol t.text "labels must start with a letter, '_', '.' or '$'", t.span line⟩
    else .ok ([], t :: colon :: ts)
  | ts => .ok ([], ts)

/-- No label may wait. `waiting` has the latest label first. -/
def noneWaiting (waiting : List Label) : Except Fault Unit :=
  match waiting.getLast? with
  | some label => .error ⟨.danglingLabel label.name, label.span⟩
  | none => .ok ()

def itemSize? (name : String) : Option Int :=
  if name = ".byte" then some 1
  else if name = ".half" then some 2
  else if name = ".word" then some 4
  else none

/-- The bytes of a string directive; all but `.ascii` end in a zero byte. -/
def stringData (c : Context) (ts : List Token) : Except Fault Directive := do
  let (t, ts) ← next c ts
  if t.kind = .string then
    match Token.unquote t.text with
    | .error flaw => .error ⟨.badString t.text flaw, t.span c.line⟩
    | .ok bs =>
      finish c ts
      return ⟨c.name, 1, .bytes (if c.name = ".ascii" then bs else bs ++ [0])⟩
  else .error ⟨.unexpected "string literal" t.text, t.span c.line⟩

def fillData (c : Context) (ts : List Token) : Except Fault Directive := do
  let (t, ts) ← next c ts
  if t.kind = .number then
    let n ← Number.ofToken c.line t
    Bounds.fill.check n t.text (t.span c.line)
    finish c ts
    return ⟨c.name, 1, .bytes (zeros n.toNat)⟩
  else .error ⟨.badInteger t.text, t.span c.line⟩

/-- A directive, which may put data into the program. `waiting` are the labels before it. -/
def directive (waiting : List Label) (line : Nat) (span : Span) (head : Token) (ts : List Token) :
    Except Fault (Option Directive) :=
  let name := latin (head.text.map lowerByte)
  let context (usage : String) : Context := ⟨line, span, name, usage⟩
  if name = ".section" then do
    noneWaiting waiting
    return none
  else if name = ".text" ∨ name = ".data" then do
    noneWaiting waiting
    finish (context "") ts
    return none
  else if name = ".globl" ∨ name = ".global" then do
    let c := context (name ++ " <symbol>")
    let (t, ts) ← next c ts
    if t.kind = .ident then
      finish c ts
      return none
    else .error ⟨.badSymbol t.text "expected a symbol name", t.span line⟩
  else if name = ".string" ∨ name = ".asciz" ∨ name = ".ascii" then do
    let d ← stringData (context (name ++ " \"<text>\"")) ts
    return some d
  else if name = ".space" ∨ name = ".zero" then do
    let d ← fillData (context (name ++ " <count>")) ts
    return some d
  else match itemSize? name with
    | some size => do
      let items ← operands (context (name ++ " <imm|label>, ...")) (.data size) ts
      return some ⟨name, size, .values items⟩
    | none => .error ⟨.unknownDirective head.text, head.span line⟩

/-- The statement that starts with token `head`, if the line has one that takes bytes. -/
def statement (cfg : Config) (waiting : List Label) (line : Nat) (span : Span) (head : Token)
    (ts : List Token) : Except Fault (Option Statement) :=
  if head.kind ≠ .ident then
    .error ⟨.unexpected "instruction or directive" head.text, head.span line⟩
  else if head.text.head? = some (ascii '.') then do
    let d ← directive waiting line span head ts
    return d.map .data
  else do
    let inst ← instruction cfg line span head ts
    return some (.inst inst)

/-- The records read so far and the labels that wait for a statement, both latest first. -/
structure State where
  waiting : List Label
  records : List Record

def line (cfg : Config) (s : State) (numbered : Bytes × Nat) : Except Fault State := do
  let ts ← Token.scan numbered.2 numbered.1
  let (labels, ts) ← leadingLabels numbered.2 ts
  let waiting := labels.reverse ++ s.waiting
  match ts with
  | [] => return ⟨waiting, s.records⟩
  | head :: rest =>
    let stop := ((head :: rest).getLastD head).stop
    let span := Span.onLine numbered.2 head.start stop
    match ← statement cfg waiting numbered.2 span head rest with
    | none => return ⟨waiting, s.records⟩
    | some stmt => return ⟨[], ⟨waiting.reverse, numbered.2, span, stmt⟩ :: s.records⟩

def records (cfg : Config) (ls : List Bytes) : Except Fault (List Record) := do
  let s ← ls.zipIdx.foldlM (line cfg) ⟨[], []⟩
  noneWaiting s.waiting
  return s.records.reverse

end Rv32Asm.Parse

namespace Rv32Asm

/-- The records of a source text. Label operands are left as they are. -/
def parse (cfg : Config) (source : Bytes) : Except Fault (List Record) :=
  Parse.records cfg (Text.lines source)

end Rv32Asm
