import Rv32Asm.Link
import Rv32Asm.Statement.Parse
import Rv32Asm.Text.Blank
import Rv32Asm.Word.Encode

/-!
Assembling a source text into a program.

The first fault ends the assembly, and there is no program then.
-/

set_option autoImplicit false
set_option relaxedAutoImplicit false

namespace Rv32Asm

open Rv32Asm.Text

structure CodeWord where
  address : UInt32
  word : UInt32
  line : Nat
deriving DecidableEq, Repr, Inhabited

structure Program where
  config : Config
  source : Array Bytes
  symbols : SymbolTable
  /-- The records of the source with numbers in place of labels. -/
  records : List Record
  code : List CodeWord
  data : Bytes

inductive AssembleFault where
  | config (fault : ConfigFault)
  | source (fault : Fault)
  | encode (fault : EncodeFault)
deriving DecidableEq, Repr

namespace AssembleFault

def report : AssembleFault → Bytes
  | config f => utf8 f.message
  | source f => f.report
  | encode f => utf8 f.message

end AssembleFault

/-- The words of records that hold instructions, with addresses from `4 * count` on, after the
words in `done`, which are in reverse. -/
def codeFrom (done : List CodeWord) (count : Nat) : List Record → Except EncodeFault (List CodeWord)
  | [] => .ok done.reverse
  | r :: rs =>
    match r.statement with
    | .data _ => codeFrom done count rs
    | .inst i =>
      match i.encode with
      | .error fault => .error fault
      | .ok w => codeFrom (⟨UInt32.ofNat (4 * count), w, r.line⟩ :: done) (count + 1) rs

def Statement.dataBytes (order : ByteOrder) : Statement → Bytes
  | .inst _ => []
  | .data d => d.emit order

def assemble (cfg : Config) (source : Bytes) : Except AssembleFault Program := do
  cfg.validate.mapError .config
  let rs ← (parse cfg source).mapError .source
  let table ← (SymbolTable.ofRecords rs).mapError .source
  let rs ← (link table rs).mapError .source
  let code ← (codeFrom [] 0 rs).mapError .encode
  return {
    config := cfg
    source := (lines source).toArray
    symbols := table
    records := rs
    code := code
    data := rs.flatMap fun r => r.statement.dataBytes cfg.order }

namespace Program

def order (p : Program) : ByteOrder := p.config.order

def words (p : Program) : List UInt32 := p.code.map CodeWord.word

def text (p : Program) : Bytes := p.words.flatMap p.order.bytes32

def bytes (p : Program) : Bytes := p.text ++ p.data

def recordAt? (p : Program) (line : Int) : Option Record :=
  p.records.find? fun r => (r.line : Int) == line

def addressOf? (p : Program) (line : Int) : Option UInt32 :=
  (p.code.find? fun c => (c.line : Int) == line).map CodeWord.address

/-- A line of the source without the white space around it, and nothing for lines that do not
exist. -/
def sourceLine (p : Program) (line : Int) : Bytes :=
  if line < 0 then [] else trim (p.source.getD line.toNat [])

end Program

end Rv32Asm
