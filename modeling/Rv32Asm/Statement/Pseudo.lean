import Rv32Asm.Statement.Operands

/-!
Shorthands for instructions. Each is read with its own operands and stands for one instruction.
-/

set_option autoImplicit false
set_option relaxedAutoImplicit false

namespace Rv32Asm

open Rv32Asm.Operands

inductive Pseudo where
  | nop
  | ret
  | mv
  | not
  | neg
  | j
deriving DecidableEq, Repr, Inhabited

namespace Pseudo

def all : List Pseudo := [nop, ret, mv, not, neg, j]

def name : Pseudo → String
  | nop => "nop"
  | ret => "ret"
  | mv => "mv"
  | not => "not"
  | neg => "neg"
  | j => "j"

def usage : Pseudo → String
  | nop => "nop"
  | ret => "ret"
  | mv => "mv <reg>, <reg>"
  | not => "not <reg>, <reg>"
  | neg => "neg <reg>, <reg>"
  | j => "j <imm|label>"

def ofName? (name : String) : Option Pseudo :=
  all.find? fun p => p.name == name

def expand (p : Pseudo) (c : Context) (ts : List Token) :
    Except Fault (Instruction × List Token) :=
  match p with
  | nop => .ok (.i "addi" 0 0 (.num 0), ts)
  | ret => .ok (.jalr "jalr" 0 1 (.num 0), ts)
  | mv => do
    let (rd, rs, ts) ← registerPair c ts
    return (.i "addi" rd rs (.num 0), ts)
  | not => do
    let (rd, rs, ts) ← registerPair c ts
    return (.i "xori" rd rs (.num (-1)), ts)
  | neg => do
    let (rd, rs, ts) ← registerPair c ts
    return (.r "sub" rd 0 rs, ts)
  | j => do
    let (target, ts) ← immediate c .jumpLiteral ts
    return (.j "jal" 0 target, ts)

end Pseudo

end Rv32Asm
