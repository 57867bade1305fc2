/-!
The general purpose registers.

A register is known by its number, by its number after an `x`, and by the name the calling
convention gives it. Names are case sensitive.
-/

set_option autoImplicit false
set_option relaxedAutoImplicit false

namespace Rv32Asm

/-- A register number. Instruction words have room for 0 to 31. -/
abbrev Register := UInt8

namespace Register

def conventionNames : List String :=
  ["zero", "ra", "sp", "gp", "tp", "t0", "t1", "t2", "s0", "s1",
   "a0", "a1", "a2", "a3", "a4", "a5", "a6", "a7",
   "s2", "s3", "s4", "s5", "s6", "s7", "s8", "s9", "s10", "s11",
   "t3", "t4", "t5", "t6"]

def numberName (r : Register) : String :=
  "x" ++ r.toNat.repr

/-- The calling convention name of a register, and `x` with its number if it has none. -/
def conventionName (r : Register) : String :=
  conventionNames.getD r.toNat r.numberName

def spellings : List (String × Register) :=
  conventionNames.zipIdx.flatMap (fun (name, n) =>
    [(name, UInt8.ofNat n), (n.repr, UInt8.ofNat n), ("x" ++ n.repr, UInt8.ofNat n)])
  ++ [("fp", 8)]

def ofName? (name : String) : Option Register :=
  spellings.lookup name

end Register

end Rv32Asm
