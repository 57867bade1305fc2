import Rv32Asm.Opcode
import Rv32Asm.Text.Bytes
import Rv32Asm.Text.Quoted

/-!
The configuration of an assembly: the order of the bytes of a word, and the instruction sets that
are switched on.
-/

set_option autoImplicit false
set_option relaxedAutoImplicit false

namespace Rv32Asm

open Rv32Asm.Text

inductive ByteOrder where
  | big
  | little
deriving DecidableEq, Repr, Inhabited

namespace ByteOrder

def name : ByteOrder → String
  | big => "big"
  | little => "little"

/-- Bytes that are given most significant first, in this order. -/
def arrange : ByteOrder → Bytes → Bytes
  | big, bs => bs
  | little, bs => bs.reverse

def bytes16 (order : ByteOrder) (h : UInt16) : Bytes :=
  order.arrange [(h >>> 8).toUInt8, h.toUInt8]

def bytes32 (order : ByteOrder) (w : UInt32) : Bytes :=
  order.arrange [(w >>> 24).toUInt8, (w >>> 16).toUInt8, (w >>> 8).toUInt8, w.toUInt8]

end ByteOrder

/-- A configuration as it is written. The list of extensions may be absent, which is the same as
empty wherever it is used. -/
structure Config where
  byteOrder : String
  extensions : Option (List String)
deriving DecidableEq, Repr

inductive ConfigFault where
  | byteOrder (given : String)
  | extension (given : String)
deriving DecidableEq, Repr

def ConfigFault.message : ConfigFault → String
  | byteOrder given =>
    "invalid byte order " ++ quote given ++ ", expected \"big\" or \"little\""
  | extension given => "unsupported extension " ++ quote given

namespace Config

def standard : Config := ⟨"big", some ["m"]⟩

instance : Inhabited Config := ⟨standard⟩

def extensionList (c : Config) : List String :=
  c.extensions.getD []

/-- Refuses byte orders and extensions that are not known. The byte order is compared in lower
case. -/
def validate (c : Config) : Except ConfigFault Unit :=
  if ["", "big", "little"].contains (lower c.byteOrder) then
    match c.extensionList.find? fun e => !foldEq e "m" with
    | some e => .error (.extension e)
    | none => .ok ()
  else .error (.byteOrder c.byteOrder)

/-- The byte order in force: least significant byte first if that is what is written up to letter
case, and most significant byte first otherwise. -/
def order (c : Config) : ByteOrder :=
  if foldEq c.byteOrder "little" then .little else .big

/-- Whether an extension is switched on. The base set, which has the empty name, always is. -/
def hasExtension (c : Config) (name : String) : Bool :=
  name.isEmpty || c.extensionList.any fun e => foldEq e name

/-- The table entry of a mnemonic, in any letter case, if its extension is switched on. -/
def opcode? (c : Config) (mnemonic : String) : Option Opcode :=
  match Opcode.find? (lower mnemonic) with
  | some op => if c.hasExtension op.extension.name then some op else none
  | none => none

def mnemonics (c : Config) : List String :=
  ((Opcode.table.filter fun op => c.hasExtension op.extension.name).map Opcode.name).mergeSort
    fun a b => decide (a ≤ b)

def describe (c : Config) : String :=
  "\x7bByteOrder:" ++ c.byteOrder ++ " Extensions:[" ++ " ".intercalate c.extensionList ++ "]\x7d"

end Config

end Rv32Asm
