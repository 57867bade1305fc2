import Rv32Asm.Text.Bytes

/-!
Bytes as a dump: sixteen to a row, with the offset of the row, the bytes in hexadecimal and the
printable ones as characters.
-/

set_option autoImplicit false
set_option relaxedAutoImplicit false

namespace Rv32Asm.Text

def rowLength : Nat := 16

/-- Bytes cut into rows; only the last may be shorter. -/
def rows (bs : Bytes) : List Bytes :=
  match bs with
  | [] => []
  | b :: rest => (b :: rest).take rowLength :: rows ((b :: rest).drop rowLength)
termination_by bs.length
decreasing_by
  simp only [List.length_drop, List.length_cons, rowLength]
  omega

def dumpChar (b : UInt8) : UInt8 :=
  if 32 ≤ b ∧ b ≤ 126 then b else ascii '.'

/-- The column of a row with number `i`, and the space after it; there is one more space after the
eighth column. -/
def dumpColumn (row : Bytes) (i : Nat) : Bytes :=
  (match row[i]? with
    | some b => hexDigits 2 b.toNat
    | none => utf8 "  ")
  ++ utf8 (if i = 7 then "  " else " ")

def dumpRow (row : Bytes) (number : Nat) : Bytes :=
  hexDigits 8 (rowLength * number) ++ utf8 "  " ++ (List.range rowLength).flatMap (dumpColumn row)
    ++ utf8 " |" ++ row.map dumpChar ++ utf8 "|\n"

def hexDump (bs : Bytes) : Bytes :=
  (rows bs).zipIdx.flatMap fun (row, number) => dumpRow row number

end Rv32Asm.Text
