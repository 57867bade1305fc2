/-!
Text as bytes.

Source text, file contents and messages are byte sequences, and nothing requires them to be valid
UTF-8. Columns count bytes.
-/

set_option autoImplicit false
set_option relaxedAutoImplicit false

namespace Rv32Asm

abbrev Bytes := List UInt8

namespace Text

def utf8 (s : String) : Bytes :=
  s.toList.flatMap String.utf8EncodeChar

/-- The string whose characters have the bytes as their code points. -/
def latin (bs : Bytes) : String :=
  String.ofList (bs.map fun b => Char.ofNat b.toNat)

/-- The UTF-8 bytes of the character whose code point is the byte. -/
def showByte (b : UInt8) : Bytes :=
  String.utf8EncodeChar (Char.ofNat b.toNat)

def ascii (c : Char) : UInt8 :=
  c.toNat.toUInt8

/-- An ASCII capital in lower case, any other byte unchanged. -/
def lowerByte (b : UInt8) : UInt8 :=
  if ascii 'A' ≤ b ∧ b ≤ ascii 'Z' then b + 0x20 else b

def newline : UInt8 := 0x0a

def consByte (b : UInt8) (ls : List Bytes) : List Bytes :=
  if b = newline then [] :: ls
  else match ls with
    | [] => [[b]]
    | line :: rest => (b :: line) :: rest

/-- The lines of a text, without their line breaks. There is always at least one. -/
def lines (bs : Bytes) : List Bytes :=
  bs.foldr consByte [[]]

def unlines (ls : List Bytes) : Bytes :=
  (ls.intersperse [newline]).flatten

/-- The rest of `bs` after the bytes of `front`, if it starts with them. -/
def dropFront? : (front bs : Bytes) → Option Bytes
  | [], bs => some bs
  | _ :: _, [] => none
  | f :: front, b :: bs => if f = b then dropFront? front bs else none

/-- Zero bytes in runs of the lengths 1, 2, 4 and so on. A run is made when it is first asked for and
then shared. -/
def zeroRuns : List (Thunk Bytes) :=
  (List.range 25).map fun k => Thunk.mk fun _ => List.replicate (1 <<< k) 0

/-- Zero bytes, from the end of a shared run if there is one that is long enough. -/
def zeros (n : Nat) : Bytes :=
  let k := (n - 1).log2 + 1
  match zeroRuns[k]? with
  | some run => run.get.drop ((1 <<< k) - n)
  | none => List.replicate n 0

theorem zeros_eq (n : Nat) : zeros n = List.replicate n 0 := by
  have enough : n ≤ 2 ^ ((n - 1).log2 + 1) := by
    have := @Nat.lt_log2_self (n - 1)
    omega
  simp only [zeros, zeroRuns, List.getElem?_map]
  cases here : (List.range 25)[(n - 1).log2 + 1]? with
  | none => rfl
  | some k =>
    obtain ⟨_, same⟩ := List.getElem?_eq_some_iff.mp here
    rw [List.getElem_range] at same
    subst same
    show (List.replicate (1 <<< ((n - 1).log2 + 1)) (0 : UInt8)).drop _ = _
    rw [List.drop_replicate, Nat.one_shiftLeft]
    congr 1
    omega

def decimal (n : Nat) : Bytes :=
  (Nat.toDigits 10 n).map ascii

def decimalInt : Int → Bytes
  | .ofNat n => decimal n
  | .negSucc n => ascii '-' :: decimal (n + 1)

def hexDigit (n : Nat) : UInt8 :=
  ascii n.digitChar

/-- The lowest `width` hexadecimal digits of a number, most significant first. -/
def hexDigits : (width : Nat) → Nat → Bytes
  | 0, _ => []
  | width + 1, n => hexDigit (n / 16 ^ width % 16) :: hexDigits width n

def hex (bs : Bytes) : Bytes :=
  bs.flatMap fun b => hexDigits 2 b.toNat

def hexWord (w : UInt32) : Bytes :=
  hexDigits 8 w.toNat

example : lines (utf8 "a\n\nb") = [utf8 "a", [], utf8 "b"] := by decide
example : unlines (lines (utf8 "a\n\nb\n")) = utf8 "a\n\nb\n" := by decide
example : hexWord 0xffdff06f = utf8 "ffdff06f" := by decide
example : decimalInt (-2048) = utf8 "-2048" := by decide

end Text

end Rv32Asm
