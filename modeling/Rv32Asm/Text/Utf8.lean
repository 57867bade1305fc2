import Rv32Asm.Text.Bytes

/-!
Reading UTF-8.

`scalar?` reads one well-formed character; `decode?` reads a whole byte sequence and fails at the
first byte that starts none; `decodeLossy` puts the replacement character in place of such a byte.
-/

set_option autoImplicit false
set_option relaxedAutoImplicit false

namespace Rv32Asm.Text

def isTail (b : UInt8) : Bool :=
  0x80 ≤ b && b ≤ 0xbf

def tailBits (b : UInt8) : Nat :=
  b.toNat % 0x40

def scalar? : Bytes → Option (Char × Bytes)
  | a :: rest =>
    if a < 0x80 then some (Char.ofNat a.toNat, rest)
    else if 0xc2 ≤ a && a ≤ 0xdf then
      match rest with
      | b :: rest =>
        if isTail b then some (Char.ofNat (a.toNat % 0x20 * 0x40 + tailBits b), rest) else none
      | [] => none
    else if 0xe0 ≤ a && a ≤ 0xef then
      match rest with
      | b :: c :: rest =>
        if isTail b && isTail c && (a != 0xe0 || 0xa0 ≤ b) && (a != 0xed || b ≤ 0x9f) then
          some (Char.ofNat ((a.toNat % 0x10 * 0x40 + tailBits b) * 0x40 + tailBits c), rest)
        else none
      | _ => none
    else if 0xf0 ≤ a && a ≤ 0xf4 then
      match rest with
      | b :: c :: d :: rest =>
        if isTail b && isTail c && isTail d && (a != 0xf0 || 0x90 ≤ b) && (a != 0xf4 || b ≤ 0x8f) then
          some (Char.ofNat (((a.toNat % 0x08 * 0x40 + tailBits b) * 0x40 + tailBits c) * 0x40
            + tailBits d), rest)
        else none
      | _ => none
    else none
  | [] => none

theorem scalar?_length_lt {bs rest : Bytes} {c : Char} (h : scalar? bs = some (c, rest)) :
    rest.length < bs.length := by
  unfold scalar? at h
  repeat' split at h
  all_goals simp_all
  all_goals (try (obtain ⟨_, _, rfl⟩ := h))
  all_goals grind

/-- The characters read so far, in reverse, followed by those of a byte sequence. -/
def decodeFrom? (done : List Char) (bs : Bytes) : Option (List Char) :=
  match bs with
  | [] => some done.reverse
  | b :: tail =>
    match _h : scalar? (b :: tail) with
    | some (c, rest) => decodeFrom? (c :: done) rest
    | none => none
termination_by bs.length
decreasing_by exact scalar?_length_lt _h

def decode? (bs : Bytes) : Option String :=
  (decodeFrom? [] bs).map String.ofList

def decodeLossyFrom (done : List Char) (bs : Bytes) : List Char :=
  match bs with
  | [] => done.reverse
  | b :: tail =>
    match _h : scalar? (b :: tail) with
    | some (c, rest) => decodeLossyFrom (c :: done) rest
    | none => decodeLossyFrom ('\ufffd' :: done) tail
termination_by bs.length
decreasing_by
  · exact scalar?_length_lt _h
  · simp

/-- The string of a byte sequence, with a replacement character for each byte that is not part of
a character. -/
def decodeLossy (bs : Bytes) : String :=
  String.ofList (decodeLossyFrom [] bs)

end Rv32Asm.Text
