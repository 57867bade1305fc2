import Rv32Asm.Proofs.Text
import Rv32Asm.Text.Utf8

/-!
Bytes that are whole characters.

Reading the form of a character gives the character back, so a text is taken apart into characters
in one way only. A text that consists of whole characters can be cut before every byte that does not
continue one, and taking its lines or trimming it leaves whole characters.
-/

set_option autoImplicit false
set_option relaxedAutoImplicit false

namespace Rv32Asm.Text

section Scalar

variable {a b c d : UInt8} (rest : Bytes)

theorem scalar?_one (small : a.toNat < 0x80) :
    scalar? (a :: rest) = some (Char.ofNat a.toNat, rest) := by
  have first : a < 0x80 := small
  simp [scalar?, first]

theorem scalar?_two (least : 0xc2 ≤ a.toNat) (most : a.toNat < 0xe0) (second : isTail b = true) :
    scalar? (a :: b :: rest) = some (Char.ofNat (a.toNat % 0x20 * 0x40 + tailBits b), rest) := by
  have first : ¬ a < 0x80 ∧ 0xc2 ≤ a ∧ a ≤ 0xdf := by
    simp only [UInt8.lt_iff_toNat_lt, UInt8.le_iff_toNat_le, UInt8.reduceToNat]
    omega
  simp [scalar?, first, second]

theorem scalar?_three (least : 0xe0 ≤ a.toNat) (most : a.toNat < 0xf0) (second : isTail b = true)
    (third : isTail c = true) (short : a.toNat = 0xe0 → 0xa0 ≤ b.toNat)
    (surrogate : a.toNat = 0xed → b.toNat < 0xa0) :
    scalar? (a :: b :: c :: rest) =
      some (Char.ofNat ((a.toNat % 0x10 * 0x40 + tailBits b) * 0x40 + tailBits c), rest) := by
  have first : ¬ a < 0x80 ∧ ¬ a ≤ 0xdf ∧ 0xe0 ≤ a ∧ a ≤ 0xef := by
    simp only [UInt8.lt_iff_toNat_lt, UInt8.le_iff_toNat_le, UInt8.reduceToNat]
    omega
  have bounds : (a = 0xe0 → 0xa0 ≤ b) ∧ (a = 0xed → b ≤ 0x9f) := by
    simp only [← UInt8.toNat_inj, UInt8.le_iff_toNat_le, UInt8.reduceToNat]
    omega
  simp only [scalar?, first, second, third]
  grind

theorem scalar?_four (least : 0xf0 ≤ a.toNat) (most : a.toNat < 0xf5) (second : isTail b = true)
    (third : isTail c = true) (fourth : isTail d = true) (short : a.toNat = 0xf0 → 0x90 ≤ b.toNat)
    (large : a.toNat = 0xf4 → b.toNat < 0x90) :
    scalar? (a :: b :: c :: d :: rest) =
      some (Char.ofNat (((a.toNat % 0x08 * 0x40 + tailBits b) * 0x40 + tailBits c) * 0x40
        + tailBits d), rest) := by
  have first : ¬ a < 0x80 ∧ ¬ a ≤ 0xdf ∧ ¬ a ≤ 0xef ∧ 0xf0 ≤ a ∧ a ≤ 0xf4 := by
    simp only [UInt8.lt_iff_toNat_lt, UInt8.le_iff_toNat_le, UInt8.reduceToNat]
    omega
  have bounds : (a = 0xf0 → 0x90 ≤ b) ∧ (a = 0xf4 → b ≤ 0x8f) := by
    simp only [← UInt8.toNat_inj, UInt8.le_iff_toNat_le, UInt8.reduceToNat]
    omega
  simp only [scalar?, first, second, third, fourth]
  grind

end Scalar

theorem toNat_byte {n : Nat} (small : n < 256) : (UInt8.ofNat n).toNat = n :=
  UInt8.toNat_ofNat_of_lt' small

theorem isTail_byte (n : Nat) : isTail (UInt8.ofNat (n % 64 + 128)) = true := by
  have value : (UInt8.ofNat (n % 64 + 128)).toNat = n % 64 + 128 := toNat_byte (by omega)
  simp only [isTail, UInt8.le_iff_toNat_le, value, Bool.and_eq_true, decide_eq_true_eq,
    UInt8.reduceToNat]
  omega

theorem tailBits_byte (n : Nat) : tailBits (UInt8.ofNat (n % 64 + 128)) = n % 64 := by
  rw [tailBits, toNat_byte (by omega)]
  omega

theorem scalar?_encode (c : Char) (rest : Bytes) :
    scalar? (String.utf8EncodeChar c ++ rest) = some (c, rest) := by
  have valid : c.toNat < 55296 ∨ 57343 < c.toNat ∧ c.toNat < 1114112 := c.valid
  have whole : Char.ofNat c.toNat = c := c.ofNat_toNat
  have point : c.val.toNat = c.toNat := rfl
  simp only [String.utf8EncodeChar, point]
  generalize c.toNat = v at valid whole
  subst whole
  split
  · have first : (UInt8.ofNat v).toNat = v := toNat_byte (by omega)
    rw [List.singleton_append, scalar?_one rest (by omega), first]
  split
  · have first : (UInt8.ofNat (v / 64 % 32 + 192)).toNat = v / 64 % 32 + 192 :=
      toNat_byte (by omega)
    have value : (v / 64 % 32 + 192) % 0x20 * 0x40 + v % 64 = v := by omega
    simp only [List.cons_append, List.nil_append]
    rw [scalar?_two rest (by omega) (by omega) (isTail_byte _), first, tailBits_byte, value]
  split
  · have first : (UInt8.ofNat (v / 4096 % 16 + 224)).toNat = v / 4096 % 16 + 224 :=
      toNat_byte (by omega)
    have second : (UInt8.ofNat (v / 64 % 64 + 128)).toNat = v / 64 % 64 + 128 :=
      toNat_byte (by omega)
    have value : ((v / 4096 % 16 + 224) % 0x10 * 0x40 + v / 64 % 64) * 0x40 + v % 64 = v := by
      omega
    simp only [List.cons_append, List.nil_append]
    rw [scalar?_three rest (by omega) (by omega) (isTail_byte _) (isTail_byte _) (by omega)
      (by omega), first, tailBits_byte, tailBits_byte, value]
  · have first : (UInt8.ofNat (v / 262144 % 8 + 240)).toNat = v / 262144 % 8 + 240 :=
      toNat_byte (by omega)
    have second : (UInt8.ofNat (v / 4096 % 64 + 128)).toNat = v / 4096 % 64 + 128 :=
      toNat_byte (by omega)
    have value : (((v / 262144 % 8 + 240) % 0x08 * 0x40 + v / 4096 % 64) * 0x40 + v / 64 % 64) * 0x40
        + v % 64 = v := by
      omega
    simp only [List.cons_append, List.nil_append]
    rw [scalar?_four rest (by omega) (by omega) (isTail_byte _) (isTail_byte _) (isTail_byte _)
      (by omega) (by omega), first, tailBits_byte, tailBits_byte, tailBits_byte, value]

theorem isTail_of_mem_tail (c : Char) : ∀ b ∈ (String.utf8EncodeChar c).tail, isTail b = true := by
  unfold String.utf8EncodeChar
  dsimp only
  repeat' split
  all_goals simp only [List.tail_cons, List.forall_mem_cons, isTail_byte, List.not_mem_nil,
    false_imp_iff, implies_true, true_and]

inductive Encoded : Bytes → Prop
  | nil : Encoded []
  | char (c : Char) {rest : Bytes} : Encoded rest → Encoded (String.utf8EncodeChar c ++ rest)

theorem encoded_utf8 (s : String) : Encoded (utf8 s) := by
  rw [utf8]
  induction s.toList with
  | nil => exact .nil
  | cons c cs ih => exact .char c ih

namespace Encoded

variable {xs ys bs : Bytes}

theorem of_char (c : Char) : Encoded (String.utf8EncodeChar c) := by
  have alone := Encoded.char c .nil
  rwa [List.append_nil] at alone

theorem append (front : Encoded xs) (back : Encoded ys) : Encoded (xs ++ ys) := by
  induction front with
  | nil => exact back
  | char c _ ih =>
    rw [List.append_assoc]
    exact .char c ih

theorem behind_char {c : Char} (encoded : Encoded (String.utf8EncodeChar c ++ bs)) : Encoded bs := by
  generalize whole : String.utf8EncodeChar c ++ bs = all at encoded
  have read := scalar?_encode c bs
  cases encoded with
  | nil => simp [whole, scalar?] at read
  | char c' rest =>
    rw [whole, scalar?_encode] at read
    simp only [Option.some.injEq, Prod.mk.injEq] at read
    exact read.2 ▸ rest

theorem behind (front : Encoded xs) (encoded : Encoded (xs ++ ys)) : Encoded ys := by
  induction front with
  | nil => exact encoded
  | char c _ ih =>
    rw [List.append_assoc] at encoded
    exact ih encoded.behind_char

/-- Before a byte that does not continue a character, a text can be cut. -/
theorem cut (encoded : Encoded (xs ++ ys)) (starts : ∀ b ∈ ys.head?, isTail b = false) :
    Encoded xs := by
  generalize whole : xs ++ ys = all at encoded
  induction encoded generalizing xs with
  | nil =>
    rw [(List.append_eq_nil_iff.mp whole).1]
    exact .nil
  | @char c rest _ ih =>
    rcases List.append_eq_append_iff.mp whole with ⟨more, form, rfl⟩ | ⟨more, rfl, same⟩
    · -- The cut is in the form of `c`: at its ends, or at one of its later bytes.
      cases xs with
      | nil => exact .nil
      | cons x xs =>
        cases more with
        | nil =>
          have alone := of_char c
          rwa [form, List.append_nil] at alone
        | cons b more =>
          have later : b ∈ (String.utf8EncodeChar c).tail := by simp [form]
          have tail := isTail_of_mem_tail c b later
          rw [starts b rfl] at tail
          exact absurd tail (by decide)
    · exact .char c (ih same.symm)

theorem single {b : UInt8} (small : b < 0x80) : Encoded [b] := by
  have value : b.toNat < 128 := small
  have point : (Char.ofNat b.toNat).val.toNat = b.toNat := by
    rw [Char.ofNat, dif_pos (.inl (by omega))]
    rfl
  have form : String.utf8EncodeChar (Char.ofNat b.toNat) = [b] := by
    unfold String.utf8EncodeChar
    simp only [point]
    rw [if_pos (by omega), UInt8.ofNat_toNat]
  rw [← form]
  exact of_char _

theorem cut_ascii {b : UInt8} (small : b < 0x80) (encoded : Encoded (xs ++ b :: ys)) :
    Encoded (xs ++ [b]) ∧ Encoded ys := by
  have starts : isTail b = false := by
    simp only [isTail, Bool.and_eq_false_iff, decide_eq_false_iff_not, UInt8.not_le]
    exact .inl small
  have front : Encoded xs := encoded.cut (by simpa using starts)
  refine ⟨front.append (single small), ?_⟩
  exact (single small).behind (front.behind encoded)

theorem of_unlines {ls : List Bytes} (encoded : Encoded (unlines ls)) : ∀ l ∈ ls, Encoded l := by
  induction ls with
  | nil => simp
  | cons l ls ih =>
    cases ls with
    | nil => simpa [unlines] using encoded
    | cons l' ls =>
      rw [unlines_cons_cons] at encoded
      rw [List.forall_mem_cons]
      have breaks : ∀ b ∈ (newline :: Text.unlines (l' :: ls)).head?, isTail b = false := by
        rintro b ⟨⟩
        decide
      exact ⟨encoded.cut breaks, ih (encoded.cut_ascii (by decide)).2⟩

theorem lines (encoded : Encoded bs) : ∀ l ∈ lines bs, Encoded l := by
  rw [← unlines_lines bs] at encoded
  exact encoded.of_unlines

theorem unlines {ls : List Bytes} (each : ∀ l ∈ ls, Encoded l) : Encoded (unlines ls) := by
  induction ls with
  | nil => exact .nil
  | cons l ls ih =>
    rw [List.forall_mem_cons] at each
    cases ls with
    | nil => simpa [Text.unlines] using each.1
    | cons l' ls =>
      rw [unlines_cons_cons]
      have ended : Encoded [newline] := single (by decide)
      exact each.1.append (ended.append (ih each.2))

theorem trim (encoded : Encoded bs) : Encoded (trim bs) := by
  have front : Encoded (trimStart bs) := by
    apply dropForms_keeps _ bs.length encoded
    intro form member rest whole
    obtain ⟨c, _, rfl⟩ := List.mem_map.mp member
    exact whole.behind_char
  -- From the end, every form goes with its first byte, which continues no character.
  have starts : ∀ form ∈ blankForms, ∀ b ∈ form.head?, isTail b = false := by decide +kernel
  refine dropForms_keeps (P := fun bs => Encoded bs.reverse) ?_ _ ?_
  · intro reversed member rest whole
    obtain ⟨form, known, rfl⟩ := List.mem_map.mp member
    rw [List.reverse_append, List.reverse_reverse] at whole
    exact whole.cut (starts form known)
  · rwa [List.reverse_reverse]

end Encoded

theorem decodeLossyFrom_of_scalar? {bs rest : Bytes} {c : Char} (read : scalar? bs = some (c, rest))
    (done : List Char) : decodeLossyFrom done bs = decodeLossyFrom (c :: done) rest := by
  cases bs with
  | nil => simp [scalar?] at read
  | cons b bs =>
    rw [decodeLossyFrom]
    split
    · rename_i found
      rw [read] at found
      simp only [Option.some.injEq, Prod.mk.injEq] at found
      rw [found.1, found.2]
    · rename_i missing
      simp [read] at missing

theorem decodeLossyFrom_encode (done cs : List Char) :
    decodeLossyFrom done (cs.flatMap String.utf8EncodeChar) = done.reverse ++ cs := by
  induction cs generalizing done with
  | nil => simp [decodeLossyFrom]
  | cons c cs ih =>
    have read := scalar?_encode c (cs.flatMap String.utf8EncodeChar)
    rw [List.flatMap_cons, decodeLossyFrom_of_scalar? read, ih]
    simp

theorem decodeLossy_utf8 (s : String) : decodeLossy (utf8 s) = s := by
  rw [decodeLossy, utf8, decodeLossyFrom_encode, List.reverse_nil, List.nil_append,
    String.ofList_toList]

theorem Encoded.exists_utf8 {bs : Bytes} (encoded : Encoded bs) : ∃ s, utf8 s = bs := by
  induction encoded with
  | nil => exact ⟨"", rfl⟩
  | char c _ ih =>
    obtain ⟨s, rfl⟩ := ih
    exact ⟨String.ofList (c :: s.toList), by simp [utf8]⟩

theorem Encoded.utf8_decodeLossy {bs : Bytes} (encoded : Encoded bs) : utf8 (decodeLossy bs) = bs := by
  obtain ⟨s, rfl⟩ := encoded.exists_utf8
  rw [decodeLossy_utf8]

end Rv32Asm.Text
