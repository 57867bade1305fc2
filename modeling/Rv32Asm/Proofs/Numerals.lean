import Mathlib.Data.Nat.Digits.Defs
import Rv32Asm.Number
import Rv32Asm.Proofs.Lexeme

/-!
What number literals are read as.

A literal is an optional sign, the mark of its base and one or more digits. Literals whose value
fits in 32 bits, with or without sign, are read as that value. All others are refused: as too large
if their value is, or if the digits before the first other byte are past 64 bits already, and as
malformed otherwise.
-/

set_option autoImplicit false
set_option relaxedAutoImplicit false

namespace Rv32Asm.Number

open Rv32Asm.Text
open Rv32Asm.Outcome
open Rv32Asm.Token (isDigit forall_byte)

inductive Radix where
  | binary
  | decimal
  | hexadecimal

namespace Radix

def base : Radix → Nat
  | binary => 2
  | decimal => 10
  | hexadecimal => 16

def marks : Radix → List String
  | binary => ["0b", "0B"]
  | decimal => [""]
  | hexadecimal => ["0x", "0X"]

def Digit (r : Radix) (b : UInt8) (d : Nat) : Prop :=
  d < r.base ∧
    ((utf8 "0123456789abcdef")[d]? = some b ∨ (utf8 "0123456789ABCDEF")[d]? = some b)

/-- The number that a row of digits stands for. The first digit is the most significant. -/
def Spells (r : Radix) (digits : Bytes) (n : Nat) : Prop :=
  ∃ ds, List.Forall₂ r.Digit digits ds ∧ Nat.ofDigits r.base ds.reverse = n

def Stops (r : Radix) (rest : Bytes) : Prop :=
  ∀ b ∈ rest.head?, ∀ d, ¬ r.Digit b d

end Radix

inductive Sign where
  | none
  | plus
  | minus

namespace Sign

def text : Sign → Bytes
  | none => []
  | plus => utf8 "+"
  | minus => utf8 "-"

def isMinus : Sign → Bool
  | minus => true
  | none | plus => false

def apply (s : Sign) (n : Nat) : Int :=
  if s.isMinus then -n else n

end Sign

inductive Literal : Bytes → Int → Prop
  | mk (sign : Sign) {radix : Radix} {mark : String} {digits : Bytes} {n : Nat}
      (known : mark ∈ radix.marks) (some_digit : digits ≠ []) (spells : radix.Spells digits n) :
      Literal (sign.text ++ (utf8 mark ++ digits)) (sign.apply n)

/-- The digits before the first other byte are past 64 bits. -/
inductive Overruns : Bytes → Prop
  | mk (sign : Sign) {radix : Radix} {mark : String} {digits rest : Bytes} {n : Nat}
      (known : mark ∈ radix.marks) (spells : radix.Spells digits n) (stops : radix.Stops rest)
      (large : 0xffffffffffffffff < n) :
      Overruns (sign.text ++ (utf8 mark ++ (digits ++ rest)))

def Fits (v : Int) : Prop := -0x80000000 ≤ v ∧ v ≤ 0xffffffff

instance (v : Int) : Decidable (Fits v) := inferInstanceAs (Decidable (_ ∧ _))

section Digits

variable {r : Radix} {b : UInt8} {d n : Nat} {digits rest : Bytes}

theorem Radix.digit_iff : r.Digit b d ↔ digitValue? b = some d ∧ d < r.base := by
  -- Each digit has its value, and each byte with a value is the digit of it.
  have values : ∀ d : Fin 16,
      (∀ b ∈ (utf8 "0123456789abcdef")[d.val]?, digitValue? b = some d.val) ∧
      ∀ b ∈ (utf8 "0123456789ABCDEF")[d.val]?, digitValue? b = some d.val := by decide +kernel
  have digits : ∀ b : UInt8, ∀ d ∈ digitValue? b, d < 16 →
      (utf8 "0123456789abcdef")[d]? = some b ∨ (utf8 "0123456789ABCDEF")[d]? = some b :=
    forall_byte (by decide +kernel)
  have small : r.base ≤ 16 := by cases r <;> decide
  rw [Digit, and_comm]
  refine and_congr_left fun below => ⟨?_, fun value => digits b d value (by omega)⟩
  have known := values ⟨d, by omega⟩
  intro digit
  rcases digit with digit | digit
  · exact known.1 b digit
  · exact known.2 b digit

theorem pushDigit_of_digit (digit : r.Digit b d) (acc : Nat) :
    pushDigit r.base acc b =
      if UInt64.size ≤ d + r.base * acc then .error .tooLarge else .ok (d + r.base * acc) := by
  obtain ⟨value, below⟩ := Radix.digit_iff.mp digit
  rw [pushDigit, value]
  simp only [Nat.not_le.mpr below, if_false, Nat.mul_comm acc, Nat.add_comm d]

theorem pushDigit_of_stops (stops : r.Stops (b :: rest)) (acc : Nat) :
    pushDigit r.base acc b = .error .malformed := by
  have never : ∀ d, ¬ r.Digit b d := stops b rfl
  rw [pushDigit]
  split
  · rfl
  · rename_i d value
    have above : r.base ≤ d := by
      apply Nat.le_of_not_lt
      intro below
      exact never d (Radix.digit_iff.mpr ⟨value, below⟩)
    rw [if_pos above]

private def extend (r : Radix) (acc : Nat) (ds : List Nat) : Nat :=
  ds.foldl (fun n d => d + r.base * n) acc

private theorem le_extend (acc : Nat) (ds : List Nat) : acc ≤ extend r acc ds := by
  have positive : 0 < r.base := by cases r <;> decide
  induction ds generalizing acc with
  | nil => exact Nat.le_refl acc
  | cons d ds ih =>
    have more : acc ≤ r.base * acc := Nat.le_mul_of_pos_left acc positive
    have later := ih (d + r.base * acc)
    show acc ≤ extend r (d + r.base * acc) ds
    omega

private theorem ofDigits_reverse (ds : List Nat) :
    Nat.ofDigits r.base ds.reverse = extend r 0 ds := by
  rw [Nat.ofDigits_eq_foldr, List.foldr_reverse]
  rfl

/-- Digits are taken in one after another, up to the one that is too much. -/
private theorem foldlM_pushDigit {ds : List Nat} (each : List.Forall₂ r.Digit digits ds)
    (rest : Bytes) {acc : Nat} (small : acc < UInt64.size) :
    (digits ++ rest).foldlM (pushDigit r.base) acc =
      if UInt64.size ≤ extend r acc ds then .error .tooLarge
      else rest.foldlM (pushDigit r.base) (extend r acc ds) := by
  induction each generalizing acc with
  | nil =>
    have still : ¬ UInt64.size ≤ extend r acc [] := Nat.not_le.mpr small
    rw [if_neg still]
    rfl
  | @cons b d digits ds digit _ ih =>
    rw [List.cons_append, List.foldlM_cons, pushDigit_of_digit digit]
    by_cases large : UInt64.size ≤ d + r.base * acc
    · have later : UInt64.size ≤ extend r acc (d :: ds) :=
        Nat.le_trans large (le_extend (d + r.base * acc) ds)
      rw [if_pos large, if_pos later]
      rfl
    · rw [if_neg large]
      exact ih (Nat.lt_of_not_le large)

theorem magnitude_of_spells (spells : r.Spells digits n) (stops : r.Stops rest) :
    magnitude r.base (digits ++ rest) =
      if 0xffffffffffffffff < n then .error .tooLarge
      else if digits ≠ [] ∧ rest = [] then .ok n else .error .malformed := by
  obtain ⟨ds, each, rfl⟩ := spells
  have small : 0 < UInt64.size := by decide
  have folded := foldlM_pushDigit each rest small
  have limit : UInt64.size ≤ extend r 0 ds ↔ 0xffffffffffffffff < extend r 0 ds := by
    simp only [UInt64.size]
    omega
  rw [ofDigits_reverse]
  simp only [limit] at folded
  by_cases empty : digits ++ rest = []
  · obtain ⟨rfl, rfl⟩ := List.append_eq_nil_iff.mp empty
    cases each
    rfl
  · have start : magnitude r.base (digits ++ rest) =
        (digits ++ rest).foldlM (pushDigit r.base) 0 := by
      cases whole : digits ++ rest with
      | nil => exact absurd whole empty
      | cons => rfl
    rw [start, folded]
    by_cases large : 0xffffffffffffffff < extend r 0 ds
    · rw [if_pos large, if_pos large]
    · rw [if_neg large, if_neg large]
      cases rest with
      | nil =>
        have some_digit : digits ≠ [] := by simpa using empty
        rw [if_pos ⟨some_digit, rfl⟩]
        rfl
      | cons b rest =>
        rw [List.foldlM_cons, pushDigit_of_stops stops, if_neg (by simp)]
        rfl

theorem Radix.exists_spells (r : Radix) (body : Bytes) :
    ∃ digits rest n, body = digits ++ rest ∧ r.Spells digits n ∧ r.Stops rest := by
  have row : ∃ digits rest ds, body = digits ++ rest ∧ List.Forall₂ r.Digit digits ds ∧
      r.Stops rest := by
    induction body with
    | nil => exact ⟨[], [], [], rfl, .nil, by simp [Stops]⟩
    | cons b body ih =>
      by_cases first : ∃ d, r.Digit b d
      · obtain ⟨d, digit⟩ := first
        obtain ⟨digits, rest, ds, rfl, each, stops⟩ := ih
        exact ⟨b :: digits, rest, d :: ds, rfl, .cons digit each, stops⟩
      · refine ⟨[], b :: body, [], rfl, .nil, ?_⟩
        rintro _ ⟨⟩ d digit
        exact first ⟨d, digit⟩
  obtain ⟨digits, rest, ds, split, each, stops⟩ := row
  exact ⟨digits, rest, _, split, ⟨ds, each, rfl⟩, stops⟩

end Digits

section Parts

variable {r : Radix} {b : UInt8} {d n : Nat} {digits rest body : Bytes} {mark : String}

/-- Two digits at the start, or one and nothing behind it: no mark of another base. -/
def Plain (body : Bytes) : Prop :=
  ∃ b rest, body = b :: rest ∧ isDigit b = true ∧ ∀ c ∈ rest.head?, isDigit c = true

theorem isDigit_of_decimal (digit : Radix.decimal.Digit b d) : isDigit b = true := by
  have table : ∀ b : UInt8, ∀ d : Fin 10, digitValue? b = some d.val → isDigit b = true :=
    forall_byte (by decide +kernel)
  obtain ⟨value, below⟩ := Radix.digit_iff.mp digit
  exact table b ⟨d, below⟩ value

theorem Plain.of_literal (spells : Radix.decimal.Spells digits n) (some_digit : digits ≠ []) :
    Plain digits := by
  obtain ⟨ds, each, _⟩ := spells
  cases each with
  | nil => exact absurd rfl some_digit
  | cons first more =>
    refine ⟨_, _, rfl, isDigit_of_decimal first, ?_⟩
    cases more with
    | nil => simp
    | cons second _ =>
      rintro _ ⟨⟩
      exact isDigit_of_decimal second

theorem Plain.of_large (spells : Radix.decimal.Spells digits n) (large : 10 ≤ n) (rest : Bytes) :
    Plain (digits ++ rest) := by
  obtain ⟨ds, each, rfl⟩ := spells
  cases each with
  | nil => simp at large
  | @cons _ d _ _ first more =>
    refine ⟨_, _, rfl, isDigit_of_decimal first, ?_⟩
    cases more with
    | nil =>
      have below : d < 10 := first.1
      simp only [List.reverse_singleton, Nat.ofDigits_singleton] at large
      omega
    | cons second _ =>
      rintro _ ⟨⟩
      exact isDigit_of_decimal second

theorem splitSign_text (sign : Sign) (digit : ∀ b ∈ body.head?, isDigit b = true) :
    splitSign (sign.text ++ body) = (sign.isMinus, body) := by
  cases sign with
  | plus | minus => rfl
  | none =>
    cases body with
    | nil => rfl
    | cons b body =>
      have signs : ∀ b : UInt8, isDigit b = true → b ≠ ascii '-' ∧ b ≠ ascii '+' :=
        forall_byte (by decide +kernel)
      obtain ⟨minus, plus⟩ := signs b (digit b rfl)
      simp [Sign.text, splitSign, minus, plus, Sign.isMinus]

theorem splitBase_text (known : mark ∈ r.marks) (plain : r = .decimal → Plain body) :
    splitBase (utf8 mark ++ body) = (r.base, body) := by
  cases r with
  | binary | hexadecimal =>
    simp only [Radix.marks, List.mem_cons, List.not_mem_nil, or_false] at known
    rcases known with rfl | rfl <;> rfl
  | decimal =>
    obtain rfl : mark = "" := by simpa [Radix.marks] using known
    obtain ⟨b, rest, rfl, _, second⟩ := plain rfl
    show splitBase (b :: rest) = (10, b :: rest)
    cases rest with
    | nil => rfl
    | cons c rest =>
      have letters : ∀ c : UInt8, isDigit c = true →
          lowerByte c ≠ ascii 'x' ∧ lowerByte c ≠ ascii 'b' := forall_byte (by decide +kernel)
      obtain ⟨hexadecimal, binary⟩ := letters c (second c rfl)
      simp [splitBase, hexadecimal, binary]

theorem exists_sign (text : Bytes) : ∃ sign body, text = Sign.text sign ++ body ∧
    splitSign text = (sign.isMinus, body) := by
  cases text with
  | nil => exact ⟨.none, [], rfl, rfl⟩
  | cons b rest =>
    by_cases minus : b = ascii '-'
    · subst minus
      exact ⟨.minus, rest, rfl, rfl⟩
    by_cases plus : b = ascii '+'
    · subst plus
      exact ⟨.plus, rest, rfl, rfl⟩
    · refine ⟨.none, b :: rest, rfl, ?_⟩
      simp [splitSign, minus, plus, Sign.isMinus]

theorem exists_radix (body : Bytes) : ∃ r mark rest, mark ∈ Radix.marks r ∧
    body = utf8 mark ++ rest ∧ splitBase body = (r.base, rest) := by
  have letters : ∀ c : UInt8, (lowerByte c = ascii 'x' → c = ascii 'x' ∨ c = ascii 'X') ∧
      (lowerByte c = ascii 'b' → c = ascii 'b' ∨ c = ascii 'B') := forall_byte (by decide +kernel)
  unfold splitBase
  split
  · rename_i z c rest
    split
    · rename_i hexadecimal
      simp only [Bool.and_eq_true, decide_eq_true_eq] at hexadecimal
      obtain ⟨rfl, letter⟩ := hexadecimal
      rcases (letters c).1 letter with rfl | rfl
      · exact ⟨.hexadecimal, "0x", rest, by decide, rfl, rfl⟩
      · exact ⟨.hexadecimal, "0X", rest, by decide, rfl, rfl⟩
    · split
      · rename_i binary
        simp only [Bool.and_eq_true, decide_eq_true_eq] at binary
        obtain ⟨rfl, letter⟩ := binary
        rcases (letters c).2 letter with rfl | rfl
        · exact ⟨.binary, "0b", rest, by decide, rfl, rfl⟩
        · exact ⟨.binary, "0B", rest, by decide, rfl, rfl⟩
      · exact ⟨.decimal, "", z :: c :: rest, by decide, rfl, rfl⟩
  · exact ⟨.decimal, "", _, by decide, rfl, rfl⟩

end Parts

section Value

variable {sign : Sign} {r : Radix} {text body rest : Bytes} {v : Int}

def Sign.settle (sign : Sign) (n : Nat) : Except Flaw Int :=
  if Fits (sign.apply n) then .ok (sign.apply n) else .error .tooLarge

theorem read_eq (signed : splitSign text = (sign.isMinus, body))
    (based : splitBase body = (r.base, rest)) :
    read text = (magnitude r.base rest >>= sign.settle) := by
  simp only [read, signed, based]
  cases magnitude r.base rest with
  | error flaw => rfl
  | ok n =>
    rw [ok_bind, Sign.settle, Sign.apply]
    cases sign.isMinus with
    | true =>
      have limit : Fits (-(n : Int)) ↔ ¬ 0x80000000 < n := by
        unfold Fits
        omega
      simp only [if_true, limit, ite_not]
    | false =>
      have limit : Fits (n : Int) ↔ ¬ UInt32.size ≤ n := by
        simp only [Fits, UInt32.size]
        omega
      simp only [Bool.false_eq_true, if_false, limit, ite_not]

theorem read_text (sign : Sign) {mark : String} (known : mark ∈ r.marks)
    (plain : r = .decimal → Plain body) :
    read (sign.text ++ (utf8 mark ++ body)) = (magnitude r.base body >>= sign.settle) := by
  apply read_eq _ (splitBase_text known plain)
  apply splitSign_text
  cases r with
  | binary | hexadecimal =>
    simp only [Radix.marks, List.mem_cons, List.not_mem_nil, or_false] at known
    rcases known with rfl | rfl
    all_goals
      rintro _ ⟨⟩
      decide
  | decimal =>
    obtain rfl : mark = "" := by simpa [Radix.marks] using known
    obtain ⟨b, rest, rfl, digit, _⟩ := plain rfl
    rintro _ ⟨⟩
    exact digit

theorem read_of_literal (literal : Literal text v) :
    read text = if Fits v then .ok v else .error .tooLarge := by
  cases literal with
  | @mk sign r mark digits n known some_digit spells =>
    have plain : r = .decimal → Plain digits := by
      rintro rfl
      exact .of_literal spells some_digit
    have stops : r.Stops [] := by simp [Radix.Stops]
    have value := magnitude_of_spells spells stops
    rw [List.append_nil] at value
    rw [read_text sign known plain, value]
    by_cases large : 0xffffffffffffffff < n
    · have outside : ¬ Fits (sign.apply n) := by
        unfold Fits Sign.apply
        split <;> omega
      rw [if_pos large, if_neg outside]
      rfl
    · rw [if_neg large, if_pos ⟨some_digit, rfl⟩]
      rfl

theorem read_of_overruns (overruns : Overruns text) : read text = .error .tooLarge := by
  cases overruns with
  | @mk sign r mark digits rest n known spells stops large =>
    have plain : r = .decimal → Plain (digits ++ rest) := by
      rintro rfl
      exact .of_large spells (by omega) rest
    rw [read_text sign known plain, magnitude_of_spells spells stops, if_pos large]
    rfl

/-- What is no literal and does not overrun is malformed. -/
theorem read_cases (text : Bytes) :
    (∃ v, Literal text v) ∨ Overruns text ∨ read text = .error .malformed := by
  obtain ⟨sign, body, rfl, signed⟩ := exists_sign text
  obtain ⟨r, mark, rest, known, rfl, based⟩ := exists_radix body
  obtain ⟨digits, rest, n, rfl, spells, stops⟩ := r.exists_spells rest
  by_cases large : 0xffffffffffffffff < n
  · exact .inr (.inl (.mk sign known spells stops large))
  by_cases whole : digits ≠ [] ∧ rest = []
  · obtain ⟨some_digit, rfl⟩ := whole
    left
    rw [List.append_nil]
    exact ⟨_, .mk sign known some_digit spells⟩
  · right
    right
    rw [read_eq signed based, magnitude_of_spells spells stops, if_neg large, if_neg whole]
    rfl

end Value

section Token

variable {line : Nat} {t : Token} {v : Int}

theorem ofToken_of_literal (literal : Literal t.text v) (fits : Fits v) :
    ofToken line t = .ok v := by
  have value := read_of_literal literal
  rw [if_pos fits] at value
  rw [ofToken, value]

theorem ofToken_of_large (large : Overruns t.text ∨ ∃ v, Literal t.text v ∧ ¬ Fits v) :
    ofToken line t = .error ⟨.overflow t.text, t.span line⟩ := by
  have value : read t.text = .error .tooLarge := by
    rcases large with overruns | ⟨v, literal, outside⟩
    · exact read_of_overruns overruns
    · rw [read_of_literal literal, if_neg outside]
  rw [ofToken, value]

theorem ofToken_cases (line : Nat) (t : Token) :
    (∃ v, (Literal t.text v ∧ Fits v) ∧ ofToken line t = .ok v) ∨
      ((Overruns t.text ∨ ∃ v, Literal t.text v ∧ ¬ Fits v) ∧
        ofToken line t = .error ⟨.overflow t.text, t.span line⟩) ∨
      ((¬ Overruns t.text ∧ ∀ v, ¬ Literal t.text v) ∧
        ofToken line t = .error ⟨.badInteger t.text, t.span line⟩) := by
  rcases read_cases t.text with ⟨v, literal⟩ | overruns | malformed
  · by_cases fits : Fits v
    · exact .inl ⟨v, ⟨literal, fits⟩, ofToken_of_literal literal fits⟩
    · have large : ∃ v, Literal t.text v ∧ ¬ Fits v := ⟨v, literal, fits⟩
      exact .inr (.inl ⟨.inr large, ofToken_of_large (.inr large)⟩)
  · exact .inr (.inl ⟨.inl overruns, ofToken_of_large (.inl overruns)⟩)
  · refine .inr (.inr ⟨⟨?_, ?_⟩, by rw [ofToken, malformed]⟩)
    · intro overruns
      simp [read_of_overruns overruns] at malformed
    · intro v literal
      rw [read_of_literal literal] at malformed
      split at malformed <;> simp at malformed

end Token

structure ReadsExactly (line : Nat) (t : Token) : Prop where
  value : ∀ v, ofToken line t = .ok v ↔ Literal t.text v ∧ Fits v
  overflow : (∃ f, ofToken line t = .error f ∧ f.cause.kind = .numericOverflow) ↔
    Overruns t.text ∨ ∃ v, Literal t.text v ∧ ¬ Fits v
  malformed : (∃ f, ofToken line t = .error f ∧ f.cause.kind = .syntaxError) ↔
    ¬ Overruns t.text ∧ ∀ v, ¬ Literal t.text v
  /-- Either fault shows the token and its place. -/
  fault : ∀ f, ofToken line t = .error f →
    f = ⟨.overflow t.text, t.span line⟩ ∨ f = ⟨.badInteger t.text, t.span line⟩

/-- Tokens of any text are read exactly, those that a line is scanned into among them. -/
theorem readsExactly (line : Nat) (t : Token) : ReadsExactly line t where
  value v := by
    constructor
    · intro same
      rcases ofToken_cases line t with ⟨w, known, result⟩ | ⟨_, result⟩ | ⟨_, result⟩
      · obtain rfl : w = v := Except.ok.inj (result.symm.trans same)
        exact known
      · simp [result] at same
      · simp [result] at same
    · rintro ⟨literal, fits⟩
      exact ofToken_of_literal literal fits
  overflow := by
    constructor
    · rintro ⟨f, failed, kind⟩
      rcases ofToken_cases line t with ⟨v, _, result⟩ | ⟨large, _⟩ | ⟨_, result⟩
      · simp [result] at failed
      · exact large
      · obtain rfl := Except.error.inj (result.symm.trans failed)
        simp [Cause.kind] at kind
    · intro large
      exact ⟨_, ofToken_of_large large, rfl⟩
  malformed := by
    constructor
    · rintro ⟨f, failed, kind⟩
      rcases ofToken_cases line t with ⟨v, _, result⟩ | ⟨_, result⟩ | ⟨bad, _⟩
      · simp [result] at failed
      · obtain rfl := Except.error.inj (result.symm.trans failed)
        simp [Cause.kind] at kind
      · exact bad
    · rintro ⟨small, none⟩
      rcases ofToken_cases line t with ⟨v, known, _⟩ | ⟨large, _⟩ | ⟨_, result⟩
      · exact absurd known.1 (none v)
      · rcases large with overruns | ⟨v, literal, _⟩
        · exact absurd overruns small
        · exact absurd literal (none v)
      · exact ⟨_, result, rfl⟩
  fault f failed := by
    rcases ofToken_cases line t with ⟨v, _, result⟩ | ⟨_, result⟩ | ⟨_, result⟩
    · simp [result] at failed
    · exact .inl (Except.error.inj (failed.symm.trans result))
    · exact .inr (Except.error.inj (failed.symm.trans result))

end Rv32Asm.Number
