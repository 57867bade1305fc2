import Rv32Asm.Proofs.Outcome
import Rv32Asm.Statement.Parse

/-!
What the readers of operands accept.

Each reader succeeds on exactly the tokens that its lemma names. What it leaves is a suffix of what
it was given, so no reader looks past the end of a line. Registers that a reader gives fit into
their five bits.
-/

set_option autoImplicit false
set_option relaxedAutoImplicit false

namespace Rv32Asm

open Rv32Asm.Text
open Rv32Asm.Outcome

def Bounds.Allows (b : Bounds) (v : Int) : Prop :=
  b.least ≤ v ∧ v ≤ b.greatest ∧ (b.even = true → v % 2 = 0)

instance (b : Bounds) (v : Int) : Decidable (b.Allows v) :=
  inferInstanceAs (Decidable (_ ∧ _ ∧ _))

theorem Bounds.check_eq_ok_iff {b : Bounds} {v : Int} {shown : Bytes} {span : Span} :
    b.check v shown span = .ok () ↔ b.Allows v := by
  unfold Bounds.check Bounds.Allows
  split
  · simp only [reduceCtorEq, false_iff]
    omega
  · split
    · simp_all
    · simp only [true_iff]
      refine ⟨by omega, by omega, ?_⟩
      intro even
      simp_all

def Operand.Within (bounds : Bounds) : Operand → Prop
  | .num v => bounds.Allows v
  | .ref _ => True

instance (bounds : Bounds) (v : Operand) : Decidable (v.Within bounds) :=
  match v with
  | .num v => inferInstanceAs (Decidable (bounds.Allows v))
  | .ref _ => .isTrue trivial

namespace Register

theorem toNat_le_of_ofName? {name : String} {r : Register} (found : ofName? name = some r) :
    r.toNat ≤ 31 := by
  obtain ⟨before, after, split, _⟩ := List.lookup_eq_some_iff.mp found
  have member : (name, r) ∈ spellings := by
    rw [split]
    simp
  have bounded : ∀ s ∈ spellings, s.2.toNat ≤ 31 := by decide +kernel
  exact bounded _ member

end Register

namespace Operands

variable {c : Context} {ts rest : List Token}

theorem next_eq_ok_iff {t : Token} : next c ts = .ok (t, rest) ↔ ts = t :: rest := by
  cases ts with
  | nil => simp [next]
  | cons u us => simp [next]

theorem skipComma_suffix (ts : List Token) : skipComma ts <:+ ts := by
  cases ts with
  | nil => exact List.suffix_refl _
  | cons t ts =>
    simp only [skipComma]
    split
    · exact List.suffix_cons t ts
    · exact List.suffix_refl _

theorem register_eq_ok_iff {r : Register} :
    register c ts = .ok (r, rest) ↔
      ∃ t, ts = t :: rest ∧ (t.kind = .ident ∨ t.kind = .number) ∧
        Register.ofName? (latin t.text) = some r := by
  simp only [register, bind_eq_ok_iff, Prod.exists, next_eq_ok_iff]
  constructor
  · rintro ⟨t, left, rfl, read⟩
    split at read
    · rename_i named
      split at read
      · rename_i found
        simp only [Except.ok.injEq, Prod.mk.injEq] at read
        obtain ⟨rfl, rfl⟩ := read
        exact ⟨t, rfl, named, found⟩
      · simp at read
    · simp at read
  · rintro ⟨t, rfl, named, found⟩
    refine ⟨t, rest, rfl, ?_⟩
    rw [if_pos named]
    simp [found]

theorem register_ok {r : Register} (read : register c ts = .ok (r, rest)) :
    r.toNat ≤ 31 ∧ rest <:+ ts := by
  obtain ⟨t, rfl, _, found⟩ := register_eq_ok_iff.mp read
  exact ⟨Register.toNat_le_of_ofName? found, List.suffix_cons t rest⟩

theorem registerPair_eq_ok_iff {a b : Register} :
    registerPair c ts = .ok (a, b, rest) ↔
      ∃ left, register c ts = .ok (a, left) ∧ register c (skipComma left) = .ok (b, rest) := by
  simp only [registerPair, bind_eq_ok_iff, pure_eq_ok_iff, Prod.exists, Prod.mk.injEq]
  constructor
  · rintro ⟨_, left, first, _, _, second, rfl, rfl, rfl⟩
    exact ⟨left, first, second⟩
  · rintro ⟨left, first, second⟩
    exact ⟨a, left, first, b, rest, second, rfl, rfl, rfl⟩

theorem registerPair_ok {a b : Register} (read : registerPair c ts = .ok (a, b, rest)) :
    a.toNat ≤ 31 ∧ b.toNat ≤ 31 ∧ rest <:+ ts := by
  obtain ⟨left, first, second⟩ := registerPair_eq_ok_iff.mp read
  obtain ⟨ha, suffixA⟩ := register_ok first
  obtain ⟨hb, suffixB⟩ := register_ok second
  exact ⟨ha, hb, suffixB.trans ((skipComma_suffix left).trans suffixA)⟩

theorem operand_eq_ok_iff {bounds : Bounds} {t : Token} {v : Operand} :
    operand c bounds t = .ok v ↔
      (t.kind = .number ∧ ∃ n, Number.ofToken c.line t = .ok n ∧ bounds.Allows n ∧ v = .num n) ∨
        (t.kind = .ident ∧ v = .ref t.text) := by
  cases kind : t.kind with
  | number =>
    simp only [operand, kind, bind_eq_ok_iff, pure_eq_ok_iff, true_and, reduceCtorEq, false_and,
      or_false]
    constructor
    · rintro ⟨n, literal, ⟨⟩, within, rfl⟩
      exact ⟨n, literal, Bounds.check_eq_ok_iff.mp within, rfl⟩
    · rintro ⟨n, literal, within, rfl⟩
      exact ⟨n, literal, (), Bounds.check_eq_ok_iff.mpr within, rfl⟩
  | ident => simp [operand, kind, eq_comm]
  | string | comma | colon | openParen | closeParen => simp [operand, kind]

theorem operand_within {bounds : Bounds} {t : Token} {v : Operand}
    (read : operand c bounds t = .ok v) : v.Within bounds := by
  rcases operand_eq_ok_iff.mp read with ⟨_, n, _, within, rfl⟩ | ⟨_, rfl⟩
  · exact within
  · trivial

theorem immediate_eq_ok_iff {bounds : Bounds} {v : Operand} :
    immediate c bounds ts = .ok (v, rest) ↔
      ∃ t, ts = t :: rest ∧ operand c bounds t = .ok v := by
  simp only [immediate, bind_eq_ok_iff, pure_eq_ok_iff, Prod.exists, next_eq_ok_iff,
    Prod.mk.injEq]
  constructor
  · rintro ⟨t, _, rfl, _, read, rfl, rfl⟩
    exact ⟨t, rfl, read⟩
  · rintro ⟨t, rfl, read⟩
    exact ⟨t, rest, rfl, v, read, rfl, rfl⟩

theorem immediate_ok {bounds : Bounds} {v : Operand}
    (read : immediate c bounds ts = .ok (v, rest)) : v.Within bounds ∧ rest <:+ ts := by
  obtain ⟨t, rfl, value⟩ := immediate_eq_ok_iff.mp read
  exact ⟨operand_within value, List.suffix_cons t rest⟩

theorem exactly_eq_ok_iff {kind : TokenKind} {expected : String} :
    exactly c kind expected ts = .ok rest ↔ ∃ t, ts = t :: rest ∧ t.kind = kind := by
  simp only [exactly, bind_eq_ok_iff, Prod.exists, next_eq_ok_iff]
  constructor
  · rintro ⟨t, left, rfl, read⟩
    split at read
    · rename_i same
      obtain rfl : left = rest := pure_eq_ok_iff.mp read
      exact ⟨t, rfl, same⟩
    · simp at read
  · rintro ⟨t, rfl, same⟩
    refine ⟨t, rest, rfl, ?_⟩
    rw [if_pos same]
    rfl

theorem memoryOffset_ok {v : Operand} (read : memoryOffset c ts = .ok (v, rest)) :
    v.Within .twelveBit ∧ rest <:+ ts := by
  unfold memoryOffset at read
  split at read
  · simp only [Except.ok.injEq, Prod.mk.injEq] at read
    obtain ⟨rfl, rfl⟩ := read
    exact ⟨by decide, List.suffix_refl _⟩
  · exact immediate_ok read

theorem memory_ok {v : Operand} {r : Register} (read : memory c ts = .ok (v, r, rest)) :
    v.Within .twelveBit ∧ r.toNat ≤ 31 ∧ rest <:+ ts := by
  simp only [memory, bind_eq_ok_iff, pure_eq_ok_iff, Prod.exists, Prod.mk.injEq] at read
  obtain ⟨_, afterOffset, offset, inner, opened, _, afterRegister, base, left, closed, rfl, rfl,
    rfl⟩ := read
  obtain ⟨within, suffixOffset⟩ := memoryOffset_ok offset
  obtain ⟨paren, rfl, _⟩ := exactly_eq_ok_iff.mp opened
  obtain ⟨bound, suffixRegister⟩ := register_ok base
  obtain ⟨close, rfl, _⟩ := exactly_eq_ok_iff.mp closed
  have inside : left <:+ inner := (List.suffix_cons close left).trans suffixRegister
  have outside : inner <:+ ts := (List.suffix_cons paren inner).trans suffixOffset
  exact ⟨within, bound, inside.trans outside⟩

theorem operands_ne_nil {bounds : Bounds} {vs : List Operand}
    (read : operands c bounds ts = .ok vs) : vs ≠ [] := by
  cases ts with
  | nil => simp [operands] at read
  | cons t ts =>
    simp only [operands, bind_eq_ok_iff, pure_eq_ok_iff] at read
    obtain ⟨v, _, more, _, rfl⟩ := read
    simp

end Operands

end Rv32Asm
