import Rv32Asm.Config
import Rv32Asm.Proofs.Outcome

/-!
Two ways to leave letter case out of account.

A configuration is checked in lower case and used up to case folding. For a word without an `s` the
two agree on every text but those with a dotted capital I, which has the lower case `i` and folds
with no other character. So there are spellings of the byte order that are accepted as little and
used as big.
-/

set_option autoImplicit false
set_option relaxedAutoImplicit false

namespace Rv32Asm

namespace Text

def dottedI : Char := '\u0130'

/-- The ASCII letters in lower case, without the `s`, which also folds with the long s. -/
def plainLetters : List Char := "abcdefghijklmnopqrtuvwxyz".toList

def capital (l : Char) : Char := Char.ofNat (l.toNat - 32)

theorem foldCode_cases (c : Char) :
    foldCode c = c.toNat ∨
      ∃ first last step, ∃ distance : Int, (first, last, step, distance) ∈ foldRanges ∧
        first ≤ c.toNat ∧ c.toNat ≤ last ∧ foldCode c = ((c.toNat : Int) + distance).toNat := by
  unfold foldCode
  split
  · rename_i first last step distance found
    have covers := List.find?_some found
    simp only [Bool.and_eq_true, decide_eq_true_eq] at covers
    right
    exact ⟨first, last, step, distance, List.mem_of_find?_eq_some found, covers.1.1, covers.1.2,
      rfl⟩
  · left
    rfl

theorem foldRanges_to_letters {first last step : Nat} {distance : Int}
    (entry : (first, last, step, distance) ∈ foldRanges) (low : (first : Int) + distance ≤ 0x7a)
    (high : (0x61 : Int) ≤ last + distance) :
    (first, last, step, distance) ∈
      [(0x41, 0x5a, 1, 32), (0x17f, 0x17f, 1, -268), (0x212a, 0x212a, 1, -8383)] := by
  have table : foldRanges.all (fun e => decide (0x7a < (e.1 : Int) + e.2.2.2) ||
      decide ((e.2.1 : Int) + e.2.2.2 < 0x61) ||
      [(0x41, 0x5a, 1, 32), (0x17f, 0x17f, 1, -268), (0x212a, 0x212a, 1, -8383)].contains e) =
        true := by decide +kernel
  have here := List.all_eq_true.mp table _ entry
  simp only [Bool.or_eq_true, decide_eq_true_eq, List.contains_iff_mem] at here
  rcases here with (outside | outside) | listed
  · omega
  · omega
  · exact listed

theorem code_of_plain {l : Char} (plain : l ∈ plainLetters) :
    0x61 ≤ l.toNat ∧ l.toNat ≤ 0x7a ∧ l.toNat ≠ 0x73 := by
  have table : plainLetters.all (fun l => decide (0x61 ≤ l.toNat ∧ l.toNat ≤ 0x7a ∧
      l.toNat ≠ 0x73)) = true := by decide +kernel
  exact of_decide_eq_true (List.all_eq_true.mp table l plain)

theorem forms_of_plain {l : Char} (plain : l ∈ plainLetters) (form : Char)
    (known : form ∈ [l, capital l]) :
    foldCode form = l.toNat ∧ lowerChar form = l ∧ form ≠ dottedI := by
  have table : plainLetters.all (fun l => [l, capital l].all fun form =>
      decide (foldCode form = l.toNat ∧ lowerChar form = l ∧ form ≠ dottedI)) = true := by
    decide +kernel
  have here := List.all_eq_true.mp table l plain
  exact of_decide_eq_true (List.all_eq_true.mp here form known)

theorem toLower_cases (c : Char) :
    c.toLower = c ∨ c.toLower.toNat = c.toNat + 32 := by
  unfold Char.toLower
  split
  · rename_i capital
    right
    have bound : c.val.toNat ≤ 90 := UInt32.le_iff_toNat_le.mp capital.2
    show (c.val + 32).toNat = c.val.toNat + 32
    rw [UInt32.toNat_add]
    show (c.val.toNat + 32) % 2 ^ 32 = c.val.toNat + 32
    omega
  · left
    rfl

/-- The characters that fold with a plain letter are those with this lower case, the dotted capital
I apart. -/
theorem foldCode_eq_iff {l : Char} (plain : l ∈ plainLetters) (c : Char) :
    foldCode c = foldCode l ↔ lowerChar c = l ∧ c ≠ dottedI := by
  obtain ⟨least, greatest, notLong⟩ := code_of_plain plain
  have own := forms_of_plain plain l (by simp)
  have large := forms_of_plain plain (capital l) (by simp)
  have is_capital (code : c.toNat + 32 = l.toNat) : c = capital l := by
    rw [capital, ← code, Nat.add_sub_cancel, Char.ofNat_toNat]
  rw [own.1]
  constructor
  · intro same
    rcases foldCode_cases c with itself | ⟨first, last, step, distance, entry, after, before, code⟩
    · have here : c = l := Char.toNat_inj.mp (itself.symm.trans same)
      rw [here]
      exact own.2
    · have small := foldRanges_to_letters entry (by omega) (by omega)
      simp only [List.mem_cons, Prod.mk.injEq, List.not_mem_nil, or_false] at small
      rcases small with ⟨_, _, _, rfl⟩ | ⟨rfl, rfl, _, rfl⟩ | ⟨rfl, rfl, _, rfl⟩
      · rw [is_capital (by omega)]
        exact large.2
      · omega
      · have sign : c = '\u212a' := by
          apply Char.toNat_inj.mp
          show c.toNat = 0x212a
          omega
        have letter : l = 'k' := by
          apply Char.toNat_inj.mp
          show l.toNat = 0x6b
          omega
        rw [sign, letter]
        decide +kernel
  · rintro ⟨same, plainly⟩
    unfold lowerChar at same
    split at same
    · rename_i dotted
      exact absurd dotted plainly
    split at same
    · rename_i sign
      rw [sign, ← same]
      decide +kernel
    · rcases toLower_cases c with itself | code
      · rw [← itself, same, own.1]
      · rw [same] at code
        rw [is_capital code.symm, large.1]

theorem map_foldCode_eq_iff {cs w : List Char} (plain : ∀ l ∈ w, l ∈ plainLetters) :
    cs.map foldCode = w.map foldCode ↔ cs.map lowerChar = w ∧ dottedI ∉ cs := by
  induction cs generalizing w with
  | nil =>
    cases w with
    | nil => simp
    | cons l w => simp
  | cons c cs ih =>
    cases w with
    | nil => simp
    | cons l w =>
      rw [List.forall_mem_cons] at plain
      rw [List.map_cons, List.map_cons, List.map_cons, List.cons.injEq, List.cons.injEq,
        List.mem_cons, not_or, foldCode_eq_iff plain.1, ih plain.2]
      constructor
      · rintro ⟨⟨first, plainly⟩, rest, others⟩
        exact ⟨⟨first, rest⟩, Ne.symm plainly, others⟩
      · rintro ⟨⟨first, rest⟩, plainly, others⟩
        exact ⟨⟨first, Ne.symm plainly⟩, rest, others⟩

/-- Case folding and lower case agree on a word of plain letters, up to the dotted capital I. -/
theorem foldEq_iff {s w : String} (plain : ∀ l ∈ w.toList, l ∈ plainLetters) :
    foldEq s w = true ↔ lower s = w ∧ dottedI ∉ s.toList := by
  have texts : lower s = w ↔ s.toList.map lowerChar = w.toList := by
    rw [lower, ← String.toList_inj, String.toList_ofList]
  rw [foldEq, beq_iff_eq, map_foldCode_eq_iff plain, texts]

end Text

open Rv32Asm.Text

namespace Config

variable {c : Config}

theorem order_eq_little_iff :
    c.order = .little ↔ lower c.byteOrder = "little" ∧ dottedI ∉ c.byteOrder.toList := by
  have plain : ∀ l ∈ "little".toList, l ∈ plainLetters := by
    have letters : "little".toList.all plainLetters.contains = true := by decide +kernel
    simpa using letters
  rw [← foldEq_iff plain, order]
  split <;> simp_all

theorem validate_eq_ok_iff :
    c.validate = .ok () ↔
      lower c.byteOrder ∈ ["", "big", "little"] ∧ ∀ e ∈ c.extensionList, foldEq e "m" = true := by
  unfold validate
  split
  · rename_i known
    have known : lower c.byteOrder ∈ ["", "big", "little"] := by simpa using known
    split
    · rename_i e found
      have unknown := List.find?_some found
      have listed := List.mem_of_find?_eq_some found
      simp only [reduceCtorEq, false_iff, not_and]
      intro _ all
      simp [all e listed] at unknown
    · rename_i none
      have all := List.find?_eq_none.mp none
      simp only [true_iff]
      exact ⟨known, by simpa using all⟩
  · rename_i unknown
    simp only [reduceCtorEq, false_iff, not_and]
    intro known
    simp at unknown
    simp [unknown] at known

/-- An accepted configuration is used as it was checked, unless the byte order is written with a
dotted capital I. -/
structure UsedAsChecked (c : Config) : Prop where
  /-- The spellings that are accepted as little are used as little without this letter. -/
  little : c.order = .little ↔ lower c.byteOrder = "little" ∧ dottedI ∉ c.byteOrder.toList
  /-- With this letter they are used as big, as are all other accepted spellings. -/
  big : c.order = .big ↔
    lower c.byteOrder ∈ ["", "big"] ∨ lower c.byteOrder = "little" ∧ dottedI ∈ c.byteOrder.toList
  multiply : c.hasExtension "m" = true ↔ c.extensionList ≠ []

theorem usedAsChecked_of_validate (valid : c.validate = .ok ()) : c.UsedAsChecked := by
  obtain ⟨known, all⟩ := validate_eq_ok_iff.mp valid
  constructor
  case little => exact order_eq_little_iff
  case big =>
    have either : c.order = .big ↔ ¬ c.order = .little := by cases c.order <;> simp
    rw [either, order_eq_little_iff]
    simp only [List.mem_cons, List.not_mem_nil, or_false] at known ⊢
    rcases known with word | word | word <;> simp [word]
  case multiply =>
    have named : "m".isEmpty = false := by decide
    simp only [hasExtension, named, Bool.false_or, List.any_eq_true]
    constructor
    · rintro ⟨e, listed, _⟩ none
      simp [none] at listed
    · intro some_extension
      obtain ⟨e, listed⟩ := List.exists_mem_of_ne_nil _ some_extension
      exact ⟨e, listed, all e listed⟩

theorem usedAsChecked_mixedCase :
    Config.validate ⟨"LiTTle", some ["M", "m"]⟩ = .ok () ∧
      Config.order ⟨"LiTTle", some ["M", "m"]⟩ = .little ∧
      UsedAsChecked ⟨"LiTTle", some ["M", "m"]⟩ := by
  have valid : Config.validate ⟨"LiTTle", some ["M", "m"]⟩ = .ok () := by decide +kernel
  exact ⟨valid, by decide +kernel, usedAsChecked_of_validate valid⟩

/-- A byte order that is accepted as little and used as big. -/
theorem dotted_little_used_as_big :
    Config.validate ⟨"LİTTLE", some ["m"]⟩ = .ok () ∧ lower "LİTTLE" = "little" ∧
      Config.order ⟨"LİTTLE", some ["m"]⟩ = .big := by
  decide +kernel

end Config

end Rv32Asm
