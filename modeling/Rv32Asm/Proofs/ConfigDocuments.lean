import Rv32Asm.Config.Load
import Rv32Asm.Proofs.LetterCase
import Rv32Asm.Proofs.Reading

/-!
The configurations that documents describe.

A document gives the byte order and the extensions by name. What it leaves out has its standard
value, and so has what it says with `null`, except that a list that is `null` is absent.
-/

set_option autoImplicit false
set_option relaxedAutoImplicit false

namespace Rv32Asm.Config

open Rv32Asm.Json
open Rv32Asm.Json.Update
open Rv32Asm.Text

variable {content : Bytes} {document : Json} {c : Config}

def documentShape : Shape :=
  .record [("byteOrder", .leaf text?), ("extensions", .list (.leaf text?))]

def ofDocument (document : Json) : Config where
  byteOrder := lastOf text? (document.valuesAt ["byteOrder"]) "big"
  extensions := listOf text? [] "" (document.valuesAt ["extensions"]) (some ["m"])

/-- The byte order and the extensions are known ones, in any letter case. -/
structure Valid (c : Config) : Prop where
  order : lower c.byteOrder ∈ ["", "big", "little"]
  extensions : ∀ e ∈ c.extensions.getD [], foldEq e "m" = true

def Described (content : Bytes) (c : Config) : Prop :=
  ∃ document, Json.parse? content = some document ∧ documentShape document ∧
    c = ofDocument document ∧ c.Valid

theorem validate_eq_ok_iff_valid : c.validate = .ok () ↔ c.Valid := by
  rw [validate_eq_ok_iff]
  constructor
  · rintro ⟨order, extensions⟩
    exact ⟨order, extensions⟩
  · intro valid
    exact ⟨valid.order, valid.extensions⟩

section Draft

theorem apart_draft : Apart ["byteOrder", "extensions"] := by decide +kernel

theorem accepts_draft : Accepts Draft.update documentShape := by
  have text : Accepts (.text "string") (.leaf text?) := (isLeaf_text _).accepts
  refine .record apart_draft (.cons ⟨rfl, ?_⟩ (.cons ⟨rfl, ?_⟩ .nil))
  · exact text.lens
  · exact text.list.lens

theorem carries_draft_byteOrder :
    Carries Draft.update Draft.byteOrder (.text "string") (valuesAt ["byteOrder"]) := by
  refine Owns.carriesAt apart_draft (.here ?_ ?_) rfl
  · exact (carries_self _).lens fun _ _ => rfl
  · simp [keeps_lens]

theorem carries_draft_extensions :
    Carries Draft.update Draft.extensions (.list "[]string" "" (.text "string"))
      (valuesAt ["extensions"]) := by
  refine Owns.carriesAt apart_draft (.there ?_ (.here ?_ (by simp))) rfl
  · exact keeps_lens fun _ _ => rfl
  · exact (carries_self _).lens fun _ _ => rfl

theorem ofDocument_eq {draft : Draft}
    (read : Draft.update.run document Draft.standard = .ok draft) :
    ⟨draft.byteOrder, draft.extensions.toList?⟩ = ofDocument document := by
  have text : ReadsAt (.text "string") text? [] := (isLeaf_text _).readsAt (carries_self _)
  rw [carries_draft_byteOrder.eq_lastOf (isLeaf_text _) read,
    toList?_of_reads text rfl (carries_draft_extensions _ _ _ _ read)]
  rfl

end Draft

/-- The configuration of a file is the one that its document describes. -/
theorem load_eq_ok_iff : load content = .ok c ↔ Described content c := by
  unfold load Described
  cases Json.parse? content with
  | none => simp
  | some document =>
    simp only [Option.some.injEq, exists_eq_left']
    cases read : Draft.update.run document Draft.standard with
    | error e =>
      have wrong : ¬ documentShape document := by
        intro shape
        obtain ⟨draft, done⟩ := (accepts_draft none document Draft.standard).mpr shape
        exact nomatch read.symm.trans done
      simp [wrong]
    | ok draft =>
      have shape : documentShape document :=
        (accepts_draft none document Draft.standard).mp ⟨draft, read⟩
      simp only [ofDocument_eq read, shape, true_and]
      cases valid : (ofDocument document).validate with
      | ok _ =>
        have sound := validate_eq_ok_iff_valid.mp valid
        simp only [Except.ok.injEq]
        exact ⟨fun same => ⟨same.symm, same ▸ sound⟩, fun same => same.1.symm⟩
      | error fault =>
        have unsound : ¬ (ofDocument document).Valid := by
          rw [← validate_eq_ok_iff_valid, valid]
          simp
        simp only [reduceCtorEq, false_iff, not_and]
        rintro rfl
        exact unsound

end Rv32Asm.Config
