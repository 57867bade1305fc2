import Rv32Asm.Proofs.Placement

/-!
The order of symbols.

Symbols are listed by segment, offset and name. Names differ within a table, so that no two of its
symbols stand at one place of the order, and the list is strictly ordered.
-/

set_option autoImplicit false
set_option relaxedAutoImplicit false

namespace Rv32Asm

namespace Symbol

variable {a b c : Symbol}

def Precedes (a b : Symbol) : Prop :=
  a.segment.number < b.segment.number ∨
    a.segment = b.segment ∧ (a.offset < b.offset ∨ a.offset = b.offset ∧ a.name < b.name)

theorem before_eq_true_iff : a.before b = true ↔ a.segment.number < b.segment.number ∨
    a.segment = b.segment ∧ (a.offset < b.offset ∨ a.offset = b.offset ∧ a.name ≤ b.name) := by
  rw [before]
  by_cases segments : a.segment = b.segment
  · by_cases offsets : a.offset = b.offset
    · simp [segments, offsets]
    · simp [segments, offsets]
  · simp [segments]

theorem before_trans (first : a.before b = true) (second : b.before c = true) :
    a.before c = true := by
  rw [before_eq_true_iff] at *
  rcases first with less | ⟨same, rest⟩
  · rcases second with less' | ⟨same', _⟩
    · exact .inl (Nat.lt_trans less less')
    · exact .inl (same' ▸ less)
  · rcases second with less' | ⟨same', rest'⟩
    · exact .inl (same ▸ less')
    · refine .inr ⟨same.trans same', ?_⟩
      rcases rest with less | ⟨offset, name⟩
      · rcases rest' with less' | ⟨offset', _⟩
        · exact .inl (UInt32.lt_trans less less')
        · exact .inl (offset' ▸ less)
      · rcases rest' with less' | ⟨offset', name'⟩
        · exact .inl (offset ▸ less')
        · exact .inr ⟨offset.trans offset', List.le_trans name name'⟩

theorem before_total (a b : Symbol) : (a.before b || b.before a) = true := by
  rw [Bool.or_eq_true, before_eq_true_iff, before_eq_true_iff]
  have numbers : a.segment = b.segment ∨ a.segment.number < b.segment.number ∨
      b.segment.number < a.segment.number := by
    cases a.segment <;> cases b.segment <;> decide
  rcases numbers with same | less | more
  · have offsets : a.offset = b.offset ∨ a.offset < b.offset ∨ b.offset < a.offset := by
      rw [UInt32.lt_iff_toNat_lt, UInt32.lt_iff_toNat_lt, ← UInt32.toNat_inj]
      omega
    rcases offsets with level | less | more
    · rcases List.le_total a.name b.name with least | most
      · exact .inl (.inr ⟨same, .inr ⟨level, least⟩⟩)
      · exact .inr (.inr ⟨same.symm, .inr ⟨level.symm, most⟩⟩)
    · exact .inl (.inr ⟨same, .inl less⟩)
    · exact .inr (.inr ⟨same.symm, .inl more⟩)
  · exact .inl (.inl less)
  · exact .inr (.inl more)

theorem precedes_of_before (ordered : a.before b = true) (names : a.name ≠ b.name) :
    a.Precedes b := by
  rcases before_eq_true_iff.mp ordered with less | ⟨same, less | ⟨level, least⟩⟩
  · exact .inl less
  · exact .inr ⟨same, .inl less⟩
  · refine .inr ⟨same, .inr ⟨level, ?_⟩⟩
    apply List.not_le.mp
    intro most
    exact names (List.le_antisymm least most)

end Symbol

namespace SymbolTable

variable {t : SymbolTable}

theorem symbols_perm (t : SymbolTable) : t.symbols.Perm t.entries :=
  List.mergeSort_perm t.entries Symbol.before

theorem symbols_pairwise (unique : t.Unique) : t.symbols.Pairwise Symbol.Precedes := by
  have sorted : t.symbols.Pairwise fun a b => a.before b = true :=
    @List.pairwise_mergeSort Symbol Symbol.before (fun _ _ _ => Symbol.before_trans)
      Symbol.before_total t.entries
  have names : t.symbols.Pairwise fun a b => a.name ≠ b.name :=
    List.pairwise_map.mp ((t.symbols_perm.map Symbol.name).nodup_iff.mpr unique)
  exact sorted.imp₂ (fun _ _ => Symbol.precedes_of_before) names

end SymbolTable

end Rv32Asm
