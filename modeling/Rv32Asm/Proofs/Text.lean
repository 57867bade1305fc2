import Rv32Asm.Text.Blank

/-!
Lines and white space.

Taking a text apart into lines undoes putting lines together. White space that is trimmed never
includes a byte that is part of no white space character.
-/

set_option autoImplicit false
set_option relaxedAutoImplicit false

namespace Rv32Asm.Text

theorem consByte_ne_nil (b : UInt8) (ls : List Bytes) : consByte b ls ≠ [] := by
  unfold consByte
  split
  · simp
  · split <;> simp

theorem lines_cons (b : UInt8) (bs : Bytes) : lines (b :: bs) = consByte b (lines bs) := rfl

theorem lines_ne_nil (bs : Bytes) : lines bs ≠ [] := by
  cases bs with
  | nil => simp [lines]
  | cons b bs => exact consByte_ne_nil b (lines bs)

theorem consByte_append (b : UInt8) {ls : List Bytes} (some_line : ls ≠ []) (more : List Bytes) :
    consByte b (ls ++ more) = consByte b ls ++ more := by
  unfold consByte
  split
  · rfl
  · cases ls with
    | nil => exact absurd rfl some_line
    | cons l ls => rfl

theorem lines_append (a b : Bytes) : lines (a ++ newline :: b) = lines a ++ lines b := by
  induction a with
  | nil =>
    have break_ : consByte newline (lines b) = [] :: lines b := if_pos rfl
    rw [List.nil_append, lines_cons, break_]
    rfl
  | cons c a ih => rw [List.cons_append, lines_cons, ih, consByte_append c (lines_ne_nil a), lines_cons]

theorem lines_of_not_mem {bs : Bytes} (whole : newline ∉ bs) : lines bs = [bs] := by
  induction bs with
  | nil => rfl
  | cons b bs ih =>
    rw [List.mem_cons, not_or] at whole
    rw [lines_cons, ih whole.2, consByte, if_neg (Ne.symm whole.1)]

theorem unlines_cons_cons (l l' : Bytes) (ls : List Bytes) :
    unlines (l :: l' :: ls) = l ++ newline :: unlines (l' :: ls) := by
  simp [unlines, List.intersperse]

theorem lines_unlines {ls : List Bytes} (some_line : ls ≠ []) (whole : ∀ l ∈ ls, newline ∉ l) :
    lines (unlines ls) = ls := by
  induction ls with
  | nil => exact absurd rfl some_line
  | cons l ls ih =>
    rw [List.forall_mem_cons] at whole
    cases ls with
    | nil =>
      have alone : unlines [l] = l := by simp [unlines]
      rw [alone, lines_of_not_mem whole.1]
    | cons l' ls =>
      rw [unlines_cons_cons, lines_append, lines_of_not_mem whole.1, ih (by simp) whole.2]
      rfl

theorem unlines_lines (bs : Bytes) : unlines (lines bs) = bs := by
  induction bs with
  | nil => rfl
  | cons b bs ih =>
    rw [lines_cons]
    cases split : lines bs with
    | nil => exact absurd split (lines_ne_nil bs)
    | cons l ls =>
      rw [split] at ih
      by_cases break_ : b = newline
      · rw [consByte, if_pos break_, unlines_cons_cons, ih, break_]
        rfl
      · rw [consByte, if_neg break_]
        cases ls with
        | nil => simpa [unlines] using ih
        | cons l' ls =>
          rw [unlines_cons_cons] at ih ⊢
          rw [List.cons_append, ih]

theorem unlines_concat (ls : List Bytes) (last : Bytes) :
    unlines (ls ++ [last]) = (ls.flatMap fun l => l ++ [newline]) ++ last := by
  induction ls with
  | nil => simp [unlines]
  | cons l ls ih =>
    rw [List.flatMap_cons, List.append_assoc, ← ih]
    cases ls with
    | nil => simp [unlines]
    | cons l' ls =>
      rw [List.cons_append, List.cons_append, unlines_cons_cons]
      simp

theorem newline_not_mem_lines (bs : Bytes) : ∀ l ∈ lines bs, newline ∉ l := by
  induction bs with
  | nil => simp [lines]
  | cons b bs ih =>
    rw [lines_cons]
    unfold consByte
    split
    · intro l member
      rcases List.mem_cons.mp member with rfl | member
      · simp
      · exact ih l member
    · rename_i other
      cases split : lines bs with
      | nil => exact absurd split (lines_ne_nil bs)
      | cons l ls =>
        rw [split, List.forall_mem_cons] at ih
        rw [List.forall_mem_cons]
        refine ⟨?_, ih.2⟩
        rw [List.mem_cons, not_or]
        exact ⟨Ne.symm other, ih.1⟩

theorem dropFront?_eq_some_iff {form bs rest : Bytes} :
    dropFront? form bs = some rest ↔ bs = form ++ rest := by
  induction form generalizing bs with
  | nil => simp [dropFront?]
  | cons f form ih =>
    cases bs with
    | nil => simp [dropFront?]
    | cons b bs =>
      rw [dropFront?]
      split
      · rename_i same
        simp [ih, same]
      · rename_i other
        simp [Ne.symm other]

theorem dropForms_keeps {forms : List Bytes} {P : Bytes → Prop}
    (step : ∀ form ∈ forms, ∀ rest, P (form ++ rest) → P rest) (fuel : Nat) {bs : Bytes}
    (start : P bs) : P (dropForms forms fuel bs) := by
  induction fuel generalizing bs with
  | zero => exact start
  | succ fuel ih =>
    rw [dropForms]
    split
    · rename_i rest found
      obtain ⟨form, member, dropped⟩ := List.exists_of_findSome?_eq_some found
      rw [dropFront?_eq_some_iff.mp dropped] at start
      exact ih (step form member rest start)
    · exact start

theorem dropForms_suffix (forms : List Bytes) (fuel : Nat) (bs : Bytes) :
    dropForms forms fuel bs <:+ bs := by
  refine dropForms_keeps (P := (· <:+ bs)) ?_ fuel (List.suffix_refl bs)
  intro form _ rest inside
  exact (List.suffix_append form rest).trans inside

/-- A form that does not hold the byte that `ys` starts with ends before `ys`. -/
theorem exists_kept_of_append {form xs ys rest : Bytes} (clean : ∀ y ∈ ys.head?, y ∉ form)
    (same : form ++ rest = xs ++ ys) : ∃ kept, rest = kept ++ ys ∧ kept <:+ xs := by
  rcases List.append_eq_append_iff.mp same with ⟨kept, rfl, behind⟩ | ⟨more, rfl, behind⟩
  · exact ⟨kept, behind, List.suffix_append form kept⟩
  · cases more with
    | nil => exact ⟨[], behind.symm, List.nil_suffix⟩
    | cons y more =>
      have first : y ∈ ys.head? := by rw [behind]; rfl
      exact absurd (List.mem_append_right xs List.mem_cons_self) (clean y first)

theorem dropForms_append {forms : List Bytes} {ys : Bytes}
    (clean : ∀ form ∈ forms, ∀ y ∈ ys.head?, y ∉ form) (fuel : Nat) (xs : Bytes) :
    ∃ kept, dropForms forms fuel (xs ++ ys) = kept ++ ys ∧ kept <:+ xs := by
  refine dropForms_keeps (P := fun bs => ∃ kept, bs = kept ++ ys ∧ kept <:+ xs) ?_ fuel
    ⟨xs, rfl, List.suffix_refl xs⟩
  rintro form member rest ⟨kept, same, suffix⟩
  obtain ⟨kept', same', suffix'⟩ := exists_kept_of_append (clean form member) same
  exact ⟨kept', same', suffix'.trans suffix⟩

theorem trimEnd_append {ys : Bytes} (clean : ∀ form ∈ blankForms, ∀ y ∈ ys.getLast?, y ∉ form)
    (xs : Bytes) : ∃ kept, trimEnd (ys ++ xs) = ys ++ kept ∧ kept <+: xs := by
  have clean' : ∀ form ∈ blankForms.map List.reverse, ∀ y ∈ ys.reverse.head?, y ∉ form := by
    intro reversed member y last
    obtain ⟨form, known, rfl⟩ := List.mem_map.mp member
    rw [List.head?_reverse] at last
    rw [List.mem_reverse]
    exact clean form known y last
  obtain ⟨kept, same, suffix⟩ := dropForms_append clean' (ys ++ xs).length xs.reverse
  refine ⟨kept.reverse, ?_, ?_⟩
  · rw [trimEnd, List.reverse_append, same, List.reverse_append, List.reverse_reverse]
  · rw [← List.reverse_suffix, List.reverse_reverse]
    exact suffix

theorem trimStart_append {blank : Bytes} (single : ∀ b ∈ blank, b ∈ [0x20, 0x09, 0x0d, 0x0b, 0x0c])
    {rest : Bytes} (stop : dropForm? blankForms rest = none) : trimStart (blank ++ rest) = rest := by
  have dropped (fuel : Nat) (enough : blank.length ≤ fuel) :
      dropForms blankForms fuel (blank ++ rest) = rest := by
    induction blank generalizing fuel with
    | nil => cases fuel <;> simp [dropForms, stop]
    | cons b blank ih =>
      rw [List.forall_mem_cons] at single
      have first : dropForm? blankForms (b :: (blank ++ rest)) = some (blank ++ rest) := by
        have known := single.1
        simp only [List.mem_cons, List.not_mem_nil, or_false] at known
        rcases known with rfl | rfl | rfl | rfl | rfl <;> rfl
      cases fuel with
      | zero => simp at enough
      | succ fuel =>
        rw [List.cons_append, dropForms, first]
        exact ih single.2 fuel (by simpa using enough)
  exact dropped _ (by simp)

/-- With enough fuel, none of the forms is left at the front. -/
theorem dropForm?_dropForms {forms : List Bytes} (some_byte : ∀ form ∈ forms, form ≠ []) (fuel : Nat)
    (bs : Bytes) (enough : bs.length ≤ fuel) : dropForm? forms (dropForms forms fuel bs) = none := by
  induction fuel generalizing bs with
  | zero =>
    obtain rfl := List.length_eq_zero_iff.mp (Nat.le_zero.mp enough)
    rw [dropForms, dropForm?, List.findSome?_eq_none_iff]
    intro form member
    cases form with
    | nil => exact absurd rfl (some_byte [] member)
    | cons f form => rfl
  | succ fuel ih =>
    rw [dropForms]
    split
    · rename_i rest found
      obtain ⟨form, member, dropped⟩ := List.exists_of_findSome?_eq_some found
      have length := congrArg List.length (dropFront?_eq_some_iff.mp dropped)
      have positive := List.length_pos_iff.mpr (some_byte form member)
      rw [List.length_append] at length
      exact ih rest (by omega)
    · rename_i stop
      exact stop

theorem trimEnd_trimEnd (bs : Bytes) : trimEnd (trimEnd bs) = trimEnd bs := by
  have some_byte : ∀ form ∈ blankForms.map List.reverse, form ≠ [] := by decide +kernel
  have stop := dropForm?_dropForms some_byte bs.length bs.reverse (by simp)
  have fixed (fuel : Nat) {rest : Bytes} (none : dropForm? (blankForms.map List.reverse) rest = none) :
      dropForms (blankForms.map List.reverse) fuel rest = rest := by
    cases fuel <;> simp [dropForms, none]
  unfold trimEnd
  rw [List.reverse_reverse, fixed _ stop]

theorem trim_subset (bs : Bytes) : trim bs ⊆ bs := by
  have atEnd : trimEnd (trimStart bs) ⊆ trimStart bs := by
    intro b member
    rw [trimEnd, List.mem_reverse] at member
    simpa using (dropForms_suffix _ _ _).subset member
  exact fun b member => (dropForms_suffix _ _ bs).subset (atEnd member)

end Rv32Asm.Text
