import Rv32Asm.Proofs.Grammar
import Rv32Asm.Proofs.Scanning

/-!
Which record a label stands for.

The labels of the records read so far and the labels that wait are together the definitions of the
lines read so far, in order. Labels that wait are younger than every record, so that the record that
takes them is the first that is not before them.
-/

set_option autoImplicit false
set_option relaxedAutoImplicit false

namespace Rv32Asm

open Rv32Asm.Text
open Rv32Asm.Outcome
open Rv32Asm.Operands

/-- The names at the start of a line that have a colon behind them, and the tokens after these
pairs. -/
def Token.splitNames : List Token → List Token × List Token
  | t :: colon :: ts =>
    if t.kind = .ident ∧ colon.kind = .colon then (t :: (splitNames ts).1, (splitNames ts).2)
    else ([], t :: colon :: ts)
  | ts => ([], ts)

def Label.line (label : Label) : Nat := label.span.start.line

namespace Parse

def tokensOn (numbered : Bytes × Nat) : List Token × List Token :=
  match Token.scan numbered.2 numbered.1 with
  | .ok ts => Token.splitNames ts
  | .error _ => ([], [])

def labelsOn (numbered : Bytes × Nat) : List Label :=
  (tokensOn numbered).1.map fun t => ⟨t.text, t.span numbered.2⟩

def TakesBytes (cfg : Config) (numbered : Bytes × Nat) : Prop :=
  ∃ stmt, StatementForm cfg [] (tokensOn numbered).2 (some stmt)

def ChangesSection (numbered : Bytes × Nat) : Prop :=
  ∃ head ∈ (tokensOn numbered).2.head?, head.lowered ∈ [".text", ".data", ".section"]

/-- A change of section or the end of the text comes before any instruction or data directive. -/
inductive Abandons (cfg : Config) : List (Bytes × Nat) → Prop
  | ends : Abandons cfg []
  | change {next : Bytes × Nat} {rest : List (Bytes × Nat)} :
      ChangesSection next → Abandons cfg (next :: rest)
  | skip {next : Bytes × Nat} {rest : List (Bytes × Nat)} :
      ¬ TakesBytes cfg next → Abandons cfg rest → Abandons cfg (next :: rest)

variable {cfg : Config} {n : Nat} {ts : List Token}

theorem Labelled.splitNames {labels : List Label} {front rest : List Token}
    (labelled : Labelled n labels front) (last : nextIs .colon (rest.drop 1) = false) :
    ∃ names, Token.splitNames (front ++ rest) = (names, rest) ∧
      labels = names.map fun t => ⟨t.text, t.span n⟩ := by
  induction labelled with
  | nil =>
    refine ⟨[], ?_, rfl⟩
    rcases rest with _ | ⟨t, _ | ⟨colon, rest⟩⟩
    · rfl
    · rfl
    · have other : colon.kind ≠ .colon := by
        intro mark
        simp [nextIs, mark] at last
      simp [Token.splitNames, other]
  | @cons t colon labels front name mark _ ih =>
    obtain ⟨names, split, rfl⟩ := ih
    refine ⟨t :: names, ?_, rfl⟩
    simp [Token.splitNames, name, mark, split]

variable {s s' : State} {numbered : Bytes × Nat}

theorem bodyForm_of_line (read : line cfg s numbered = .ok s') :
    BodyForm cfg numbered.2 ((labelsOn numbered).reverse ++ s.waiting) s.records
      (tokensOn numbered).2 s' := by
  obtain ⟨_, labels, body, scanned, leading, form⟩ := line_eq_ok_iff_bodyForm.mp read
  obtain ⟨front, rfl, labelled, last⟩ := leadingLabels_eq_ok_iff.mp leading
  obtain ⟨names, split, rfl⟩ := labelled.splitNames last
  have tokens : tokensOn numbered = (names, body) := by simp only [tokensOn, scanned, split]
  rw [labelsOn, tokens]
  exact form

theorem DirectiveForm.of_some {waiting : List Label} {name : String} {d : Directive}
    (form : DirectiveForm waiting name ts (some d)) (others : List Label) :
    DirectiveForm others name ts (some d) := by
  cases form with
  | items known some_item listed => exact .items known some_item listed
  | text known quotes => exact .text known quotes
  | fill known count => exact .fill known count

theorem StatementForm.of_some {waiting : List Label} {stmt : Statement}
    (form : StatementForm cfg waiting ts (some stmt)) (others : List Label) :
    StatementForm cfg others ts (some stmt) := by
  generalize result : some stmt = r at form ⊢
  cases form with
  | inst kind form => exact .inst kind form
  | directive kind form =>
    obtain ⟨d, rfl, _⟩ := Option.map_eq_some_iff.mp result.symm
    exact .directive kind (form.of_some others)

theorem DirectiveForm.idle {waiting : List Label} {name : String} {d : Option Directive}
    (form : DirectiveForm waiting name ts d) (change : name ∈ [".text", ".data", ".section"]) :
    waiting = [] := by
  cases form with
  | sectionChange idle | segment _ idle => exact idle
  | items known =>
    have others : ∀ e ∈ itemSizes, e.1 ∉ [".text", ".data", ".section"] := by decide
    exact absurd change (others _ known)
  | global known | text known | fill known =>
    exfalso
    revert name
    decide

theorem StatementForm.idle {waiting : List Label} {stmt : Option Statement} {head : Token}
    (form : StatementForm cfg waiting (head :: ts) stmt)
    (change : head.lowered ∈ [".text", ".data", ".section"]) : waiting = [] := by
  cases form with
  | inst kind form =>
    have dots : ∀ word ∈ [".text", ".data", ".section"], word.toList.head? = some '.' := by decide
    exact absurd (dots _ change) form.not_dotted
  | directive kind form => exact form.idle change

/-- A line makes its labels wait, or gives all labels that wait to a record. -/
theorem line_step (read : line cfg s numbered = .ok s') :
    s' = ⟨(labelsOn numbered).reverse ++ s.waiting, s.records⟩ ∨
      ∃ span stmt, TakesBytes cfg numbered ∧
        s' = ⟨[], ⟨((labelsOn numbered).reverse ++ s.waiting).reverse, numbered.2, span, stmt⟩
          :: s.records⟩ := by
  have form := bodyForm_of_line read
  generalize body : (tokensOn numbered).2 = left at form
  cases form with
  | blank | setting => exact .inl rfl
  | @record head rest stmt form =>
    right
    refine ⟨_, stmt, ⟨stmt, ?_⟩, rfl⟩
    rw [body]
    exact form.of_some []

theorem line_change (read : line cfg s numbered = .ok s') (change : ChangesSection numbered) :
    labelsOn numbered = [] ∧ s.waiting = [] := by
  have form := bodyForm_of_line read
  obtain ⟨head, first, change⟩ := change
  obtain ⟨rest, body⟩ := List.head?_eq_some_iff.mp first
  have idle {stmt : Option Statement} (form : StatementForm cfg
      ((labelsOn numbered).reverse ++ s.waiting) (head :: rest) stmt) :
      labelsOn numbered = [] ∧ s.waiting = [] := by
    simpa using form.idle change
  rw [body] at form
  cases form with
  | setting form | record form => exact idle form

/-- Labels that no statement comes for are left. -/
theorem Abandons.waiting_ne_nil {ns : List (Bytes × Nat)} (abandons : Abandons cfg ns)
    (run : ns.foldlM (line cfg) s = .ok s')
    (some_label : s.waiting ≠ [] ∨ ∃ next ∈ ns.head?, labelsOn next ≠ []) : s'.waiting ≠ [] := by
  induction abandons generalizing s with
  | ends =>
    obtain rfl : s = s' := pure_eq_ok_iff.mp run
    rcases some_label with waits | ⟨next, none, _⟩
    · exact waits
    · simp at none
  | @change next rest change =>
    rw [List.foldlM_cons, bind_eq_ok_iff] at run
    obtain ⟨s₁, read, _⟩ := run
    obtain ⟨none, idle⟩ := line_change read change
    rcases some_label with waits | ⟨_, ⟨⟩, defines⟩
    · exact absurd idle waits
    · exact absurd none defines
  | @skip next rest silent _ ih =>
    rw [List.foldlM_cons, bind_eq_ok_iff] at run
    obtain ⟨s₁, read, later⟩ := run
    apply ih later
    left
    rcases line_step read with rfl | ⟨_, _, takes, _⟩
    · rcases some_label with waits | ⟨_, ⟨⟩, defines⟩
      · simp [waits]
      · simp [defines]
    · exact absurd takes silent

/-- The labels of the records in order, and after them those that wait. -/
def State.labels (s : State) : List Label :=
  s.records.reverse.flatMap Record.labels ++ s.waiting.reverse

theorem labels_of_line (read : line cfg s numbered = .ok s') :
    s'.labels = s.labels ++ labelsOn numbered := by
  rcases line_step read with rfl | ⟨_, _, _, rfl⟩ <;> simp [State.labels]

theorem labels_of_lines {ns : List (Bytes × Nat)} (run : ns.foldlM (line cfg) s = .ok s') :
    s'.labels = s.labels ++ ns.flatMap labelsOn := by
  induction ns generalizing s with
  | nil =>
    obtain rfl : s = s' := pure_eq_ok_iff.mp run
    simp
  | cons next ns ih =>
    rw [List.foldlM_cons, bind_eq_ok_iff] at run
    obtain ⟨s₁, read, later⟩ := run
    rw [ih later, labels_of_line read, List.flatMap_cons, List.append_assoc]

theorem labels_of_parse {source : Bytes} {rs : List Record} (parsed : parse cfg source = .ok rs) :
    rs.flatMap Record.labels = (lines source).zipIdx.flatMap labelsOn := by
  obtain ⟨s, run, idle, rfl⟩ := parse_eq_ok_iff.mp parsed
  have labels := labels_of_lines run
  rw [State.labels, noneWaiting_eq_ok_iff.mp idle] at labels
  simpa [State.labels] using labels

theorem line_of_labelsOn {label : Label} (defined : label ∈ labelsOn numbered) :
    label.line = numbered.2 := by
  obtain ⟨t, _, rfl⟩ := List.mem_map.mp defined
  rfl

/-- Before line `n`: records and labels are older, labels that wait are younger than all records, and
each record is the first that is not before its labels. -/
structure State.Owned (n : Nat) (s : State) : Prop where
  record_lt : ∀ r ∈ s.records, r.line < n
  waiting_lt : ∀ label ∈ s.waiting, label.line < n
  younger : ∀ label ∈ s.waiting, ∀ r ∈ s.records, r.line < label.line
  owner : ∀ r ∈ s.records, ∀ label ∈ r.labels,
    s.records.reverse.find? (fun q => label.line ≤ q.line) = some r

theorem State.Owned.wait {bs : Bytes} (owned : s.Owned n) :
    State.Owned (n + 1) ⟨(labelsOn (bs, n)).reverse ++ s.waiting, s.records⟩ := by
  have own {label : Label} (member : label ∈ (labelsOn (bs, n)).reverse) : label.line = n :=
    line_of_labelsOn (List.mem_reverse.mp member)
  refine ⟨?_, ?_, ?_, owned.owner⟩
  · intro r member
    have before := owned.record_lt r member
    omega
  · intro label member
    rcases List.mem_append.mp member with member | member
    · have here := own member
      omega
    · have before := owned.waiting_lt label member
      omega
  · intro label member r known
    rcases List.mem_append.mp member with member | member
    · rw [own member]
      exact owned.record_lt r known
    · exact owned.younger label member r known

theorem State.Owned.emit {span : Span} {stmt : Statement} (owned : s.Owned (n + 1)) :
    State.Owned (n + 1) ⟨[], ⟨s.waiting.reverse, n, span, stmt⟩ :: s.records⟩ := by
  refine ⟨?_, by simp, by simp, ?_⟩
  · rw [List.forall_mem_cons]
    exact ⟨Nat.lt_succ_self n, owned.record_lt⟩
  · intro r member label defined
    rw [List.reverse_cons, List.find?_append]
    rcases List.mem_cons.mp member with rfl | member
    · -- All older records are before the line of a label that waits.
      have waits : label ∈ s.waiting := List.mem_reverse.mp defined
      have none : s.records.reverse.find? (fun q => decide (label.line ≤ q.line)) = none := by
        rw [List.find?_eq_none]
        intro q known
        have older := owned.younger label waits q (List.mem_reverse.mp known)
        simpa using older
      have here := owned.waiting_lt label waits
      rw [none, Option.none_or]
      simp only [List.find?_singleton, decide_eq_true_eq, ite_eq_left_iff]
      omega
    · rw [owned.owner r member label defined, Option.some_or]

theorem State.Owned.line {bs : Bytes} (owned : s.Owned n)
    (read : Parse.line cfg s (bs, n) = .ok s') : s'.Owned (n + 1) := by
  rcases line_step read with rfl | ⟨span, stmt, _, rfl⟩
  · exact owned.wait
  · exact owned.wait.emit

theorem State.Owned.lines {ls : List Bytes} (owned : s.Owned n)
    (run : (ls.zipIdx n).foldlM (Parse.line cfg) s = .ok s') : s'.Owned (n + ls.length) :=
  foldlM_zipIdx_preserves (fun _ _ _ _ => State.Owned.line) ls owned run

theorem splitNames_subset (ts : List Token) : (Token.splitNames ts).1 ⊆ ts := by
  induction ts using Token.splitNames.induct with
  | case1 t colon ts pair ih =>
    rw [Token.splitNames, if_pos pair, List.cons_subset]
    refine ⟨List.mem_cons_self, ?_⟩
    exact List.subset_cons_of_subset _ (List.subset_cons_of_subset _ ih)
  | case2 t colon ts other =>
    rw [Token.splitNames, if_neg other]
    exact List.nil_subset _
  | case3 ts short =>
    rcases ts with _ | ⟨t, _ | ⟨colon, ts⟩⟩
    · exact List.nil_subset _
    · exact List.nil_subset _
    · exact absurd rfl (short t colon ts)

theorem place_of_labelsOn {bs : Bytes} {label : Label} (defined : label ∈ labelsOn (bs, n)) :
    ∃ before after, bs = before ++ label.name ++ after ∧
      label.span = .onLine n before.length (before.length + label.name.length) := by
  obtain ⟨t, member, rfl⟩ := List.mem_map.mp defined
  simp only [tokensOn] at member
  split at member
  · rename_i ts scanned
    have scans := Token.scans_of_scanFrom scanned
    have columns := scans.columns t (splitNames_subset ts member)
    have text := scans.text_at t (splitNames_subset ts member)
    rw [Nat.sub_zero] at text
    have start : (bs.take t.start).length = t.start := by
      rw [List.length_take]
      omega
    have stop : t.start + t.text.length = t.stop := by
      rw [← text, List.length_take, List.length_drop]
      omega
    refine ⟨bs.take t.start, (bs.drop t.start).drop (t.stop - t.start), ?_, ?_⟩
    · rw [← text, List.append_assoc, List.take_append_drop, List.take_append_drop]
    · rw [start, stop]
      rfl
  · simp at member

end Parse

open Rv32Asm.Parse

/-- No label of a source is lost, defined anew or moved. -/
structure LabelsKept (cfg : Config) (source : Bytes) : Prop where
  kept : ∀ rs, parse cfg source = .ok rs →
    rs.flatMap Record.labels = (lines source).zipIdx.flatMap labelsOn
  /-- A label stands for the first record that is not before its line. -/
  owner : ∀ rs, parse cfg source = .ok rs → ∀ r ∈ rs, ∀ label ∈ r.labels,
    rs.find? (fun q => label.line ≤ q.line) = some r
  place : ∀ bs n, (lines source)[n]? = some bs → ∀ label ∈ labelsOn (bs, n),
    ∃ before after, bs = before ++ label.name ++ after ∧
      label.span = .onLine n before.length (before.length + label.name.length)
  /-- A source with a label that no statement comes for cannot be read. -/
  abandoned : ∀ before next after, (lines source).zipIdx = before ++ next :: after →
    labelsOn next ≠ [] → Abandons cfg (next :: after) → ∀ rs, parse cfg source ≠ .ok rs

theorem parse_keeps_labels (cfg : Config) (source : Bytes) : LabelsKept cfg source where
  kept _ parsed := labels_of_parse parsed
  owner rs parsed r member label defined := by
    obtain ⟨s, run, _, rfl⟩ := parse_eq_ok_iff.mp parsed
    have start : State.Owned 0 ⟨[], []⟩ := ⟨by simp, by simp, by simp, by simp⟩
    exact (start.lines run).owner r (List.mem_reverse.mp member) label defined
  place _ _ _ _ defined := place_of_labelsOn defined
  abandoned before next after split defines abandons rs parsed := by
    obtain ⟨s, run, idle, rfl⟩ := parse_eq_ok_iff.mp parsed
    rw [split, List.foldlM_append, bind_eq_ok_iff] at run
    obtain ⟨s₁, _, later⟩ := run
    have waits := abandons.waiting_ne_nil later (.inr ⟨next, rfl, defines⟩)
    exact waits (noneWaiting_eq_ok_iff.mp idle)

def spreadSource : Bytes :=
  utf8 "a: b:\n  # none yet\nc:\n.globl a\n d: nop\nlast: .word a"

theorem labelsKept_spreadSource :
    ∃ rs, parse .standard spreadSource = .ok rs ∧ rs.map Record.line = [4, 5] ∧
      rs.flatMap Record.labels =
        [⟨utf8 "a", .onLine 0 0 1⟩, ⟨utf8 "b", .onLine 0 3 4⟩, ⟨utf8 "c", .onLine 2 0 1⟩,
          ⟨utf8 "d", .onLine 4 1 2⟩, ⟨utf8 "last", .onLine 5 0 4⟩] := by
  have run : (parse .standard spreadSource).map (List.map Record.line) = .ok [4, 5] := by
    decide +kernel
  obtain ⟨rs, parsed, recordLines⟩ := map_eq_ok_iff.mp run
  refine ⟨rs, parsed, recordLines, ?_⟩
  rw [(parse_keeps_labels .standard spreadSource).kept rs parsed]
  decide +kernel

end Rv32Asm
