import Rv32Asm.Proofs.FaultSpans
import Rv32Asm.Proofs.Grammar

/-!
Reading one text after another.

Nothing but the labels that wait passes from one line to the next. A text that can be read leaves
none, so what follows it is read as if it stood alone, with its lines moved down. A text that stops
at one of its lines stops there whatever follows.
-/

set_option autoImplicit false
set_option relaxedAutoImplicit false

namespace Rv32Asm

open Rv32Asm.Text
open Rv32Asm.Outcome

def Move.down (n : Nat) : Move := ⟨(· + n), id⟩

theorem Fault.Local.move {S : Span → Prop} {f : Fault} (here : f.Local S) (m : Move) :
    f.move m = ⟨f.cause, f.span.move m⟩ := by
  obtain ⟨cause, span⟩ := f
  cases cause with
  | duplicateLabel label n => exact absurd rfl (here.cause label n)
  | _ => rfl

theorem Token.scanFrom_down (n k : Nat) (bs : Bytes) :
    ∀ col, scanFrom (k + n) col bs =
      both (Fault.move (.down n)) (List.map (Token.move (.down n))) (scanFrom k col bs) := by
  induction bs using scan_induction with
  | done =>
    intro col
    rw [scanFrom_nil, scanFrom_nil]
    rfl
  | blank rest isBlank ih =>
    intro col
    rw [scanFrom_blank _ col isBlank, scanFrom_blank _ col isBlank]
    exact ih (col + 1)
  | comment starts =>
    intro col
    rw [scanFrom_comment _ col starts, scanFrom_comment _ col starts]
    rfl
  | token rest lexeme ends ih =>
    intro col
    rw [scanFrom_lexeme _ col lexeme ends, scanFrom_lexeme _ col lexeme ends]
    exact both_bind (ih _) fun ts => rfl
  | unclosed isOpen =>
    intro col
    rw [scanFrom_unclosed _ col isOpen, scanFrom_unclosed _ col isOpen]
    rfl
  | stray isStray =>
    intro col
    rw [scanFrom_stray _ col isStray, scanFrom_stray _ col isStray]
    rfl

namespace Parse

variable (cfg : Config)

theorem line_down (n k : Nat) (s : State) (bs : Bytes) :
    line cfg (s.move (.down n)) (bs, k + n) =
      both (Fault.move (.down n)) (State.move (.down n)) (line cfg s (bs, k)) := by
  rw [line_eq, line_eq]
  exact both_bind (Token.scanFrom_down n k bs 0) fun ts => tokens_move (.down n) cfg k ts s

def State.after (old : List Record) (s : State) : State :=
  ⟨s.waiting, s.records ++ old⟩

/-- Reading a line does not look at the records before it. -/
theorem line_after (old : List Record) (s : State) (numbered : Bytes × Nat) :
    line cfg (s.after old) numbered = both id (State.after old) (line cfg s numbered) := by
  obtain ⟨bs, n⟩ := numbered
  simp only [line, State.after]
  cases Token.scan n bs with
  | error f => rfl
  | ok ts =>
    simp only [ok_bind]
    cases leadingLabels n ts with
    | error f => rfl
    | ok r =>
      obtain ⟨labels, rest⟩ := r
      simp only [ok_bind]
      cases rest with
      | nil => rfl
      | cons head rest =>
        simp only
        cases statement cfg (labels.reverse ++ s.waiting) n _ head rest with
        | error f => rfl
        | ok stmt => cases stmt <;> rfl

theorem lines_down_after (n : Nat) (old : List Record) (ls : List Bytes) (s : State) :
    (ls.zipIdx n).foldlM (line cfg) ((s.move (.down n)).after old) =
      both (Fault.move (.down n)) (fun s => (s.move (.down n)).after old)
        (ls.zipIdx.foldlM (line cfg) s) := by
  have each (s : State) (numbered : Bytes × Nat) :
      line cfg ((s.move (.down n)).after old) (numbered.1, numbered.2 + n) =
        both (Fault.move (.down n)) (fun s => (s.move (.down n)).after old)
          (line cfg s numbered) := by
    rw [line_after, line_down]
    cases line cfg s numbered <;> rfl
  have lower : ls.zipIdx n = ls.zipIdx.map fun numbered => (numbered.1, numbered.2 + n) := by
    rw [List.zipIdx_eq_map_add]
    simp only [Nat.add_comm]
  rw [lower]
  exact both_foldlM each ls.zipIdx s

/-- Reading stops at one of the numbered lines with a fault. -/
def StopsWith (numbered : List (Bytes × Nat)) (f : Fault) : Prop :=
  ∃ before next after s, numbered = before ++ next :: after ∧
    before.foldlM (line cfg) ⟨[], []⟩ = .ok s ∧ line cfg s next = .error f

end Parse

theorem parse_eq (cfg : Config) (source : Bytes) :
    parse cfg source = ((lines source).zipIdx.foldlM (Parse.line cfg) ⟨[], []⟩ >>= fun s =>
      Parse.noneWaiting s.waiting >>= fun _ => pure s.records.reverse) := rfl

variable {cfg : Config}

/-- After a text that can be read, the next one is read as if it stood alone. -/
theorem parse_append {a : Bytes} {ra : List Record} (parsed : parse cfg a = .ok ra) (b : Bytes) :
    parse cfg (a ++ newline :: b) =
      both (Fault.move (.down (lines a).length))
        (fun rb => ra ++ rb.map (Record.move (.down (lines a).length))) (parse cfg b) := by
  obtain ⟨⟨waiting, records⟩, run, idle, rfl⟩ := parse_eq_ok_iff.mp parsed
  obtain rfl : waiting = [] := Parse.noneWaiting_eq_ok_iff.mp idle
  have later := Parse.lines_down_after cfg (lines a).length records (lines b) ⟨[], []⟩
  rw [parse_eq, lines_append, List.zipIdx_append, List.foldlM_append, run, ok_bind, Nat.zero_add,
    parse_eq]
  refine both_bind later fun s => ?_
  refine both_bind (Parse.noneWaiting_move (.down _) s.waiting) fun _ => ?_
  simp [Parse.State.after, Parse.State.move]

theorem parse_append_of_stopsWith {a : Bytes} {f : Fault}
    (stops : Parse.StopsWith cfg (lines a).zipIdx f) (b : Bytes) :
    parse cfg (a ++ newline :: b) = .error f := by
  have failed : (lines a).zipIdx.foldlM (Parse.line cfg) ⟨[], []⟩ = .error f :=
    foldlM_eq_error_iff.mpr stops
  rw [parse_eq, lines_append, List.zipIdx_append, List.foldlM_append, failed]
  rfl

/-- A text can be put before another one if it can be read, and stops all others if it stops at one
of its lines. -/
structure Composes (cfg : Config) (a : Bytes) : Prop where
  continues : ∀ ra, parse cfg a = .ok ra → ∀ b, parse cfg (a ++ newline :: b) =
    both (fun f => ⟨f.cause, f.span.move (.down (lines a).length)⟩)
      (fun rb => ra ++ rb.map (Record.move (.down (lines a).length))) (parse cfg b)
  stops : ∀ f, Parse.StopsWith cfg (lines a).zipIdx f →
    parse cfg a = .error f ∧ ∀ b, parse cfg (a ++ newline :: b) = .error f
  /-- The one other way to fail is that labels wait at the end. -/
  fails : ∀ f, parse cfg a = .error f → Parse.StopsWith cfg (lines a).zipIdx f ∨
    ∃ s, (lines a).zipIdx.foldlM (Parse.line cfg) ⟨[], []⟩ = .ok s ∧
      Parse.noneWaiting s.waiting = .error f

theorem parse_composes (cfg : Config) (a : Bytes) : Composes cfg a where
  continues ra parsed b := by
    rw [parse_append parsed b]
    have faults := parse_settles cfg b
    cases result : parse cfg b with
    | ok rb => rfl
    | error f => rw [both_error, both_error, (faults.of_error result).move]
  stops f stopped := by
    refine ⟨?_, parse_append_of_stopsWith stopped⟩
    rw [parse_eq, foldlM_eq_error_iff.mpr stopped]
    rfl
  fails f failed := by
    rw [parse_eq, bind_eq_error_iff] at failed
    rcases failed with stopped | ⟨s, run, failed⟩
    · exact .inl (foldlM_eq_error_iff.mp stopped)
    · rw [bind_eq_error_iff] at failed
      rcases failed with waits | ⟨_, _, never⟩
      · exact .inr ⟨s, run, waits⟩
      · exact absurd never pure_ne_error

theorem composes_waitingLabel :
    parse .standard (utf8 "loop: j loop" ++ newline :: utf8 "  end: # nothing") =
      .error ⟨.danglingLabel (utf8 "end"), .onLine 1 2 5⟩ := by
  have read : (parse .standard (utf8 "loop: j loop")).isOk = true := by decide +kernel
  have fault : parse .standard (utf8 "  end: # nothing") =
      .error ⟨.danglingLabel (utf8 "end"), .onLine 0 2 5⟩ := by decide +kernel
  obtain ⟨ra, parsed⟩ := exists_eq_ok_of_isOk read
  rw [(parse_composes .standard _).continues ra parsed, fault]
  rfl

end Rv32Asm
