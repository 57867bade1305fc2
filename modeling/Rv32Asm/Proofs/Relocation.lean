import Rv32Asm.Proofs.Outcome
import Rv32Asm.Statement.Parse

/-!
Reading does not look at positions.

Tokens, records and faults carry positions along. If all positions that go in are moved, the ones
that come out are moved in the same way, and nothing else changes.
-/

set_option autoImplicit false
set_option relaxedAutoImplicit false

namespace Rv32Asm

open Rv32Asm.Text
open Rv32Asm.Outcome

structure Move where
  line : Nat → Nat
  column : Nat → Nat

def Position.move (m : Move) (p : Position) : Position :=
  ⟨m.line p.line, m.column p.char⟩

def Span.move (m : Move) (s : Span) : Span :=
  ⟨s.start.move m, s.stop.move m⟩

def Token.move (m : Move) (t : Token) : Token :=
  { t with start := m.column t.start, stop := m.column t.stop }

def Label.move (m : Move) (label : Label) : Label :=
  { label with span := label.span.move m }

def Record.move (m : Move) (r : Record) : Record :=
  { r with labels := r.labels.map (Label.move m), line := m.line r.line, span := r.span.move m }

/-- The one cause that names a line is that a label is defined twice. -/
def Cause.move (m : Move) : Cause → Cause
  | duplicateLabel label firstLine => .duplicateLabel label (m.line firstLine)
  | cause => cause

def Fault.move (m : Move) (fault : Fault) : Fault :=
  ⟨fault.cause.move m, fault.span.move m⟩

def Operands.Context.move (m : Move) (c : Context) : Context :=
  { c with line := m.line c.line, span := c.span.move m }

@[simp] theorem Token.kind_move (m : Move) (t : Token) : (t.move m).kind = t.kind := rfl

@[simp] theorem Token.text_move (m : Move) (t : Token) : (t.move m).text = t.text := rfl

@[simp] theorem Token.span_move (m : Move) (t : Token) (n : Nat) :
    (t.move m).span (m.line n) = (t.span n).move m := rfl

variable (m : Move)

theorem Number.ofToken_move (n : Nat) (t : Token) :
    ofToken (m.line n) (t.move m) = both (Fault.move m) id (ofToken n t) := by
  simp only [ofToken, Token.text_move, Token.span_move]
  split <;> rfl

theorem Bounds.check_move (b : Bounds) (v : Int) (shown : Bytes) (span : Span) :
    b.check v shown (span.move m) = both (Fault.move m) id (b.check v shown span) := by
  simp only [check]
  split
  · rfl
  · split <;> rfl

namespace Operands

def moveRest {α : Type} (m : Move) (r : α × List Token) : α × List Token :=
  (r.1, r.2.map (Token.move m))

theorem next_move (c : Context) (ts : List Token) :
    next (c.move m) (ts.map (Token.move m)) =
      both (Fault.move m) (Prod.map (Token.move m) (List.map (Token.move m))) (next c ts) := by
  cases ts <;> rfl

theorem skipComma_move (ts : List Token) :
    skipComma (ts.map (Token.move m)) = (skipComma ts).map (Token.move m) := by
  cases ts with
  | nil => rfl
  | cons t ts =>
    by_cases comma : t.kind = .comma <;> simp [skipComma, comma]

theorem finish_move (c : Context) (ts : List Token) :
    finish (c.move m) (ts.map (Token.move m)) = both (Fault.move m) id (finish c ts) := by
  cases ts <;> rfl

theorem remaining_move (ts : List Token) : remaining (ts.map (Token.move m)) = remaining ts := by
  simp only [remaining, List.countP_map]
  rfl

theorem nextIs_move (kind : TokenKind) (ts : List Token) :
    nextIs kind (ts.map (Token.move m)) = nextIs kind ts := by
  cases ts <;> rfl

theorem atMemory_move (ts : List Token) : atMemory (ts.map (Token.move m)) = atMemory ts := by
  rw [atMemory, skipComma_move, nextIs_move, ← List.map_drop, nextIs_move]
  rfl

theorem register_move (c : Context) (ts : List Token) :
    register (c.move m) (ts.map (Token.move m)) =
      both (Fault.move m) (moveRest m) (register c ts) := by
  cases ts with
  | nil => rfl
  | cons t rest =>
    simp only [register, next, List.map_cons, ok_bind]
    rw [Token.kind_move, Token.text_move]
    split
    · split <;> rfl
    · rfl

theorem registerPair_move (c : Context) (ts : List Token) :
    registerPair (c.move m) (ts.map (Token.move m)) =
      both (Fault.move m) (Prod.map id (moveRest m)) (registerPair c ts) := by
  refine both_bind (register_move m c ts) ?_
  rintro ⟨a, rest⟩
  simp only [moveRest, skipComma_move]
  exact both_bind (register_move m c (skipComma rest)) fun _ => rfl

theorem operand_move (c : Context) (bounds : Bounds) (t : Token) :
    operand (c.move m) bounds (t.move m) = both (Fault.move m) id (operand c bounds t) := by
  simp only [operand, Token.kind_move]
  split
  · refine both_bind (Number.ofToken_move m c.line t) fun v => ?_
    exact both_bind (Bounds.check_move m bounds v t.text (t.span c.line)) fun _ => rfl
  · rfl
  · rfl

theorem immediate_move (c : Context) (bounds : Bounds) (ts : List Token) :
    immediate (c.move m) bounds (ts.map (Token.move m)) =
      both (Fault.move m) (moveRest m) (immediate c bounds ts) := by
  refine both_bind (next_move m c ts) ?_
  rintro ⟨t, rest⟩
  exact both_bind (operand_move m c bounds t) fun _ => rfl

theorem exactly_move (c : Context) (kind : TokenKind) (expected : String) (ts : List Token) :
    exactly (c.move m) kind expected (ts.map (Token.move m)) =
      both (Fault.move m) (List.map (Token.move m)) (exactly c kind expected ts) := by
  cases ts with
  | nil => rfl
  | cons t rest =>
    simp only [exactly, next, List.map_cons, ok_bind]
    rw [Token.kind_move]
    split <;> rfl

theorem memoryOffset_move (c : Context) (ts : List Token) :
    memoryOffset (c.move m) (ts.map (Token.move m)) =
      both (Fault.move m) (moveRest m) (memoryOffset c ts) := by
  simp only [memoryOffset, List.isEmpty_map, nextIs_move]
  split
  · rfl
  · exact immediate_move m c .twelveBit ts

theorem memory_move (c : Context) (ts : List Token) :
    memory (c.move m) (ts.map (Token.move m)) =
      both (Fault.move m) (Prod.map id (moveRest m)) (memory c ts) := by
  refine both_bind (memoryOffset_move m c ts) ?_
  rintro ⟨imm, rest⟩
  refine both_bind (exactly_move m c .openParen "\"(\"" rest) fun rest => ?_
  refine both_bind (register_move m c rest) ?_
  rintro ⟨r, rest⟩
  exact both_bind (exactly_move m c .closeParen "\")\"" rest) fun _ => rfl

theorem moreOperands_move (c : Context) (bounds : Bounds) (ts : List Token) :
    moreOperands (c.move m) bounds (ts.map (Token.move m)) =
      both (Fault.move m) id (moreOperands c bounds ts) := by
  fun_induction moreOperands c bounds ts with
  | case1 => rfl
  | case2 t comma =>
    rw [List.map_cons, List.map_nil, moreOperands, Token.kind_move, if_pos comma]
    rfl
  | case3 t comma =>
    rw [List.map_cons, List.map_nil, moreOperands, Token.kind_move, if_neg comma]
    exact both_bind (operand_move m c bounds t) fun _ => rfl
  | case4 t u ts comma ih =>
    rw [List.map_cons, List.map_cons, moreOperands, Token.kind_move, if_pos comma]
    exact both_bind (operand_move m c bounds u) fun v => both_bind ih fun _ => rfl
  | case5 t u ts comma ih =>
    rw [List.map_cons, List.map_cons, moreOperands, Token.kind_move, if_neg comma]
    exact both_bind (operand_move m c bounds t) fun v => both_bind ih fun _ => rfl

theorem operands_move (c : Context) (bounds : Bounds) (ts : List Token) :
    operands (c.move m) bounds (ts.map (Token.move m)) =
      both (Fault.move m) id (operands c bounds ts) := by
  cases ts with
  | nil => rfl
  | cons t ts =>
    refine both_bind (operand_move m c bounds t) fun v => ?_
    exact both_bind (moreOperands_move m c bounds ts) fun _ => rfl

end Operands

theorem Pseudo.expand_move (p : Pseudo) (c : Operands.Context) (ts : List Token) :
    p.expand (c.move m) (ts.map (Token.move m)) =
      both (Fault.move m) (Operands.moveRest m) (p.expand c ts) := by
  cases p with
  | nop | ret => rfl
  | mv | not | neg => exact both_bind (Operands.registerPair_move m c ts) fun _ => rfl
  | j => exact both_bind (Operands.immediate_move m c .jumpLiteral ts) fun _ => rfl

namespace Parse

open Rv32Asm.Operands

theorem formatOperands_move (op : Opcode) (c : Context) (ts : List Token) :
    formatOperands op (c.move m) (ts.map (Token.move m)) =
      both (Fault.move m) (moveRest m) (formatOperands op c ts) := by
  cases format : op.format with
  | registerRegister =>
    simp only [formatOperands, format]
    refine both_bind (register_move m c ts) ?_
    rintro ⟨rd, rest⟩
    simp only [moveRest, skipComma_move]
    exact both_bind (registerPair_move m c (skipComma rest)) fun _ => rfl
  | registerImmediate | branch =>
    simp only [formatOperands, format]
    refine both_bind (registerPair_move m c ts) ?_
    rintro ⟨a, b, rest⟩
    simp only [Prod.map_apply, moveRest, skipComma_move]
    exact both_bind (immediate_move m c _ (skipComma rest)) fun _ => rfl
  | load | store =>
    simp only [formatOperands, format]
    refine both_bind (register_move m c ts) ?_
    rintro ⟨r, rest⟩
    simp only [moveRest, skipComma_move]
    exact both_bind (memory_move m c (skipComma rest)) fun _ => rfl
  | jump =>
    simp only [formatOperands, format, remaining_move]
    split
    · exact both_bind (immediate_move m c _ ts) fun _ => rfl
    · refine both_bind (register_move m c ts) ?_
      rintro ⟨rd, rest⟩
      simp only [moveRest, skipComma_move]
      exact both_bind (immediate_move m c _ (skipComma rest)) fun _ => rfl
  | jumpRegister =>
    simp only [formatOperands, format]
    refine both_bind (register_move m c ts) ?_
    rintro ⟨r, rest⟩
    simp only [moveRest, skipComma_move, List.isEmpty_map, atMemory_move]
    split
    · rfl
    · split
      · exact both_bind (memory_move m c (skipComma rest)) fun _ => rfl
      · refine both_bind (register_move m c (skipComma rest)) ?_
        rintro ⟨rs1, rest⟩
        simp only [moveRest, skipComma_move, List.isEmpty_map]
        split
        · rfl
        · exact both_bind (immediate_move m c _ (skipComma rest)) fun _ => rfl
  | upperImmediate =>
    simp only [formatOperands, format]
    refine both_bind (register_move m c ts) ?_
    rintro ⟨rd, rest⟩
    simp only [moveRest, skipComma_move]
    exact both_bind (immediate_move m c _ (skipComma rest)) fun _ => rfl

variable (cfg : Config) (waiting : List Label) (n : Nat) (span : Span) (head : Token)
  (ts : List Token)

theorem instruction_move :
    instruction cfg (m.line n) (span.move m) (head.move m) (ts.map (Token.move m)) =
      both (Fault.move m) id (instruction cfg n span head ts) := by
  simp only [instruction, Token.text_move]
  split
  · rename_i p known
    refine both_bind (Pseudo.expand_move m p ⟨n, span, _, p.usage⟩ ts) ?_
    rintro ⟨inst, rest⟩
    exact both_bind (finish_move m ⟨n, span, _, p.usage⟩ rest) fun _ => rfl
  · split
    · rfl
    · rename_i op known
      refine both_bind (formatOperands_move m op ⟨n, span, _, op.format.usage⟩ ts) ?_
      rintro ⟨inst, rest⟩
      exact both_bind (finish_move m ⟨n, span, _, op.format.usage⟩ rest) fun _ => rfl

theorem leadingLabels_move :
    leadingLabels (m.line n) (ts.map (Token.move m)) =
      both (Fault.move m) (Prod.map (List.map (Label.move m)) (List.map (Token.move m)))
        (leadingLabels n ts) := by
  fun_induction leadingLabels n ts with
  | case1 t colon ts isColon isIdent ih =>
    rw [List.map_cons, List.map_cons, leadingLabels, Token.kind_move, if_pos isColon,
      Token.kind_move, if_pos isIdent]
    exact both_bind ih fun _ => rfl
  | case2 t colon ts isColon notIdent =>
    rw [List.map_cons, List.map_cons, leadingLabels, Token.kind_move, if_pos isColon,
      Token.kind_move, if_neg notIdent]
    rfl
  | case3 t colon ts notColon =>
    rw [List.map_cons, List.map_cons, leadingLabels, Token.kind_move, if_neg notColon]
    rfl
  | case4 ts short =>
    match ts with
    | [] => rfl
    | [t] => rfl
    | t :: u :: ts => exact absurd rfl (short t u ts)

theorem noneWaiting_move :
    noneWaiting (waiting.map (Label.move m)) = both (Fault.move m) id (noneWaiting waiting) := by
  simp only [noneWaiting, List.getLast?_map]
  cases waiting.getLast? <;> rfl

theorem stringData_move (c : Context) :
    stringData (c.move m) (ts.map (Token.move m)) =
      both (Fault.move m) id (stringData c ts) := by
  cases ts with
  | nil => rfl
  | cons t rest =>
    simp only [stringData, next, List.map_cons, ok_bind]
    rw [Token.kind_move, Token.text_move]
    split
    · split
      · rfl
      · exact both_bind (finish_move m c rest) fun _ => rfl
    · rfl

theorem fillData_move (c : Context) :
    fillData (c.move m) (ts.map (Token.move m)) = both (Fault.move m) id (fillData c ts) := by
  cases ts with
  | nil => rfl
  | cons t rest =>
    simp only [fillData, next, List.map_cons, ok_bind]
    rw [Token.kind_move]
    split
    · refine both_bind (Number.ofToken_move m c.line t) fun v => ?_
      refine both_bind (Bounds.check_move m .fill v t.text (t.span c.line)) fun _ => ?_
      exact both_bind (finish_move m c rest) fun _ => rfl
    · rfl

theorem directive_move :
    directive (waiting.map (Label.move m)) (m.line n) (span.move m) (head.move m)
      (ts.map (Token.move m)) = both (Fault.move m) id (directive waiting n span head ts) := by
  simp only [directive]
  rw [Token.text_move]
  split
  · exact both_bind (noneWaiting_move m waiting) fun _ => rfl
  split
  · refine both_bind (noneWaiting_move m waiting) fun _ => ?_
    exact both_bind (finish_move m ⟨n, span, _, ""⟩ ts) fun _ => rfl
  split
  · cases ts with
    | nil => rfl
    | cons t rest =>
      simp only [next, List.map_cons, ok_bind]
      rw [Token.kind_move]
      split
      · exact both_bind (finish_move m ⟨n, span, _, _⟩ rest) fun _ => rfl
      · rfl
  split
  · exact both_bind (stringData_move m ts ⟨n, span, _, _⟩) fun _ => rfl
  split
  · exact both_bind (fillData_move m ts ⟨n, span, _, _⟩) fun _ => rfl
  split
  · exact both_bind (operands_move m ⟨n, span, _, _⟩ _ ts) fun _ => rfl
  · rfl

theorem statement_move :
    statement cfg (waiting.map (Label.move m)) (m.line n) (span.move m) (head.move m)
      (ts.map (Token.move m)) = both (Fault.move m) id (statement cfg waiting n span head ts) := by
  unfold statement
  rw [Token.kind_move, Token.text_move]
  split
  · rfl
  split
  · exact both_bind (directive_move m waiting n span head ts) fun _ => rfl
  · exact both_bind (instruction_move m cfg n span head ts) fun _ => rfl

def State.move (m : Move) (s : State) : State :=
  ⟨s.waiting.map (Label.move m), s.records.map (Record.move m)⟩

def tokens (cfg : Config) (s : State) (n : Nat) (ts : List Token) : Except Fault State := do
  let (labels, ts) ← leadingLabels n ts
  let waiting := labels.reverse ++ s.waiting
  match ts with
  | [] => return ⟨waiting, s.records⟩
  | head :: rest =>
    let span := Span.onLine n head.start ((head :: rest).getLastD head).stop
    match ← statement cfg waiting n span head rest with
    | none => return ⟨waiting, s.records⟩
    | some stmt => return ⟨[], ⟨waiting.reverse, n, span, stmt⟩ :: s.records⟩

theorem line_eq (s : State) (bs : Bytes) :
    line cfg s (bs, n) = (Token.scan n bs >>= tokens cfg s n) := rfl

private theorem stop_getLastD_move (t : Token) :
    ((ts.map (Token.move m)).getLastD (t.move m)).stop = m.column (ts.getLastD t).stop := by
  rw [List.getLastD_eq_getLast?, List.getLastD_eq_getLast?, List.getLast?_map]
  cases ts.getLast? <;> rfl

theorem tokens_move (s : State) :
    tokens cfg (s.move m) (m.line n) (ts.map (Token.move m)) =
      both (Fault.move m) (State.move m) (tokens cfg s n ts) := by
  refine both_bind (leadingLabels_move m n ts) ?_
  rintro ⟨labels, rest⟩
  have waiting : (labels.map (Label.move m)).reverse ++ (s.move m).waiting =
      (labels.reverse ++ s.waiting).map (Label.move m) := by
    rw [List.map_append, List.map_reverse]
    rfl
  cases rest with
  | nil =>
    simp only [Prod.map_apply, List.map_nil, waiting]
    rfl
  | cons head rest =>
    have span : Span.onLine (m.line n) (head.move m).start
        ((((head :: rest).map (Token.move m)).getLastD (head.move m)).stop) =
          (Span.onLine n head.start ((head :: rest).getLastD head).stop).move m := by
      rw [stop_getLastD_move]
      rfl
    simp only [Prod.map_apply, waiting, List.map_cons] at span ⊢
    rw [span]
    refine both_bind (statement_move m cfg _ n _ head rest) ?_
    rintro (_ | stmt)
    · rfl
    · simp only [id, both_pure, State.move, List.map_cons, List.map_nil, Record.move,
        List.map_reverse]

section Alike

variable {m₁ m₂ : Move}

/-- Numbered lines with the same tokens and the same faults, up to their positions. -/
def Alike (m₁ m₂ : Move) (a b : Bytes × Nat) : Prop :=
  m₁.line a.2 = m₂.line b.2 ∧
    both (Fault.move m₁) (List.map (Token.move m₁)) (Token.scan a.2 a.1) =
      both (Fault.move m₂) (List.map (Token.move m₂)) (Token.scan b.2 b.1)

theorem tokens_alike {i j : Nat} {ts us : List Token} {s t : State}
    (sameLine : m₁.line i = m₂.line j)
    (sameTokens : ts.map (Token.move m₁) = us.map (Token.move m₂))
    (same : s.move m₁ = t.move m₂) :
    both (Fault.move m₁) (State.move m₁) (tokens cfg s i ts) =
      both (Fault.move m₂) (State.move m₂) (tokens cfg t j us) := by
  have left := tokens_move m₁ cfg i ts s
  have right := tokens_move m₂ cfg j us t
  rw [sameTokens, sameLine, same] at left
  exact left.symm.trans right

theorem line_alike {a b : Bytes × Nat} (alike : Alike m₁ m₂ a b) {s t : State}
    (same : s.move m₁ = t.move m₂) :
    both (Fault.move m₁) (State.move m₁) (line cfg s a) =
      both (Fault.move m₂) (State.move m₂) (line cfg t b) := by
  obtain ⟨xs, i⟩ := a
  obtain ⟨ys, j⟩ := b
  obtain ⟨sameLine, sameScan⟩ : m₁.line i = m₂.line j ∧ _ := alike
  rw [line_eq, line_eq]
  refine both_bind_congr sameScan fun ts us sameTokens => ?_
  exact tokens_alike cfg sameLine sameTokens same

theorem lines_alike {as bs : List (Bytes × Nat)} (alike : List.Forall₂ (Alike m₁ m₂) as bs) :
    ∀ {s t : State}, s.move m₁ = t.move m₂ →
      both (Fault.move m₁) (State.move m₁) (as.foldlM (line cfg) s) =
        both (Fault.move m₂) (State.move m₂) (bs.foldlM (line cfg) t) := by
  induction alike with
  | nil =>
    intro s t same
    exact congrArg Except.ok same
  | @cons a b as bs first rest ih =>
    intro s t same
    rw [List.foldlM_cons, List.foldlM_cons]
    exact both_bind_congr (line_alike cfg first same) fun _ _ => ih

/-- Texts that are alike line by line have the same records and the same faults, up to their
positions. -/
theorem records_alike {ls ls' : List Bytes}
    (alike : List.Forall₂ (Alike m₁ m₂) ls.zipIdx ls'.zipIdx) :
    both (Fault.move m₁) (List.map (Record.move m₁)) (records cfg ls) =
      both (Fault.move m₂) (List.map (Record.move m₂)) (records cfg ls') := by
  refine both_bind_congr (lines_alike cfg alike rfl) fun s t same => ?_
  have waiting : s.waiting.map (Label.move m₁) = t.waiting.map (Label.move m₂) :=
    congrArg State.waiting same
  have rs : s.records.map (Record.move m₁) = t.records.map (Record.move m₂) :=
    congrArg State.records same
  have left := noneWaiting_move m₁ s.waiting
  rw [waiting, noneWaiting_move m₂ t.waiting] at left
  refine both_bind_congr left.symm fun _ _ _ => ?_
  simp only [both_pure, List.map_reverse, rs]

end Alike

end Parse

end Rv32Asm
