import Rv32Asm.Proofs.RelocatedProgram
import Rv32Asm.Proofs.Safety
import Rv32Asm.Tidy

/-!
Tidying a source keeps its meaning.

A tidy line has the tokens of the line it comes from: between two tokens there is a space wherever
they would otherwise grow together, and what follows the last token is a comment or nothing. As
reading does not look at positions, the program stays the same.
-/

set_option autoImplicit false
set_option relaxedAutoImplicit false

namespace Rv32Asm

open Rv32Asm.Text
open Rv32Asm.Outcome
open Rv32Asm.Token

namespace Tidy

/-- Where no space is put, the tokens do not grow together. -/
theorem ends_of_isTight {before t : Token} (tight : isTight before t = true)
    (lexeme : Lexeme t.kind t.text) (rest : Bytes) : Ends before.kind (t.text ++ rest) := by
  by_cases opening : before.kind = .openParen
  · intro word
    simp [opening] at word
  · have mark : t.kind = .comma ∨ t.kind = .closeParen ∨ t.kind = .openParen := by
      simp only [isTight, Bool.or_eq_true, Bool.and_eq_true, beq_iff_eq, opening, or_false] at tight
      rcases tight with (comma | closing) | ⟨opening, _⟩
      · exact .inl comma
      · exact .inr (.inl closing)
      · exact .inr (.inr opening)
    apply Apart.ends
    apply lexeme.apart
    · rcases mark with kind | kind | kind <;> simp [kind]
    · rcases mark with kind | kind | kind <;> simp [kind]

section Leaves

variable {ts : List Token} {rest tail : Bytes}

theorem leaves_spaces (n : Nat) {shapes : List (TokenKind × Bytes)} (some_token : shapes ≠ [])
    (leaves : Leaves rest shapes tail) : Leaves (spaces n ++ rest) shapes tail := by
  induction n with
  | zero => exact leaves
  | succ n ih => exact ih.blank (by decide) some_token

theorem silent_spaces (n : Nat) (silent : Lexes rest []) : Lexes (spaces n ++ rest) [] := by
  induction n with
  | zero => exact silent
  | succ n ih => exact ih.blank (by decide)

theorem leaves_joinAfter (lexemes : ∀ t ∈ ts, Lexeme t.kind t.text) (silent : Lexes rest [])
    (apart : Apart rest) (before : Token) :
    Leaves (joinAfter before ts ++ rest) (ts.map shape) rest ∧
      Ends before.kind (joinAfter before ts ++ rest) := by
  induction ts generalizing before with
  | nil => exact ⟨silent.leaves, apart.ends before.kind⟩
  | cons t ts ih =>
    rw [List.forall_mem_cons] at lexemes
    obtain ⟨leaves, ends⟩ := ih lexemes.2 t
    have further := Leaves.token lexemes.1 ends leaves
    rw [joinAfter, List.append_assoc]
    split
    · rename_i tight
      exact ⟨further, ends_of_isTight tight lexemes.1 _⟩
    · exact ⟨further.blank (by decide) (by simp), (apart_space _).ends before.kind⟩

theorem leaves_join (lexemes : ∀ t ∈ ts, Lexeme t.kind t.text) (silent : Lexes rest [])
    (apart : Apart rest) : Leaves (join ts ++ rest) (ts.map shape) rest := by
  cases ts with
  | nil => exact silent.leaves
  | cons t ts =>
    rw [List.forall_mem_cons] at lexemes
    obtain ⟨leaves, ends⟩ := leaves_joinAfter lexemes.2 silent apart t
    rw [join, List.append_assoc]
    exact Leaves.token lexemes.1 ends leaves

theorem splitLabels_suffix (ts : List Token) : (splitLabels ts).2 <:+ ts := by
  fun_induction splitLabels ts with
  | case1 t colon ts isColon labels stmt split ih =>
    rw [split] at ih
    exact ih.trans ((List.suffix_cons colon ts).trans (List.suffix_cons t _))
  | case2 | case3 => exact List.suffix_refl _

theorem labelText_cons (label : Bytes) (labels : List Bytes) :
    labelText (label :: labels) =
      label ++ ([ascii ':'] ++ ((if labels.isEmpty then [] else [ascii ' ']) ++ labelText labels)) := by
  cases labels <;> simp [labelText]

theorem text_of_colon {text : Bytes} (lexeme : Lexeme .colon text) : text = [ascii ':'] := by
  cases lexeme with
  | @mark b _ known =>
    simp only [punctuation?] at known
    repeat' split at known
    all_goals simp_all

theorem leaves_label {t colon : Token} {shapes : List (TokenKind × Bytes)}
    (first : Lexeme t.kind t.text) (second : Lexeme colon.kind colon.text)
    (isColon : colon.kind = .colon) (leaves : Leaves rest shapes tail) :
    Leaves (t.text ++ ([ascii ':'] ++ rest)) (t.shape :: colon.shape :: shapes) tail := by
  have text : colon.text = [ascii ':'] := text_of_colon (isColon ▸ second)
  have colonEnds : Ends colon.kind rest := fun word => by simp [isColon] at word
  have labelEnds : Ends t.kind (colon.text ++ rest) :=
    (second.apart (by simp [isColon]) (by simp [isColon]) rest).ends t.kind
  rw [← text]
  exact Leaves.token first labelEnds (Leaves.token second colonEnds leaves)

theorem leaves_labelText (lexemes : ∀ t ∈ ts, Lexeme t.kind t.text)
    (leaves : Leaves rest ((splitLabels ts).2.map shape) tail) :
    Leaves (labelText (splitLabels ts).1 ++ rest) (ts.map shape) tail := by
  fun_induction splitLabels ts with
  | case1 t colon ts isColon labels stmt split ih =>
    rw [split] at ih
    rw [List.forall_mem_cons, List.forall_mem_cons] at lexemes
    obtain ⟨first, second, others⟩ := lexemes
    have spaced : Leaves ((if labels.isEmpty then [] else [ascii ' ']) ++ (labelText labels ++ rest))
        (ts.map shape) tail := by
      have further := ih others leaves
      split
      · exact further
      · rename_i some_label
        apply further.blank (by decide)
        rintro none
        obtain rfl := List.map_eq_nil_iff.mp none
        simp [splitLabels] at split
        simp [split] at some_label
    have text := leaves_label first second isColon spaced
    rw [labelText_cons]
    simpa only [List.append_assoc, List.map_cons] using text
  | case2 | case3 => exact leaves

theorem leaves_statement (lexemes : ∀ t ∈ ts, Lexeme t.kind t.text) (silent : Lexes rest [])
    (apart : Apart rest) :
    Leaves (join (splitLabels ts).2 ++ rest) ((splitLabels ts).2.map shape) rest :=
  leaves_join (fun t member => lexemes t ((splitLabels_suffix ts).subset member)) silent apart

theorem leaves_body (lexemes : ∀ t ∈ ts, Lexeme t.kind t.text) (some_token : ts ≠ [])
    (silent : Lexes rest []) (apart : Apart rest) (indent : Nat) :
    Leaves (Line.body indent (splitLabels ts).1 (join (splitLabels ts).2) ++ rest)
      (ts.map shape) rest := by
  have statement := leaves_statement lexemes silent apart
  have whole := leaves_labelText lexemes statement
  unfold Line.body
  split
  · simp only
    split
    · rename_i empty
      rwa [List.isEmpty_iff.mp empty] at whole
    · rename_i some_text
      have some_shape : (splitLabels ts).2.map shape ≠ [] := by
        intro none
        rw [List.map_eq_nil_iff] at none
        simp [none, join] at some_text
      rw [List.append_assoc, List.append_assoc]
      exact leaves_labelText lexemes (leaves_spaces _ some_shape statement)
  · rename_i none
    rw [show (splitLabels ts).1 = [] by simpa using none] at whole
    split
    · exact whole
    · rw [List.append_assoc]
      exact leaves_spaces indent (by simpa using some_token) whole

theorem splitLabels_ne_nil (some_token : ts ≠ []) (lexemes : ∀ t ∈ ts, Lexeme t.kind t.text) :
    ((splitLabels ts).1.isEmpty && (join (splitLabels ts).2).isEmpty) = false := by
  fun_cases splitLabels ts with
  | case1 => rfl
  | case2 t colon ts _ =>
    simp [join, (lexemes t List.mem_cons_self).ne_nil]
  | case3 other =>
    cases ts with
    | nil => exact absurd rfl some_token
    | cons t ts => simp [join, (lexemes t List.mem_cons_self).ne_nil]

end Leaves

theorem ofBytes_of_scan {bs : Bytes} {ts : List Token} (scanned : scan 0 bs = .ok ts) :
    Line.ofBytes bs =
      .parts (splitLabels ts).1 (join (splitLabels ts).2) (trim (bs.drop (lastStop 0 ts))) := by
  simp only [Line.ofBytes, scanned, lastStop]

/-- A tidy line has the tokens of the line it comes from, and behind them the same comment. -/
theorem leaves_render {bs : Bytes} {ts : List Token} (scanned : scan 0 bs = .ok ts)
    (indent : Nat) : ∃ tail, Leaves (Line.render indent (Line.ofBytes bs)) (ts.map shape) tail ∧
      trim tail = trim (bs.drop (lastStop 0 ts)) := by
  have scans := scans_of_scanFrom scanned
  have lexemes := scans.lexemes
  obtain ⟨_, trailer⟩ := scans.trailer
  rw [Nat.sub_zero] at trailer
  rw [ofBytes_of_scan scanned, Line.render]
  generalize remark : trim (bs.drop (lastStop 0 ts)) = comment
  have known : comment = [] ∨ startsComment comment = true := remark ▸ trailer.trim
  have again (blank : Bytes) (blanks : ∀ b ∈ blank, isBlank b = true) :
      trim (blank ++ comment) = comment := remark ▸ trailer.trim_trim blanks
  by_cases none : ts = []
  · -- Without tokens, the indentation stands behind the last token together with the comment.
    subst none
    simp only [splitLabels, join, Line.body, List.isEmpty_nil, Bool.true_and, Bool.not_true,
      Bool.false_eq_true, if_false, List.head?_nil, reduceCtorEq, List.append_nil, if_true]
    rcases known with rfl | starts
    · exact ⟨[], Lexes.nil.leaves, rfl⟩
    · have some_byte : comment.isEmpty = false := isEmpty_of_startsComment starts
      have silent := silent_spaces indent (Lexes.comment starts)
      simp only [some_byte, Bool.false_eq_true, if_false]
      exact ⟨_, silent.leaves, again _ fun b member => List.eq_of_mem_replicate member ▸ by decide⟩
  · have some_part := splitLabels_ne_nil none lexemes
    simp only [some_part, Bool.false_and, Bool.false_eq_true, if_false]
    rcases known with rfl | starts
    · have body := leaves_body lexemes none .nil apart_nil indent
      rw [List.append_nil] at body
      exact ⟨[], body, rfl⟩
    · have some_byte : comment.isEmpty = false := isEmpty_of_startsComment starts
      have silent := (Lexes.comment starts).blank (b := ascii ' ') (by decide)
      simp only [some_byte, Bool.false_eq_true, if_false]
      refine ⟨_, leaves_body lexemes none silent (apart_space _) indent, ?_⟩
      exact again [ascii ' '] (List.forall_mem_singleton.mpr (by decide))

theorem lexes_render {bs : Bytes} {ts : List Token} (scanned : scan 0 bs = .ok ts)
    (indent : Nat) : Lexes (Line.render indent (Line.ofBytes bs)) (ts.map shape) := by
  obtain ⟨tail, leaves, _⟩ := leaves_render scanned indent
  exact leaves.lexes

section Bytes

/-- A property that stays when pieces of text are put together, with spaces and colons between
them. -/
structure Stable (P : Bytes → Prop) : Prop where
  nil : P []
  append {xs ys : Bytes} : P xs → P ys → P (xs ++ ys)
  space : P [ascii ' ']
  colon : P [ascii ':']

namespace Stable

variable {P : Bytes → Prop} {ts : List Token}

theorem spaced (stable : Stable P) {xs : Bytes} (known : P xs) : P (ascii ' ' :: xs) :=
  stable.append stable.space known

theorem joinAfter (stable : Stable P) (texts : ∀ t ∈ ts, P t.text) (before : Token) :
    P (joinAfter before ts) := by
  induction ts generalizing before with
  | nil => exact stable.nil
  | cons t ts ih =>
    rw [List.forall_mem_cons] at texts
    apply stable.append _ (ih texts.2 t)
    split
    · exact texts.1
    · exact stable.spaced texts.1

theorem join (stable : Stable P) (texts : ∀ t ∈ ts, P t.text) : P (join ts) := by
  cases ts with
  | nil => exact stable.nil
  | cons t ts =>
    rw [List.forall_mem_cons] at texts
    exact stable.append texts.1 (stable.joinAfter texts.2 t)

theorem labelText (stable : Stable P) (texts : ∀ t ∈ ts, P t.text) :
    P (labelText (splitLabels ts).1) := by
  fun_induction splitLabels ts with
  | case1 t _ ts _ labels stmt split ih =>
    rw [List.forall_mem_cons, List.forall_mem_cons] at texts
    rw [split] at ih
    rw [labelText_cons]
    apply stable.append texts.1
    apply stable.append stable.colon
    apply stable.append _ (ih texts.2.2)
    split
    · exact stable.nil
    · exact stable.space
  | case2 | case3 => exact stable.nil

theorem spaces (stable : Stable P) (n : Nat) : P (spaces n) := by
  induction n with
  | zero => exact stable.nil
  | succ n ih => exact stable.spaced ih

theorem body (stable : Stable P) {labels : List Bytes} {statement : Bytes}
    (front : P (Tidy.labelText labels)) (back : P statement) (indent : Nat) :
    P (Line.body indent labels statement) := by
  unfold Line.body
  split
  · dsimp only
    split
    · exact front
    · exact stable.append (stable.append front (stable.spaces _)) back
  · split
    · exact back
    · exact stable.append (stable.spaces indent) back

theorem render (stable : Stable P) {bs : Bytes} (scanned : scan 0 bs = .ok ts)
    (texts : ∀ t ∈ ts, P t.text) (comment : P (trim (bs.drop (lastStop 0 ts)))) (indent : Nat) :
    P (Line.render indent (Line.ofBytes bs)) := by
  have statement := stable.join fun t member => texts t ((splitLabels_suffix ts).subset member)
  have body := stable.body (stable.labelText texts) statement indent
  rw [ofBytes_of_scan scanned, Line.render]
  repeat' split
  · exact stable.nil
  · exact body
  · exact stable.append body comment
  · exact stable.append body (stable.spaced comment)

end Stable

theorem stable_subset {known : Bytes} (space : ascii ' ' ∈ known) (colon : ascii ':' ∈ known) :
    Stable (· ⊆ known) where
  nil := List.nil_subset known
  append front back := List.append_subset.mpr ⟨front, back⟩
  space := List.cons_subset.mpr ⟨space, List.nil_subset known⟩
  colon := List.cons_subset.mpr ⟨colon, List.nil_subset known⟩

theorem render_of_error {bs : Bytes} {fault : Fault} (failed : scan 0 bs = .error fault)
    (indent : Nat) : Line.render indent (Line.ofBytes bs) = bs := by
  simp only [Line.ofBytes, failed, Line.render]

theorem render_subset (indent : Nat) (bs : Bytes) :
    Line.render indent (Line.ofBytes bs) ⊆ ascii ' ' :: ascii ':' :: bs := by
  have inside {xs : Bytes} (within : xs ⊆ bs) : xs ⊆ ascii ' ' :: ascii ':' :: bs :=
    List.subset_cons_of_subset _ (List.subset_cons_of_subset _ within)
  cases scanned : scan 0 bs with
  | error fault =>
    rw [render_of_error scanned]
    exact inside (List.Subset.refl bs)
  | ok ts =>
    have stable : Stable (· ⊆ ascii ' ' :: ascii ':' :: bs) := stable_subset (by simp) (by simp)
    apply stable.render scanned
    · exact fun t member => inside ((scans_of_scanFrom scanned).text_subset t member)
    · exact inside (List.Subset.trans (trim_subset _) (List.drop_subset (lastStop 0 ts) bs))

end Bytes

end Tidy

theorem lines_tidy_eq (source : Bytes) : lines (tidy source) = (lines source).map fun bs =>
    Tidy.Line.render (Tidy.indent ((lines source).map Tidy.Line.ofBytes)) (Tidy.Line.ofBytes bs) := by
  refine (lines_unlines ?_ ?_).trans List.map_map
  · simp [lines_ne_nil]
  · intro l member
    simp only [List.map_map, List.mem_map, Function.comp_apply] at member
    obtain ⟨bs, fromSource, rfl⟩ := member
    intro inside
    have known := Tidy.render_subset _ bs inside
    have whole := newline_not_mem_lines source bs fromSource
    simp only [List.mem_cons, whole, or_false] at known
    rcases known with same | same <;> exact absurd same (by decide)

theorem lines_tidy (source : Bytes) : ∃ indent, lines (tidy source) =
    (lines source).map fun bs => Tidy.Line.render indent (Tidy.Line.ofBytes bs) :=
  ⟨_, lines_tidy_eq source⟩

/-- A line before and after: with the same tokens, or not touched because it has none. -/
inductive LineKept (old new : Bytes) : Prop
  | tokens {shapes : List (TokenKind × Bytes)} :
      Lexes old shapes → Lexes new shapes → LineKept old new
  | unread : (∀ line ts, scan line old ≠ .ok ts) → new = old → LineKept old new

theorem lineKept_render (indent : Nat) (bs : Bytes) :
    LineKept bs (Tidy.Line.render indent (Tidy.Line.ofBytes bs)) := by
  cases scanned : scan 0 bs with
  | ok ts => exact .tokens (.of_scans (scans_of_scanFrom scanned)) (Tidy.lexes_render scanned indent)
  | error fault =>
    refine .unread ?_ (Tidy.render_of_error scanned indent)
    intro line ts elsewhere
    obtain ⟨ts', here, _⟩ := Lexes.of_scans (scans_of_scanFrom elsewhere) 0 0
    simp [scan, here] at scanned

def Move.noColumns : Move := ⟨id, fun _ => 0⟩

theorem move_noColumns_of_shape {ts us : List Token} (same : ts.map shape = us.map shape) :
    ts.map (Token.move .noColumns) = us.map (Token.move .noColumns) := by
  have factors : Token.move .noColumns = (fun s => ⟨s.1, s.2, 0, 0⟩) ∘ shape := rfl
  rw [factors, ← List.map_map, same, List.map_map]

theorem LineKept.alike {old new : Bytes} (kept : LineKept old new) (n : Nat) :
    Parse.Alike .noColumns .noColumns (old, n) (new, n) := by
  refine ⟨rfl, ?_⟩
  cases kept with
  | tokens before after =>
    obtain ⟨ts, scanned, same⟩ := before n 0
    obtain ⟨us, scanned', same'⟩ := after n 0
    simp only [scan, scanned, scanned', both_ok, move_noColumns_of_shape (same.trans same'.symm)]
  | unread _ same => rw [same]

private theorem forall₂_zipIdx {α β : Type} {R : α → β → Prop} {S : α × Nat → β × Nat → Prop}
    (each : ∀ a b n, R a b → S (a, n) (b, n)) {as : List α} {bs : List β}
    (related : List.Forall₂ R as bs) (n : Nat) : List.Forall₂ S (as.zipIdx n) (bs.zipIdx n) := by
  induction related generalizing n with
  | nil => exact .nil
  | cons first _ ih => exact .cons (each _ _ n first) (ih (n + 1))

/-- The same program up to the source text, or the same fault up to its columns: kind and message
follow from the cause. -/
inductive SameMeaning : Except AssembleFault Program → Except AssembleFault Program → Prop
  | program {p q : Program} : p.text = q.text → p.data = q.data → p.words = q.words →
      p.symbols = q.symbols → p.code = q.code → SameMeaning (.ok p) (.ok q)
  | source {f g : Fault} : f.cause = g.cause → f.span.start.line = g.span.start.line →
      f.span.stop.line = g.span.stop.line → SameMeaning (.error (.source f)) (.error (.source g))
  | config (fault : ConfigFault) : SameMeaning (.error (.config fault)) (.error (.config fault))

section NoColumns

theorem Cause.move_noColumns (cause : Cause) : cause.move .noColumns = cause := by
  cases cause <;> rfl

theorem SymbolTable.move_noColumns (t : SymbolTable) : t.move .noColumns = t := by
  have kept : Symbol.move .noColumns = id := rfl
  rw [move, kept, List.map_id]

theorem sameMeaning_of_outline {p q : Program}
    (same : p.outline .noColumns = q.outline .noColumns) : SameMeaning (.ok p) (.ok q) := by
  have config : p.config = q.config := (congrArg Program.config same :)
  have code : p.code = q.code := by
    have moved : p.code.map (CodeWord.move .noColumns) = q.code.map (CodeWord.move .noColumns) :=
      congrArg Program.code same
    have kept : CodeWord.move .noColumns = id := rfl
    rwa [kept, List.map_id, List.map_id] at moved
  have symbols : p.symbols = q.symbols := by
    have moved : p.symbols.move .noColumns = q.symbols.move .noColumns :=
      congrArg Program.symbols same
    rwa [SymbolTable.move_noColumns, SymbolTable.move_noColumns] at moved
  have words : p.words = q.words := by rw [Program.words, code, Program.words]
  have text : p.text = q.text := by
    rw [Program.text, words, Program.order, config, Program.text, Program.order]
  have data : p.data = q.data := (congrArg Program.data same :)
  exact .program text data words symbols code

theorem sameMeaning_of_move {f g : Fault} (same : f.move .noColumns = g.move .noColumns) :
    SameMeaning (.error (.source f)) (.error (.source g)) := by
  have cause : f.cause.move .noColumns = g.cause.move .noColumns := congrArg Fault.cause same
  rw [Cause.move_noColumns, Cause.move_noColumns] at cause
  exact .source cause (congrArg (·.span.start.line) same) (congrArg (·.span.stop.line) same)

theorem sameMeaning_of_both {x y : Except AssembleFault Program}
    (same : both (AssembleFault.move .noColumns) (Program.outline .noColumns) x =
      both (AssembleFault.move .noColumns) (Program.outline .noColumns) y)
    (safe : ∀ fault, x ≠ .error (.encode fault)) : SameMeaning x y := by
  cases x with
  | ok p =>
    cases y with
    | ok q => exact sameMeaning_of_outline (Except.ok.inj same)
    | error g => simp at same
  | error f =>
    cases y with
    | ok q => simp at same
    | error g =>
      have moved : f.move .noColumns = g.move .noColumns := Except.error.inj same
      cases f with
      | encode fault => exact absurd rfl (safe fault)
      | config fault =>
        cases g with
        | config fault' => exact AssembleFault.config.inj moved ▸ .config fault
        | source | encode => simp [AssembleFault.move] at moved
      | source fault =>
        cases g with
        | source fault' => exact sameMeaning_of_move (AssembleFault.source.inj moved)
        | config | encode => simp [AssembleFault.move] at moved

end NoColumns

theorem sameMeaning_of_lineKept {source source' : Bytes}
    (kept : List.Forall₂ LineKept (lines source) (lines source')) (cfg : Config) :
    SameMeaning (assemble cfg source) (assemble cfg source') := by
  have alike := forall₂_zipIdx (fun _ _ n line => LineKept.alike line n) kept 0
  exact sameMeaning_of_both (assemble_alike cfg alike) fun _ => assemble_ne_encode

/-- Tidying keeps the number of lines, the tokens of every line and what the source assembles to. -/
theorem tidy_keeps_meaning (source : Bytes) :
    (lines (tidy source)).length = (lines source).length ∧
      List.Forall₂ LineKept (lines source) (lines (tidy source)) ∧
      ∀ cfg, SameMeaning (assemble cfg source) (assemble cfg (tidy source)) := by
  obtain ⟨indent, tidied⟩ := lines_tidy source
  have kept : List.Forall₂ LineKept (lines source) (lines (tidy source)) := by
    rw [tidied, List.forall₂_map_right_iff, List.forall₂_same]
    exact fun bs _ => lineKept_render indent bs
  exact ⟨kept.length_eq.symm, kept, sameMeaning_of_lineKept kept⟩

end Rv32Asm
