import Rv32Asm.Proofs.TidyText

/-!
Texts in order.

A text is in order if every token stands in the column that the layout asks for, with nothing but
spaces between the tokens, and if comments follow after one space. Tidying puts every text in order
and leaves alone exactly the texts that are.
-/

set_option autoImplicit false
set_option relaxedAutoImplicit false

namespace Rv32Asm

open Rv32Asm.Text
open Rv32Asm.Outcome
open Rv32Asm.Token

namespace Tidy

section Columns

def put (col : Nat) (t : Token) : Token := ⟨t.kind, t.text, col, col + t.text.length⟩

/-- The rest of a statement, each token one space behind the one before it or none. -/
def putAfter (before : Token) : List Token → List Token
  | [] => []
  | t :: ts =>
    let here := put (if isTight before t then before.stop else before.stop + 1) t
    here :: putAfter here ts

def putStatement (col : Nat) : List Token → List Token
  | [] => []
  | t :: ts => put col t :: putAfter (put col t) ts

/-- Labels from column `col` on, with one space between them, and the statement in column `indent`
or as soon as there is room for it. -/
def putLabelled (indent col : Nat) : List Token → List Token
  | t :: colon :: ts =>
    if colon.kind = .colon then
      put col t :: put (col + t.text.length) colon ::
        putLabelled indent (col + t.text.length + 2) ts
    else putStatement (max indent col) (t :: colon :: ts)
  | ts => putStatement (max indent col) ts

/-- The tokens of a line in the columns where they belong. A directive without a label belongs in
the first column. -/
def arrange (indent : Nat) (ts : List Token) : List Token :=
  if (splitLabels ts).1 = [] ∧ ts.head?.bind (·.text.head?) = some (ascii '.') then
    putStatement 0 ts
  else putLabelled indent 0 ts

def fill (col : Nat) : List Token → Bytes → Bytes
  | [], tail => tail
  | t :: ts, tail => spaces (t.start - col) ++ (t.text ++ fill t.stop ts tail)

end Columns

/-- What stands behind the tokens of a line in order: a comment in the column of statements if there
are none, and else one space before it. -/
def remark (indent : Nat) (ts : List Token) (comment : Bytes) : Bytes :=
  if comment = [] then []
  else if ts = [] then spaces indent ++ comment
  else ascii ' ' :: comment

inductive InOrder (indent : Nat) (bs : Bytes) : Prop
  | unread : (∀ ts, scan 0 bs ≠ .ok ts) → InOrder indent bs
  | laid {ts : List Token} {comment : Bytes} : scan 0 bs = .ok ts → arrange indent ts = ts →
      comment = [] ∨ startsComment comment = true → trim comment = comment →
      bs = fill 0 ts (remark indent ts comment) → InOrder indent bs

section Fill

variable {ts : List Token} (tail : Bytes)

theorem joinAfter_put (col : Nat) (t : Token) (ts : List Token) :
    joinAfter (put col t) ts = joinAfter t ts := by
  cases ts <;> rfl

theorem fill_putAfter (before : Token) (ts : List Token) :
    fill before.stop (putAfter before ts) tail = joinAfter before ts ++ tail := by
  induction ts generalizing before with
  | nil => rfl
  | cons t ts ih =>
    rw [putAfter, fill, ih, joinAfter_put, joinAfter]
    by_cases tight : isTight before t = true
    · simp [tight, put, spaces]
    · simp [tight, put, spaces]

theorem fill_putStatement (col start : Nat) (some_token : ts ≠ []) :
    fill start (putStatement col ts) tail = spaces (col - start) ++ (join ts ++ tail) := by
  cases ts with
  | nil => exact absurd rfl some_token
  | cons t ts =>
    rw [putStatement, fill, fill_putAfter, joinAfter_put, join, List.append_assoc]
    rfl

theorem fill_of_lt {col : Nat} {t : Token} (right : col < t.start) (ts : List Token) :
    fill col (t :: ts) tail = ascii ' ' :: fill (col + 1) (t :: ts) tail := by
  have one : t.start - col = t.start - (col + 1) + 1 := by omega
  rw [fill, one, spaces, List.replicate_succ, fill, spaces]
  rfl

theorem exists_label (some_label : (splitLabels ts).1 ≠ []) :
    ∃ t colon us, ts = t :: colon :: us ∧ colon.kind = .colon := by
  fun_cases splitLabels ts with
  | case1 t colon us isColon => exact ⟨t, colon, us, rfl, isColon⟩
  | case2 t colon us notColon => simp [splitLabels, notColon] at some_label
  | case3 ts short => simp [splitLabels] at some_label

theorem splitLabels_of_none (none : (splitLabels ts).1 = []) : (splitLabels ts).2 = ts := by
  fun_cases splitLabels ts with
  | case1 t colon ts isColon labels stmt split => simp [splitLabels, isColon] at none
  | case2 | case3 => rfl

theorem putLabelled_of_none (none : (splitLabels ts).1 = []) (indent col : Nat) :
    putLabelled indent col ts = putStatement (max indent col) ts := by
  fun_cases putLabelled indent col ts with
  | case1 t colon ts isColon => simp [splitLabels, isColon] at none
  | case2 | case3 => rfl

theorem fill_putLabelled_succ (some_label : (splitLabels ts).1 ≠ []) (indent col : Nat) :
    fill col (putLabelled indent (col + 1) ts) tail =
      ascii ' ' :: fill (col + 1) (putLabelled indent (col + 1) ts) tail := by
  obtain ⟨t, colon, us, rfl, isColon⟩ := exists_label some_label
  rw [putLabelled, if_pos isColon]
  exact fill_of_lt tail (Nat.lt_succ_self col) _

theorem fill_putLabelled (lexemes : ∀ t ∈ ts, Lexeme t.kind t.text) (indent col : Nat)
    (some_label : (splitLabels ts).1 ≠ []) :
    fill col (putLabelled indent col ts) tail =
      labelText (splitLabels ts).1 ++
        if (splitLabels ts).2 = [] then tail
        else spaces (max 1 (indent - (col + (labelText (splitLabels ts).1).length))) ++
          (join (splitLabels ts).2 ++ tail) := by
  induction ts using splitLabels.induct generalizing col with
  | case1 t colon ts isColon labels stmt split ih =>
    rw [List.forall_mem_cons, List.forall_mem_cons] at lexemes
    obtain ⟨_, second, others⟩ := lexemes
    have text : colon.text = [ascii ':'] := text_of_colon (isColon ▸ second)
    have here : splitLabels (t :: colon :: ts) = (t.text :: labels, stmt) := by
      rw [splitLabels, if_pos isColon, split]
    have first : fill col (putLabelled indent col (t :: colon :: ts)) tail =
        t.text ++ (ascii ':' :: fill (col + t.text.length + 1)
          (putLabelled indent (col + t.text.length + 1 + 1) ts) tail) := by
      rw [putLabelled, if_pos isColon, fill, fill]
      simp [put, spaces, text]
    rw [first, here, labelText_cons]
    by_cases more : labels = []
    · -- The last label: the statement comes next, if there is one.
      subst more
      have none : (splitLabels ts).1 = [] := by rw [split]
      have statement : stmt = ts := by rw [← splitLabels_of_none none, split]
      subst statement
      rw [putLabelled_of_none none]
      by_cases empty : stmt = []
      · subst empty
        simp [putStatement, fill, labelText]
      · have room : max indent (col + t.text.length + 1 + 1) - (col + t.text.length + 1) =
            max 1 (indent - (col + (t.text.length + 1))) := by omega
        rw [fill_putStatement tail _ _ empty, room]
        simp [empty, labelText]
    · have some_label : (splitLabels ts).1 ≠ [] := by rwa [split]
      rw [fill_putLabelled_succ tail some_label, ih others _ some_label, split]
      have width : col + t.text.length + 1 + 1 + (labelText labels).length =
          col + (t.text ++ ([ascii ':'] ++ ([ascii ' '] ++ labelText labels))).length := by
        simp only [List.length_append, List.length_singleton]
        omega
      have spaced : (if labels.isEmpty then [] else [ascii ' ']) = [ascii ' '] := by simp [more]
      rw [spaced, ← width]
      simp only [List.append_assoc, List.cons_append, List.nil_append]
  | case2 t colon ts notColon =>
    obtain ⟨_, _, _, ⟨⟩, isColon⟩ := exists_label some_label
    exact absurd isColon notColon
  | case3 ts short =>
    obtain ⟨t, colon, us, same, _⟩ := exists_label some_label
    exact absurd same (short t colon us)

theorem join_eq_nil_iff (lexemes : ∀ t ∈ ts, Lexeme t.kind t.text) : join ts = [] ↔ ts = [] := by
  cases ts with
  | nil => exact iff_of_true rfl rfl
  | cons t ts => simp [join, (lexemes t List.mem_cons_self).ne_nil]

/-- The tokens in their columns are the tidy line. -/
theorem fill_arrange (lexemes : ∀ t ∈ ts, Lexeme t.kind t.text) (some_token : ts ≠ [])
    (indent : Nat) : fill 0 (arrange indent ts) tail =
      Line.body indent (splitLabels ts).1 (join (splitLabels ts).2) ++ tail := by
  by_cases none : (splitLabels ts).1 = []
  · have head : (join ts).head? = ts.head?.bind (·.text.head?) := by
      cases ts with
      | nil => exact absurd rfl some_token
      | cons t ts =>
        have some_byte := (lexemes t List.mem_cons_self).ne_nil
        simp [join, List.head?_append, List.head?_eq_some_head some_byte]
    rw [arrange, Line.body, splitLabels_of_none none, none, head]
    by_cases dotted : ts.head?.bind (·.text.head?) = some (ascii '.')
    · simp [dotted, fill_putStatement tail 0 0 some_token, spaces]
    · simp [dotted, putLabelled_of_none none, fill_putStatement tail _ 0 some_token]
  · have filled := fill_putLabelled tail lexemes indent 0 none
    have empty : join (splitLabels ts).2 = [] ↔ (splitLabels ts).2 = [] :=
      join_eq_nil_iff fun t member => lexemes t ((splitLabels_suffix ts).subset member)
    rw [arrange, if_neg fun unlabelled => none unlabelled.1, filled, Line.body]
    by_cases alone : (splitLabels ts).2 = []
    · simp [none, alone, join]
    · simp [none, alone, empty]

end Fill

section Scan

variable {ts : List Token} {tail : Bytes}

theorem scanFrom_spaces (line col n : Nat) (bs : Bytes) :
    scanFrom line col (spaces n ++ bs) = scanFrom line (col + n) bs := by
  induction n generalizing col with
  | zero => rfl
  | succ n ih =>
    show scanFrom line col (ascii ' ' :: (spaces n ++ bs)) = _
    rw [scanFrom_blank line col (by decide), ih, show col + 1 + n = col + (n + 1) by omega]

/-- Tokens that stand where they are found again, from column `col` on and with `tail` behind
them. -/
inductive Sits (tail : Bytes) : Nat → List Token → Prop
  | nil (col : Nat) : Sits tail col []
  | cons {col : Nat} {t : Token} {ts : List Token} : Lexeme t.kind t.text → col ≤ t.start →
      t.stop = t.start + t.text.length → Ends t.kind (fill t.stop ts tail) → Sits tail t.stop ts →
      Sits tail col (t :: ts)

theorem Sits.scanFrom {col : Nat} (sits : Sits tail col ts) (silent : Lexes tail [])
    (line : Nat) : scanFrom line col (fill col ts tail) = .ok ts := by
  induction sits with
  | nil col =>
    obtain ⟨ts, scanned, none⟩ := silent line col
    obtain rfl := List.map_eq_nil_iff.mp none
    exact scanned
  | @cons col t ts lexeme after stop ends _ ih =>
    have start : col + (t.start - col) = t.start := by omega
    rw [fill, scanFrom_spaces, start, scanFrom_lexeme line t.start lexeme ends, ← stop, ih]
    rfl

theorem Sits.le_lastStop {col : Nat} (sits : Sits tail col ts) : col ≤ lastStop col ts := by
  induction sits with
  | nil col => exact Nat.le_refl col
  | cons _ after stop _ _ ih =>
    rw [lastStop_cons]
    omega

theorem Sits.drop_fill {col : Nat} (sits : Sits tail col ts) :
    (fill col ts tail).drop (lastStop col ts - col) = tail := by
  induction sits with
  | nil col => rw [show lastStop col [] - col = 0 from Nat.sub_self col, fill, List.drop_zero]
  | @cons col t ts _ after stop _ sits ih =>
    have further := sits.le_lastStop
    have front : (spaces (t.start - col) ++ t.text).length = t.stop - col := by
      simp only [spaces, List.length_append, List.length_replicate]
      omega
    have behind : lastStop t.stop ts - col =
        (spaces (t.start - col) ++ t.text).length + (lastStop t.stop ts - t.stop) := by omega
    rw [lastStop_cons, fill, ← List.append_assoc, behind, ← List.drop_drop, List.drop_left]
    exact ih

variable (lexemes : ∀ t ∈ ts, Lexeme t.kind t.text) (silent : Lexes tail []) (apart : Apart tail)

include lexemes silent apart

theorem sits_putAfter (before : Token) : Sits tail before.stop (putAfter before ts) := by
  induction ts generalizing before with
  | nil => exact .nil _
  | cons t ts ih =>
    rw [List.forall_mem_cons] at lexemes
    rw [putAfter]
    generalize place : (if isTight before t then before.stop else before.stop + 1) = col
    have after : before.stop ≤ col := by
      rw [← place]
      split <;> omega
    refine .cons lexemes.1 after rfl ?_ (ih lexemes.2 (put col t))
    rw [fill_putAfter]
    exact (leaves_joinAfter lexemes.2 silent apart (put col t)).2

theorem sits_putStatement {start col : Nat} (after : start ≤ col) :
    Sits tail start (putStatement col ts) := by
  cases ts with
  | nil => exact .nil _
  | cons t ts =>
    rw [List.forall_mem_cons] at lexemes
    refine .cons lexemes.1 after rfl ?_ (sits_putAfter lexemes.2 silent apart (put col t))
    rw [fill_putAfter]
    exact (leaves_joinAfter lexemes.2 silent apart (put col t)).2

theorem sits_putLabelled (indent : Nat) {start col : Nat} (after : start ≤ col) :
    Sits tail start (putLabelled indent col ts) := by
  induction ts using splitLabels.induct generalizing start col with
  | case1 t colon ts isColon labels stmt split ih =>
    rw [List.forall_mem_cons, List.forall_mem_cons] at lexemes
    obtain ⟨first, second, others⟩ := lexemes
    have text : colon.text = [ascii ':'] := text_of_colon (isColon ▸ second)
    rw [putLabelled, if_pos isColon]
    have labelEnds (more : Bytes) : Ends t.kind (colon.text ++ more) :=
      (second.apart (by simp [isColon]) (by simp [isColon]) more).ends t.kind
    have colonEnds (more : Bytes) : Ends colon.kind more := fun word => by simp [isColon] at word
    have room : col + t.text.length + colon.text.length ≤ col + t.text.length + 2 := by
      simp [text]
    have behind : Sits tail (col + t.text.length)
        (put (col + t.text.length) colon :: putLabelled indent (col + t.text.length + 2) ts) :=
      .cons second (Nat.le_refl _) rfl (colonEnds _) (ih others room)
    refine .cons first after rfl ?_ behind
    show Ends t.kind (spaces (col + t.text.length - (col + t.text.length)) ++ (colon.text ++ _))
    rw [Nat.sub_self]
    exact labelEnds _
  | case2 t colon ts notColon =>
    rw [putLabelled, if_neg notColon]
    exact sits_putStatement lexemes silent apart (by omega)
  | case3 ts short =>
    rw [putLabelled]
    exact sits_putStatement lexemes silent apart (by omega)
    exact short

theorem sits_arrange (indent : Nat) : Sits tail 0 (arrange indent ts) := by
  rw [arrange]
  split
  · exact sits_putStatement lexemes silent apart (Nat.le_refl 0)
  · exact sits_putLabelled lexemes silent apart indent (Nat.le_refl 0)

end Scan

section Remark

variable {comment : Bytes} (known : comment = [] ∨ startsComment comment = true)

include known

theorem silent_remark (indent : Nat) (ts : List Token) : Lexes (remark indent ts comment) [] := by
  rw [remark]
  split
  · exact .nil
  · rename_i some_byte
    have silent := Lexes.comment (known.resolve_left some_byte)
    split
    · exact silent_spaces indent silent
    · exact silent.blank (by decide)

theorem trim_remark (trimmed : trim comment = comment) (indent : Nat) (ts : List Token) :
    trim (remark indent ts comment) = comment := by
  have behind {blank : Bytes} (blanks : ∀ b ∈ blank, isBlank b = true) :
      trim (blank ++ comment) = comment := by
    have start : trimStart ([] ++ comment) = comment := trimStart_blank (by simp) known
    rw [trim, trimStart_blank blanks known]
    rwa [trim, ← List.nil_append comment, start] at trimmed
  rw [remark]
  split
  · rename_i empty
    rw [empty]
    rfl
  · split
    · exact behind fun b member => List.eq_of_mem_replicate member ▸ by decide
    · have space : ∀ b ∈ [ascii ' '], isBlank b = true := List.forall_mem_singleton.mpr (by decide)
      exact behind space

theorem sits_remark {ts : List Token} (lexemes : ∀ t ∈ ts, Lexeme t.kind t.text) (indent : Nat) :
    Sits (remark indent ts comment) 0 (arrange indent ts) := by
  by_cases none : ts = []
  · subst none
    exact .nil 0
  · have apart : Apart (remark indent ts comment) := by
      rw [remark, if_neg none]
      split
      · exact apart_nil
      · exact apart_space comment
    exact sits_arrange lexemes (silent_remark known indent ts) apart indent

end Remark

theorem render_eq_fill {bs : Bytes} {ts : List Token} (scanned : scan 0 bs = .ok ts)
    (indent : Nat) : Line.render indent (Line.ofBytes bs) =
      fill 0 (arrange indent ts) (remark indent ts (trim (bs.drop (lastStop 0 ts)))) := by
  have lexemes := (scans_of_scanFrom scanned).lexemes
  rw [ofBytes_of_scan scanned, Line.render]
  generalize trim (bs.drop (lastStop 0 ts)) = comment
  by_cases none : ts = []
  · subst none
    by_cases empty : comment = []
    · simp [splitLabels, join, empty, remark, arrange, putLabelled, putStatement, fill]
    · simp [splitLabels, join, empty, remark, arrange, putLabelled, putStatement, fill, Line.body]
  · have some_part := splitLabels_ne_nil none lexemes
    rw [fill_arrange _ lexemes none]
    by_cases empty : comment = []
    · simp [some_part, empty, remark]
    · simp [some_part, empty, remark, none]

/-- Tidying leaves a line alone if and only if it is in order. -/
theorem render_eq_self_iff (indent : Nat) (bs : Bytes) :
    Line.render indent (Line.ofBytes bs) = bs ↔ InOrder indent bs := by
  cases scanned : scan 0 bs with
  | error fault =>
    exact iff_of_true (render_of_error scanned indent) (.unread fun ts => by simp [scanned])
  | ok ts =>
    have scans := scans_of_scanFrom scanned
    have trailer := scans.trailer.2
    rw [Nat.sub_zero] at trailer
    rw [render_eq_fill scanned]
    constructor
    · intro same
      have sits := sits_remark trailer.trim scans.lexemes indent
      -- Scanning gives every token its own column, which here is the one where it belongs.
      have found := sits.scanFrom (silent_remark trailer.trim indent ts) 0
      rw [same] at found
      have columns : arrange indent ts = ts := Except.ok.inj (found.symm.trans scanned)
      rw [columns] at same
      have nothing : ∀ b ∈ ([] : Bytes), isBlank b = true := by simp
      exact .laid scanned columns trailer.trim (trailer.trim_trim nothing) same.symm
    · intro order
      cases order with
      | unread unread => exact absurd scanned (unread ts)
      | @laid us comment scanned' columns known trimmed text =>
        obtain rfl : ts = us := Except.ok.inj (scanned.symm.trans scanned')
        -- The comment that is cut off again is the one that the line was filled up with.
        have sits := sits_remark known scans.lexemes indent
        rw [columns] at sits
        have behind := sits.drop_fill
        rw [← text, Nat.sub_zero] at behind
        rw [behind, trim_remark known trimmed, columns, ← text]

end Tidy

/-- Whether all lines of a text are in order, with statements two columns behind the longest
label. -/
def InOrder (source : Bytes) : Prop :=
  ∀ bs ∈ lines source, Tidy.InOrder (Tidy.indent ((lines source).map Tidy.Line.ofBytes)) bs

theorem tidy_eq_self_iff (source : Bytes) : tidy source = source ↔ InOrder source := by
  have by_lines : tidy source = source ↔ lines (tidy source) = lines source := by
    constructor
    · intro same
      rw [same]
    · intro same
      rw [← unlines_lines (tidy source), same, unlines_lines]
  calc tidy source = source
    _ ↔ (lines source).map (fun bs => Tidy.Line.render
          (Tidy.indent ((lines source).map Tidy.Line.ofBytes)) (Tidy.Line.ofBytes bs)) =
        (lines source).map id := by rw [by_lines, lines_tidy_eq, List.map_id]
    _ ↔ ∀ bs ∈ lines source, Tidy.Line.render
          (Tidy.indent ((lines source).map Tidy.Line.ofBytes)) (Tidy.Line.ofBytes bs) = id bs :=
        List.map_inj_left
    _ ↔ InOrder source := forall₂_congr fun bs _ => Tidy.render_eq_self_iff _ bs

/-- Tidying puts a text in order at once, and changes nothing if it is. -/
theorem tidy_settles (source : Bytes) :
    tidy (tidy source) = tidy source ∧ (tidy source = source ↔ InOrder source) :=
  ⟨tidy_congr (parts_tidy source), tidy_eq_self_iff source⟩

end Rv32Asm
