import Rv32Asm.Proofs.Lexeme
import Rv32Asm.Proofs.Text

/-!
What a line is scanned into.

A line that can be scanned is a row of tokens with white space between them, and behind the last
token a comment or nothing. The tokens do not depend on where the line stands.
-/

set_option autoImplicit false
set_option relaxedAutoImplicit false

namespace Rv32Asm.Token

open Rv32Asm.Text
open Rv32Asm.Outcome

inductive Scans : Nat → Bytes → List Token → Prop
  | done (col : Nat) : Scans col [] []
  | blank {col : Nat} {b : UInt8} {rest : Bytes} {ts : List Token} :
      isBlank b = true → Scans (col + 1) rest ts → Scans col (b :: rest) ts
  | comment (col : Nat) {bs : Bytes} : startsComment bs = true → Scans col bs []
  | token {col : Nat} {kind : TokenKind} {text rest : Bytes} {ts : List Token} :
      Lexeme kind text → Ends kind rest → Scans (col + text.length) rest ts →
      Scans col (text ++ rest) (⟨kind, text, col, col + text.length⟩ :: ts)

theorem scans_of_scanFrom {line : Nat} {bs : Bytes} :
    ∀ {col : Nat} {ts : List Token}, scanFrom line col bs = .ok ts → Scans col bs ts := by
  induction bs using scan_induction with
  | done =>
    intro col ts scanned
    rw [scanFrom_nil] at scanned
    obtain rfl := Except.ok.inj scanned
    exact .done col
  | blank rest isBlank ih =>
    intro col ts scanned
    rw [scanFrom_blank line col isBlank] at scanned
    exact .blank isBlank (ih scanned)
  | comment starts =>
    intro col ts scanned
    rw [scanFrom_comment line col starts] at scanned
    obtain rfl := Except.ok.inj scanned
    exact .comment col starts
  | token rest lexeme ends ih =>
    intro col ts scanned
    rw [scanFrom_lexeme line col lexeme ends, bind_eq_ok_iff] at scanned
    obtain ⟨more, scanned, same⟩ := scanned
    obtain rfl := pure_eq_ok_iff.mp same
    exact .token lexeme ends (ih scanned)
  | unclosed isOpen =>
    intro col ts scanned
    simp [scanFrom_unclosed line col isOpen] at scanned
  | stray isStray =>
    intro col ts scanned
    simp [scanFrom_stray line col isStray] at scanned

namespace Scans

variable {col : Nat} {bs : Bytes} {ts : List Token}

theorem lexemes (scans : Scans col bs ts) : ∀ t ∈ ts, Lexeme t.kind t.text := by
  induction scans with
  | done | comment => simp
  | blank _ _ ih => exact ih
  | token lexeme _ _ ih =>
    rw [List.forall_mem_cons]
    exact ⟨lexeme, ih⟩

theorem text_subset (scans : Scans col bs ts) : ∀ t ∈ ts, t.text ⊆ bs := by
  induction scans with
  | done | comment => simp
  | blank _ _ ih => exact fun t member => List.subset_cons_of_subset _ (ih t member)
  | token _ _ _ ih =>
    rw [List.forall_mem_cons]
    refine ⟨List.subset_append_left _ _, ?_⟩
    exact fun t member => List.subset_append_of_subset_right _ (ih t member)

theorem columns (scans : Scans col bs ts) :
    ∀ t ∈ ts, col ≤ t.start ∧ t.start < t.stop ∧ t.stop ≤ col + bs.length := by
  induction scans with
  | done | comment => simp
  | blank _ _ ih =>
    intro t member
    have inside := ih t member
    simp only [List.length_cons]
    omega
  | @token col kind text rest ts lexeme _ _ ih =>
    have some_byte : 0 < text.length := List.length_pos_iff.mpr lexeme.ne_nil
    intro t member
    rcases List.mem_cons.mp member with rfl | member
    · simp only [List.length_append]
      omega
    · have inside := ih t member
      simp only [List.length_append]
      omega

theorem ordered (scans : Scans col bs ts) : ts.Pairwise fun a b => a.stop ≤ b.start := by
  induction scans with
  | done | comment => exact .nil
  | blank _ _ ih => exact ih
  | token _ _ rest ih => exact .cons (fun t member => (rest.columns t member).1) ih

theorem text_at (scans : Scans col bs ts) :
    ∀ t ∈ ts, (bs.drop (t.start - col)).take (t.stop - t.start) = t.text := by
  induction scans with
  | done | comment => simp
  | @blank col b rest ts _ scans ih =>
    intro t member
    have after := (scans.columns t member).1
    have skipped : t.start - col = t.start - (col + 1) + 1 := by omega
    rw [skipped, List.drop_succ_cons]
    exact ih t member
  | @token col kind text rest ts _ _ scans ih =>
    intro t member
    rcases List.mem_cons.mp member with rfl | member
    · simp
    · have after := (scans.columns t member).1
      have skipped : t.start - col = text.length + (t.start - (col + text.length)) := by omega
      rw [skipped, ← List.drop_drop, List.drop_left]
      exact ih t member

end Scans

def shape (t : Token) : TokenKind × Bytes := (t.kind, t.text)

/-- Wherever it stands, the text has tokens of these shapes. -/
def Lexes (bs : Bytes) (shapes : List (TokenKind × Bytes)) : Prop :=
  ∀ line col, ∃ ts, scanFrom line col bs = .ok ts ∧ ts.map shape = shapes

namespace Lexes

variable {bs rest : Bytes} {shapes : List (TokenKind × Bytes)}

theorem nil : Lexes [] [] := fun line col => ⟨[], scanFrom_nil line col, rfl⟩

theorem blank {b : UInt8} (isBlank : isBlank b = true) (lexes : Lexes bs shapes) :
    Lexes (b :: bs) shapes := by
  intro line col
  rw [scanFrom_blank line col isBlank]
  exact lexes line (col + 1)

theorem comment (starts : startsComment bs = true) : Lexes bs [] :=
  fun line col => ⟨[], scanFrom_comment line col starts, rfl⟩

theorem token {kind : TokenKind} {text : Bytes} (lexeme : Lexeme kind text)
    (ends : Ends kind rest) (lexes : Lexes rest shapes) :
    Lexes (text ++ rest) ((kind, text) :: shapes) := by
  intro line col
  obtain ⟨ts, scanned, same⟩ := lexes line (col + text.length)
  refine ⟨⟨kind, text, col, col + text.length⟩ :: ts, ?_, ?_⟩
  · rw [scanFrom_lexeme line col lexeme ends, scanned]
    rfl
  · rw [List.map_cons, same]
    rfl

/-- What is scanned does not depend on where the text stands. -/
theorem of_scans {col : Nat} {ts : List Token} (scans : Scans col bs ts) :
    Lexes bs (ts.map shape) := by
  induction scans with
  | done => exact nil
  | blank isBlank _ ih => exact ih.blank isBlank
  | comment _ starts => exact comment starts
  | token lexeme ends _ ih => exact token lexeme ends ih

end Lexes

/-- Nothing here makes the token before it longer. -/
def Apart (bs : Bytes) : Prop := ∀ b ∈ bs.head?, isNameByte b = false

theorem Apart.ends {bs : Bytes} (apart : Apart bs) (kind : TokenKind) : Ends kind bs :=
  fun _ => apart

theorem apart_nil : Apart [] := by simp [Apart]

theorem apart_space (bs : Bytes) : Apart (ascii ' ' :: bs) := by
  rintro b ⟨⟩
  decide

def commentMarks : List Bytes := [[ascii '#'], [ascii ';'], [ascii '/', ascii '/']]

theorem mem_commentMarks {mark : Bytes} : mark ∈ commentMarks ↔
    mark = [ascii '#'] ∨ mark = [ascii ';'] ∨ mark = [ascii '/', ascii '/'] := by
  simp only [commentMarks, List.mem_cons, List.not_mem_nil, or_false]

theorem startsComment_append {mark : Bytes} (known : mark ∈ commentMarks) (more : Bytes) :
    startsComment (mark ++ more) = true := by
  rcases mem_commentMarks.mp known with rfl | rfl | rfl <;> rfl

theorem exists_commentMark {bs : Bytes} (starts : startsComment bs = true) :
    ∃ mark more, mark ∈ commentMarks ∧ bs = mark ++ more := by
  cases bs with
  | nil => simp [startsComment] at starts
  | cons b rest =>
    simp only [startsComment, Bool.or_eq_true, Bool.and_eq_true, beq_iff_eq] at starts
    rcases starts with (rfl | rfl) | ⟨rfl, second⟩
    · exact ⟨[ascii '#'], rest, by decide, rfl⟩
    · exact ⟨[ascii ';'], rest, by decide, rfl⟩
    · obtain ⟨more, rfl⟩ := List.head?_eq_some_iff.mp second
      exact ⟨[ascii '/', ascii '/'], more, by decide, rfl⟩

theorem isEmpty_of_startsComment {bs : Bytes} (starts : startsComment bs = true) :
    bs.isEmpty = false := by
  cases bs with
  | nil => simp [startsComment] at starts
  | cons => rfl

theorem Lexeme.apart {kind : TokenKind} {text : Bytes} (lexeme : Lexeme kind text)
    (number : kind ≠ .number) (ident : kind ≠ .ident) (rest : Bytes) : Apart (text ++ rest) := by
  cases lexeme with
  | mark known =>
    rintro b ⟨⟩
    exact isNameByte_of_punctuation? known
  | quoted closed =>
    rintro b ⟨⟩
    decide
  | number => exact absurd rfl number
  | ident => exact absurd rfl ident

def Trailer (bs : Bytes) : Prop :=
  ∃ blank rest, bs = blank ++ rest ∧ (∀ b ∈ blank, isBlank b = true) ∧
    (rest = [] ∨ startsComment rest = true)

/-- The column where the last token ends, or `col` if there is none. -/
def lastStop (col : Nat) (ts : List Token) : Nat := (ts.getLast?.map Token.stop).getD col

theorem lastStop_cons (col : Nat) (t : Token) (ts : List Token) :
    lastStop col (t :: ts) = lastStop t.stop ts := by
  rw [lastStop, lastStop, List.getLast?_cons]
  cases ts.getLast? <;> rfl

section Behind

variable {col : Nat} {rest text : Bytes} {t : Token} {ts : List Token}

theorem drop_lastStop_blank (b : UInt8) (after : col + 1 ≤ lastStop (col + 1) (t :: ts)) :
    (b :: rest).drop (lastStop col (t :: ts) - col) =
      rest.drop (lastStop (col + 1) (t :: ts) - (col + 1)) := by
  rw [lastStop_cons] at after ⊢
  rw [lastStop_cons, show lastStop t.stop ts - col = lastStop t.stop ts - (col + 1) + 1 by omega,
    List.drop_succ_cons]

theorem drop_lastStop_token (stop : t.stop = col + text.length)
    (after : col + text.length ≤ lastStop (col + text.length) ts) :
    (text ++ rest).drop (lastStop col (t :: ts) - col) =
      rest.drop (lastStop (col + text.length) ts - (col + text.length)) := by
  rw [lastStop_cons, stop, show lastStop (col + text.length) ts - col =
    text.length + (lastStop (col + text.length) ts - (col + text.length)) by omega,
    ← List.drop_drop, List.drop_left]

end Behind

theorem Scans.trailer {col : Nat} {bs : Bytes} {ts : List Token} (scans : Scans col bs ts) :
    col ≤ lastStop col ts ∧ Trailer (bs.drop (lastStop col ts - col)) := by
  induction scans with
  | done col =>
    exact ⟨Nat.le_refl col, [], [], by simp, by simp, .inl rfl⟩
  | comment col starts =>
    exact ⟨Nat.le_refl col, [], _, by simp [lastStop], by simp, .inr starts⟩
  | @blank col b rest ts isBlank _ ih =>
    obtain ⟨after, trailer⟩ := ih
    cases ts with
    | nil =>
      have start : lastStop (col + 1) [] - (col + 1) = 0 := Nat.sub_self _
      rw [start, List.drop_zero] at trailer
      obtain ⟨blank, last, rfl, blanks, ends⟩ := trailer
      refine ⟨Nat.le_refl col, b :: blank, last, ?_, ?_, ends⟩
      · simp [lastStop]
      · rw [List.forall_mem_cons]
        exact ⟨isBlank, blanks⟩
    | cons t ts =>
      rw [drop_lastStop_blank b after]
      rw [lastStop_cons] at after ⊢
      exact ⟨by omega, trailer⟩
  | @token col kind text rest ts _ _ _ ih =>
    obtain ⟨after, trailer⟩ := ih
    rw [drop_lastStop_token rfl after, lastStop_cons]
    exact ⟨Nat.le_trans (Nat.le_add_right col text.length) after, trailer⟩

theorem dropForm?_comment {bs : Bytes} (starts : startsComment bs = true) :
    dropForm? blankForms bs = none := by
  obtain ⟨mark, more, known, rfl⟩ := exists_commentMark starts
  rcases mem_commentMarks.mp known with rfl | rfl | rfl <;> rfl

theorem trimStart_blank {blank rest : Bytes} (blanks : ∀ b ∈ blank, isBlank b = true)
    (ends : rest = [] ∨ startsComment rest = true) : trimStart (blank ++ rest) = rest := by
  apply trimStart_append
  · intro b member
    simpa [isBlank, or_assoc] using blanks b member
  · rcases ends with rfl | starts
    · rfl
    · exact dropForm?_comment starts

theorem Trailer.trim {bs : Bytes} (trailer : Trailer bs) :
    Text.trim bs = [] ∨ startsComment (Text.trim bs) = true := by
  obtain ⟨blank, rest, rfl, blanks, ends⟩ := trailer
  rw [Text.trim, trimStart_blank blanks ends]
  rcases ends with rfl | starts
  · left
    rfl
  · right
    obtain ⟨mark, more, known, rfl⟩ := exists_commentMark starts
    have clean : ∀ mark ∈ commentMarks, ∀ form ∈ blankForms, ∀ y ∈ mark.getLast?, y ∉ form := by
      decide +kernel
    obtain ⟨kept, same, _⟩ := trimEnd_append (clean mark known) more
    rw [same]
    exact startsComment_append known kept

theorem Trailer.trim_trim {bs blank : Bytes} (trailer : Trailer bs)
    (blanks : ∀ b ∈ blank, isBlank b = true) :
    Text.trim (blank ++ Text.trim bs) = Text.trim bs := by
  have start := trimStart_blank blanks trailer.trim
  rw [Text.trim, start, Text.trim, trimEnd_trimEnd]

/-- Wherever it stands, the text has tokens of these shapes, and behind the last of them `tail`. -/
def Leaves (bs : Bytes) (shapes : List (TokenKind × Bytes)) (tail : Bytes) : Prop :=
  ∀ line col, ∃ ts, scanFrom line col bs = .ok ts ∧ ts.map shape = shapes ∧
    bs.drop (lastStop col ts - col) = tail

theorem Lexes.leaves {bs : Bytes} (silent : Lexes bs []) : Leaves bs [] bs := by
  intro line col
  obtain ⟨ts, scanned, none⟩ := silent line col
  obtain rfl := List.map_eq_nil_iff.mp none
  have start : lastStop col [] - col = 0 := Nat.sub_self col
  exact ⟨[], scanned, rfl, by rw [start, List.drop_zero]⟩

namespace Leaves

variable {bs rest tail : Bytes} {shapes : List (TokenKind × Bytes)}

theorem lexes (leaves : Leaves bs shapes tail) : Lexes bs shapes := by
  intro line col
  obtain ⟨ts, scanned, same, _⟩ := leaves line col
  exact ⟨ts, scanned, same⟩

theorem blank {b : UInt8} (isBlank : isBlank b = true) (some_token : shapes ≠ [])
    (leaves : Leaves bs shapes tail) : Leaves (b :: bs) shapes tail := by
  intro line col
  obtain ⟨ts, scanned, same, behind⟩ := leaves line (col + 1)
  have after := (scans_of_scanFrom scanned).trailer.1
  cases ts with
  | nil => exact absurd same.symm some_token
  | cons t ts =>
    refine ⟨t :: ts, (scanFrom_blank line col isBlank bs).trans scanned, same, ?_⟩
    rw [drop_lastStop_blank b after]
    exact behind

theorem token {kind : TokenKind} {text : Bytes} (lexeme : Lexeme kind text)
    (ends : Ends kind rest) (leaves : Leaves rest shapes tail) :
    Leaves (text ++ rest) ((kind, text) :: shapes) tail := by
  intro line col
  obtain ⟨ts, scanned, same, behind⟩ := leaves line (col + text.length)
  have after := (scans_of_scanFrom scanned).trailer.1
  refine ⟨⟨kind, text, col, col + text.length⟩ :: ts, ?_, ?_, ?_⟩
  · rw [scanFrom_lexeme line col lexeme ends, scanned]
    rfl
  · rw [List.map_cons, same]
    rfl
  · rw [drop_lastStop_token rfl after]
    exact behind

end Leaves

end Rv32Asm.Token
