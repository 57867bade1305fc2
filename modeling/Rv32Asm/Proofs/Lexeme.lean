import Rv32Asm.Proofs.Outcome
import Rv32Asm.Token

/-!
The shapes of tokens, and what one step of the scanner does.

A line is empty, starts with white space, is a comment, starts with a token that cannot be longer,
or cannot be scanned. Proofs about scanning go by this view and not by the scanner's own tests.
-/

set_option autoImplicit false
set_option relaxedAutoImplicit false

namespace Rv32Asm.Token

open Rv32Asm.Text
open Rv32Asm.Outcome

inductive Lexeme : TokenKind → Bytes → Prop
  | mark {b : UInt8} {kind : TokenKind} : punctuation? b = some kind → Lexeme kind [b]
  | quoted {body : Bytes} :
      quoteEnd? 0 body = some body.length → Lexeme .string (ascii '"' :: body)
  | number {b : UInt8} {body : Bytes} :
      startsNumber b body = true → (∀ c ∈ body, isNameByte c = true) → Lexeme .number (b :: body)
  | ident {b : UInt8} {body : Bytes} :
      isNameStart b = true → (∀ c ∈ body, isNameByte c = true) → Lexeme .ident (b :: body)

/-- What follows does not make a token of this kind longer. -/
def Ends (kind : TokenKind) (rest : Bytes) : Prop :=
  kind = .number ∨ kind = .ident → ∀ b ∈ rest.head?, isNameByte b = false

theorem forall_byte {P : UInt8 → Prop} (all : ∀ n : Fin 256, P (UInt8.ofNat n)) (b : UInt8) :
    P b := by
  have here := all ⟨b.toNat, b.toNat_lt⟩
  rwa [UInt8.ofNat_toNat] at here

private theorem wordStart_facts (b : UInt8) :
    isDigit b || b == ascii '-' || b == ascii '+' || isNameStart b →
      isBlank b = false ∧ startsComment [b] = false ∧ b ≠ ascii '/' ∧ punctuation? b = none ∧
        b ≠ ascii '"' := by
  revert b
  exact forall_byte (by decide +kernel)

private theorem punctuation_facts (b : UInt8) :
    (punctuation? b).isSome →
      isBlank b = false ∧ startsComment [b] = false ∧ b ≠ ascii '/' ∧ isNameByte b = false := by
  revert b
  exact forall_byte (by decide +kernel)

theorem punctuation?_mem {b : UInt8} {kind : TokenKind} (known : punctuation? b = some kind) :
    kind ∈ [.comma, .colon, .openParen, .closeParen] := by
  simp only [punctuation?] at known
  repeat' split at known
  all_goals simp_all

theorem isNameByte_of_punctuation? {b : UInt8} {kind : TokenKind}
    (known : punctuation? b = some kind) : isNameByte b = false :=
  (punctuation_facts b (by simp [known])).2.2.2

private theorem nameStart_facts (b : UInt8) :
    isNameStart b → isDigit b = false ∧ b ≠ ascii '-' ∧ b ≠ ascii '+' := by
  revert b
  exact forall_byte (by decide +kernel)

private theorem digit_isNameByte (b : UInt8) (digit : isDigit b = true) : isNameByte b = true := by
  rw [isNameByte, digit, Bool.or_true]

private theorem startsComment_of_ne_slash {b : UInt8} {rest : Bytes} (slash : b ≠ ascii '/') :
    startsComment (b :: rest) = startsComment [b] := by
  simp [startsComment, slash]

private theorem startsComment_quote (rest : Bytes) : startsComment (ascii '"' :: rest) = false := by
  rw [startsComment_of_ne_slash (by decide)]
  decide

theorem isBlank_of_startsComment {b : UInt8} {rest : Bytes}
    (comment : startsComment (b :: rest) = true) : isBlank b = false := by
  have fact : ∀ b, b == ascii '#' || b == ascii ';' || b == ascii '/' → isBlank b = false :=
    forall_byte (by decide +kernel)
  apply fact b
  simp only [startsComment, Bool.or_eq_true, Bool.and_eq_true] at comment
  simp only [Bool.or_eq_true]
  rcases comment with start | slashes
  · exact .inl start
  · exact .inr slashes.1

section Quoted

theorem quoteEnd?_quote (count : Nat) (rest : Bytes) :
    quoteEnd? count (ascii '"' :: rest) = some (count + 1) := by
  cases rest <;> rfl

theorem quoteEnd?_escape (count : Nat) (c : UInt8) (rest : Bytes) :
    quoteEnd? count (ascii '\\' :: c :: rest) = quoteEnd? (count + 2) rest := by
  rw [quoteEnd?, if_pos rfl]

theorem quoteEnd?_plain (count : Nat) {b : UInt8} (rest : Bytes) (escape : b ≠ ascii '\\')
    (quote : b ≠ ascii '"') : quoteEnd? count (b :: rest) = quoteEnd? (count + 1) rest := by
  cases rest with
  | nil => simp [quoteEnd?, quote]
  | cons c rest => rw [quoteEnd?, if_neg escape, if_neg quote]

theorem escaped_induction {motive : Bytes → Prop} (nil : motive []) (lone : motive [ascii '\\'])
    (escape : ∀ c rest, motive rest → motive (ascii '\\' :: c :: rest))
    (plain : ∀ b rest, b ≠ ascii '\\' → motive rest → motive (b :: rest)) :
    ∀ bs, motive bs
  | [] => nil
  | b :: rest => by
    by_cases isEscape : b = ascii '\\'
    · subst isEscape
      match rest with
      | [] => exact lone
      | c :: rest => exact escape c rest (escaped_induction nil lone escape plain rest)
    · exact plain b rest isEscape (escaped_induction nil lone escape plain rest)

theorem quoted_induction {motive : Bytes → Prop} (nil : motive []) (lone : motive [ascii '\\'])
    (escape : ∀ c rest, motive rest → motive (ascii '\\' :: c :: rest))
    (quote : ∀ rest, motive (ascii '"' :: rest))
    (plain : ∀ b rest, b ≠ ascii '\\' → b ≠ ascii '"' → motive rest → motive (b :: rest))
    (bs : Bytes) : motive bs := by
  apply escaped_induction nil lone escape
  intro b rest isEscape ih
  by_cases isQuote : b = ascii '"'
  · subst isQuote
    exact quote rest
  · exact plain b rest isEscape isQuote ih

/-- The texts between the quotes of a token: escapes, whether known or not, and single bytes that
are neither quotes nor backslashes. -/
inductive Enclosed : Bytes → Prop
  | nil : Enclosed []
  | escape (c : UInt8) {body : Bytes} (rest : Enclosed body) : Enclosed (ascii '\\' :: c :: body)
  | raw {b : UInt8} {body : Bytes} (quote : b ≠ ascii '"') (single : b ≠ ascii '\\')
      (rest : Enclosed body) : Enclosed (b :: body)

theorem Enclosed.quoteEnd?_eq {body : Bytes} (enclosed : Enclosed body) (rest : Bytes)
    (count : Nat) :
    quoteEnd? count (body ++ ascii '"' :: rest) = some (count + body.length + 1) := by
  induction enclosed generalizing count with
  | nil => exact quoteEnd?_quote count rest
  | escape c _ ih =>
    rw [List.cons_append, List.cons_append, quoteEnd?_escape, ih]
    simp only [List.length_cons, Option.some.injEq]
    omega
  | raw quote single _ ih =>
    rw [List.cons_append, quoteEnd?_plain count _ single quote, ih]
    simp only [List.length_cons, Option.some.injEq]
    omega

/-- A string ends at the first quote that is not part of an escape. -/
theorem quoteEnd?_eq_some_iff {bs : Bytes} {count n : Nat} :
    quoteEnd? count bs = some n ↔
      ∃ body rest, Enclosed body ∧ bs = body ++ ascii '"' :: rest ∧
        n = count + body.length + 1 := by
  constructor
  · induction bs using quoted_induction generalizing count with
    | nil => simp [quoteEnd?]
    | lone => simp [quoteEnd?, show ascii '\\' ≠ ascii '"' by decide]
    | escape c rest ih =>
      intro closed
      rw [quoteEnd?_escape] at closed
      obtain ⟨body, more, enclosed, rfl, rfl⟩ := ih closed
      refine ⟨_, more, enclosed.escape c, rfl, ?_⟩
      simp only [List.length_cons]
      omega
    | quote rest =>
      intro closed
      rw [quoteEnd?_quote] at closed
      exact ⟨[], rest, .nil, rfl, (Option.some.inj closed).symm⟩
    | plain b rest single quote ih =>
      intro closed
      rw [quoteEnd?_plain count rest single quote] at closed
      obtain ⟨body, more, enclosed, rfl, rfl⟩ := ih closed
      refine ⟨_, more, .raw quote single enclosed, rfl, ?_⟩
      simp only [List.length_cons]
      omega
  · rintro ⟨body, rest, enclosed, rfl, rfl⟩
    exact enclosed.quoteEnd?_eq rest count

theorem lexeme_string_iff {text : Bytes} :
    Lexeme .string text ↔ ∃ body, Enclosed body ∧ text = ascii '"' :: (body ++ [ascii '"']) := by
  constructor
  · intro lexeme
    cases lexeme with
    | mark known => simpa using punctuation?_mem known
    | quoted closed =>
      obtain ⟨body, rest, enclosed, rfl, length⟩ := quoteEnd?_eq_some_iff.mp closed
      -- The string ends with its token, so nothing follows the quote.
      rw [List.length_append, List.length_cons] at length
      obtain rfl : rest = [] := List.length_eq_zero_iff.mp (by omega)
      exact ⟨body, enclosed, rfl⟩
  · rintro ⟨body, enclosed, rfl⟩
    apply Lexeme.quoted
    rw [enclosed.quoteEnd?_eq, List.length_append, List.length_singleton, Nat.zero_add]

theorem quoteEnd?_append {body : Bytes} (rest : Bytes) {count n : Nat}
    (closed : quoteEnd? count body = some n) : quoteEnd? count (body ++ rest) = some n := by
  obtain ⟨inside, more, enclosed, rfl, rfl⟩ := quoteEnd?_eq_some_iff.mp closed
  rw [List.append_assoc, List.cons_append]
  exact enclosed.quoteEnd?_eq (more ++ rest) count

theorem quoteEnd?_take {body : Bytes} {count n : Nat} (closed : quoteEnd? count body = some n) :
    count < n ∧ n ≤ count + body.length ∧ quoteEnd? count (body.take (n - count)) = some n := by
  obtain ⟨inside, more, enclosed, rfl, rfl⟩ := quoteEnd?_eq_some_iff.mp closed
  have taken : (inside ++ ascii '"' :: more).take (count + inside.length + 1 - count) =
      inside ++ [ascii '"'] := by
    rw [show count + inside.length + 1 - count = inside.length + 1 by omega,
      List.take_length_add_append]
    rfl
  refine ⟨by omega, ?_, ?_⟩
  · rw [List.length_append, List.length_cons]
    omega
  · rw [taken]
    exact enclosed.quoteEnd?_eq [] count

theorem unescapeFrom_plain (done : Bytes) {b : UInt8} (rest : Bytes) (escape : b ≠ ascii '\\') :
    unescapeFrom done (b :: rest) = unescapeFrom (b :: done) rest := by
  cases rest with
  | nil => simp [unescapeFrom, escape]
  | cons c rest => rw [unescapeFrom, if_neg escape]

/-- The escapes of a string: the byte after the backslash, and the byte that they stand for. -/
def escapes : List (UInt8 × UInt8) :=
  [(ascii 'n', 0x0a), (ascii 't', 0x09), (ascii 'r', 0x0d), (ascii '0', 0),
    (ascii '\\', ascii '\\'), (ascii '"', ascii '"')]

inductive Spells : Bytes → Bytes → Prop
  | nil : Spells [] []
  | escape {c b : UInt8} {body bs : Bytes} (known : escapes.lookup c = some b)
      (rest : Spells body bs) : Spells (ascii '\\' :: c :: body) (b :: bs)
  | plain {b : UInt8} {body bs : Bytes} (single : b ≠ ascii '\\') (rest : Spells body bs) :
      Spells (b :: body) (b :: bs)

theorem unescapeFrom_escape (done : Bytes) (c : UInt8) (rest : Bytes) :
    unescapeFrom done (ascii '\\' :: c :: rest) =
      match escapes.lookup c with
      | some b => unescapeFrom (b :: done) rest
      | none => .error (.unknownEscape c) := by
  rw [unescapeFrom, if_pos rfl]
  cases found : escapes.lookup c with
  | some b =>
    obtain ⟨before, after, split, _⟩ := List.lookup_eq_some_iff.mp found
    have listed : (c, b) ∈ escapes := by simp [split]
    simp only [escapes, List.mem_cons, Prod.mk.injEq, List.not_mem_nil, or_false] at listed
    rcases listed with ⟨rfl, rfl⟩ | ⟨rfl, rfl⟩ | ⟨rfl, rfl⟩ | ⟨rfl, rfl⟩ | ⟨rfl, rfl⟩ | ⟨rfl, rfl⟩
    all_goals rfl
  | none =>
    have unlisted := List.lookup_eq_none_iff.mp found
    simp only [escapes, List.forall_mem_cons, bne_iff_ne] at unlisted
    simp [unlisted]

theorem unescapeFrom_eq_ok_iff {body : Bytes} :
    ∀ {done bs : Bytes}, unescapeFrom done body = .ok bs ↔
      ∃ tail, bs = done.reverse ++ tail ∧ Spells body tail := by
  induction body using escaped_induction with
  | nil =>
    intro done bs
    constructor
    · intro read
      exact ⟨[], by simpa [unescapeFrom, eq_comm] using read, .nil⟩
    · rintro ⟨_, rfl, ⟨⟩⟩
      simp [unescapeFrom]
  | lone =>
    intro done bs
    constructor
    · intro read
      simp [unescapeFrom] at read
    · rintro ⟨_, _, spells⟩
      cases spells with
      | plain single => exact absurd rfl single
  | escape c body ih =>
    intro done bs
    rw [unescapeFrom_escape]
    constructor
    · intro read
      split at read
      · rename_i b found
        obtain ⟨tail, rfl, spells⟩ := ih.mp read
        exact ⟨b :: tail, by simp, .escape found spells⟩
      · simp at read
    · rintro ⟨_, rfl, spells⟩
      cases spells with
      | @escape _ b _ tail known spells =>
        rw [known]
        exact ih.mpr ⟨tail, by simp, spells⟩
      | plain single => exact absurd rfl single
  | plain b body single ih =>
    intro done bs
    rw [unescapeFrom_plain done body single, ih]
    constructor
    · rintro ⟨tail, rfl, spells⟩
      exact ⟨b :: tail, by simp, .plain single spells⟩
    · rintro ⟨_, rfl, spells⟩
      cases spells with
      | escape => exact absurd rfl single
      | @plain _ _ tail _ spells => exact ⟨tail, by simp, spells⟩

theorem unquote_eq_ok_iff {text bs : Bytes} :
    unquote text = .ok bs ↔ Spells (text.drop 1).dropLast bs := by
  simp [unquote, unescapeFrom_eq_ok_iff]

theorem unescapeFrom_ne_unclosed {body : Bytes} :
    ∀ {count : Nat} (done : Bytes), quoteEnd? count body = some (count + body.length) →
      unescapeFrom done body.dropLast ≠ .error .unclosed := by
  induction body using quoted_induction with
  | nil => simp [quoteEnd?]
  | lone => simp [quoteEnd?, show ascii '\\' ≠ ascii '"' by decide]
  | escape c body ih =>
    intro count done closed
    rw [quoteEnd?_escape] at closed
    have some_left : body ≠ [] := by
      rintro rfl
      simp [quoteEnd?] at closed
    have rest : ∀ done, unescapeFrom done body.dropLast ≠ .error .unclosed := fun done =>
      ih done (by rw [closed]; simp only [List.length_cons]; congr 1; omega)
    rw [List.dropLast_cons_of_ne_nil (by simp), List.dropLast_cons_of_ne_nil some_left,
      unescapeFrom_escape]
    split
    · exact rest _
    · simp
  | quote body =>
    intro count done closed
    rw [quoteEnd?_quote] at closed
    have empty : body = [] := List.length_eq_zero_iff.mp (by
      simp only [List.length_cons, Option.some.injEq] at closed
      omega)
    rw [empty]
    simp [unescapeFrom]
  | plain b body notEscape notQuote ih =>
    intro count done closed
    rw [quoteEnd?_plain count body notEscape notQuote] at closed
    have some_left : body ≠ [] := by
      rintro rfl
      simp [quoteEnd?] at closed
    rw [List.dropLast_cons_of_ne_nil some_left, unescapeFrom_plain done _ notEscape]
    exact ih _ (by rw [closed]; simp only [List.length_cons]; congr 1; omega)

end Quoted

namespace Lexeme

variable {kind : TokenKind} {text : Bytes}

theorem ne_nil (lexeme : Lexeme kind text) : text ≠ [] := by
  cases lexeme <;> simp

theorem unquote_ne_unclosed (lexeme : Lexeme .string text) :
    2 ≤ text.length ∧ unquote text ≠ .error .unclosed := by
  cases lexeme with
  | mark known => simpa using punctuation?_mem known
  | @quoted body closed =>
    have after := (quoteEnd?_take closed).1
    have inside : quoteEnd? 0 body = some (0 + body.length) := by rw [Nat.zero_add, closed]
    refine ⟨by simp only [List.length_cons]; omega, ?_⟩
    exact unescapeFrom_ne_unclosed [] inside

end Lexeme

section Step

variable (line col : Nat)

theorem scanFrom_nil : scanFrom line col [] = .ok [] := by
  rw [scanFrom]

theorem scanFrom_blank {b : UInt8} (blank : isBlank b = true) (rest : Bytes) :
    scanFrom line col (b :: rest) = scanFrom line (col + 1) rest := by
  rw [scanFrom, if_pos blank]

theorem scanFrom_comment {bs : Bytes} (comment : startsComment bs = true) :
    scanFrom line col bs = .ok [] := by
  cases bs with
  | nil => exact scanFrom_nil line col
  | cons b rest =>
    rw [scanFrom, if_neg (by simp [isBlank_of_startsComment comment]), if_pos comment]

theorem scanFrom_unclosed {rest : Bytes} (unclosed : quoteEnd? 0 rest = none) :
    scanFrom line col (ascii '"' :: rest) =
      .error ⟨.badString (ascii '"' :: rest) .unclosed,
        .onLine line col (col + rest.length + 1)⟩ := by
  rw [scanFrom, if_neg (by decide), if_neg (by simp [startsComment_quote])]
  simp only [show punctuation? (ascii '"') = none from rfl, if_true, unclosed]

/-- No token starts with `b` before `rest`, and it is neither white space nor a comment. -/
structure Stray (b : UInt8) (rest : Bytes) : Prop where
  blank : isBlank b = false
  comment : startsComment (b :: rest) = false
  mark : punctuation? b = none
  quote : b ≠ ascii '"'
  number : startsNumber b rest = false
  name : isNameStart b = false

theorem scanFrom_stray {b : UInt8} {rest : Bytes} (stray : Stray b rest) :
    scanFrom line col (b :: rest) =
      .error ⟨.unexpected "operand" (showByte b), .onLine line col (col + 1)⟩ := by
  rw [scanFrom, if_neg (by simp [stray.blank]), if_neg (by simp [stray.comment])]
  simp only [stray.mark, if_neg stray.quote, stray.number, stray.name, Bool.or_false,
    Bool.false_eq_true, if_false]

private theorem takeWhile_of_ends {body rest : Bytes} (word : ∀ c ∈ body, isNameByte c = true)
    (ends : ∀ b ∈ rest.head?, isNameByte b = false) :
    (body ++ rest).takeWhile isNameByte = body ∧ (body ++ rest).dropWhile isNameByte = rest := by
  rw [List.takeWhile_append_of_pos word, List.dropWhile_append_of_pos word]
  cases rest with
  | nil => simp
  | cons b rest => simp [ends b rfl]

/-- A token that what follows does not make longer is scanned as it is. -/
theorem scanFrom_lexeme {kind : TokenKind} {text rest : Bytes} (lexeme : Lexeme kind text)
    (ends : Ends kind rest) :
    scanFrom line col (text ++ rest) =
      (scanFrom line (col + text.length) rest >>= fun ts =>
        pure (⟨kind, text, col, col + text.length⟩ :: ts)) := by
  cases lexeme with
  | @mark b kind known =>
    obtain ⟨blank, comment, slash, _⟩ := punctuation_facts b (by simp [known])
    rw [List.singleton_append, scanFrom, if_neg (by simp [blank]),
      if_neg (by simp [startsComment_of_ne_slash slash, comment])]
    simp only [known, List.length_singleton]
  | @quoted body closed =>
    rw [List.cons_append, scanFrom, if_neg (by decide), if_neg (by simp [startsComment_quote])]
    simp only [show punctuation? (ascii '"') = none from rfl, if_true,
      quoteEnd?_append rest closed, List.drop_left, List.take_left, List.length_cons]
    rw [Nat.add_assoc, Nat.add_comm 1]
  | @number b body starts word =>
    have sure : startsNumber b (body ++ rest) = true := by
      simp only [startsNumber, Bool.or_eq_true, Bool.and_eq_true] at starts ⊢
      rcases starts with digit | ⟨sign, digit⟩
      · exact .inl digit
      · refine .inr ⟨sign, ?_⟩
        cases body with
        | nil => simp at digit
        | cons c body => exact digit
    obtain ⟨blank, comment, slash, mark, quote⟩ := wordStart_facts b (by
      simp only [startsNumber, Bool.or_eq_true, Bool.and_eq_true] at starts ⊢
      rcases starts with digit | ⟨minus | plus, _⟩
      · exact .inl (.inl (.inl digit))
      · exact .inl (.inl (.inr minus))
      · exact .inl (.inr plus))
    obtain ⟨taken, dropped⟩ := takeWhile_of_ends word (ends (.inl rfl))
    rw [List.cons_append, scanFrom, if_neg (by simp [blank]),
      if_neg (by simp [startsComment_of_ne_slash slash, comment])]
    simp only [mark, if_neg quote, sure, Bool.true_or, if_true, taken, dropped, List.length_cons]
    rw [Nat.add_assoc, Nat.add_comm 1]
  | @ident b body starts word =>
    obtain ⟨blank, comment, slash, mark, quote⟩ := wordStart_facts b (by simp [starts])
    obtain ⟨digit, minus, plus⟩ := nameStart_facts b starts
    have name : startsNumber b (body ++ rest) = false := by simp [startsNumber, digit, minus, plus]
    obtain ⟨taken, dropped⟩ := takeWhile_of_ends word (ends (.inr rfl))
    rw [List.cons_append, scanFrom, if_neg (by simp [blank]),
      if_neg (by simp [startsComment_of_ne_slash slash, comment])]
    simp only [mark, if_neg quote, name, starts, Bool.or_true, Bool.false_eq_true, if_true,
      if_false, taken, dropped, List.length_cons]
    rw [Nat.add_assoc, Nat.add_comm 1]

inductive Front : Bytes → Prop
  | done : Front []
  | blank {b : UInt8} (rest : Bytes) : isBlank b = true → Front (b :: rest)
  | comment {bs : Bytes} : startsComment bs = true → Front bs
  | token {kind : TokenKind} {text : Bytes} (rest : Bytes) :
      Lexeme kind text → Ends kind rest → Front (text ++ rest)
  | unclosed {rest : Bytes} : quoteEnd? 0 rest = none → Front (ascii '"' :: rest)
  | stray {b : UInt8} {rest : Bytes} : Stray b rest → Front (b :: rest)

private theorem ends_dropWhile (kind : TokenKind) (rest : Bytes) :
    Ends kind (rest.dropWhile isNameByte) := by
  intro _ b first
  have stopped := List.head?_dropWhile_not isNameByte rest
  rw [Option.mem_def.mp first] at stopped
  simpa using stopped

private theorem startsNumber_takeWhile {b : UInt8} {rest : Bytes}
    (starts : startsNumber b rest = true) : startsNumber b (rest.takeWhile isNameByte) = true := by
  simp only [startsNumber, Bool.or_eq_true, Bool.and_eq_true] at starts ⊢
  rcases starts with digit | ⟨sign, digit⟩
  · exact .inl digit
  · refine .inr ⟨sign, ?_⟩
    cases rest with
    | nil => simp at digit
    | cons c rest =>
      have digit : isDigit c = true := digit
      rw [List.takeWhile_cons, if_pos (digit_isNameByte c digit)]
      exact digit

theorem front (bs : Bytes) : Front bs := by
  cases bs with
  | nil => exact .done
  | cons b rest =>
    by_cases blank : isBlank b = true
    · exact .blank rest blank
    by_cases comment : startsComment (b :: rest) = true
    · exact .comment comment
    cases mark : punctuation? b with
    | some kind =>
      have ends : Ends kind rest := by
        have kinds := punctuation?_mem mark
        rintro (rfl | rfl) <;> simp at kinds
      exact .token rest (.mark mark) ends
    | none =>
      by_cases quote : b = ascii '"'
      · subst quote
        cases closed : quoteEnd? 0 rest with
        | none => exact .unclosed closed
        | some n =>
          obtain ⟨_, inside, taken⟩ := quoteEnd?_take closed
          rw [Nat.sub_zero] at taken
          have whole : quoteEnd? 0 (rest.take n) = some (rest.take n).length := by
            rw [taken, List.length_take, Nat.min_eq_left (by omega)]
          have view := Front.token (rest.drop n) (.quoted whole) (by rintro (h | h) <;> cases h)
          rwa [List.cons_append, List.take_append_drop] at view
      · have word : ∀ c ∈ rest.takeWhile isNameByte, isNameByte c = true :=
          List.all_eq_true.mp List.all_takeWhile
        by_cases starts : startsNumber b rest = true
        · have view := Front.token (rest.dropWhile isNameByte)
            (.number (startsNumber_takeWhile starts) word) (ends_dropWhile _ rest)
          rwa [List.cons_append, List.takeWhile_append_dropWhile] at view
        · by_cases name : isNameStart b = true
          · have view := Front.token (rest.dropWhile isNameByte) (.ident name word)
              (ends_dropWhile _ rest)
            rwa [List.cons_append, List.takeWhile_append_dropWhile] at view
          · simp only [Bool.not_eq_true] at blank comment starts name
            exact .stray ⟨blank, comment, mark, quote, starts, name⟩

end Step

/-- Induction along a scan: white space and tokens lead on to the rest of the line. -/
theorem scan_induction {motive : Bytes → Prop} (done : motive [])
    (blank : ∀ {b : UInt8} (rest : Bytes), isBlank b = true → motive rest → motive (b :: rest))
    (comment : ∀ {bs : Bytes}, startsComment bs = true → motive bs)
    (token : ∀ {kind : TokenKind} {text : Bytes} (rest : Bytes), Lexeme kind text →
      Ends kind rest → motive rest → motive (text ++ rest))
    (unclosed : ∀ {rest : Bytes}, quoteEnd? 0 rest = none → motive (ascii '"' :: rest))
    (stray : ∀ {b : UInt8} {rest : Bytes}, Stray b rest → motive (b :: rest)) (bs : Bytes) :
    motive bs := by
  induction length : bs.length using Nat.strongRecOn generalizing bs with
  | ind n ih =>
    cases front bs with
    | done => exact done
    | blank rest isBlank =>
      exact blank rest isBlank (ih rest.length (by simp [← length]) rest rfl)
    | comment starts => exact comment starts
    | token rest lexeme ends =>
      have shorter : rest.length < n := by
        have some_text := List.length_pos_iff.mpr lexeme.ne_nil
        rw [← length, List.length_append]
        omega
      exact token rest lexeme ends (ih rest.length shorter rest rfl)
    | unclosed isOpen => exact unclosed isOpen
    | stray isStray => exact stray isStray

end Rv32Asm.Token
