import Rv32Asm.Proofs.Scanning

/-!
Every byte of a line is accounted for.

Up to the place where a scan ends, each byte of the line is part of a token or is white space. A
scan that succeeds ends behind the last byte or before a comment, and a scan that fails ends where
no token starts. Tokens are as long as they can be, so that comment marks inside of a string are
part of it.
-/

set_option autoImplicit false
set_option relaxedAutoImplicit false

namespace Rv32Asm.Token

open Rv32Asm.Text
open Rv32Asm.Outcome

def Shaped : TokenKind → Bytes → Prop
  | .comma, text => text = [ascii ',']
  | .colon, text => text = [ascii ':']
  | .openParen, text => text = [ascii '(']
  | .closeParen, text => text = [ascii ')']
  | .string, text => ∃ body, Enclosed body ∧ text = ascii '"' :: (body ++ [ascii '"'])
  | .number, text => ∃ sign digit more, sign ∈ [[], [ascii '-'], [ascii '+']] ∧
      isDigit digit = true ∧ (∀ c ∈ more, isNameByte c = true) ∧ text = sign ++ digit :: more
  | .ident, text => ∃ first more, isNameStart first = true ∧ (∀ c ∈ more, isNameByte c = true) ∧
      text = first :: more

section Shape

theorem Lexeme.shaped {kind : TokenKind} {text : Bytes} (lexeme : Lexeme kind text) :
    Shaped kind text := by
  cases lexeme with
  | @mark b kind known =>
    simp only [punctuation?] at known
    repeat' split at known
    all_goals cases known <;> simp_all [Shaped]
  | quoted closed => exact lexeme_string_iff.mp (.quoted closed)
  | @number b body starts word =>
    simp only [startsNumber, Bool.or_eq_true, Bool.and_eq_true, beq_iff_eq] at starts
    rcases starts with digit | ⟨sign, digit⟩
    · exact ⟨[], b, body, by simp, digit, word, rfl⟩
    · cases body with
      | nil => simp at digit
      | cons c body =>
        rw [List.forall_mem_cons] at word
        refine ⟨[b], c, body, ?_, digit, word.2, rfl⟩
        rcases sign with rfl | rfl <;> simp
  | @ident b body starts word => exact ⟨b, body, starts, word, rfl⟩

theorem Shaped.lexeme {kind : TokenKind} {text : Bytes} (shaped : Shaped kind text) :
    Lexeme kind text := by
  cases kind with
  | comma | colon | openParen | closeParen =>
    obtain rfl := shaped
    exact .mark rfl
  | string => exact lexeme_string_iff.mpr shaped
  | number =>
    obtain ⟨sign, digit, more, known, isDigit, word, rfl⟩ := shaped
    have digits : ∀ c ∈ digit :: more, isNameByte c = true :=
      List.forall_mem_cons.mpr ⟨by simp [isNameByte, isDigit], word⟩
    simp only [List.mem_cons, List.not_mem_nil, or_false] at known
    rcases known with rfl | rfl | rfl
    · exact .number (by simp [startsNumber, isDigit]) word
    · exact .number (by simp [startsNumber, isDigit]) digits
    · exact .number (by simp [startsNumber, isDigit]) digits
  | ident =>
    obtain ⟨first, more, starts, word, rfl⟩ := shaped
    exact .ident starts word

end Shape

/-- The tokens `ts` stand in a line before column `stop`, with white space around them. -/
structure Covers (bs : Bytes) (stop : Nat) (ts : List Token) : Prop where
  inside : stop ≤ bs.length
  columns : ∀ t ∈ ts, t.start < t.stop ∧ t.stop ≤ stop
  ordered : ts.Pairwise fun a b => a.stop ≤ b.start
  text : ∀ t ∈ ts, t.text = (bs.drop t.start).take (t.stop - t.start)
  shape : ∀ t ∈ ts, Shaped t.kind t.text
  /-- What is in no token is white space. -/
  blank : ∀ k < stop, (∀ t ∈ ts, ¬ (t.start ≤ k ∧ k < t.stop)) →
    ∃ b, bs[k]? = some b ∧ isBlank b = true
  /-- Names and numbers cannot be longer. -/
  longest : ∀ t ∈ ts, t.kind = .ident ∨ t.kind = .number →
    ∀ b, bs[t.stop]? = some b → isNameByte b = false

namespace Covers

variable {bs rest : Bytes} {stop : Nat} {ts : List Token}

theorem start (bs : Bytes) : Covers bs 0 [] where
  inside := Nat.zero_le _
  columns := by simp
  ordered := .nil
  text := by simp
  shape := by simp
  blank := by simp
  longest := by simp

theorem skip {b : UInt8} (covers : Covers bs stop ts) (here : bs.drop stop = b :: rest)
    (white : isBlank b = true) : Covers bs (stop + 1) ts where
  inside := by
    have length := congrArg List.length here
    rw [List.length_drop, List.length_cons] at length
    omega
  columns t member := by
    have columns := covers.columns t member
    omega
  ordered := covers.ordered
  text := covers.text
  shape := covers.shape
  blank k before free := by
    rcases Nat.lt_succ_iff_lt_or_eq.mp before with earlier | rfl
    · exact covers.blank k earlier free
    · refine ⟨b, ?_, white⟩
      have first := congrArg (·[0]?) here
      simpa using first
  longest := covers.longest

theorem push {kind : TokenKind} {text : Bytes} (covers : Covers bs stop ts)
    (here : bs.drop stop = text ++ rest) (lexeme : Lexeme kind text) (ends : Ends kind rest) :
    Covers bs (stop + text.length) (ts ++ [⟨kind, text, stop, stop + text.length⟩]) where
  inside := by
    have length := congrArg List.length here
    have positive := List.length_pos_iff.mpr lexeme.ne_nil
    rw [List.length_drop, List.length_append] at length
    omega
  columns t member := by
    have positive := List.length_pos_iff.mpr lexeme.ne_nil
    rcases List.mem_append.mp member with earlier | last
    · have columns := covers.columns t earlier
      omega
    · obtain rfl := List.mem_singleton.mp last
      simp only
      omega
  ordered := by
    rw [List.pairwise_append]
    refine ⟨covers.ordered, List.pairwise_singleton _ _, ?_⟩
    intro t member last isLast
    obtain rfl := List.mem_singleton.mp isLast
    exact (covers.columns t member).2
  text t member := by
    rcases List.mem_append.mp member with earlier | last
    · exact covers.text t earlier
    · obtain rfl := List.mem_singleton.mp last
      simp [here]
  shape t member := by
    rcases List.mem_append.mp member with earlier | last
    · exact covers.shape t earlier
    · obtain rfl := List.mem_singleton.mp last
      exact lexeme.shaped
  blank k before free := by
    by_cases earlier : k < stop
    · exact covers.blank k earlier fun t member => free t (List.mem_append_left _ member)
    · have taken := free _ (List.mem_append_right ts (List.mem_singleton_self _))
      simp only at taken
      omega
  longest t member word := by
    rcases List.mem_append.mp member with earlier | last
    · exact covers.longest t earlier word
    · obtain rfl := List.mem_singleton.mp last
      intro b after
      apply ends word.symm
      rw [Option.mem_def, ← after, ← List.getElem?_drop, here, ← List.head?_drop]
      simp

end Covers

def CommentAt (bs : Bytes) (k : Nat) : Prop := ∃ mark ∈ commentMarks, mark <+: bs.drop k

theorem commentAt_of_startsComment {bs : Bytes} {k : Nat}
    (starts : startsComment (bs.drop k) = true) : CommentAt bs k := by
  obtain ⟨mark, more, known, same⟩ := exists_commentMark starts
  exact ⟨mark, known, more, same.symm⟩

theorem not_commentAt_of_startsComment {bs : Bytes} {k : Nat}
    (other : startsComment (bs.drop k) = false) : ¬ CommentAt bs k := by
  rintro ⟨mark, known, more, same⟩
  rw [← same, startsComment_append known more] at other
  cases other

theorem CommentAt.exists_byte {bs : Bytes} {k : Nat} (comment : CommentAt bs k) :
    ∃ b ∈ [ascii '#', ascii ';', ascii '/'], bs[k]? = some b := by
  obtain ⟨mark, known, more, same⟩ := comment
  have first : bs[k]? = (mark ++ more)[0]? := by rw [same, List.getElem?_drop, Nat.add_zero]
  rcases mem_commentMarks.mp known with rfl | rfl | rfl <;> exact ⟨_, by simp, first⟩

theorem Shaped.eq_string_of_mem {kind : TokenKind} {text : Bytes} (shaped : Shaped kind text)
    {b : UInt8} (member : b ∈ text) (mark : b ∈ [ascii '#', ascii ';', ascii '/']) :
    kind = .string := by
  have foreign : isNameByte b = false ∧
      b ∉ [ascii ',', ascii ':', ascii '(', ascii ')', ascii '-', ascii '+'] := by
    simp only [List.mem_cons, List.not_mem_nil, or_false] at mark
    rcases mark with rfl | rfl | rfl <;> decide
  cases kind with
  | string => rfl
  | comma | colon | openParen | closeParen =>
    obtain rfl := shaped
    simp_all
  | number =>
    obtain ⟨sign, digit, more, known, isDigit, word, rfl⟩ := shaped
    rcases List.mem_append.mp member with inSign | inDigits
    · simp only [List.mem_cons, List.not_mem_nil, or_false] at known
      rcases known with rfl | rfl | rfl <;> simp_all
    · rcases List.mem_cons.mp inDigits with rfl | inMore
      · simp [isNameByte, isDigit] at foreign
      · simp [word b inMore] at foreign
  | ident =>
    obtain ⟨first, more, starts, word, rfl⟩ := shaped
    rcases List.mem_cons.mp member with rfl | inMore
    · simp [isNameByte, starts] at foreign
    · simp [word b inMore] at foreign

/-- Comment marks before the end of a scan are part of strings, and not the quotes of these. -/
theorem Covers.exists_string {bs : Bytes} {stop : Nat} {ts : List Token}
    (covers : Covers bs stop ts) {k : Nat} (before : k < stop) (comment : CommentAt bs k) :
    ∃ t ∈ ts, t.kind = .string ∧ t.start < k ∧ k < t.stop := by
  obtain ⟨b, mark, here⟩ := comment.exists_byte
  have covered : ∃ t ∈ ts, t.start ≤ k ∧ k < t.stop := by
    by_contra free
    obtain ⟨b', here', white⟩ :=
      covers.blank k before fun t member inside => free ⟨t, member, inside⟩
    obtain rfl := Option.some.inj (here.symm.trans here')
    simp only [List.mem_cons, List.not_mem_nil, or_false] at mark
    rcases mark with rfl | rfl | rfl <;> simp [isBlank, ascii] at white
  obtain ⟨t, member, first, last⟩ := covered
  have part : t.text[k - t.start]? = some b := by
    rw [covers.text t member, List.getElem?_take_of_lt (by omega), List.getElem?_drop,
      Nat.add_sub_cancel' first, here]
  have shaped := covers.shape t member
  have kind := shaped.eq_string_of_mem (List.mem_of_getElem? part) mark
  refine ⟨t, member, kind, ?_, last⟩
  rw [kind] at shaped
  obtain ⟨body, _, text⟩ := shaped
  by_contra notBefore
  rw [show k - t.start = 0 by omega, text] at part
  obtain rfl := Option.some.inj part
  simp [ascii] at mark

/-- The tokens `ts` account for the bytes of a line before column `stop`. -/
structure Accounts (bs : Bytes) (stop : Nat) (ts : List Token) : Prop
    extends Covers bs stop ts where
  /-- A comment mark inside of a string does not end the line. -/
  marks : ∀ k < stop, CommentAt bs k → ∃ t ∈ ts, t.kind = .string ∧ t.start < k ∧ k < t.stop

theorem Covers.accounts {bs : Bytes} {stop : Nat} {ts : List Token} (covers : Covers bs stop ts) :
    Accounts bs stop ts :=
  { covers with marks := fun _ before comment => covers.exists_string before comment }

/-- At a column of a line starts no token, no white space and no comment. -/
structure Stuck (bs : Bytes) (col : Nat) : Prop where
  blank : ∃ b, bs[col]? = some b ∧ isBlank b = false
  comment : ¬ CommentAt bs col
  token : ∀ kind text, Shaped kind text → ¬ text <+: bs.drop col

section Stuck

variable {bs rest : Bytes} {col : Nat}

theorem getElem?_of_drop {b : UInt8} (here : bs.drop col = b :: rest) : bs[col]? = some b := by
  have first := congrArg (·[0]?) here
  simpa using first

theorem startsNumber_append {b : UInt8} {body : Bytes} (starts : startsNumber b body = true)
    (more : Bytes) : startsNumber b (body ++ more) = true := by
  cases body with
  | nil =>
    simp only [startsNumber, List.head?_nil, Option.any_none, Bool.and_false, Bool.or_false]
      at starts
    simp [startsNumber, starts]
  | cons c body => exact starts

theorem Stray.stuck {b : UInt8} (stray : Stray b rest) (here : bs.drop col = b :: rest) :
    Stuck bs col where
  blank := ⟨b, getElem?_of_drop here, stray.blank⟩
  comment := not_commentAt_of_startsComment (here ▸ stray.comment)
  token kind text shaped := by
    rw [here]
    rintro ⟨more, same⟩
    cases shaped.lexeme with
    | mark known =>
      obtain ⟨rfl, rfl⟩ := List.cons.inj same
      simp [stray.mark] at known
    | quoted _ => exact stray.quote (List.cons.inj same).1.symm
    | @number b' body starts _ =>
      obtain ⟨rfl, rfl⟩ := List.cons.inj same
      have none := stray.number
      simp [startsNumber_append starts more] at none
    | ident starts _ =>
      obtain ⟨rfl, _⟩ := List.cons.inj same
      simp [stray.name] at starts

theorem stuck_of_unclosed (isOpen : quoteEnd? 0 rest = none)
    (here : bs.drop col = ascii '"' :: rest) : Stuck bs col where
  blank := ⟨_, getElem?_of_drop here, by decide⟩
  comment := not_commentAt_of_startsComment (by rw [here]; simp [startsComment, ascii])
  token kind text shaped := by
    rw [here]
    rintro ⟨more, same⟩
    cases shaped.lexeme with
    | mark known =>
      obtain ⟨rfl, _⟩ := List.cons.inj same
      cases known
    | quoted closed =>
      obtain ⟨_, rfl⟩ := List.cons.inj same
      simp [quoteEnd?_append more closed] at isOpen
    | number starts _ =>
      obtain ⟨rfl, _⟩ := List.cons.inj same
      simp [startsNumber, isDigit, ascii] at starts
    | ident starts _ =>
      obtain ⟨rfl, _⟩ := List.cons.inj same
      simp [isNameStart, ascii] at starts

end Stuck

/-- The fault of a scan that is stuck at a column: it starts there, and spans the rest of the line
if a string is not closed. -/
def stuckFault (line : Nat) (bs : Bytes) (col : Nat) (b : UInt8) : Fault :=
  if b = ascii '"' then ⟨.badString (bs.drop col) .unclosed, .onLine line col bs.length⟩
  else ⟨.unexpected "operand" (showByte b), .onLine line col (col + 1)⟩

/-- The bytes of a line in view of the result of its scan, where `done` are the tokens before it. -/
def Lossless (line : Nat) (bs : Bytes) (done : List Token) : Except Fault (List Token) → Prop
  | .ok ts => ∃ stop, Accounts bs stop (done ++ ts) ∧ (stop = bs.length ∨ CommentAt bs stop)
  | .error f => ∃ col ts b, Accounts bs col ts ∧ Stuck bs col ∧ bs[col]? = some b ∧
      f = stuckFault line bs col b

theorem Covers.lossless {bs : Bytes} (line : Nat) (rest : Bytes) :
    ∀ {stop : Nat} {ts : List Token}, Covers bs stop ts → bs.drop stop = rest →
      Lossless line bs ts (scanFrom line stop rest) := by
  induction rest using scan_induction with
  | done =>
    intro stop ts covers here
    rw [scanFrom_nil]
    have whole : bs.length ≤ stop := List.drop_eq_nil_iff.mp here
    refine ⟨stop, ?_, .inl (Nat.le_antisymm covers.inside whole)⟩
    rw [List.append_nil]
    exact covers.accounts
  | blank rest white ih =>
    intro stop ts covers here
    rw [scanFrom_blank line stop white]
    apply ih (covers.skip here white)
    rw [← List.drop_drop, here, List.drop_one, List.tail_cons]
  | comment starts =>
    intro stop ts covers here
    rw [scanFrom_comment line stop starts]
    refine ⟨stop, ?_, .inr (commentAt_of_startsComment (here ▸ starts))⟩
    rw [List.append_nil]
    exact covers.accounts
  | @token kind text rest lexeme ends ih =>
    intro stop ts covers here
    have after : bs.drop (stop + text.length) = rest := by
      rw [← List.drop_drop, here, List.drop_left]
    have lossless := ih (covers.push here lexeme ends) after
    rw [scanFrom_lexeme line stop lexeme ends]
    cases scanned : scanFrom line (stop + text.length) rest with
    | error f => rwa [scanned] at lossless
    | ok more =>
      rw [scanned, Lossless, List.append_assoc] at lossless
      exact lossless
  | @unclosed rest isOpen =>
    intro stop ts covers here
    rw [scanFrom_unclosed line stop isOpen]
    have length := congrArg List.length here
    rw [List.length_drop, List.length_cons] at length
    refine ⟨stop, ts, ascii '"', covers.accounts, stuck_of_unclosed isOpen here,
      getElem?_of_drop here, ?_⟩
    rw [stuckFault, if_pos rfl, here, show stop + rest.length + 1 = bs.length by omega]
  | @stray b rest isStray =>
    intro stop ts covers here
    rw [scanFrom_stray line stop isStray]
    refine ⟨stop, ts, b, covers.accounts, isStray.stuck here, getElem?_of_drop here, ?_⟩
    rw [stuckFault, if_neg isStray.quote]

theorem scan_lossless (line : Nat) (bs : Bytes) : Lossless line bs [] (scan line bs) :=
  (Covers.start bs).lossless line bs rfl

end Rv32Asm.Token
