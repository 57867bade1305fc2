import Rv32Asm.Proofs.Tidy
import Rv32Asm.Proofs.Utf8

/-!
The text of a tidy source.

The lines of a tidy text have the parts of the lines that they come from, so there is nothing left to
put in order. A text of whole characters stays one: tokens and comments are cut out between single
byte characters.
-/

set_option autoImplicit false
set_option relaxedAutoImplicit false

namespace Rv32Asm

open Rv32Asm.Text
open Rv32Asm.Token

namespace Tidy

section Parts

variable (m : Move)

theorem splitLabels_move (ts : List Token) : splitLabels (ts.map (Token.move m)) =
    ((splitLabels ts).1, (splitLabels ts).2.map (Token.move m)) := by
  induction ts using splitLabels.induct with
  | case1 t colon ts isColon labels stmt split ih =>
    have isColon' : (colon.move m).kind = .colon := isColon
    rw [List.map_cons, List.map_cons, splitLabels, if_pos isColon', ih, splitLabels, if_pos isColon]
    rfl
  | case2 t colon ts notColon =>
    have notColon' : (colon.move m).kind ≠ .colon := notColon
    rw [List.map_cons, List.map_cons, splitLabels, if_neg notColon', splitLabels, if_neg notColon]
    rfl
  | case3 ts short =>
    rcases ts with _ | ⟨t, _ | ⟨colon, ts⟩⟩
    · rfl
    · rfl
    · exact absurd rfl (short t colon ts)

theorem joinAfter_move (before : Token) (ts : List Token) :
    joinAfter (before.move m) (ts.map (Token.move m)) = joinAfter before ts := by
  induction ts generalizing before with
  | nil => rfl
  | cons t ts ih =>
    rw [List.map_cons, joinAfter, ih t, joinAfter]
    rfl

theorem join_move (ts : List Token) : join (ts.map (Token.move m)) = join ts := by
  cases ts with
  | nil => rfl
  | cons t ts =>
    rw [List.map_cons, join, joinAfter_move m t ts]
    rfl

theorem parts_of_shape {ts us : List Token} (same : ts.map shape = us.map shape) :
    (splitLabels ts).1 = (splitLabels us).1 ∧
      join (splitLabels ts).2 = join (splitLabels us).2 := by
  have moved := congrArg splitLabels (move_noColumns_of_shape same)
  rw [splitLabels_move, splitLabels_move, Prod.mk.injEq] at moved
  refine ⟨moved.1, ?_⟩
  rw [← join_move .noColumns, moved.2, join_move]

end Parts

theorem ofBytes_render (indent : Nat) (bs : Bytes) :
    Line.ofBytes (Line.render indent (Line.ofBytes bs)) = Line.ofBytes bs := by
  cases scanned : scan 0 bs with
  | error fault => rw [render_of_error scanned]
  | ok ts =>
    obtain ⟨tail, leaves, comment⟩ := leaves_render scanned indent
    obtain ⟨us, scanned', same, behind⟩ := leaves 0 0
    obtain ⟨labels, statement⟩ := parts_of_shape same
    rw [Nat.sub_zero] at behind
    rw [ofBytes_of_scan scanned', behind, labels, statement, comment, ofBytes_of_scan scanned]

end Tidy

namespace Token

theorem getLast?_of_quoteEnd? {body : Bytes} : ∀ {count : Nat},
    quoteEnd? count body = some (count + body.length) → body.getLast? = some (ascii '"') := by
  induction body using quoted_induction with
  | nil => simp [quoteEnd?]
  | lone => simp [quoteEnd?, show ascii '\\' ≠ ascii '"' by decide]
  | escape c body ih =>
    intro count closed
    have shifted : count + (ascii '\\' :: c :: body).length = count + 2 + body.length := by
      simp only [List.length_cons]
      omega
    rw [quoteEnd?_escape, shifted] at closed
    rw [List.getLast?_cons, List.getLast?_cons, ih closed]
    rfl
  | quote body =>
    intro count closed
    rw [quoteEnd?_quote] at closed
    have empty : body.length = 0 := by
      simp only [List.length_cons, Option.some.injEq] at closed
      omega
    rw [List.length_eq_zero_iff.mp empty]
    rfl
  | plain b body notEscape notQuote ih =>
    intro count closed
    have shifted : count + (b :: body).length = count + 1 + body.length := by
      simp only [List.length_cons]
      omega
    rw [quoteEnd?_plain count body notEscape notQuote, shifted] at closed
    rw [List.getLast?_cons, ih closed]
    rfl

theorem small_of_scanned (b : UInt8) :
    isBlank b || isNameByte b || b == ascii '-' || b == ascii '+' || (punctuation? b).isSome →
      b < 0x80 := by
  revert b
  exact forall_byte (by decide +kernel)

theorem Lexeme.last_small {kind : TokenKind} {text : Bytes} (lexeme : Lexeme kind text) :
    ∀ b ∈ text.getLast?, b < 0x80 := by
  have word {b : UInt8} {body : Bytes} (first : b < 0x80) (names : ∀ c ∈ body, isNameByte c = true) :
      ∀ c ∈ (b :: body).getLast?, c < 0x80 := by
    intro c last
    rcases List.mem_cons.mp (List.mem_of_getLast? last) with rfl | member
    · exact first
    · exact small_of_scanned c (by simp [names c member])
  cases lexeme with
  | @mark b _ known =>
    rintro _ ⟨⟩
    exact small_of_scanned b (by simp [known])
  | @quoted body closed =>
    rw [List.getLast?_cons, getLast?_of_quoteEnd? (by rwa [Nat.zero_add])]
    rintro _ ⟨⟩
    decide
  | @number b body starts names =>
    refine word (small_of_scanned b ?_) names
    simp only [startsNumber, Bool.or_eq_true, Bool.and_eq_true] at starts
    rcases starts with digit | ⟨sign | sign, _⟩
    · simp [isNameByte, digit]
    · simp [sign]
    · simp [sign]
  | @ident b body starts names =>
    exact word (small_of_scanned b (by simp [isNameByte, starts])) names

theorem Lexeme.encoded {kind : TokenKind} {text rest : Bytes} (lexeme : Lexeme kind text)
    (encoded : Encoded (text ++ rest)) : Encoded text ∧ Encoded rest := by
  rcases List.eq_nil_or_concat text with empty | ⟨front, b, rfl⟩
  · exact absurd empty lexeme.ne_nil
  · have small : b < 0x80 := lexeme.last_small b (by simp)
    rw [List.concat_eq_append, List.append_assoc, List.singleton_append] at encoded
    rw [List.concat_eq_append]
    exact encoded.cut_ascii small

theorem Scans.encoded {col : Nat} {bs : Bytes} {ts : List Token} (scans : Scans col bs ts)
    (whole : Encoded bs) :
    (∀ t ∈ ts, Encoded t.text) ∧ Encoded (bs.drop (lastStop col ts - col)) := by
  have untouched (col : Nat) {bs : Bytes} (whole : Encoded bs) :
      (∀ t ∈ ([] : List Token), Encoded t.text) ∧ Encoded (bs.drop (lastStop col [] - col)) := by
    rw [show lastStop col [] - col = 0 from Nat.sub_self col, List.drop_zero]
    exact ⟨by simp, whole⟩
  induction scans with
  | done col | comment col _ => exact untouched col whole
  | @blank col b rest ts isBlank scans ih =>
    cases ts with
    | nil => exact untouched col whole
    | cons t ts =>
      have small : b < 0x80 := small_of_scanned b (by simp [isBlank])
      have behind : Encoded rest := (Encoded.single small).behind whole
      rw [drop_lastStop_blank b scans.trailer.1]
      exact ih behind
  | @token col kind text rest ts lexeme _ scans ih =>
    obtain ⟨first, behind⟩ := lexeme.encoded whole
    obtain ⟨texts, last⟩ := ih behind
    rw [drop_lastStop_token rfl scans.trailer.1, List.forall_mem_cons]
    exact ⟨⟨first, texts⟩, last⟩

end Token

theorem parts_tidy (source : Bytes) :
    (lines (tidy source)).map Tidy.Line.ofBytes = (lines source).map Tidy.Line.ofBytes := by
  rw [lines_tidy_eq, List.map_map]
  exact List.map_congr_left fun bs _ => Tidy.ofBytes_render _ bs

/-- How a text is put in order depends on the parts of its lines only. -/
theorem tidy_congr {source source' : Bytes}
    (same : (lines source).map Tidy.Line.ofBytes = (lines source').map Tidy.Line.ofBytes) :
    tidy source = tidy source' := by
  rw [tidy, same, tidy]

theorem Tidy.stable_encoded : Tidy.Stable Encoded where
  nil := .nil
  append := .append
  space := .single (by decide)
  colon := .single (by decide)

theorem Tidy.encoded_render {bs : Bytes} (encoded : Encoded bs) (indent : Nat) :
    Encoded (Line.render indent (Line.ofBytes bs)) := by
  cases scanned : scan 0 bs with
  | error fault =>
    rw [render_of_error scanned]
    exact encoded
  | ok ts =>
    obtain ⟨texts, behind⟩ := (scans_of_scanFrom scanned).encoded encoded
    exact stable_encoded.render scanned texts behind.trim indent

theorem encoded_tidy {source : Bytes} (encoded : Encoded source) : Encoded (tidy source) := by
  apply Encoded.unlines
  intro l member
  rw [List.map_map, List.mem_map] at member
  obtain ⟨bs, fromSource, rfl⟩ := member
  exact Tidy.encoded_render (encoded.lines bs fromSource) _

theorem sameMeaning_tidy (cfg : Config) (source : Bytes) :
    SameMeaning (assemble cfg source) (assemble cfg (tidy source)) := by
  apply sameMeaning_of_lineKept
  rw [lines_tidy_eq, List.forall₂_map_right_iff, List.forall₂_same]
  exact fun bs _ => lineKept_render _ bs

end Rv32Asm
