import Rv32Asm.Hover.Docs
import Rv32Asm.Proofs.Literals
import Rv32Asm.Proofs.OperandRoles
import Rv32Asm.Proofs.ReadBack
import Rv32Asm.Proofs.SourceLines
import Rv32Asm.Proofs.Tidy

/-!
Shorthands mean what their descriptions say.

The description of a shorthand is an instruction with names for the operands. With the operands of
a statement in place of the names, it can be written for the statement, on any lines of a source:
the line has the same labels, the instruction is the same, and only columns change.
-/

set_option autoImplicit false
set_option relaxedAutoImplicit false

namespace Rv32Asm

open Rv32Asm.Text
open Rv32Asm.Outcome
open Rv32Asm.Operands
open Rv32Asm.Phrase
open Rv32Asm.Token

namespace Pseudo

def operandNames : Pseudo → List String
  | nop | ret => []
  | mv | not | neg => ["rd", "rs"]
  | j => ["target"]

/-- The words of the description of a shorthand, and what stands between them. -/
def describedWords (p : Pseudo) : List Bytes :=
  (utf8 (Hover.pseudoDoc p).operation).splitBy fun a b => isNameByte a == isNameByte b

/-- The description of a shorthand with the texts of operands in place of their names. -/
def spelledOut (p : Pseudo) (operands : List Bytes) : Bytes :=
  p.describedWords.flatMap fun word =>
    (((p.operandNames.map utf8).zip operands).lookup word).getD word

end Pseudo

def spellOutLine (l : Bytes × Nat) : Bytes :=
  match Token.scan l.2 l.1 >>= Parse.leadingLabels l.2 with
  | .ok (_, head :: rest) =>
    match Pseudo.ofName? head.lowered with
    | some p =>
      l.1.take head.start ++ (p.spelledOut ((withoutCommas rest).map Token.text) ++
        l.1.drop (lastStop head.stop rest))
    | none => l.1
  | _ => l.1

def spellOut (chosen : Nat → Bool) (source : Bytes) : Bytes :=
  unlines ((lines source).zipIdx.map fun l => if chosen l.2 then spellOutLine l else l.1)

namespace Token

theorem Lexeme.isNameByte_head {text : Bytes} (lexeme : Lexeme .ident text) :
    ∃ b body, text = b :: body ∧ isNameByte b = true := by
  cases lexeme with
  | mark known => simpa using punctuation?_mem known
  | @ident b body start _ => exact ⟨b, body, rfl, by rw [isNameByte, start, Bool.true_or]⟩

namespace Scans

variable {col : Nat} {bs : Bytes} {front rest : List Token} {head : Token}

/-- A token ends before a name whatever comes there instead of the name: nothing but white space or
another token keeps the two apart. -/
theorem ends_before (scans : Scans col bs (front ++ head :: rest)) (name : head.kind = .ident)
    {kind : TokenKind} (ends : Ends kind bs) (new : Bytes) :
    Ends kind (bs.take (head.start - col) ++ new) := by
  intro word
  generalize whole : front ++ head :: rest = ts at scans
  cases scans with
  | done | comment => simp at whole
  | blank _ scans =>
    subst whole
    have after := (scans.columns head (by simp)).1
    have further : head.start - col = head.start - (col + 1) + 1 := by omega
    rw [further]
    exact ends word
  | @token _ own text _ _ lexeme _ scans =>
    cases front with
    | nil =>
      -- A word right before the name would have gone on in it.
      obtain ⟨rfl, _⟩ := List.cons.inj whole
      obtain rfl : own = .ident := name
      obtain ⟨b, body, rfl, inside⟩ := lexeme.isNameByte_head
      exact absurd inside (by simp [ends word b rfl])
    | cons t front =>
      obtain ⟨_, rfl⟩ := List.cons.inj whole
      have after := (scans.columns head (by simp)).1
      obtain ⟨b, body, rfl⟩ := List.exists_cons_of_ne_nil lexeme.ne_nil
      rw [List.length_cons] at after
      have further : head.start - col = head.start - (col + 1) + 1 := by omega
      rw [further]
      exact ends word

theorem lexes_before (scans : Scans col bs (front ++ head :: rest)) (name : head.kind = .ident)
    {new : Bytes} {shapes : List (TokenKind × Bytes)} (lexes : Lexes new shapes) :
    Lexes (bs.take (head.start - col) ++ new) (front.map shape ++ shapes) := by
  generalize whole : front ++ head :: rest = ts at scans
  induction scans generalizing front with
  | done | comment => simp at whole
  | @blank col b bytes ts isBlank scans ih =>
    subst whole
    have after := (scans.columns head (by simp)).1
    have further : head.start - col = head.start - (col + 1) + 1 := by omega
    rw [further, List.take_succ_cons, List.cons_append]
    exact (ih rfl).blank isBlank
  | @token col own text bytes ts lexeme ends scans ih =>
    cases front with
    | nil =>
      obtain ⟨rfl, _⟩ := List.cons.inj whole
      simpa using lexes
    | cons t front =>
      obtain ⟨rfl, rfl⟩ := List.cons.inj whole
      have after := (scans.columns head (by simp)).1
      have further : head.start - col = text.length + (head.start - (col + text.length)) := by
        omega
      rw [further, List.take_length_add_append, List.append_assoc]
      exact .token lexeme (scans.ends_before name ends new) (ih rfl)

end Scans

def ofShape (s : TokenKind × Bytes) : Token := ⟨s.1, s.2, 0, 0⟩

def comma : Token := ofShape (.comma, [ascii ','])

def numeral (v : Int) : Token := ofShape (.number, decimalInt v)

/-- The name of a register that can stand in any line. -/
structure IsRegister (t : Token) (r : Register) : Prop where
  names : t.Names r
  lexeme : Lexeme t.kind t.text

theorem IsRegister.of_name {name : String} {r : Register} (known : Register.ofName? name = some r)
    (plain : latin (utf8 name) = name) : (ofShape (word name)).IsRegister r where
  names := ⟨kind_of_word rfl, by rw [← known]; exact congrArg Register.ofName? plain⟩
  lexeme := Register.lexeme_name known

def zeroName : Token := ofShape (word "zero")

theorem isRegister_zeroName : zeroName.IsRegister 0 := .of_name rfl rfl

theorem denotes_zero : (numeral 0).Denotes .twelveBit (.num 0) :=
  .literal rfl (by decide) (by decide)

end Token

section Join

open Rv32Asm.Tidy

variable {before t : Token} (ts : List Token)

theorem joinAfter_word (word : t.kind = .ident ∨ t.kind = .number)
    (apart : before.kind ≠ .openParen) :
    joinAfter before (t :: ts) = ascii ' ' :: (t.text ++ joinAfter t ts) := by
  have loose : isTight before t = false := by
    rcases word with kind | kind <;> simp [isTight, kind, apart]
  simp [joinAfter, loose]

theorem joinAfter_comma : joinAfter before (comma :: ts) = ascii ',' :: joinAfter comma ts := by
  have tight : isTight before comma = true := by simp [isTight, comma, ofShape]
  rw [joinAfter, if_pos tight]
  rfl

theorem join_mnemonic (name : Bytes) (word : t.kind = .ident ∨ t.kind = .number) :
    join (ofShape (.ident, name) :: t :: comma :: ts) =
      name ++ (utf8 " " ++ (t.text ++ (utf8 "," ++ joinAfter comma ts))) := by
  rw [join, joinAfter_word _ word (by simp [ofShape]), joinAfter_comma]
  rfl

theorem join_three {x y z : Token} (name : Bytes) (first : x.kind = .ident ∨ x.kind = .number)
    (second : y.kind = .ident ∨ y.kind = .number) (third : z.kind = .ident ∨ z.kind = .number) :
    join [ofShape (.ident, name), x, comma, y, comma, z] =
      name ++ (utf8 " " ++ (x.text ++ (utf8 ", " ++ (y.text ++ (utf8 ", " ++ z.text))))) := by
  rw [join_mnemonic _ name first, joinAfter_word _ second (by decide), joinAfter_comma,
    joinAfter_word _ third (by decide), joinAfter, List.append_nil]
  rfl

end Join

namespace Parse

inductive StandsFor (cfg : Config) (inst : Instruction) : Bytes → Prop
  | intro {head : Token} {rest : List Token} (kind : head.kind = .ident)
      (lexemes : ∀ t ∈ head :: rest, Lexeme t.kind t.text)
      (form : InstructionForm cfg head.lowered rest inst) :
      StandsFor cfg inst (Tidy.join (head :: rest))

variable {cfg : Config} {inst : Instruction} {rd rs : Register} {a b t : Token}

/-- An instruction that needs no extension can be written with any operands of its forms. -/
theorem standsFor_join {op : Opcode} (listed : op ∈ Opcode.table) (base : op.extension = .base)
    {ps : List Phrase} {operands : List Token} (given : Listed op.literalBounds ps operands)
    (form : op.format.Form op.name ps inst) (lexemes : ∀ t ∈ operands, Lexeme t.kind t.text) :
    StandsFor cfg inst (Tidy.join (ofShape (.ident, utf8 op.name) :: operands)) := by
  obtain ⟨lexeme, lowered⟩ := Opcode.shape_name listed
  refine .intro rfl (List.forall_mem_cons.mpr ⟨lexeme, lexemes⟩) ?_
  have name : (ofShape (.ident, utf8 op.name)).lowered = op.name := lowered
  rw [name]
  have enabled : cfg.hasExtension op.extension.name = true := by
    rw [base]
    exact Config.hasExtension_base cfg
  exact .mnemonic (Opcode.opcode?_name listed enabled) given form

theorem standsFor_immediate {name : String} {funct3 : UInt32}
    (listed : Opcode.ri name funct3 ∈ Opcode.table) (first : a.IsRegister rd)
    (second : b.IsRegister rs) {v : Int} (value : (numeral v).Denotes .twelveBit (.num v)) :
    StandsFor cfg (.i name rd rs (.num v)) (utf8 name ++ (utf8 " " ++ (a.text ++ (utf8 ", " ++
      (b.text ++ (utf8 ", " ++ decimalInt v)))))) := by
  have given : Listed .twelveBit [reg rd, reg rs, val (.num v)] [a, comma, b, comma, numeral v] :=
    .cons (.reg first.names) (.cons (.comma rfl) (.reg second.names)
      (.cons (.comma rfl) (.val value) .nil))
  have text := join_three (utf8 name) first.names.1 second.names.1 value.kind
  rw [show decimalInt v = (numeral v).text from rfl, ← text]
  refine standsFor_join listed rfl given .i ?_
  simp only [List.forall_mem_cons, List.not_mem_nil, false_imp_iff, implies_true, and_true]
  exact ⟨first.lexeme, .mark rfl, second.lexeme, .mark rfl, Number.lexeme_decimalInt v⟩

theorem standsFor_negation (first : a.IsRegister rd) (second : b.IsRegister rs) :
    StandsFor cfg (.r "sub" rd 0 rs) (utf8 "sub" ++ (utf8 " " ++ (a.text ++ (utf8 ", " ++
      (utf8 "zero" ++ (utf8 ", " ++ b.text)))))) := by
  have listed : Opcode.rr "sub" 0b000 0b0100000 .base ∈ Opcode.table := by decide
  have given : Listed .twelveBit [reg rd, reg 0, reg rs] [a, comma, zeroName, comma, b] :=
    .cons (.reg first.names) (.cons (.comma rfl) (.reg isRegister_zeroName.names)
      (.cons (.comma rfl) (.reg second.names) .nil))
  have text := join_three (utf8 "sub") first.names.1 isRegister_zeroName.names.1 second.names.1
  rw [show utf8 "zero" = zeroName.text from rfl, ← text]
  refine standsFor_join listed rfl given .r ?_
  simp only [List.forall_mem_cons, List.not_mem_nil, false_imp_iff, implies_true, and_true]
  exact ⟨first.lexeme, .mark rfl, isRegister_zeroName.lexeme, .mark rfl, second.lexeme⟩

theorem standsFor_jump {target : Operand} (value : t.Denotes .jumpLiteral target)
    (lexeme : Lexeme t.kind t.text) :
    StandsFor cfg (.j "jal" 0 target) (utf8 "jal" ++ (utf8 " " ++ (utf8 "zero" ++ (utf8 "," ++
      (utf8 " " ++ t.text))))) := by
  have listed : Opcode.plain "jal" .jump Opcode.jal 0b000 ∈ Opcode.table := by decide
  have given : Listed .jumpLiteral [reg 0, val target] [zeroName, comma, t] :=
    .cons (.reg isRegister_zeroName.names) (.cons (.comma rfl) (.val value) .nil)
  have text := join_mnemonic [t] (utf8 "jal") isRegister_zeroName.names.1
  rw [joinAfter_word [] value.kind (by decide), Tidy.joinAfter, List.append_nil] at text
  rw [show utf8 " " ++ t.text = ascii ' ' :: t.text from rfl,
    show utf8 "zero" = zeroName.text from rfl, ← text]
  refine standsFor_join listed rfl given .jumpLink ?_
  simp only [List.forall_mem_cons, List.not_mem_nil, false_imp_iff, implies_true, and_true]
  exact ⟨isRegister_zeroName.lexeme, .mark rfl, lexeme⟩

theorem standsFor_return : StandsFor cfg (.jalr "jalr" 0 1 (.num 0)) (utf8 "jalr zero, 0(ra)") := by
  let opening : Token := ofShape (.openParen, [ascii '('])
  let closing : Token := ofShape (.closeParen, [ascii ')'])
  have listed : Opcode.plain "jalr" .jumpRegister Opcode.jalr 0b000 ∈ Opcode.table := by decide
  have ra : (ofShape (word "ra")).IsRegister 1 := .of_name rfl rfl
  have given : Listed .twelveBit [reg 0, mem (some (.num 0)) 1]
      [zeroName, comma, numeral 0, opening, ofShape (word "ra"), closing] :=
    .cons (.reg isRegister_zeroName.names)
      (.cons (.comma rfl) (.offset denotes_zero rfl ra.names rfl) .nil)
  refine standsFor_join listed rfl given .targetMemory ?_
  simp only [List.forall_mem_cons, List.not_mem_nil, false_imp_iff, implies_true, and_true]
  exact ⟨isRegister_zeroName.lexeme, .mark rfl, Number.lexeme_decimalInt 0, .mark rfl, ra.lexeme,
    .mark rfl⟩

end Parse

namespace Pseudo

variable {cfg : Config} {p : Pseudo} {ps : List Phrase} {ts : List Token} {inst : Instruction}
  {rd rs : Register}

theorem exists_pair {bounds : Bounds} (listed : Listed bounds [reg rd, reg rs] ts)
    (lexemes : ∀ t ∈ ts, Lexeme t.kind t.text) :
    ∃ a b, withoutCommas ts = [a, b] ∧ a.IsRegister rd ∧ b.IsRegister rs := by
  have fills := listed.fills
  have inside {t : Token} (member : t ∈ withoutCommas ts) : Lexeme t.kind t.text :=
    lexemes t (List.mem_of_mem_filter member)
  generalize withoutCommas ts = us at fills inside
  cases fills with
  | @cons a _ _ _ first rest =>
    cases rest with
    | @cons b _ _ _ second rest =>
      cases rest
      cases first with
      | register name =>
        cases second with
        | register name' =>
          exact ⟨a, b, rfl, ⟨name, inside (by simp)⟩, ⟨name', inside (by simp)⟩⟩

theorem Form.standsFor (form : p.Form ps inst) (listed : Listed .jumpLiteral ps ts)
    (lexemes : ∀ t ∈ ts, Lexeme t.kind t.text) :
    Parse.StandsFor cfg inst (p.spelledOut ((withoutCommas ts).map Token.text)) := by
  have addi : Opcode.ri "addi" 0b000 ∈ Opcode.table := by decide
  have xori : Opcode.ri "xori" 0b100 ∈ Opcode.table := by decide
  have ones : (numeral (-1)).Denotes .twelveBit (.num (-1)) := .literal rfl (by decide) (by decide)
  cases form with
  | nop =>
    obtain rfl := listed_nil_iff.mp listed
    exact Parse.standsFor_immediate addi isRegister_zeroName isRegister_zeroName denotes_zero
  | ret =>
    obtain rfl := listed_nil_iff.mp listed
    exact Parse.standsFor_return
  | mv =>
    obtain ⟨a, b, operands, first, second⟩ := exists_pair listed lexemes
    rw [operands]
    exact Parse.standsFor_immediate addi first second denotes_zero
  | not =>
    obtain ⟨a, b, operands, first, second⟩ := exists_pair listed lexemes
    rw [operands]
    exact Parse.standsFor_immediate xori first second ones
  | neg =>
    obtain ⟨a, b, operands, first, second⟩ := exists_pair listed lexemes
    have text : Pseudo.neg.spelledOut [a.text, b.text] = utf8 "sub" ++ (utf8 " " ++ (a.text ++
        (utf8 ", " ++ (utf8 "zero" ++ (utf8 ", " ++ (b.text ++ [])))))) := rfl
    rw [operands, List.map_cons, List.map_singleton, text, List.append_nil]
    exact Parse.standsFor_negation first second
  | j =>
    obtain ⟨_, opens, none⟩ := listed_cons_iff.mp listed
    obtain ⟨t, rfl, value⟩ := opens_val_iff.mp opens
    obtain rfl := follow_nil_iff.mp none
    have kept : withoutCommas [t] = [t] := by
      rcases value.kind with kind | kind <;> simp [withoutCommas, kind]
    have text : Pseudo.j.spelledOut [t.text] = utf8 "jal" ++ (utf8 " " ++ (utf8 "zero" ++
        (utf8 "," ++ (utf8 " " ++ (t.text ++ []))))) := rfl
    rw [kept, List.map_singleton, text, List.append_nil]
    exact Parse.standsFor_jump value (lexemes t List.mem_cons_self)

end Pseudo

namespace Token

theorem Trailer.apart {bs : Bytes} (trailer : Trailer bs) : Apart bs := by
  obtain ⟨blank, rest, rfl, blanks, rfl | starts⟩ := trailer
  · exact apart_blanks blanks apart_nil
  · obtain ⟨mark, more, known, rfl⟩ := exists_commentMark starts
    apply apart_blanks blanks
    rcases mem_commentMarks.mp known with rfl | rfl | rfl
    all_goals
      rintro b ⟨⟩
      decide

theorem lastStop_append (col : Nat) (front rest : List Token) (head : Token) :
    lastStop col (front ++ head :: rest) = lastStop head.stop rest := by
  rw [← lastStop_cons col, lastStop, List.getLast?_append_of_ne_nil _ (List.cons_ne_nil head rest),
    lastStop]

theorem Scans.lexes_replaced {bs : Bytes} {front rest ts : List Token} {head : Token}
    (scans : Scans 0 bs (front ++ head :: rest)) (name : head.kind = .ident)
    (lexemes : ∀ t ∈ ts, Lexeme t.kind t.text) :
    Lexes (bs.take head.start ++ (Tidy.join ts ++ bs.drop (lastStop head.stop rest)))
      ((front ++ ts).map shape) := by
  have trailer := scans.trailer.2
  rw [lastStop_append, Nat.sub_zero] at trailer
  have behind := (Tidy.leaves_join lexemes trailer.silent trailer.apart).lexes
  rw [List.map_append]
  exact scans.lexes_before name behind

end Token

namespace Parse

variable {cfg : Config} {n : Nat} {waiting : List Label} {records : List Record}
  {front rest : List Token} {head : Token} {p : Pseudo} {inst : Instruction}

theorem InstructionForm.nextIs_colon {name : String} (form : InstructionForm cfg name rest inst) :
    nextIs .colon rest = false := by
  cases form with
  | shorthand _ listed | mnemonic _ listed => exact listed.nextIs_colon

theorem BodyForm.of_shorthand {s' : State}
    (form : BodyForm cfg n waiting records (head :: rest) s') (known : head.lowered = p.name) :
    ∃ ps inst start stop, head.kind = .ident ∧ Listed .jumpLiteral ps rest ∧ p.Form ps inst ∧
      s' = ⟨[], ⟨waiting.reverse, n, .onLine n start stop, .inst inst⟩ :: records⟩ := by
  have plain {d : Option Directive} (form : DirectiveForm waiting head.lowered rest d) : False := by
    have dotted := form.dotted
    rw [known] at dotted
    exact p.not_dotted dotted
  cases form with
  | setting form =>
    generalize none : (Option.none : Option Statement) = stmt at form
    cases form with
    | inst => simp at none
    | directive _ form => exact (plain form).elim
  | @record _ _ stmt form =>
    generalize some : Option.some stmt = result at form
    cases form with
    | directive _ form => exact (plain form).elim
    | inst kind form =>
      obtain rfl := Option.some.inj some
      generalize head.lowered = name at form known
      subst known
      cases form with
      | mnemonic found => simp [Pseudo.opcode?_name] at found
      | @shorthand q ps _ same listed form =>
        have found := Pseudo.ofName?_eq_some_iff.mpr same
        rw [Pseudo.ofName?_eq_some_iff.mpr rfl] at found
        obtain rfl := Option.some.inj found
        exact ⟨ps, _, _, _, kind, listed, form, rfl⟩

theorem tokens_of_instruction {labels : List Label} (labelled : Labelled n labels front)
    (kind : head.kind = .ident) (form : InstructionForm cfg head.lowered rest inst) (s : State) :
    ∃ start stop, tokens cfg s n (front ++ head :: rest) =
      .ok ⟨[], ⟨(labels.reverse ++ s.waiting).reverse, n, .onLine n start stop, .inst inst⟩ ::
        s.records⟩ := by
  have leading : leadingLabels n (front ++ head :: rest) = .ok (labels, head :: rest) :=
    leadingLabels_eq_ok_iff.mpr ⟨front, rfl, labelled, form.nextIs_colon⟩
  refine ⟨head.start, ((head :: rest).getLastD head).stop, ?_⟩
  rw [tokens, leading, ok_bind]
  simp only [statement_eq_ok_iff.mpr (StatementForm.inst kind form)]
  rfl

/-- Reading the second line does what reading the first one does, up to columns. -/
def Follows (cfg : Config) (a b : Bytes × Nat) : Prop :=
  ∀ s t s' : State, s.move .noColumns = t.move .noColumns → line cfg s a = .ok s' →
    ∃ t', line cfg t b = .ok t' ∧ s'.move .noColumns = t'.move .noColumns

theorem Follows.refl (a : Bytes × Nat) : Follows cfg a a := by
  intro s t s' same read
  have alike := line_alike cfg (a := a) ⟨rfl, rfl⟩ same
  rw [read] at alike
  exact exists_eq_ok_of_both alike

theorem exists_line_of_standsFor {bs text : Bytes} {labels : List Label}
    (scanned : Token.scan n bs = .ok (front ++ head :: rest)) (kind : head.kind = .ident)
    (labelled : Labelled n labels front) (stands : StandsFor cfg inst text) {s t : State}
    (same : s.move .noColumns = t.move .noColumns) (start stop : Nat) :
    ∃ t', line cfg t (bs.take head.start ++ (text ++ bs.drop (lastStop head.stop rest)), n) =
        .ok t' ∧
      State.move .noColumns ⟨[], ⟨(labels.reverse ++ s.waiting).reverse, n, .onLine n start stop,
        .inst inst⟩ :: s.records⟩ = t'.move .noColumns := by
  cases stands with
  | @intro head' rest' kind' lexemes form =>
    have scans := scans_of_scanFrom scanned
    -- The new line has the tokens of the old labels and of the new text, in other columns.
    obtain ⟨us, scanned', shapes⟩ := scans.lexes_replaced kind lexemes n 0
    obtain ⟨_, _, read⟩ := tokens_of_instruction labelled kind' form s
    have tokens := move_noColumns_of_shape shapes
    have alike : both (Fault.move .noColumns) (State.move .noColumns) _ =
        both (Fault.move .noColumns) (State.move .noColumns) (Parse.tokens cfg t n us) :=
      tokens_alike cfg rfl tokens.symm same
    rw [read] at alike
    obtain ⟨t', done, moved⟩ := exists_eq_ok_of_both alike
    refine ⟨t', ?_, moved⟩
    rw [line_eq, Token.scan, scanned', ok_bind]
    exact done

/-- Spelling out the shorthand of a line changes columns only. -/
theorem follows_spellOutLine (l : Bytes × Nat) : Follows cfg l (spellOutLine l, l.2) := by
  obtain ⟨bs, n⟩ := l
  intro s t s' same read
  obtain ⟨_, labels, body, scanned, leading, form⟩ := line_eq_ok_iff_bodyForm.mp read
  rw [spellOutLine, scanned, ok_bind, leading]
  cases body with
  | nil => exact Follows.refl _ s t s' same read
  | cons head rest =>
    cases shorthand : Pseudo.ofName? head.lowered with
    | none =>
      simp only [shorthand]
      exact Follows.refl _ s t s' same read
    | some p =>
      simp only [shorthand]
      obtain ⟨front, rfl, labelled, _⟩ := leadingLabels_eq_ok_iff.mp leading
      obtain ⟨ps, inst, start, stop, kind, listed, meaning, rfl⟩ :=
        form.of_shorthand (Pseudo.ofName?_eq_some_iff.mp shorthand)
      have lexemes : ∀ t ∈ rest, Lexeme t.kind t.text := by
        intro t member
        apply (scans_of_scanFrom scanned).lexemes t
        simp [member]
      exact exists_line_of_standsFor scanned kind labelled (meaning.standsFor listed lexemes) same
        start stop

theorem lines_follow {as bs : List (Bytes × Nat)} (follow : List.Forall₂ (Follows cfg) as bs)
    {s t s' : State} (same : s.move .noColumns = t.move .noColumns)
    (run : as.foldlM (line cfg) s = .ok s') :
    ∃ t', bs.foldlM (line cfg) t = .ok t' ∧ s'.move .noColumns = t'.move .noColumns := by
  induction follow generalizing s t with
  | nil =>
    obtain rfl : s = s' := pure_eq_ok_iff.mp run
    exact ⟨t, rfl, same⟩
  | cons first _ ih =>
    rw [List.foldlM_cons, bind_eq_ok_iff] at run
    obtain ⟨next, read, later⟩ := run
    obtain ⟨next', read', same'⟩ := first s t next same read
    obtain ⟨t', run', last⟩ := ih same' later
    refine ⟨t', ?_, last⟩
    rw [List.foldlM_cons, read', ok_bind]
    exact run'

theorem parse_follows {source source' : Bytes}
    (follow : List.Forall₂ (Follows cfg) (lines source).zipIdx (lines source').zipIdx)
    {us : List Record} (parsed : parse cfg source = .ok us) :
    ∃ vs, parse cfg source' = .ok vs ∧
      us.map (Record.move .noColumns) = vs.map (Record.move .noColumns) := by
  obtain ⟨s, run, idle, rfl⟩ := parse_eq_ok_iff.mp parsed
  obtain ⟨t, run', same⟩ := lines_follow follow rfl run
  have waiting : s.waiting.map (Label.move .noColumns) = t.waiting.map (Label.move .noColumns) :=
    congrArg State.waiting same
  have records : s.records.map (Record.move .noColumns) = t.records.map (Record.move .noColumns) :=
    congrArg State.records same
  refine ⟨t.records.reverse, parse_eq_ok_iff.mpr ⟨t, run', ?_, rfl⟩, ?_⟩
  · rw [noneWaiting_eq_ok_iff] at idle ⊢
    rw [idle] at waiting
    exact List.map_eq_nil_iff.mp waiting.symm
  · rw [List.map_reverse, List.map_reverse, records]

end Parse

theorem assemble_follows {cfg : Config} {source source' : Bytes} {p : Program}
    (follow : List.Forall₂ (Parse.Follows cfg) (lines source).zipIdx (lines source').zipIdx)
    (assembled : assemble cfg source = .ok p) :
    ∃ q, assemble cfg source' = .ok q ∧ SameMeaning (.ok p) (.ok q) := by
  obtain ⟨us, stages⟩ := assemble_stages assembled
  obtain ⟨vs, parsed, same⟩ := Parse.parse_follows follow stages.parsed
  have alike : both (AssembleFault.move .noColumns) (Program.outline .noColumns)
      (assemble cfg source) = both (AssembleFault.move .noColumns) (Program.outline .noColumns)
        (assemble cfg source') := by
    apply assemble_of_parse_alike
    rw [stages.parsed, parsed, both_ok, both_ok, same]
  rw [assembled] at alike
  obtain ⟨q, assembled', outline⟩ := exists_eq_ok_of_both alike
  exact ⟨q, assembled', sameMeaning_of_outline outline⟩

namespace Pseudo

theorem newline_not_mem_spelledOut (p : Pseudo) {operands : List Bytes}
    (whole : ∀ o ∈ operands, newline ∉ o) : newline ∉ p.spelledOut operands := by
  have plain : p.describedWords.all (fun word => !word.contains newline) = true := by
    cases p <;> decide +kernel
  intro inside
  obtain ⟨word, member, inside⟩ := List.mem_flatMap.mp inside
  cases found : ((p.operandNames.map utf8).zip operands).lookup word with
  | none =>
    rw [found, Option.getD_none] at inside
    have other := List.all_eq_true.mp plain word member
    simp [inside] at other
  | some operand =>
    rw [found, Option.getD_some] at inside
    obtain ⟨before, after, split, _⟩ := List.lookup_eq_some_iff.mp found
    have listed : (word, operand) ∈ (p.operandNames.map utf8).zip operands := by simp [split]
    exact whole operand (List.of_mem_zip listed).2 inside

end Pseudo

theorem newline_not_mem_spellOutLine {l : Bytes × Nat} (whole : newline ∉ l.1) :
    newline ∉ spellOutLine l := by
  unfold spellOutLine
  split
  · rename_i labels head rest read
    split
    · rename_i p found
      obtain ⟨ts, scanned, leading⟩ := bind_eq_ok_iff.mp read
      obtain ⟨front, rfl, _⟩ := Parse.leadingLabels_eq_ok_iff.mp leading
      have operands : ∀ o ∈ (withoutCommas rest).map Token.text, newline ∉ o := by
        intro o member inside
        obtain ⟨t, kept, rfl⟩ := List.mem_map.mp member
        have listed : t ∈ front ++ head :: rest := by simp [List.mem_of_mem_filter kept]
        exact whole ((scans_of_scanFrom scanned).text_subset t listed inside)
      simp only [List.mem_append, not_or]
      refine ⟨?_, p.newline_not_mem_spelledOut operands, ?_⟩
      · exact fun inside => whole (List.mem_of_mem_take inside)
      · exact fun inside => whole (List.mem_of_mem_drop inside)
    · exact whole
  · exact whole

theorem lines_spellOut (chosen : Nat → Bool) (source : Bytes) :
    lines (spellOut chosen source) = (lines source).zipIdx.map fun l =>
      if chosen l.2 then spellOutLine l else l.1 := by
  apply lines_unlines
  · simp [lines_ne_nil]
  · intro bs member
    obtain ⟨l, listed, rfl⟩ := List.mem_map.mp member
    have whole := newline_not_mem_lines source l.1 (List.fst_mem_of_mem_zipIdx listed)
    split
    · exact newline_not_mem_spellOutLine whole
    · exact whole

theorem follows_map {cfg : Config} {f : Bytes × Nat → Bytes}
    (each : ∀ l, Parse.Follows cfg l (f l, l.2)) (ls : List Bytes) (n : Nat) :
    List.Forall₂ (Parse.Follows cfg) (ls.zipIdx n) (((ls.zipIdx n).map f).zipIdx n) := by
  induction ls generalizing n with
  | nil => exact .nil
  | cons bs ls ih =>
    rw [List.zipIdx_cons, List.map_cons, List.zipIdx_cons]
    exact .cons (each (bs, n)) (ih (n + 1))

theorem follows_spellOut (cfg : Config) (chosen : Nat → Bool) (source : Bytes) :
    List.Forall₂ (Parse.Follows cfg) (lines source).zipIdx
      (lines (spellOut chosen source)).zipIdx := by
  rw [lines_spellOut]
  apply follows_map
  intro l
  split
  · exact Parse.follows_spellOutLine l
  · exact Parse.Follows.refl l

/-- Shorthands mean what their descriptions say: on any lines, a shorthand can be spelled out, and
the program stays the same. -/
theorem assemble_spellOut {cfg : Config} {source : Bytes} {p : Program}
    (assembled : assemble cfg source = .ok p) (chosen : Nat → Bool) :
    ∃ q, assemble cfg (spellOut chosen source) = .ok q ∧ q.text = p.text ∧ q.data = p.data ∧
      q.words = p.words ∧ q.symbols = p.symbols ∧
      ∀ address, q.lineOf? address = p.lineOf? address := by
  obtain ⟨q, assembled', same⟩ := assemble_follows (follows_spellOut cfg chosen source) assembled
  cases same with
  | program text data words symbols code =>
    refine ⟨q, assembled', text.symm, data.symm, words.symm, symbols.symm, ?_⟩
    intro address
    rw [Program.lineOf?, ← code, Program.lineOf?]

def shorthandSource : Bytes :=
  utf8 "x: y: NOP\n\tMv a0 5 # copy\n not 7,t0//c\nNeg s0 , fp\nJ -0x8\nj y\n j z;\nz: RET"

theorem assemble_spellOut_shorthandSource :
    (assemble .standard shorthandSource).isOk = true ∧
      spellOut (· ≠ 4) shorthandSource =
        utf8 ("x: y: addi zero, zero, 0\n\taddi a0, 5, 0 # copy\n xori 7, t0, -1//c\n" ++
          "sub s0, zero, fp\nJ -0x8\njal zero, y\n jal zero, z;\nz: jalr zero, 0(ra)") ∧
      ∃ p q, assemble .standard shorthandSource = .ok p ∧
        assemble .standard (spellOut (· ≠ 4) shorthandSource) = .ok q ∧ q.text = p.text ∧
        q.data = p.data ∧ q.words = p.words ∧ q.symbols = p.symbols ∧
        ∀ address, q.lineOf? address = p.lineOf? address := by
  have ok : (assemble .standard shorthandSource).isOk = true := by decide +kernel
  obtain ⟨p, assembled⟩ := exists_eq_ok_of_isOk ok
  obtain ⟨q, result⟩ := assemble_spellOut assembled (· ≠ 4)
  exact ⟨ok, by decide +kernel, p, q, assembled, result⟩

end Rv32Asm
