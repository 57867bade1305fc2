import Rv32Asm.Proofs.Relocation
import Rv32Asm.Proofs.Safety

/-!
Every fault points into the source.

Reading a line takes the spans of its faults from the tokens of the line, from the statement as a
whole and from labels that wait. Placing labels and linking take them from labels and records. All
of these are pieces of one line of the source.
-/

set_option autoImplicit false
set_option relaxedAutoImplicit false

namespace Rv32Asm

open Rv32Asm.Text
open Rv32Asm.Outcome
open Rv32Asm.Operands

/-- A fault at one of the given spans whose cause names no other line. -/
structure Fault.Local (S : Span → Prop) (f : Fault) : Prop where
  span : S f.span
  cause : ∀ label n, f.cause ≠ .duplicateLabel label n

variable {S : Span → Prop}

theorem Fault.Local.mono {T : Span → Prop} {f : Fault} (here : f.Local S)
    (wider : ∀ s, S s → T s) : f.Local T :=
  ⟨wider f.span here.span, here.cause⟩

theorem Number.ofToken_settles {n : Nat} {t : Token} (here : S (t.span n)) :
    Settles (Fault.Local S) (fun _ => True) (ofToken n t) := by
  unfold ofToken
  split
  · trivial
  · exact ⟨here, by simp⟩
  · exact ⟨here, by simp⟩

theorem Bounds.check_settles (b : Bounds) (v : Int) (shown : Bytes) {span : Span} (here : S span) :
    Settles (Fault.Local S) (fun _ => True) (b.check v shown span) := by
  unfold check
  split
  · exact ⟨here, by simp⟩
  · split
    · exact ⟨here, by simp⟩
    · trivial

namespace Operands

variable {c : Context} {ts : List Token}

/-- The spans that the readers of operands can blame. -/
structure Blames (S : Span → Prop) (c : Context) (ts : List Token) : Prop where
  statement : S c.span
  tokens : ∀ t ∈ ts, S (t.span c.line)

theorem Blames.of_suffix {us : List Token} (blames : Blames S c ts) (suffix : us <:+ ts) :
    Blames S c us :=
  ⟨blames.statement, fun t member => blames.tokens t (suffix.subset member)⟩

theorem Blames.skipComma (blames : Blames S c ts) : Blames S c (skipComma ts) :=
  blames.of_suffix (skipComma_suffix ts)

theorem Blames.head {t : Token} (blames : Blames S c (t :: ts)) : S (t.span c.line) :=
  blames.tokens t List.mem_cons_self

theorem Blames.tail {t : Token} (blames : Blames S c (t :: ts)) : Blames S c ts :=
  blames.of_suffix (List.suffix_cons t ts)

theorem next_settles (blames : Blames S c ts) :
    Settles (Fault.Local S) (fun r => S (r.1.span c.line) ∧ Blames S c r.2) (next c ts) := by
  cases ts with
  | nil => exact ⟨blames.statement, by simp⟩
  | cons t ts => exact ⟨blames.head, blames.tail⟩

theorem finish_settles (blames : Blames S c ts) :
    Settles (Fault.Local S) (fun _ => True) (finish c ts) := by
  cases ts with
  | nil => trivial
  | cons t ts => exact ⟨blames.head, by simp⟩

theorem register_settles (blames : Blames S c ts) :
    Settles (Fault.Local S) (fun r => Blames S c r.2) (register c ts) := by
  refine (next_settles blames).bind ?_
  rintro ⟨t, rest⟩ ⟨here, left⟩
  dsimp only
  split
  · split
    · exact left
    · exact ⟨here, by simp⟩
  · exact ⟨here, by simp⟩

theorem registerPair_settles (blames : Blames S c ts) :
    Settles (Fault.Local S) (fun r => Blames S c r.2.2) (registerPair c ts) := by
  refine (register_settles blames).bind ?_
  rintro ⟨a, rest⟩ left
  refine (register_settles left.skipComma).bind ?_
  rintro ⟨b, rest⟩ left
  exact left

theorem operand_settles (bounds : Bounds) {t : Token} (here : S (t.span c.line)) :
    Settles (Fault.Local S) (fun _ => True) (operand c bounds t) := by
  unfold operand
  split
  · refine (Number.ofToken_settles here).bind fun v _ => ?_
    exact (bounds.check_settles v t.text here).bind fun _ _ => trivial
  · trivial
  · exact ⟨here, by simp⟩

theorem immediate_settles (bounds : Bounds) (blames : Blames S c ts) :
    Settles (Fault.Local S) (fun r => Blames S c r.2) (immediate c bounds ts) := by
  refine (next_settles blames).bind ?_
  rintro ⟨t, rest⟩ ⟨here, left⟩
  exact (operand_settles bounds here).bind fun _ _ => left

theorem exactly_settles (kind : TokenKind) (expected : String) (blames : Blames S c ts) :
    Settles (Fault.Local S) (fun rest => Blames S c rest) (exactly c kind expected ts) := by
  refine (next_settles blames).bind ?_
  rintro ⟨t, rest⟩ ⟨here, left⟩
  dsimp only
  split
  · exact left
  · exact ⟨here, by simp⟩

theorem memoryOffset_settles (blames : Blames S c ts) :
    Settles (Fault.Local S) (fun r => Blames S c r.2) (memoryOffset c ts) := by
  unfold memoryOffset
  split
  · exact blames
  · exact immediate_settles .twelveBit blames

theorem memory_settles (blames : Blames S c ts) :
    Settles (Fault.Local S) (fun r => Blames S c r.2.2) (memory c ts) := by
  refine (memoryOffset_settles blames).bind ?_
  rintro ⟨imm, rest⟩ left
  refine (exactly_settles .openParen _ left).bind fun rest left => ?_
  refine (register_settles left).bind ?_
  rintro ⟨r, rest⟩ left
  exact (exactly_settles .closeParen _ left).bind fun rest left => left

theorem moreOperands_settles (bounds : Bounds) (blames : Blames S c ts) :
    Settles (Fault.Local S) (fun _ => True) (moreOperands c bounds ts) := by
  fun_induction moreOperands c bounds ts with
  | case1 => trivial
  | case2 t comma => exact ⟨blames.statement, by simp⟩
  | case3 t comma => exact (operand_settles bounds blames.head).bind fun _ _ => trivial
  | case4 t u ts comma ih =>
    refine (operand_settles bounds blames.tail.head).bind fun v _ => ?_
    exact (ih blames.tail.tail).bind fun _ _ => trivial
  | case5 t u ts comma ih =>
    refine (operand_settles bounds blames.head).bind fun v _ => ?_
    exact (ih blames.tail).bind fun _ _ => trivial

theorem operands_settles (bounds : Bounds) (blames : Blames S c ts) :
    Settles (Fault.Local S) (fun _ => True) (operands c bounds ts) := by
  cases ts with
  | nil => exact ⟨blames.statement, by simp⟩
  | cons t ts =>
    refine (operand_settles bounds blames.head).bind fun v _ => ?_
    exact (moreOperands_settles bounds blames.tail).bind fun _ _ => trivial

end Operands

theorem Pseudo.expand_settles {c : Context} {ts : List Token} (p : Pseudo)
    (blames : Blames S c ts) :
    Settles (Fault.Local S) (fun r => Blames S c r.2) (p.expand c ts) := by
  cases p with
  | nop | ret => exact blames
  | mv | not | neg => exact (registerPair_settles blames).bind fun _ left => left
  | j => exact (immediate_settles .jumpLiteral blames).bind fun _ left => left

namespace Parse

theorem formatOperands_settles {c : Context} {ts : List Token} (op : Opcode)
    (blames : Blames S c ts) :
    Settles (Fault.Local S) (fun r => Blames S c r.2) (formatOperands op c ts) := by
  cases format : op.format with
  | registerRegister =>
    simp only [formatOperands, format]
    refine (register_settles blames).bind ?_
    rintro ⟨rd, rest⟩ left
    exact (registerPair_settles left.skipComma).bind fun _ left => left
  | registerImmediate | branch =>
    simp only [formatOperands, format]
    refine (registerPair_settles blames).bind ?_
    rintro ⟨a, b, rest⟩ left
    exact (immediate_settles _ left.skipComma).bind fun _ left => left
  | load | store =>
    simp only [formatOperands, format]
    refine (register_settles blames).bind ?_
    rintro ⟨r, rest⟩ left
    exact (memory_settles left.skipComma).bind fun _ left => left
  | jump =>
    simp only [formatOperands, format]
    split
    · exact (immediate_settles _ blames).bind fun _ left => left
    · refine (register_settles blames).bind ?_
      rintro ⟨rd, rest⟩ left
      exact (immediate_settles _ left.skipComma).bind fun _ left => left
  | jumpRegister =>
    simp only [formatOperands, format]
    refine (register_settles blames).bind ?_
    rintro ⟨r, rest⟩ left
    dsimp only
    split
    · exact left
    split
    · exact (memory_settles left.skipComma).bind fun _ left => left
    · refine (register_settles left.skipComma).bind ?_
      rintro ⟨rs1, rest⟩ left
      dsimp only
      split
      · exact left
      · exact (immediate_settles _ left.skipComma).bind fun _ left => left
  | upperImmediate =>
    simp only [formatOperands, format]
    refine (register_settles blames).bind ?_
    rintro ⟨rd, rest⟩ left
    exact (immediate_settles _ left.skipComma).bind fun _ left => left

variable {cfg : Config} {waiting : List Label} {n : Nat} {span : Span} {head : Token}
  {ts : List Token}

theorem instruction_settles (here : S span) (tokens : ∀ t ∈ head :: ts, S (t.span n)) :
    Settles (Fault.Local S) (fun _ => True) (instruction cfg n span head ts) := by
  rw [List.forall_mem_cons] at tokens
  simp only [instruction]
  split
  · refine (Pseudo.expand_settles _ ⟨here, tokens.2⟩).bind ?_
    rintro ⟨inst, rest⟩ left
    exact (finish_settles left).bind fun _ _ => trivial
  split
  · exact ⟨tokens.1, by simp⟩
  · refine (formatOperands_settles _ ⟨here, tokens.2⟩).bind ?_
    rintro ⟨inst, rest⟩ left
    exact (finish_settles left).bind fun _ _ => trivial

theorem leadingLabels_settles (tokens : ∀ t ∈ ts, S (t.span n)) :
    Settles (Fault.Local S) (fun r => (∀ label ∈ r.1, S label.span) ∧ r.2 <:+ ts)
      (leadingLabels n ts) := by
  fun_induction leadingLabels n ts with
  | case1 t colon ts isColon isIdent ih =>
    rw [List.forall_mem_cons, List.forall_mem_cons] at tokens
    refine (ih tokens.2.2).bind ?_
    rintro ⟨labels, rest⟩ ⟨more, suffix⟩
    have outer : ts <:+ t :: colon :: ts := (List.suffix_cons colon ts).trans (List.suffix_cons t _)
    exact ⟨List.forall_mem_cons.mpr ⟨tokens.1, more⟩, suffix.trans outer⟩
  | case2 t colon ts isColon notIdent => exact ⟨tokens t List.mem_cons_self, by simp⟩
  | case3 | case4 => exact ⟨by simp, List.suffix_refl _⟩

theorem noneWaiting_settles (labels : ∀ label ∈ waiting, S label.span) :
    Settles (Fault.Local S) (fun _ => True) (noneWaiting waiting) := by
  unfold noneWaiting
  split
  · rename_i label last
    exact ⟨labels label (List.mem_of_getLast? last), by simp⟩
  · trivial

theorem stringData_settles {c : Context} (blames : Blames S c ts) :
    Settles (Fault.Local S) (fun _ => True) (stringData c ts) := by
  refine (next_settles blames).bind ?_
  rintro ⟨t, rest⟩ ⟨here, left⟩
  dsimp only
  split
  · split
    · exact ⟨here, by simp⟩
    · exact (finish_settles left).bind fun _ _ => trivial
  · exact ⟨here, by simp⟩

theorem fillData_settles {c : Context} (blames : Blames S c ts) :
    Settles (Fault.Local S) (fun _ => True) (fillData c ts) := by
  refine (next_settles blames).bind ?_
  rintro ⟨t, rest⟩ ⟨here, left⟩
  dsimp only
  split
  · refine (Number.ofToken_settles here).bind fun v _ => ?_
    refine (Bounds.fill.check_settles v t.text here).bind fun _ _ => ?_
    exact (finish_settles left).bind fun _ _ => trivial
  · exact ⟨here, by simp⟩

theorem directive_settles (labels : ∀ label ∈ waiting, S label.span) (here : S span)
    (tokens : ∀ t ∈ head :: ts, S (t.span n)) :
    Settles (Fault.Local S) (fun _ => True) (directive waiting n span head ts) := by
  rw [List.forall_mem_cons] at tokens
  have blames (name usage : String) : Blames S ⟨n, span, name, usage⟩ ts := ⟨here, tokens.2⟩
  simp only [directive]
  split
  · exact (noneWaiting_settles labels).bind fun _ _ => trivial
  split
  · refine (noneWaiting_settles labels).bind fun _ _ => ?_
    exact (finish_settles (blames _ _)).bind fun _ _ => trivial
  split
  · refine (next_settles (blames _ _)).bind ?_
    rintro ⟨t, rest⟩ ⟨symbol, left⟩
    dsimp only
    split
    · exact (finish_settles left).bind fun _ _ => trivial
    · exact ⟨symbol, by simp⟩
  split
  · exact (stringData_settles (blames _ _)).bind fun _ _ => trivial
  split
  · exact (fillData_settles (blames _ _)).bind fun _ _ => trivial
  split
  · exact (operands_settles _ (blames _ _)).bind fun _ _ => trivial
  · exact ⟨tokens.1, by simp⟩

theorem statement_settles (labels : ∀ label ∈ waiting, S label.span) (here : S span)
    (tokens : ∀ t ∈ head :: ts, S (t.span n)) :
    Settles (Fault.Local S) (fun _ => True) (statement cfg waiting n span head ts) := by
  unfold statement
  split
  · exact ⟨tokens head List.mem_cons_self, by simp⟩
  split
  · exact (directive_settles labels here tokens).bind fun _ _ => trivial
  · exact (instruction_settles here tokens).bind fun _ _ => trivial

/-- The spans that reading the tokens of a line can blame or give to labels and records: each token
alone, and all tokens from one on. -/
structure Spanned (S : Span → Prop) (n : Nat) (ts : List Token) : Prop where
  token : ∀ t ∈ ts, S (t.span n)
  statement : ∀ head rest, head :: rest <:+ ts →
    S (.onLine n head.start ((head :: rest).getLastD head).stop)

structure State.At (S : Span → Prop) (s : State) : Prop where
  waiting : ∀ label ∈ s.waiting, S label.span
  records : ∀ r ∈ s.records, S r.span ∧ ∀ label ∈ r.labels, S label.span

theorem line_settles {s : State} {bs : Bytes}
    (scanned : Settles (Fault.Local S) (Spanned S n) (Token.scan n bs)) (before : s.At S) :
    Settles (Fault.Local S) (State.At S) (line cfg s (bs, n)) := by
  refine scanned.bind fun ts spanned => ?_
  refine (leadingLabels_settles spanned.token).bind ?_
  rintro ⟨labels, rest⟩ ⟨own, suffix⟩
  have waiting : ∀ label ∈ labels.reverse ++ s.waiting, S label.span := by
    intro label member
    rcases List.mem_append.mp member with member | member
    · exact own label (List.mem_reverse.mp member)
    · exact before.waiting label member
  cases rest with
  | nil => exact ⟨waiting, before.records⟩
  | cons head rest =>
    have here := spanned.statement head rest suffix
    have tokens : ∀ t ∈ head :: rest, S (t.span n) := fun t member =>
      spanned.token t (suffix.subset member)
    refine (statement_settles waiting here tokens).bind ?_
    intro stmt _
    cases stmt with
    | none => exact ⟨waiting, before.records⟩
    | some stmt =>
      refine ⟨by simp, ?_⟩
      rw [List.forall_mem_cons]
      exact ⟨⟨here, fun label member => waiting label (List.mem_reverse.mp member)⟩, before.records⟩

end Parse

def Span.Between (n lo hi : Nat) (s : Span) : Prop :=
  ∃ first last, s = .onLine n first last ∧ lo ≤ first ∧ first < last ∧ last ≤ hi

theorem Span.Between.mono {n lo hi lo' hi' : Nat} {s : Span} (between : s.Between n lo hi)
    (starts : lo' ≤ lo) (ends : hi ≤ hi') : s.Between n lo' hi' := by
  obtain ⟨first, last, place, after, some_byte, inside⟩ := between
  exact ⟨first, last, place, by omega, some_byte, by omega⟩

/-- A piece of one line of the text, at least one byte long. -/
structure Span.Inside (text : Bytes) (s : Span) : Prop where
  oneLine : s.start.line = s.stop.line
  some_byte : s.start.char < s.stop.char
  line : ∃ bs, (lines text)[s.start.line]? = some bs ∧ s.stop.char ≤ bs.length

theorem Span.Between.inside {text bs : Bytes} {n : Nat} {s : Span}
    (between : s.Between n 0 bs.length) (line : (lines text)[n]? = some bs) : s.Inside text := by
  obtain ⟨first, last, rfl, _, some_byte, ends⟩ := between
  exact ⟨rfl, some_byte, bs, line, ends⟩

namespace Token

theorem scanFrom_settles (n : Nat) (bs : Bytes) :
    ∀ col, Settles (Fault.Local (Span.Between n col (col + bs.length))) (fun _ => True)
      (scanFrom n col bs) := by
  induction bs using scan_induction with
  | done =>
    intro col
    rw [scanFrom_nil]
    trivial
  | @blank b rest isBlank ih =>
    intro col
    rw [scanFrom_blank n col isBlank]
    have inner : col + 1 + rest.length ≤ col + (b :: rest).length := by
      simp only [List.length_cons]
      omega
    refine (ih (col + 1)).mono (fun f here => ?_) fun _ _ => trivial
    exact here.mono fun s between => between.mono (by omega) inner
  | comment starts =>
    intro col
    rw [scanFrom_comment n col starts]
    trivial
  | @token kind text rest lexeme ends ih =>
    intro col
    have inner : col + text.length + rest.length ≤ col + (text ++ rest).length := by
      simp only [List.length_append]
      omega
    have later : Settles (Fault.Local (Span.Between n col (col + (text ++ rest).length)))
        (fun _ => True) (scanFrom n (col + text.length) rest) := by
      refine (ih (col + text.length)).mono (fun f here => ?_) fun _ _ => trivial
      exact here.mono fun s between => between.mono (by omega) inner
    rw [scanFrom_lexeme n col lexeme ends]
    exact later.bind fun _ _ => trivial
  | @unclosed rest isOpen =>
    intro col
    rw [scanFrom_unclosed n col isOpen]
    refine ⟨⟨col, col + rest.length + 1, rfl, Nat.le_refl col, by omega, ?_⟩, by simp⟩
    simp only [List.length_cons]
    omega
  | @stray b rest isStray =>
    intro col
    rw [scanFrom_stray n col isStray]
    refine ⟨⟨col, col + 1, rfl, Nat.le_refl col, by omega, ?_⟩, by simp⟩
    simp only [List.length_cons]
    omega

theorem Scans.spanned {n : Nat} {bs : Bytes} {ts : List Token} (scans : Scans 0 bs ts) :
    Parse.Spanned (Span.Between n 0 bs.length) n ts := by
  constructor
  · intro t member
    have columns := scans.columns t member
    exact ⟨t.start, t.stop, rfl, Nat.zero_le _, by omega, by omega⟩
  · intro head rest suffix
    have ordered := scans.ordered.sublist suffix.sublist
    rw [List.pairwise_cons] at ordered
    have first := scans.columns head (suffix.subset List.mem_cons_self)
    generalize last : (head :: rest).getLastD head = t
    have member : t ∈ head :: rest := by
      rw [← last, List.getLastD_cons]
      exact List.getLastD_mem_cons
    have columns := scans.columns t (suffix.subset member)
    have after : head.stop ≤ t.stop := by
      rcases List.mem_cons.mp member with rfl | later
      · exact Nat.le_refl _
      · have order := ordered.1 t later
        omega
    exact ⟨head.start, t.stop, rfl, Nat.zero_le _, by omega, by omega⟩

theorem scan_settles (n : Nat) (bs : Bytes) :
    Settles (Fault.Local (Span.Between n 0 bs.length))
      (Parse.Spanned (Span.Between n 0 bs.length) n) (scan n bs) := by
  have faults := scanFrom_settles n bs 0
  rw [Nat.zero_add] at faults
  cases scanned : scan n bs with
  | error f => exact faults.of_error scanned
  | ok ts => exact (scans_of_scanFrom scanned).spanned

end Token

theorem parse_settles (cfg : Config) (source : Bytes) :
    Settles (Fault.Local (Span.Inside source))
      (fun rs => ∀ r ∈ rs, r.span.Inside source ∧ ∀ label ∈ r.labels, label.span.Inside source)
      (parse cfg source) := by
  have step : ∀ numbered ∈ (lines source).zipIdx, ∀ s, Parse.State.At (Span.Inside source) s →
      Settles (Fault.Local (Span.Inside source)) (Parse.State.At (Span.Inside source))
        (Parse.line cfg s numbered) := by
    rintro ⟨bs, n⟩ member s before
    have here : (lines source)[n]? = some bs := List.mem_zipIdx_iff_getElem?.mp member
    have widen (span : Span) (between : span.Between n 0 bs.length) : span.Inside source :=
      between.inside here
    refine Parse.line_settles ((Token.scan_settles n bs).mono ?_ ?_) before
    · intro f known
      exact known.mono widen
    · intro ts spanned
      exact ⟨fun t member => widen _ (spanned.token t member),
        fun head rest suffix => widen _ (spanned.statement head rest suffix)⟩
  refine (foldlM_settles step ⟨by simp, by simp⟩).bind fun s after => ?_
  refine (Parse.noneWaiting_settles after.waiting).bind fun _ _ => ?_
  intro r member
  exact after.records r (List.mem_reverse.mp member)

theorem SymbolTable.define_settles (t : SymbolTable) (s : Symbol) {span : Span} (here : S span) :
    Settles (fun f => S f.span) (fun _ => True) (t.define s span) := by
  unfold define
  split
  · exact here
  · trivial

theorem Placement.place_settles (p : Placement) {r : Record}
    (labels : ∀ label ∈ r.labels, S label.span) :
    Settles (fun f => S f.span) (fun _ => True) (p.place r) := by
  refine Settles.bind (P := fun _ => True) ?_ fun _ _ => trivial
  refine foldlM_settles ?_ trivial
  intro label member t _
  exact t.define_settles _ (labels label member)

theorem SymbolTable.ofRecords_settles {rs : List Record}
    (labels : ∀ r ∈ rs, ∀ label ∈ r.labels, S label.span) :
    Settles (fun f => S f.span) (fun _ => True) (ofRecords rs) := by
  rw [ofRecords_eq]
  refine Settles.bind (P := fun _ => True) ?_ fun _ _ => trivial
  refine foldlM_settles ?_ trivial
  intro r member p _
  exact p.place_settles (labels r member)

namespace Link

variable {table : SymbolTable} {pc : UInt32} {span : Span}

theorem symbol_settles (label : Bytes) (here : S span) :
    Settles (fun f => S f.span) (fun _ => True) (symbol table label span) := by
  unfold symbol
  split
  · trivial
  · exact here

theorem distance_settles (bounds : Bounds) (bits : Nat) (label : Bytes) (s : Symbol)
    (here : S span) :
    Settles (fun f => S f.span) (fun _ => True) (distance bounds bits label s pc span) := by
  unfold distance
  dsimp only
  split
  · exact here
  · split
    · exact here
    · trivial

theorem check_settles (b : Bounds) (v : Int) (shown : Bytes) (here : S span) :
    Settles (fun f => S f.span) (fun _ => True) (b.check v shown span) :=
  (b.check_settles v shown here).mono (fun _ known => known.span) fun _ _ => trivial

theorem labelValue_settles (format : Format) (label : Bytes) (here : S span) :
    Settles (fun f => S f.span) (fun _ => True) (labelValue table pc span format label) := by
  refine (symbol_settles label here).bind fun s _ => ?_
  cases format with
  | branch | jump => exact distance_settles _ _ label s here
  | upperImmediate => exact (check_settles _ _ _ here).bind fun _ _ => trivial
  | registerRegister | registerImmediate | load | store | jumpRegister =>
    exact (check_settles _ _ _ here).bind fun _ _ => trivial

theorem instruction_settles (inst : Instruction) (here : S span) :
    Settles (fun f => S f.span) (fun _ => True) (instruction table pc span inst) := by
  unfold instruction
  split
  · exact (labelValue_settles _ _ here).bind fun _ _ => trivial
  · trivial

theorem item_settles (size : Int) (v : Operand) (here : S span) :
    Settles (fun f => S f.span) (fun _ => True) (item table size span v) := by
  cases v with
  | num v => trivial
  | ref label =>
    refine (symbol_settles label here).bind fun s _ => ?_
    exact (check_settles _ _ _ here).bind fun _ _ => trivial

theorem directive_settles (d : Directive) (here : S span) :
    Settles (fun f => S f.span) (fun _ => True) (directive table span d) := by
  unfold directive
  split
  · trivial
  · rename_i items _
    exact (mapM_settles fun v _ => item_settles d.size v here).bind fun _ _ => trivial

theorem statement_settles (stmt : Statement) (here : S span) :
    Settles (fun f => S f.span) (fun _ => True) (statement table pc span stmt) := by
  cases stmt with
  | inst i => exact (instruction_settles i here).bind fun _ _ => trivial
  | data d => exact (directive_settles d here).bind fun _ _ => trivial

theorem recordsFrom_settles {rs : List Record} (places : ∀ r ∈ rs, S r.span) (done : List Record) :
    Settles (fun f => S f.span) (fun _ => True) (recordsFrom table done pc rs) := by
  induction rs generalizing done pc with
  | nil => trivial
  | cons r rs ih =>
    rw [List.forall_mem_cons] at places
    have first : Settles (fun f => S f.span) (fun _ => True)
        (statement table pc r.span r.statement) := statement_settles r.statement places.1
    rw [recordsFrom]
    split
    · rename_i f failed
      exact first.of_error failed
    · exact ih places.2 _

end Link

/-- A valid configuration leaves only faults of the source, and each of them is about a piece of one
of its lines. -/
theorem faultInside_of_assemble {cfg : Config} {source : Bytes} {e : AssembleFault}
    (valid : cfg.validate = .ok ()) (failed : assemble cfg source = .error e) :
    ∃ f, e = .source f ∧ f.span.Inside source := by
  cases e with
  | config fault =>
    rw [assemble_eq_config_iff, valid] at failed
    simp at failed
  | encode fault => exact absurd failed assemble_ne_encode
  | source f =>
    refine ⟨f, rfl, ?_⟩
    have parsing := parse_settles cfg source
    simp only [assemble, bind_eq_error_iff, mapError_eq_error_iff, mapError_eq_ok_iff,
      pure_ne_error, reduceCtorEq, and_false, exists_false, or_false, false_or,
      AssembleFault.source.injEq, exists_eq_right] at failed
    obtain ⟨_, _, parseFailed | ⟨us, parsed, placeFailed | ⟨table, _, linkFailed⟩⟩⟩ := failed
    · exact (parsing.of_error parseFailed).span
    · have spans := parsing.of_ok parsed
      have placing := SymbolTable.ofRecords_settles fun r member => (spans r member).2
      exact placing.of_error placeFailed
    · have spans := parsing.of_ok parsed
      have linking : Settles (fun f => f.span.Inside source) (fun _ => True) (link table us) :=
        Link.recordsFrom_settles (fun r member => (spans r member).1) []
      exact linking.of_error linkFailed

/-- The label of the second line waits for a statement when the last line changes the section. -/
def danglingSource : Bytes :=
  utf8 "start: nop\n  end:  # nothing\n.global start\n.data"

theorem faultInside_danglingSource :
    ∃ f, assemble .standard danglingSource = .error (.source f) ∧ f.span = .onLine 1 2 5 ∧
      f.span.Inside danglingSource := by
  have valid : Config.standard.validate = .ok () := by decide +kernel
  have run : (assemble .standard danglingSource).map (fun _ => ()) =
      .error (.source ⟨.danglingLabel (utf8 "end"), .onLine 1 2 5⟩) := by
    decide +kernel
  have failed := map_eq_error_iff.mp run
  obtain ⟨f, same, inside⟩ := faultInside_of_assemble valid failed
  obtain rfl := AssembleFault.source.inj same
  exact ⟨_, failed, rfl, inside⟩

end Rv32Asm
