import Rv32Asm.Proofs.Emission
import Rv32Asm.Proofs.Grammar
import Rv32Asm.Proofs.Layout

/-!
The byte order of a configuration changes the places of bytes and nothing else.

Under both orders a source has the same fault or the same records, symbols and words. The text of
one is the text of the other with the bytes of each word reversed. The data have no alignment, so
their groups come from the directives: one group for each value of `.half` and `.word`, and single
bytes for all else.
-/

set_option autoImplicit false
set_option relaxedAutoImplicit false

namespace Rv32Asm

open Rv32Asm.Outcome
open Rv32Asm.Link

/-- Bytes in groups of the given widths, and the same groups in the same places, each reversed. -/
inductive GroupsReversed : List Nat → Bytes → Bytes → Prop
  | nil : GroupsReversed [] [] []
  | cons {w : Nat} {ws : List Nat} {group bs bs' : Bytes} (width : group.length = w)
      (rest : GroupsReversed ws bs bs') :
      GroupsReversed (w :: ws) (group ++ bs) (group.reverse ++ bs')

namespace GroupsReversed

theorem append {ws ws' : List Nat} {a a' b b' : Bytes} (first : GroupsReversed ws a a')
    (second : GroupsReversed ws' b b') : GroupsReversed (ws ++ ws') (a ++ b) (a' ++ b') := by
  induction first with
  | nil => exact second
  | cons width rest ih =>
    rw [List.cons_append, List.append_assoc, List.append_assoc]
    exact .cons width ih

theorem flatMap {α : Type} {widths : α → List Nat} {f g : α → Bytes} {xs : List α}
    (each : ∀ x ∈ xs, GroupsReversed (widths x) (f x) (g x)) :
    GroupsReversed (xs.flatMap widths) (xs.flatMap f) (xs.flatMap g) := by
  induction xs with
  | nil => exact .nil
  | cons x xs ih =>
    rw [List.forall_mem_cons] at each
    rw [List.flatMap_cons, List.flatMap_cons, List.flatMap_cons]
    exact each.1.append (ih each.2)

theorem group (bs : Bytes) : GroupsReversed [bs.length] bs bs.reverse := by
  have one : GroupsReversed [bs.length] (bs ++ []) (bs.reverse ++ []) := .cons rfl .nil
  rwa [List.append_nil, List.append_nil] at one

theorem singles (bs : Bytes) : GroupsReversed (bs.map fun _ => 1) bs bs := by
  induction bs with
  | nil => exact .nil
  | cons b bs ih =>
    have single : [b].length = 1 := rfl
    exact .cons single ih

end GroupsReversed

def Directive.widths (d : Directive) : List Nat :=
  match d.body with
  | .values items =>
    items.map fun _ => if d.name = ".half" then 2 else if d.name = ".word" then 4 else 1
  | .bytes bs => bs.map fun _ => 1

def Statement.widths : Statement → List Nat
  | .inst _ => []
  | .data d => d.widths

/-- Values have the size that goes with the name of the directive. -/
def Statement.Sized : Statement → Prop
  | .inst _ => True
  | .data d => ∀ items, d.body = .values items → (d.name, d.size) ∈ Parse.itemSizes

theorem Parse.statement_sized {cfg : Config} {waiting : List Label} {n : Nat} {span : Span}
    {head : Token} {ts : List Token} {stmt : Statement}
    (read : statement cfg waiting n span head ts = .ok (some stmt)) : stmt.Sized := by
  have form := statement_eq_ok_iff.mp read
  -- A setting has no statement, so the form is split with the result as a variable.
  generalize optional : some stmt = result at form
  cases form with
  | inst kind form =>
    obtain rfl := Option.some.inj optional
    trivial
  | directive kind form =>
    obtain ⟨d, rfl, rfl⟩ := Option.map_eq_some_iff.mp optional.symm
    generalize head.lowered = name at form
    cases form with
    | items known => exact fun _ _ => known
    | text | fill =>
      intro items body
      simp at body

theorem Link.statement_sized {table : SymbolTable} {pc : UInt32} {span : Span}
    {stmt linked : Statement} (result : statement table pc span stmt = .ok linked)
    (sized : stmt.Sized) : linked.Sized := by
  cases stmt with
  | inst i =>
    obtain ⟨_, _, rfl⟩ := statement_inst_eq_ok_iff.mp result
    trivial
  | data d =>
    obtain ⟨d', changed, rfl⟩ := statement_data_eq_ok_iff.mp result
    rcases directive_cases changed with ⟨bs, body, rfl⟩ | ⟨items, items', body, _, rfl⟩
    · exact sized
    · exact fun _ _ => sized items body

theorem Link.Linked.sized {table : SymbolTable} {pc : UInt32} {us rs : List Record}
    (linked : Linked table pc us rs) (sized : ∀ u ∈ us, u.statement.Sized) :
    ∀ r ∈ rs, r.statement.Sized := by
  induction linked with
  | nil pc => simp
  | cons first rest ih =>
    rw [List.forall_mem_cons] at sized ⊢
    exact ⟨statement_sized first sized.1, ih sized.2⟩

theorem Directive.groupsReversed_item {name : String} {size : Int}
    (known : (name, size) ∈ Parse.itemSizes) (item : Operand) :
    GroupsReversed [if name = ".half" then 2 else if name = ".word" then 4 else 1]
      (itemBytes .big size item) (itemBytes .little size item) := by
  simp only [Parse.itemSizes, List.mem_cons, List.not_mem_nil, or_false, Prod.mk.injEq] at known
  -- With the size known, both sides are explicit lists of the same bytes.
  rcases known with ⟨rfl, rfl⟩ | ⟨rfl, rfl⟩ | ⟨rfl, rfl⟩
  · exact .group [_]
  · exact .group [_, _]
  · exact .group [_, _, _, _]

theorem Statement.Sized.groupsReversed {stmt : Statement} (sized : stmt.Sized) :
    GroupsReversed stmt.widths (stmt.dataBytes .big) (stmt.dataBytes .little) := by
  cases stmt with
  | inst i => exact .nil
  | data d =>
    simp only [Statement.widths, Directive.widths, Statement.dataBytes, Directive.emit]
    cases body : d.body with
    | values items =>
      simp only
      rw [List.map_eq_flatMap]
      exact .flatMap fun item _ => Directive.groupsReversed_item (sized items body) item
    | bytes bs => exact .singles bs

/-- Parsing asks a configuration for table entries and nothing else. -/
theorem parse_congr {cfg cfg' : Config} (same : cfg'.opcode? = cfg.opcode?) (source : Bytes) :
    parse cfg' source = parse cfg source := by
  have instructions : Parse.instruction cfg' = Parse.instruction cfg := by
    funext n span head ts
    rw [Parse.instruction, Parse.instruction, same]
  have statements : Parse.statement cfg' = Parse.statement cfg := by
    funext waiting n span head ts
    rw [Parse.statement, Parse.statement, instructions]
  have lines : Parse.line cfg' = Parse.line cfg := by
    funext s numbered
    rw [Parse.line, Parse.line, statements]
  rw [parse, parse, Parse.records, Parse.records, lines]

theorem Config.opcode?_of_extensions {cfg cfg' : Config}
    (same : cfg'.extensions = cfg.extensions) : cfg'.opcode? = cfg.opcode? := by
  have enabled : cfg'.hasExtension = cfg.hasExtension := by
    funext name
    rw [hasExtension, hasExtension, extensionList, extensionList, same]
  funext name
  rw [opcode?, opcode?, enabled]

structure Program.Mirrored (p q : Program) : Prop where
  words : p.words = q.words
  records : p.records = q.records
  symbols : p.symbols = q.symbols
  code : p.code = q.code
  text : GroupsReversed (p.words.map fun _ => 4) p.text q.text
  data : GroupsReversed (p.records.flatMap fun r => r.statement.widths) p.data q.data

theorem Program.Stages.mirrored {cfg cfg' : Config} {source : Bytes} {us : List Record}
    {p : Program} (stages : p.Stages cfg source us) (first : cfg.order = .big)
    (second : cfg'.order = .little) : p.Mirrored (p.under cfg') := by
  have order : p.order = .big := by rw [Program.order, stages.config, first]
  have order' : (p.under cfg').order = .little := second
  refine ⟨rfl, rfl, rfl, rfl, ?_, ?_⟩
  · rw [Program.text, Program.text, order, order', List.map_eq_flatMap]
    refine .flatMap fun w _ => ?_
    exact .group (ByteOrder.big.bytes32 w)
  · have sized : ∀ u ∈ us, u.statement.Sized :=
      parse_forall (fun _ _ _ _ _ _ read => Parse.statement_sized read) stages.parsed
    rw [stages.data, Program.under, first, second]
    exact .flatMap fun r member => (stages.linked.sized sized r member).groupsReversed

/-- What two byte orders make of a source. -/
structure OrdersAgree (big little : Config) (source : Bytes) : Prop where
  fault : ∀ fault, assemble big source = .error fault ↔ assemble little source = .error fault
  program : ∀ p, assemble big source = .ok p → ∃ q, assemble little source = .ok q ∧ p.Mirrored q
  back : ∀ q, assemble little source = .ok q → ∃ p, assemble big source = .ok p ∧ p.Mirrored q

theorem ordersAgree_of_extensions {big little : Config} (valid : big.validate = .ok ())
    (valid' : little.validate = .ok ()) (extensions : little.extensions = big.extensions)
    (first : big.order = .big) (second : little.order = .little) (source : Bytes) :
    OrdersAgree big little source := by
  have same := parse_congr (Config.opcode?_of_extensions extensions) source
  have assembled := assemble_under valid valid' same
  cases result : assemble big source with
  | error fault =>
    rw [result] at assembled
    have failed : assemble little source = .error fault := assembled
    refine ⟨?_, ?_, ?_⟩
    · intro other
      rw [result, failed]
    · intro p ok
      simp [result] at ok
    · intro q ok
      simp [failed] at ok
  | ok p =>
    rw [result] at assembled
    have succeeded : assemble little source = .ok (p.under little) := assembled
    obtain ⟨us, stages⟩ := assemble_stages result
    have mirrored := stages.mirrored first second
    refine ⟨?_, ?_, ?_⟩
    · intro other
      simp [result, succeeded]
    · intro other ok
      obtain rfl := Except.ok.inj (result.symm.trans ok)
      exact ⟨_, succeeded, mirrored⟩
    · intro q ok
      obtain rfl := Except.ok.inj (succeeded.symm.trans ok)
      exact ⟨p, result, mirrored⟩

def mixedSource : Bytes :=
  Text.utf8 ("a: .byte 1\nb: .half 0x1234, c\n.ascii \"xyz\"\nc: .word 0x12345678, b\n.space 3\n" ++
    "lui x1, c\nmul x2, x1, x1")

theorem ordersAgree_mixedSource :
    (assemble ⟨"BIG", some ["m"]⟩ mixedSource).isOk = true ∧
      OrdersAgree ⟨"BIG", some ["m"]⟩ ⟨"Little", some ["m"]⟩ mixedSource := by
  have valid : Config.validate ⟨"BIG", some ["m"]⟩ = .ok () := by decide +kernel
  have valid' : Config.validate ⟨"Little", some ["m"]⟩ = .ok () := by decide +kernel
  have first : Config.order ⟨"BIG", some ["m"]⟩ = .big := by decide +kernel
  have second : Config.order ⟨"Little", some ["m"]⟩ = .little := by decide +kernel
  exact ⟨by decide +kernel, ordersAgree_of_extensions valid valid' rfl first second _⟩

end Rv32Asm
