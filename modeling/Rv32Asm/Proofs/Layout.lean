import Rv32Asm.Proofs.Linking
import Rv32Asm.Proofs.Placement
import Rv32Asm.Program

/-!
The layout of a program agrees with its bytes.

Labels are placed by the sizes of records that still hold labels, and the bytes come from the
records after linking. Both agree record by record: a record emits as many bytes as were counted for
it, so that every label points to the bytes of its own record.
-/

set_option autoImplicit false
set_option relaxedAutoImplicit false

namespace Rv32Asm

open Rv32Asm.Outcome
open Rv32Asm.Link

theorem ByteOrder.length_arrange (order : ByteOrder) (bs : Bytes) :
    (order.arrange bs).length = bs.length := by
  cases order <;> simp [arrange]

theorem ByteOrder.length_bytes32 (order : ByteOrder) (w : UInt32) :
    (order.bytes32 w).length = 4 := by
  simp [bytes32, length_arrange]

namespace Directive

theorem length_itemBytes (order : ByteOrder) {size : Int} (known : size ∈ [1, 2, 4])
    (item : Operand) : (itemBytes order size item).length = size.toNat := by
  simp only [List.mem_cons, List.not_mem_nil, or_false] at known
  rcases known with rfl | rfl | rfl
  · simp [itemBytes]
  · simp [itemBytes, ByteOrder.bytes16, ByteOrder.length_arrange]
  · simp [itemBytes, ByteOrder.length_bytes32]

theorem length_flatMap_itemBytes (order : ByteOrder) {size : Int} (known : size ∈ [1, 2, 4])
    (items : List Operand) :
    (items.flatMap (itemBytes order size)).length = items.length * size.toNat := by
  simp [List.length_flatMap, length_itemBytes order known]

theorem ofNat_length_emit (order : ByteOrder) {d : Directive} (wellFormed : d.WellFormed) :
    UInt32.ofNat (d.emit order).length = d.byteCount := by
  cases body : d.body with
  | values items =>
    simp only [WellFormed, body] at wellFormed
    have sizes : UInt32.ofNat d.size.toNat = UInt32.ofInt d.size := by
      have known := wellFormed.2
      simp only [List.mem_cons, List.not_mem_nil, or_false] at known
      rcases known with size | size | size <;> rw [size] <;> rfl
    simp only [emit, byteCount, body]
    rw [length_flatMap_itemBytes order wellFormed.2, UInt32.ofNat_mul, sizes]
  | bytes bs => simp only [emit, byteCount, body]

theorem byteCount_linked {table : SymbolTable} {span : Span} {d linked : Directive}
    (result : Link.directive table span d = .ok linked) (wellFormed : d.WellFormed) :
    linked.byteCount = d.byteCount ∧ linked.WellFormed := by
  rcases directive_cases result with ⟨bs, body, rfl⟩ | ⟨items, items', body, each, rfl⟩
  · exact ⟨rfl, wellFormed⟩
  · have length := each.length_eq
    simp only [WellFormed, body] at wellFormed
    refine ⟨by simp only [byteCount, body, length], ?_, wellFormed.2⟩
    intro empty
    rw [empty, List.length_nil, List.length_eq_zero_iff] at length
    exact wellFormed.1 length

end Directive

def Instruction.emitted (order : ByteOrder) (inst : Instruction) : Bytes :=
  match inst.encode with
  | .ok w => order.bytes32 w
  | .error _ => []

def Record.emitted (order : ByteOrder) (r : Record) : Bytes :=
  match r.statement with
  | .inst i => i.emitted order
  | .data d => d.emit order

def segmentBytes (order : ByteOrder) (seg : Segment) (rs : List Record) : Bytes :=
  rs.flatMap fun r => if r.segment = seg then r.emitted order else []

theorem segmentBytes_append (order : ByteOrder) (seg : Segment) (before after : List Record) :
    segmentBytes order seg (before ++ after) =
      segmentBytes order seg before ++ segmentBytes order seg after :=
  List.flatMap_append

theorem segmentBytes_cons (order : ByteOrder) (seg : Segment) (r : Record) (rs : List Record) :
    segmentBytes order seg (r :: rs) =
      (if r.segment = seg then r.emitted order else []) ++ segmentBytes order seg rs :=
  List.flatMap_cons

/-- The record `r` keeps the labels and the segment of `u` and emits the bytes counted for `u`. -/
structure Record.Emits (order : ByteOrder) (u r : Record) : Prop where
  labels : r.labels = u.labels
  segment : r.segment = u.segment
  size : UInt32.ofNat (r.emitted order).length = u.statement.byteCount

theorem Instruction.Fits.emitted_linked {inst linked : Instruction} {op : Opcode}
    {table : SymbolTable} {pc : UInt32} {span : Span} (order : ByteOrder) (fits : inst.Fits op)
    (result : Link.instruction table pc span inst = .ok linked) :
    ∃ w, linked.encode = .ok w ∧ linked.emitted order = order.bytes32 w := by
  obtain ⟨w, _, encoded⟩ := (instruction_fits fits result).encode (instruction_numeric result)
  exact ⟨w, encoded, by simp only [Instruction.emitted, encoded]⟩

theorem Record.emits_of_statement {u : Record} {table : SymbolTable} {pc : UInt32}
    {stmt : Statement} (order : ByteOrder) (wellFormed : u.statement.WellFormed)
    (result : Link.statement table pc u.span u.statement = .ok stmt) :
    Record.Emits order u { u with statement := stmt } := by
  obtain ⟨labels, line, span, statement⟩ := u
  cases statement with
  | inst i =>
    obtain ⟨i', linked, rfl⟩ := statement_inst_eq_ok_iff.mp result
    obtain ⟨op, fits, _⟩ := wellFormed
    obtain ⟨w, _, bytes⟩ := fits.emitted_linked order linked
    refine ⟨rfl, rfl, ?_⟩
    simp only [Record.emitted, bytes, ByteOrder.length_bytes32]
    rfl
  | data d =>
    obtain ⟨d', linked, rfl⟩ := statement_data_eq_ok_iff.mp result
    obtain ⟨count, wellFormed'⟩ := Directive.byteCount_linked linked wellFormed
    refine ⟨rfl, rfl, ?_⟩
    rw [Record.emitted, Directive.ofNat_length_emit order wellFormed', count]
    rfl

theorem Link.Linked.emits {table : SymbolTable} {pc : UInt32} {us rs : List Record}
    (order : ByteOrder) (linked : Linked table pc us rs)
    (wellFormed : ∀ u ∈ us, u.statement.WellFormed) :
    List.Forall₂ (Record.Emits order) us rs := by
  induction linked with
  | nil pc => exact .nil
  | cons first rest ih =>
    rw [List.forall_mem_cons] at wellFormed
    exact .cons (Record.emits_of_statement order wellFormed.1 first) (ih wellFormed.2)

/-- The sizes counted before linking add up to the number of bytes emitted after it. -/
theorem offsetAfter_eq {order : ByteOrder} {us rs : List Record}
    (emits : List.Forall₂ (Record.Emits order) us rs) (offset : Segment → UInt32)
    (seg : Segment) :
    offsetAfter offset us seg = offset seg + UInt32.ofNat (segmentBytes order seg rs).length := by
  induction emits generalizing offset with
  | nil => simp [offsetAfter, segmentBytes]
  | @cons u r us rs first rest ih =>
    have size : u.sizeIn seg =
        UInt32.ofNat (if r.segment = seg then r.emitted order else []).length := by
      rw [Record.sizeIn, first.segment]
      split
      · exact first.size.symm
      · rfl
    calc offsetAfter offset (u :: us) seg
        = offsetAfter (offsetAfter offset [u]) us seg := rfl
      _ = offset seg + u.sizeIn seg + UInt32.ofNat (segmentBytes order seg rs).length := ih _
      _ = offset seg + UInt32.ofNat (segmentBytes order seg (r :: rs)).length := by
        rw [segmentBytes_cons, List.length_append, UInt32.ofNat_add, size, UInt32.add_assoc]

/-- Words of the instructions among records, with their addresses from `4 * n` on and their
lines. -/
inductive Coded : Nat → List Record → List CodeWord → Prop
  | nil (n : Nat) : Coded n [] []
  | data {n : Nat} {r : Record} {d : Directive} {rs : List Record} {cs : List CodeWord} :
      r.statement = .data d → Coded n rs cs → Coded n (r :: rs) cs
  | inst {n : Nat} {r : Record} {i : Instruction} {w : UInt32} {rs : List Record}
      {cs : List CodeWord} : r.statement = .inst i → i.encode = .ok w → Coded (n + 1) rs cs →
      Coded n (r :: rs) (⟨UInt32.ofNat (4 * n), w, r.line⟩ :: cs)

theorem codeFrom_eq_ok_iff {done code : List CodeWord} {n : Nat} {rs : List Record} :
    codeFrom done n rs = .ok code ↔ ∃ cs, code = done.reverse ++ cs ∧ Coded n rs cs := by
  induction rs generalizing done n with
  | nil =>
    constructor
    · intro result
      obtain rfl := Except.ok.inj result
      exact ⟨[], by simp, .nil n⟩
    · rintro ⟨cs, rfl, ⟨⟩⟩
      simp [codeFrom]
  | cons r rs ih =>
    rw [codeFrom]
    cases statement : r.statement with
    | data d =>
      simp only [ih]
      constructor
      · rintro ⟨cs, rfl, rest⟩
        exact ⟨cs, rfl, .data statement rest⟩
      · rintro ⟨cs, rfl, _ | ⟨_, rest⟩ | ⟨other, _, _⟩⟩
        · exact ⟨cs, rfl, rest⟩
        · simp [statement] at other
    | inst i =>
      simp only
      cases encoded : i.encode with
      | error fault =>
        simp only [reduceCtorEq, false_iff]
        rintro ⟨cs, _, _ | ⟨other, _⟩ | ⟨same, ok, _⟩⟩
        · simp [statement] at other
        · obtain rfl : i = _ := Statement.inst.inj (statement.symm.trans same)
          simp [encoded] at ok
      | ok w =>
        simp only [ih]
        constructor
        · rintro ⟨cs, rfl, rest⟩
          exact ⟨_, by simp, .inst statement encoded rest⟩
        · rintro ⟨cs, rfl, _ | ⟨other, _⟩ | ⟨same, ok, rest⟩⟩
          · simp [statement] at other
          · obtain rfl : i = _ := Statement.inst.inj (statement.symm.trans same)
            obtain rfl := Except.ok.inj (encoded.symm.trans ok)
            exact ⟨_, by simp, rest⟩

theorem Coded.flatMap_bytes32 {n : Nat} {rs : List Record} {cs : List CodeWord}
    (coded : Coded n rs cs) (order : ByteOrder) :
    (cs.map CodeWord.word).flatMap order.bytes32 = segmentBytes order .text rs := by
  induction coded with
  | nil n => rfl
  | @data n r d rs cs statement rest ih =>
    have segment : r.segment = .data := by simp [Record.segment, statement, Statement.segment]
    rw [segmentBytes_cons, segment, if_neg (by simp), List.nil_append, ih]
  | @inst n r i w rs cs statement encoded rest ih =>
    have segment : r.segment = .text := by simp [Record.segment, statement, Statement.segment]
    have bytes : r.emitted order = order.bytes32 w := by
      simp only [Record.emitted, statement, Instruction.emitted, encoded]
    rw [segmentBytes_cons, segment, if_pos rfl, bytes, List.map_cons, List.flatMap_cons, ih]

theorem Coded.encoded {n : Nat} {rs : List Record} {cs : List CodeWord} (coded : Coded n rs cs)
    (order : ByteOrder) {r : Record} (member : r ∈ rs) {i : Instruction}
    (statement : r.statement = .inst i) :
    ∃ w, i.encode = .ok w ∧ r.emitted order = order.bytes32 w := by
  induction coded with
  | nil n => simp at member
  | data other rest ih =>
    rcases List.mem_cons.mp member with rfl | member
    · simp [statement] at other
    · exact ih member
  | inst same ok rest ih =>
    rcases List.mem_cons.mp member with rfl | member
    · obtain rfl := Statement.inst.inj (statement.symm.trans same)
      exact ⟨_, ok, by simp only [Record.emitted, statement, Instruction.emitted, ok]⟩
    · exact ih member

/-- The stages that made a program of a source; `us` are its records before linking. -/
structure Program.Stages (cfg : Config) (source : Bytes) (us : List Record) (p : Program) :
    Prop where
  valid : cfg.validate = .ok ()
  parsed : parse cfg source = .ok us
  placed : SymbolTable.ofRecords us = .ok p.symbols
  linked : Linked p.symbols 0 us p.records
  coded : Coded 0 p.records p.code
  config : p.config = cfg
  data : p.data = p.records.flatMap fun r => r.statement.dataBytes cfg.order

theorem assemble_stages {cfg : Config} {source : Bytes} {p : Program}
    (assembled : assemble cfg source = .ok p) : ∃ us, p.Stages cfg source us := by
  simp only [assemble, bind_eq_ok_iff, pure_eq_ok_iff, mapError_eq_ok_iff, link_eq_ok_iff,
    codeFrom_eq_ok_iff] at assembled
  obtain ⟨_, valid, us, parsed, table, placed, rs, linked, code, ⟨_, rfl, coded⟩, rfl⟩ := assembled
  exact ⟨us, valid, parsed, placed, linked, coded, rfl, rfl⟩

namespace Program

variable {cfg : Config} {source : Bytes} {us : List Record} {p : Program}

theorem source_of_assemble (assembled : assemble cfg source = .ok p) :
    p.source = (Text.lines source).toArray := by
  simp only [assemble, bind_eq_ok_iff, pure_eq_ok_iff] at assembled
  obtain ⟨_, _, _, _, _, _, _, _, _, _, rfl⟩ := assembled
  rfl

def segment (p : Program) : Segment → Bytes
  | .text => p.text
  | .data => p.data

theorem Stages.emits (stages : p.Stages cfg source us) :
    List.Forall₂ (Record.Emits cfg.order) us p.records :=
  stages.linked.emits cfg.order (parse_wellFormed stages.parsed)

theorem Stages.segment_eq (stages : p.Stages cfg source us) (seg : Segment) :
    p.segment seg = segmentBytes cfg.order seg p.records := by
  cases seg with
  | text =>
    rw [segment, text, words, Program.order, stages.config]
    exact stages.coded.flatMap_bytes32 cfg.order
  | data =>
    rw [segment, stages.data, segmentBytes]
    congr 1
    funext r
    cases statement : r.statement <;>
      simp [Statement.dataBytes, Record.segment, Statement.segment, Record.emitted, statement]

/-- The offset of a label is the number of bytes that the earlier records of its segment emit. -/
theorem Stages.find?_label (stages : p.Stages cfg source us) {before after : List Record}
    {r : Record} (split : p.records = before ++ r :: after) {label : Label}
    (member : label ∈ r.labels) :
    p.symbols.find? label.name = some ⟨label.name, r.segment,
      UInt32.ofNat (segmentBytes cfg.order r.segment before).length, label.span.start.line⟩ := by
  have emits := stages.emits
  rw [split] at emits
  have first := List.forall₂_take_append us before (r :: after) emits
  obtain ⟨u, rest, here, _, last⟩ :=
    List.forall₂_cons_right_iff.mp (List.forall₂_drop_append us before (r :: after) emits)
  have parts : us = us.take before.length ++ u :: rest := by
    rw [← last, List.take_append_drop]
  have placed := stages.placed
  rw [parts] at placed
  rw [SymbolTable.find?_of_label placed (here.labels ▸ member), ← here.segment,
    offsetAfter_eq first, UInt32.zero_add]

end Program

end Rv32Asm
