import Mathlib.Data.List.Nodup
import Rv32Asm.Proofs.Outcome
import Rv32Asm.Symbol

/-!
Where labels are placed.

`definitions` lists the symbols of all labels in source order, each with the offset that the records
before it leave in its segment. Placing succeeds exactly if no name is listed twice, and the table
then holds this list.
-/

set_option autoImplicit false
set_option relaxedAutoImplicit false

namespace Rv32Asm

open Rv32Asm.Outcome

namespace Record

def sizeIn (r : Record) (seg : Segment) : UInt32 :=
  if r.segment = seg then r.statement.byteCount else 0

def symbolsAt (r : Record) (offset : UInt32) : List Symbol :=
  r.labels.map fun label => ⟨label.name, r.segment, offset, label.span.start.line⟩

end Record

/-- The next free offset of each segment after records that start at `offset`. -/
def offsetAfter (offset : Segment → UInt32) (rs : List Record) : Segment → UInt32 :=
  rs.foldl (fun next r seg => next seg + r.sizeIn seg) offset

def definitionsFrom (offset : Segment → UInt32) : List Record → List Symbol
  | [] => []
  | r :: rs => r.symbolsAt (offset r.segment) ++ definitionsFrom (offsetAfter offset [r]) rs

def definitions (rs : List Record) : List Symbol :=
  definitionsFrom (fun _ => 0) rs

theorem definitionsFrom_append (offset : Segment → UInt32) (before after : List Record) :
    definitionsFrom offset (before ++ after) =
      definitionsFrom offset before ++ definitionsFrom (offsetAfter offset before) after := by
  induction before generalizing offset with
  | nil => rfl
  | cons r rs ih =>
    rw [List.cons_append, definitionsFrom, definitionsFrom, ih, List.append_assoc]
    rfl

namespace SymbolTable

def Unique (t : SymbolTable) : Prop := (t.entries.map Symbol.name).Nodup

theorem unique_empty : empty.Unique := List.nodup_nil

theorem find?_eq_none_iff {t : SymbolTable} {name : Bytes} :
    t.find? name = none ↔ name ∉ t.entries.map Symbol.name := by
  simp only [find?, List.find?_eq_none, beq_iff_eq, List.mem_map, not_exists, not_and]

theorem find?_of_mem {t : SymbolTable} (unique : t.Unique) {s : Symbol} (member : s ∈ t.entries) :
    t.find? s.name = some s := by
  obtain ⟨entries⟩ := t
  simp only [Unique, find?] at unique member ⊢
  induction entries with
  | nil => simp at member
  | cons e es ih =>
    rw [List.map_cons, List.nodup_cons] at unique
    rcases List.mem_cons.mp member with rfl | member
    · simp
    · have different : e.name ≠ s.name := by
        intro same
        exact unique.1 (same ▸ List.mem_map_of_mem member)
      rw [List.find?_cons_of_neg (by simpa using different)]
      exact ih unique.2 member

theorem define_eq_ok_iff {t t' : SymbolTable} {s : Symbol} {span : Span} :
    t.define s span = .ok t' ↔ s.name ∉ t.entries.map Symbol.name ∧ t' = ⟨s :: t.entries⟩ := by
  unfold define
  split
  · rename_i first found
    have same : first.name = s.name := by simpa using List.find?_some found
    have taken : s.name ∈ t.entries.map Symbol.name :=
      List.mem_map.mpr ⟨first, List.mem_of_find?_eq_some found, same⟩
    simp [taken]
  · rename_i free
    simp [find?_eq_none_iff.mp free, eq_comm]

theorem defineAll_eq_ok_iff {symbol : Label → Symbol} (labels : List Label) {t t' : SymbolTable}
    (unique : t.Unique) :
    labels.foldlM (fun (t : SymbolTable) label => t.define (symbol label) label.span) t = .ok t' ↔
      t' = ⟨(labels.map symbol).reverse ++ t.entries⟩ ∧ t'.Unique := by
  induction labels generalizing t with
  | nil =>
    rw [List.foldlM_nil, pure_eq_ok_iff]
    constructor
    · rintro rfl
      exact ⟨rfl, unique⟩
    · rintro ⟨rfl, _⟩
      rfl
  | cons label labels ih =>
    rw [List.foldlM_cons, bind_eq_ok_iff]
    constructor
    · rintro ⟨next, defined, rest⟩
      obtain ⟨fresh, rfl⟩ := define_eq_ok_iff.mp defined
      have uniqueNext : Unique ⟨symbol label :: t.entries⟩ := List.nodup_cons.mpr ⟨fresh, unique⟩
      obtain ⟨rfl, uniqueAll⟩ := (ih uniqueNext).mp rest
      exact ⟨by simp, uniqueAll⟩
    · rintro ⟨rfl, uniqueAll⟩
      have uniqueNext : Unique ⟨symbol label :: t.entries⟩ := by
        simp only [Unique, List.map_cons, List.reverse_cons, List.append_assoc,
          List.singleton_append, List.map_append] at uniqueAll
        exact (List.nodup_append.mp uniqueAll).2.1
      have fresh := (List.nodup_cons.mp uniqueNext).1
      refine ⟨_, define_eq_ok_iff.mpr ⟨fresh, rfl⟩, (ih uniqueNext).mpr ⟨by simp, uniqueAll⟩⟩

end SymbolTable

namespace Placement

theorem eq_of_offset_of_table {p q : Placement} (offsets : p.offset = q.offset)
    (tables : p.table = q.table) : p = q := by
  obtain ⟨text, data, table⟩ := p
  obtain ⟨text', data', table'⟩ := q
  obtain rfl : text = text' := congrFun offsets .text
  obtain rfl : data = data' := congrFun offsets .data
  obtain rfl : table = table' := tables
  rfl

theorem offset_advance (p : Placement) (r : Record) :
    (p.advance r.statement.byteCount r.segment).offset = offsetAfter p.offset [r] := by
  funext seg
  rw [offsetAfter, List.foldl_cons, List.foldl_nil]
  cases here : r.segment <;> cases seg <;> simp [advance, offset, Record.sizeIn, here]

theorem table_advance (p : Placement) (size : UInt32) (seg : Segment) :
    (p.advance size seg).table = p.table := by
  cases seg <;> rfl

/-- Places a record, with its bytes counted anew. -/
def place (p : Placement) (r : Record) : Except Fault Placement :=
  p.placeSized r r.statement.byteCount

/-- What placing a record does: its labels get the next free offset of its segment, and the
segment grows by its bytes. -/
theorem place_eq_ok_iff {p p' : Placement} {r : Record} (unique : p.table.Unique) :
    p.place r = .ok p' ↔
      p'.offset = offsetAfter p.offset [r] ∧
        p'.table = ⟨(r.symbolsAt (p.offset r.segment)).reverse ++ p.table.entries⟩ ∧
        p'.table.Unique := by
  simp only [place, placeSized, bind_eq_ok_iff, pure_eq_ok_iff,
    SymbolTable.defineAll_eq_ok_iff _ unique]
  constructor
  · rintro ⟨table, ⟨rfl, uniqueNext⟩, rfl⟩
    refine ⟨offset_advance _ r, table_advance _ _ _, ?_⟩
    rw [table_advance]
    exact uniqueNext
  · rintro ⟨offsets, table, uniqueNext⟩
    refine ⟨p'.table, ⟨table, uniqueNext⟩, eq_of_offset_of_table ?_ (table_advance _ _ _)⟩
    rw [offset_advance, offsets]
    rfl

theorem placeAll_eq_ok_iff (rs : List Record) {p p' : Placement} (unique : p.table.Unique) :
    rs.foldlM place p = .ok p' ↔
      p'.offset = offsetAfter p.offset rs ∧
        p'.table = ⟨(definitionsFrom p.offset rs).reverse ++ p.table.entries⟩ ∧
        p'.table.Unique := by
  induction rs generalizing p with
  | nil =>
    rw [List.foldlM_nil, pure_eq_ok_iff]
    constructor
    · rintro rfl
      exact ⟨rfl, rfl, unique⟩
    · rintro ⟨offsets, table, _⟩
      exact (eq_of_offset_of_table offsets table).symm
  | cons r rs ih =>
    rw [List.foldlM_cons, bind_eq_ok_iff]
    constructor
    · rintro ⟨next, step, rest⟩
      obtain ⟨offsets, table, uniqueNext⟩ := (place_eq_ok_iff unique).mp step
      obtain ⟨offsets', table', unique'⟩ := (ih uniqueNext).mp rest
      refine ⟨by rw [offsets', offsets]; rfl, ?_, unique'⟩
      rw [table', table, offsets, definitionsFrom]
      simp
    · rintro ⟨offsets, table, uniqueAll⟩
      rw [definitionsFrom, List.reverse_append, List.append_assoc] at table
      let next : Placement := ⟨offsetAfter p.offset [r] .text, offsetAfter p.offset [r] .data,
        ⟨(r.symbolsAt (p.offset r.segment)).reverse ++ p.table.entries⟩⟩
      have offsetNext : next.offset = offsetAfter p.offset [r] := by
        funext seg
        cases seg <;> rfl
      have uniqueNext : next.table.Unique := by
        rw [SymbolTable.Unique, table, List.map_append] at uniqueAll
        exact (List.nodup_append.mp uniqueAll).2.1
      refine ⟨next, (place_eq_ok_iff unique).mpr ⟨offsetNext, rfl, uniqueNext⟩,
        (ih uniqueNext).mpr ⟨?_, ?_, uniqueAll⟩⟩
      · rw [offsets, offsetNext]
        rfl
      · rw [table, offsetNext]

end Placement

namespace Counted

variable (last : Counted)

theorem count_next (bs : Bytes) : (last.next bs).count = UInt32.ofNat bs.length := by
  by_cases same : (UInt32.ofNat bs.length == last.count) = true
  · have kept : last.next bs = last := if_pos same
    rw [kept, beq_iff_eq.mp same]
  · have fresh : last.next bs = of bs := if_neg same
    rw [fresh]
    rfl

theorem size_eq (s : Statement) : (last.size s).1 = s.byteCount := by
  unfold size
  split
  · exact last.count_next _
  · rfl

/-- Remembering what was counted last changes no placement. -/
theorem foldlM_place (rs : List Record) (p : Placement) :
    (do let s ← rs.foldlM Counted.place (p, last); pure s.1) = rs.foldlM Placement.place p := by
  induction rs generalizing p last with
  | nil => rfl
  | cons r rs ih =>
    rw [List.foldlM_cons, List.foldlM_cons, Counted.place, size_eq, Placement.place]
    cases p.placeSized r r.statement.byteCount with
    | error fault => rfl
    | ok next => exact ih (last.size r.statement).2 next

end Counted

theorem SymbolTable.ofRecords_eq (rs : List Record) :
    ofRecords rs = (do let p ← rs.foldlM Placement.place Placement.start; pure p.table) := by
  rw [ofRecords, ← Counted.foldlM_place (.of []), bind_assoc]
  rfl

/-- Records have a symbol table exactly if no label is defined twice, and it then holds the
definitions of all labels. -/
theorem SymbolTable.ofRecords_eq_ok_iff {rs : List Record} {t : SymbolTable} :
    ofRecords rs = .ok t ↔
      t = ⟨(definitions rs).reverse⟩ ∧ ((definitions rs).map Symbol.name).Nodup := by
  have start : Placement.start.offset = fun _ => 0 := by
    funext seg
    cases seg <;> rfl
  have unique : Placement.start.table.Unique := unique_empty
  have names : Unique ⟨(definitions rs).reverse⟩ ↔ ((definitions rs).map Symbol.name).Nodup := by
    rw [Unique, List.map_reverse, List.nodup_reverse]
  simp only [ofRecords_eq, bind_eq_ok_iff, pure_eq_ok_iff]
  constructor
  · rintro ⟨p, run, rfl⟩
    obtain ⟨_, table, uniqueAll⟩ := (Placement.placeAll_eq_ok_iff rs unique).mp run
    have entries : p.table = ⟨(definitions rs).reverse⟩ := by
      rw [table, start]
      exact congrArg SymbolTable.mk (List.append_nil _)
    exact ⟨entries, names.mp (entries ▸ uniqueAll)⟩
  · rintro ⟨rfl, distinct⟩
    let p : Placement := ⟨offsetAfter (fun _ => 0) rs .text, offsetAfter (fun _ => 0) rs .data,
      ⟨(definitions rs).reverse⟩⟩
    refine ⟨p, (Placement.placeAll_eq_ok_iff rs unique).mpr ⟨?_, ?_, names.mpr distinct⟩, rfl⟩
    · rw [start]
      funext seg
      cases seg <;> rfl
    · rw [start]
      exact congrArg SymbolTable.mk (List.append_nil _).symm

theorem SymbolTable.unique_of_ofRecords {rs : List Record} {t : SymbolTable}
    (placed : ofRecords rs = .ok t) : t.Unique := by
  obtain ⟨rfl, distinct⟩ := ofRecords_eq_ok_iff.mp placed
  rw [Unique, List.map_reverse, List.nodup_reverse]
  exact distinct

theorem SymbolTable.find?_of_label {before after : List Record} {r : Record} {t : SymbolTable}
    (placed : ofRecords (before ++ r :: after) = .ok t) {label : Label} (member : label ∈ r.labels) :
    t.find? label.name = some ⟨label.name, r.segment, offsetAfter (fun _ => 0) before r.segment,
      label.span.start.line⟩ := by
  have unique := unique_of_ofRecords placed
  obtain ⟨rfl, _⟩ := ofRecords_eq_ok_iff.mp placed
  have listed : (⟨label.name, r.segment, offsetAfter (fun _ => 0) before r.segment,
      label.span.start.line⟩ : Symbol) ∈ definitions (before ++ r :: after) := by
    rw [definitions, definitionsFrom_append, definitionsFrom]
    apply List.mem_append_right
    apply List.mem_append_left
    exact List.mem_map_of_mem member
  exact find?_of_mem unique (List.mem_reverse.mpr listed)

end Rv32Asm
