import Rv32Asm.Proofs.Emission
import Rv32Asm.Proofs.Linking
import Rv32Asm.Proofs.Placement

/-!
Text and data may be interleaved in any way.

The records of a segment are placed, linked and emitted as if those of the other segment were not
there. So two lists with the same instructions and the same data, each in the same order, have the
same symbols, can both be linked or cannot, and emit the same bytes.
-/

set_option autoImplicit false
set_option relaxedAutoImplicit false

namespace Rv32Asm

open Rv32Asm.Outcome
open Rv32Asm.Link

def recordsIn (seg : Segment) (rs : List Record) : List Record :=
  rs.filter fun r => r.segment = seg

/-- Lists with the same instructions and the same data, interleaved in any way. -/
def SameSegments (rs rs' : List Record) : Prop :=
  ∀ seg, recordsIn seg rs = recordsIn seg rs'

instance (rs rs' : List Record) : Decidable (SameSegments rs rs') :=
  decidable_of_iff (recordsIn .text rs = recordsIn .text rs' ∧
      recordsIn .data rs = recordsIn .data rs')
    ⟨fun same seg => by cases seg with
      | text => exact same.1
      | data => exact same.2, fun same => ⟨same .text, same .data⟩⟩

theorem SameSegments.symm {rs rs' : List Record} (same : SameSegments rs rs') :
    SameSegments rs' rs :=
  fun seg => (same seg).symm

theorem Record.segment_of_inst {r : Record} {i : Instruction} (inst : r.statement = .inst i) :
    r.segment = .text := by
  rw [Record.segment, inst]
  rfl

theorem Record.segment_of_data {r : Record} {d : Directive} (data : r.statement = .data d) :
    r.segment = .data := by
  rw [Record.segment, data]
  rfl

section Filter

variable {seg : Segment} {r : Record}

theorem recordsIn_cons_of_eq (here : r.segment = seg) (rs : List Record) :
    recordsIn seg (r :: rs) = r :: recordsIn seg rs :=
  List.filter_cons_of_pos (by simpa using here)

theorem recordsIn_cons_of_ne (other : r.segment ≠ seg) (rs : List Record) :
    recordsIn seg (r :: rs) = recordsIn seg rs :=
  List.filter_cons_of_neg (by simpa using other)

theorem segment_of_mem_recordsIn {rs : List Record} (member : r ∈ recordsIn seg rs) :
    r.segment = seg := by
  simpa using (List.mem_filter.mp member).2

end Filter

def symbolsFrom (offset : UInt32) : List Record → List Symbol
  | [] => []
  | r :: rs => r.symbolsAt offset ++ symbolsFrom (offset + r.statement.byteCount) rs

theorem segment_of_mem_symbolsAt {r : Record} {offset : UInt32} {s : Symbol}
    (member : s ∈ r.symbolsAt offset) : s.segment = r.segment := by
  obtain ⟨label, _, rfl⟩ := List.mem_map.mp member
  rfl

theorem filter_definitionsFrom (seg : Segment) (rs : List Record) (offset : Segment → UInt32) :
    (definitionsFrom offset rs).filter (fun s => s.segment = seg) =
      symbolsFrom (offset seg) (recordsIn seg rs) := by
  induction rs generalizing offset with
  | nil => rfl
  | cons r rs ih =>
    have next : offsetAfter offset [r] seg = offset seg + r.sizeIn seg := rfl
    rw [definitionsFrom, List.filter_append, ih, next]
    by_cases here : r.segment = seg
    · have all : (r.symbolsAt (offset r.segment)).filter (fun s => s.segment = seg) =
          r.symbolsAt (offset seg) := by
        rw [here, List.filter_eq_self]
        intro s member
        simpa using (segment_of_mem_symbolsAt member).trans here
      have size : r.sizeIn seg = r.statement.byteCount := by simp [Record.sizeIn, here]
      rw [recordsIn_cons_of_eq here, symbolsFrom, all, size]
    · have none : (r.symbolsAt (offset r.segment)).filter (fun s => s.segment = seg) = [] := by
        rw [List.filter_eq_nil_iff]
        intro s member
        simpa [segment_of_mem_symbolsAt member] using here
      have size : r.sizeIn seg = 0 := by simp [Record.sizeIn, here]
      rw [recordsIn_cons_of_ne here, none, size, List.nil_append, UInt32.add_zero]

theorem symbolsFrom_perm_definitions (rs : List Record) :
    (symbolsFrom 0 (recordsIn .text rs) ++ symbolsFrom 0 (recordsIn .data rs)).Perm
      (definitions rs) := by
  have text := filter_definitionsFrom .text rs fun _ => 0
  have data := filter_definitionsFrom .data rs fun _ => 0
  -- There are two segments, so what is not in the text is in the data.
  have others : (fun s : Symbol => decide (s.segment = .data)) =
      fun s : Symbol => !decide (s.segment = .text) := by
    funext s
    cases s.segment <;> rfl
  rw [← text, ← data, others]
  exact List.filter_append_perm _ _

theorem SameSegments.perm_definitions {rs rs' : List Record} (same : SameSegments rs rs') :
    (definitions rs).Perm (definitions rs') := by
  have first := symbolsFrom_perm_definitions rs
  rw [same .text, same .data] at first
  exact first.symm.trans (symbolsFrom_perm_definitions rs')

namespace SymbolTable

theorem find?_eq_of_perm {t t' : SymbolTable} (unique : t.Unique)
    (perm : t.entries.Perm t'.entries) (name : Bytes) : t.find? name = t'.find? name := by
  have names := perm.map Symbol.name
  have unique' : t'.Unique := names.nodup_iff.mp unique
  cases found : t.find? name with
  | none =>
    have free := find?_eq_none_iff.mp found
    rw [names.mem_iff] at free
    exact (find?_eq_none_iff.mpr free).symm
  | some s =>
    have member : s ∈ t.entries := List.mem_of_find?_eq_some found
    have named : s.name = name := by simpa using List.find?_some found
    rw [← named, find?_of_mem unique' (perm.mem_iff.mp member)]

def SameLookups (t t' : SymbolTable) : Prop :=
  ∀ name, t.find? name = t'.find? name

end SymbolTable

theorem SameSegments.exists_ofRecords {rs rs' : List Record} (same : SameSegments rs rs')
    {t : SymbolTable} (placed : SymbolTable.ofRecords rs = .ok t) :
    ∃ t', SymbolTable.ofRecords rs' = .ok t' ∧ t.entries.Perm t'.entries ∧ t.SameLookups t' := by
  obtain ⟨rfl, distinct⟩ := SymbolTable.ofRecords_eq_ok_iff.mp placed
  have perm := same.perm_definitions
  have distinct' := (perm.map Symbol.name).nodup_iff.mp distinct
  have entries : (definitions rs).reverse.Perm (definitions rs').reverse :=
    (List.reverse_perm _).trans (perm.trans (List.reverse_perm _).symm)
  have unique : SymbolTable.Unique ⟨(definitions rs).reverse⟩ := by
    rw [SymbolTable.Unique, List.map_reverse, List.nodup_reverse]
    exact distinct
  exact ⟨_, SymbolTable.ofRecords_eq_ok_iff.mpr ⟨rfl, distinct'⟩, entries,
    SymbolTable.find?_eq_of_perm unique entries⟩

namespace Link

variable {table table' : SymbolTable}

theorem statement_of_sameLookups (same : table.SameLookups table') :
    statement table = statement table' := by
  have symbols : symbol table = symbol table' := by
    funext label span
    rw [symbol, symbol, same]
  have values : labelValue table = labelValue table' := by
    funext pc span format label
    rw [labelValue, labelValue, symbols]
  have instructions : instruction table = instruction table' := by
    funext pc span inst
    rw [instruction, instruction, values]
  have items : item table = item table' := by
    funext size span v
    cases v with
    | num v => rfl
    | ref label => rw [item, item, symbols]
  have directives : directive table = directive table' := by
    funext span d
    rw [directive, directive, items]
  funext pc span stmt
  cases stmt with
  | inst i => rw [statement, statement, instructions]
  | data d => rw [statement, statement, directives]

theorem Linked.of_sameLookups (same : table.SameLookups table') {pc : UInt32}
    {rs out : List Record} (linked : Linked table pc rs out) : Linked table' pc rs out := by
  induction linked with
  | nil pc => exact .nil pc
  | cons first rest ih =>
    rw [statement_of_sameLookups same] at first
    exact .cons first ih

theorem Linked.eq {pc : UInt32} {rs out out' : List Record} (linked : Linked table pc rs out)
    (linked' : Linked table pc rs out') : out = out' := by
  have run : recordsFrom table [] pc rs = .ok out := recordsFrom_eq_ok_iff.mpr ⟨out, rfl, linked⟩
  have run' : recordsFrom table [] pc rs = .ok out' :=
    recordsFrom_eq_ok_iff.mpr ⟨out', rfl, linked'⟩
  exact Except.ok.inj (run.symm.trans run')

theorem segment_of_statement {pc : UInt32} {span : Span} {stmt linked : Statement}
    (result : statement table pc span stmt = .ok linked) : linked.segment = stmt.segment := by
  cases stmt with
  | inst i =>
    obtain ⟨_, _, rfl⟩ := statement_inst_eq_ok_iff.mp result
    rfl
  | data d =>
    obtain ⟨_, _, rfl⟩ := statement_data_eq_ok_iff.mp result
    rfl

theorem Linked.of_data {pc : UInt32} {rs out : List Record} (linked : Linked table pc rs out)
    (data : ∀ r ∈ rs, r.segment = .data) (pc' : UInt32) : Linked table pc' rs out := by
  induction linked generalizing pc' with
  | nil pc => exact .nil pc'
  | @cons pc r stmt rs rs' first rest ih =>
    rw [List.forall_mem_cons] at data
    obtain ⟨labels, line, span, statement⟩ := r
    cases statement with
    | inst i => simp [Record.segment, Statement.segment] at data
    | data d => exact .cons first (ih data.2 pc')

/-- The records of another segment than that of `r` are linked after `r` as before it. -/
theorem Linked.next_iff {pc : UInt32} {r : Record} {seg : Segment} (other : r.segment ≠ seg)
    (rs : List Record) {out : List Record} :
    Linked table (nextPc pc r.statement) (recordsIn seg rs) out ↔
      Linked table pc (recordsIn seg rs) out := by
  have segments : ∀ u ∈ recordsIn seg rs, u.segment = seg := fun _ => segment_of_mem_recordsIn
  cases statement : r.statement with
  | data d => rfl
  | inst i =>
    -- An instruction moves the address, but then the other segment is the data.
    have data : seg = .data := by
      cases seg with
      | text => exact absurd (Record.segment_of_inst statement) other
      | data => rfl
    rw [data] at segments ⊢
    constructor
    · intro linked
      exact linked.of_data segments pc
    · intro linked
      exact linked.of_data segments _

theorem Linked.inSegment (seg : Segment) {pc : UInt32} {rs out : List Record}
    (linked : Linked table pc rs out) :
    Linked table pc (recordsIn seg rs) (recordsIn seg out) := by
  induction linked with
  | nil pc => exact .nil pc
  | @cons pc r stmt rs out first rest ih =>
    have kept : Record.segment { r with statement := stmt } = r.segment :=
      segment_of_statement first
    by_cases here : r.segment = seg
    · rw [recordsIn_cons_of_eq here, recordsIn_cons_of_eq (kept.trans here)]
      exact .cons first ih
    · rw [recordsIn_cons_of_ne here, recordsIn_cons_of_ne (kept ▸ here)]
      exact (Linked.next_iff here rs).mp ih

/-- Records that can be linked segment by segment can be linked. -/
theorem exists_linked {pc : UInt32} {rs : List Record}
    (parts : ∀ seg, ∃ out, Linked table pc (recordsIn seg rs) out) :
    ∃ out, Linked table pc rs out := by
  induction rs generalizing pc with
  | nil => exact ⟨[], .nil pc⟩
  | cons r rs ih =>
    -- The first record is linked as in its own segment; the other one is not moved by it.
    obtain ⟨own, linked⟩ := parts r.segment
    rw [recordsIn_cons_of_eq rfl] at linked
    cases linked with
    | @cons _ _ stmt _ out first rest =>
      have others : ∀ seg, ∃ out, Linked table (nextPc pc r.statement) (recordsIn seg rs) out := by
        intro seg
        by_cases here : r.segment = seg
        · exact ⟨out, here ▸ rest⟩
        · obtain ⟨out, linked⟩ := parts seg
          rw [recordsIn_cons_of_ne here] at linked
          exact ⟨out, (Linked.next_iff here rs).mpr linked⟩
      obtain ⟨out, linked⟩ := ih others
      exact ⟨_, .cons first linked⟩

end Link

theorem SameSegments.exists_link {rs rs' out : List Record} (same : SameSegments rs rs')
    {t t' : SymbolTable} (lookups : t.SameLookups t') (linked : link t rs = .ok out) :
    ∃ out', link t' rs' = .ok out' ∧ SameSegments out out' := by
  have linked := (link_eq_ok_iff.mp linked).of_sameLookups lookups
  have parts : ∀ seg, ∃ out', Linked t' 0 (recordsIn seg rs') out' := by
    intro seg
    rw [← same seg]
    exact ⟨_, linked.inSegment seg⟩
  obtain ⟨out', linked'⟩ := exists_linked parts
  refine ⟨out', link_eq_ok_iff.mpr linked', ?_⟩
  intro seg
  have first := linked.inSegment seg
  rw [same seg] at first
  exact first.eq (linked'.inSegment seg)

theorem codeFrom_recordsIn (rs : List Record) (done : List CodeWord) (n : Nat) :
    codeFrom done n (recordsIn .text rs) = codeFrom done n rs := by
  induction rs generalizing done n with
  | nil => rfl
  | cons r rs ih =>
    cases statement : r.statement with
    | data d =>
      have other : r.segment ≠ .text := by simp [Record.segment_of_data statement]
      rw [recordsIn_cons_of_ne other, ih, codeFrom, statement]
    | inst i =>
      rw [recordsIn_cons_of_eq (Record.segment_of_inst statement), codeFrom, codeFrom, statement]
      simp only
      cases i.encode with
      | error fault => rfl
      | ok w => exact ih _ _

theorem dataBytes_recordsIn (order : ByteOrder) (rs : List Record) :
    (recordsIn .data rs).flatMap (fun r => r.statement.dataBytes order) =
      rs.flatMap fun r => r.statement.dataBytes order := by
  induction rs with
  | nil => rfl
  | cons r rs ih =>
    cases statement : r.statement with
    | inst i =>
      have other : r.segment ≠ .data := by simp [Record.segment_of_inst statement]
      rw [recordsIn_cons_of_ne other, ih, List.flatMap_cons, statement]
      rfl
    | data d =>
      rw [recordsIn_cons_of_eq (Record.segment_of_data statement), List.flatMap_cons, List.flatMap_cons, ih]

theorem SameSegments.emit_eq {out out' : List Record} (same : SameSegments out out') (cfg : Config)
    (source : Bytes) (t t' : SymbolTable) :
    emit cfg source t' out' = (emit cfg source t out).map fun p =>
      { p with symbols := t', records := out' } := by
  have code : codeFrom [] 0 out' = codeFrom [] 0 out := by
    rw [← codeFrom_recordsIn out, ← codeFrom_recordsIn out', same .text]
  have data : (out'.flatMap fun r => r.statement.dataBytes cfg.order) =
      out.flatMap fun r => r.statement.dataBytes cfg.order := by
    rw [← dataBytes_recordsIn _ out, ← dataBytes_recordsIn _ out', same .data]
  rw [emit, emit, code, data]
  cases codeFrom [] 0 out <;> rfl

/-- Two lists of records that nothing but the order between the segments tells apart. -/
structure Interchangeable (rs rs' : List Record) : Prop where
  placed : (∃ t, SymbolTable.ofRecords rs = .ok t) ↔ ∃ t', SymbolTable.ofRecords rs' = .ok t'
  symbols : ∀ t t', SymbolTable.ofRecords rs = .ok t → SymbolTable.ofRecords rs' = .ok t' →
    t.entries.Perm t'.entries ∧ t.SameLookups t'
  /-- With tables that answer alike both lists can be linked or none can. -/
  linked : ∀ t t', t.SameLookups t' →
    ((∃ out, link t rs = .ok out) ↔ ∃ out', link t' rs' = .ok out')
  /-- What is emitted is the same, and so is an instruction that has no word. -/
  emitted : ∀ t t' out out', t.SameLookups t' → link t rs = .ok out → link t' rs' = .ok out' →
    ∀ cfg source,
      (∀ fault, emit cfg source t out = .error fault ↔ emit cfg source t' out' = .error fault) ∧
      ∀ p p', emit cfg source t out = .ok p → emit cfg source t' out' = .ok p' →
        p.text = p'.text ∧ p.words = p'.words ∧ p.data = p'.data

theorem SameSegments.interchangeable {rs rs' : List Record} (same : SameSegments rs rs') :
    Interchangeable rs rs' where
  placed := by
    constructor
    · rintro ⟨t, placed⟩
      obtain ⟨t', placed', _⟩ := same.exists_ofRecords placed
      exact ⟨t', placed'⟩
    · rintro ⟨t', placed'⟩
      obtain ⟨t, placed, _⟩ := same.symm.exists_ofRecords placed'
      exact ⟨t, placed⟩
  symbols t t' placed placed' := by
    obtain ⟨other, again, alike⟩ := same.exists_ofRecords placed
    obtain rfl : other = t' := Except.ok.inj (again.symm.trans placed')
    exact alike
  linked t t' lookups := by
    constructor
    · rintro ⟨out, linked⟩
      obtain ⟨out', linked', _⟩ := same.exists_link lookups linked
      exact ⟨out', linked'⟩
    · rintro ⟨out', linked'⟩
      have back : t'.SameLookups t := fun name => (lookups name).symm
      obtain ⟨out, linked, _⟩ := same.symm.exists_link back linked'
      exact ⟨out, linked⟩
  emitted t t' out out' lookups linked linked' cfg source := by
    obtain ⟨other, again, parts⟩ := same.exists_link lookups linked
    obtain rfl : other = out' := Except.ok.inj (again.symm.trans linked')
    rw [parts.emit_eq cfg source t t']
    cases emit cfg source t out with
    | error fault => exact ⟨fun _ => Iff.rfl, fun _ _ ok => by simp at ok⟩
    | ok p =>
      refine ⟨fun _ => by simp [Except.map], ?_⟩
      intro q q' first second
      obtain rfl := Except.ok.inj first
      obtain rfl := Except.ok.inj second
      exact ⟨rfl, rfl, rfl⟩

def mixedRecords : List Record :=
  let label (name : String) (line : Nat) : Label := ⟨Text.utf8 name, .onLine line 0 name.length⟩
  let ref (name : String) : Operand := .ref (Text.utf8 name)
  [⟨[label "loop" 0], 0, .onLine 0 6 24, .inst (.b "beq" 1 2 (ref "end"))⟩,
   ⟨[label "table" 1], 1, .onLine 1 7 30, .data ⟨".half", 2, .values [ref "end", .num 7]⟩⟩,
   ⟨[], 2, .onLine 2 0 15, .inst (.load "lw" 5 0 (ref "name"))⟩,
   ⟨[label "name" 3, label "last" 3], 3, .onLine 3 12 22, .data ⟨".ascii", 1, .bytes [82, 86]⟩⟩,
   ⟨[label "end" 4], 4, .onLine 4 5 13, .inst (.j "jal" 0 (ref "loop"))⟩]

def splitRecords : List Record :=
  recordsIn .data mixedRecords ++ recordsIn .text mixedRecords

theorem interchangeable_mixedRecords :
    (build .standard [] mixedRecords).isOk = true ∧ mixedRecords ≠ splitRecords ∧
      Interchangeable mixedRecords splitRecords :=
  ⟨by decide +kernel, by decide +kernel, SameSegments.interchangeable (by decide +kernel)⟩

end Rv32Asm
