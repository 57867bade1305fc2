import Rv32Asm.Proofs.Encoding
import Rv32Asm.Proofs.Layout

/-!
Label operands reach the machine code.

A label operand of an instruction can be read back from the instruction's word, and a label among
the items of a directive can be read back from the data segment. Branches and jumps hold a distance;
as addresses in the text segment are multiples of four, the bit that their layout drops is zero.
-/

set_option autoImplicit false
set_option relaxedAutoImplicit false

namespace Rv32Asm

open Rv32Asm.Outcome
open Rv32Asm.Link

def ByteOrder.value : ByteOrder → Bytes → Nat
  | .big, bs => bs.foldl (fun n b => 256 * n + b.toNat) 0
  | .little, bs => bs.foldr (fun b n => b.toNat + 256 * n) 0

namespace ByteOrder

theorem value_bytes16 (order : ByteOrder) (h : UInt16) : order.value (order.bytes16 h) = h.toNat := by
  have low : h.toUInt8.toNat = h.toNat % 256 := UInt16.toNat_toUInt8 h
  have high : (h >>> 8).toUInt8.toNat = h.toNat / 256 % 256 := by
    rw [UInt16.toNat_toUInt8, UInt16.toNat_shiftRight, Nat.shiftRight_eq_div_pow]
    rfl
  have bound := h.toNat_lt
  cases order with
  | big =>
    simp only [value, bytes16, arrange, List.foldl_cons, List.foldl_nil, low, high]
    omega
  | little =>
    simp only [value, bytes16, arrange, List.reverse_cons, List.reverse_nil, List.nil_append,
      List.cons_append, List.foldr_cons, List.foldr_nil, low, high]
    omega

theorem value_bytes32 (order : ByteOrder) (w : UInt32) : order.value (order.bytes32 w) = w.toNat := by
  have byte (k : Nat) (small : k < 32) :
      (w >>> UInt32.ofNat k).toUInt8.toNat = w.toNat / 2 ^ k % 256 := by
    have amount : (UInt32.ofNat k).toNat % 32 = k := by
      rw [UInt32.toNat_ofNat']
      omega
    rw [UInt32.toNat_toUInt8, UInt32.toNat_shiftRight, amount, Nat.shiftRight_eq_div_pow]
  have byte0 : w.toUInt8.toNat = w.toNat % 256 := UInt32.toNat_toUInt8 w
  have byte1 : (w >>> 8).toUInt8.toNat = _ := byte 8 (by omega)
  have byte2 : (w >>> 16).toUInt8.toNat = _ := byte 16 (by omega)
  have byte3 : (w >>> 24).toUInt8.toNat = _ := byte 24 (by omega)
  have bound := w.toNat_lt
  cases order with
  | big =>
    simp only [value, bytes32, arrange, List.foldl_cons, List.foldl_nil, byte0, byte1, byte2, byte3]
    omega
  | little =>
    simp only [value, bytes32, arrange, List.reverse_cons, List.reverse_nil, List.nil_append,
      List.cons_append, List.foldr_cons, List.foldr_nil, byte0, byte1, byte2, byte3]
    omega

end ByteOrder

namespace Directive

theorem value_itemBytes (order : ByteOrder) {size v : Int} (known : size ∈ [1, 2, 4])
    (nonneg : 0 ≤ v) (allowed : (Bounds.data size).Allows v) :
    (order.value (itemBytes order size (.num v)) : Int) = v := by
  simp only [List.mem_cons, List.not_mem_nil, or_false] at known
  obtain ⟨_, greatest, _⟩ := allowed
  rcases known with rfl | rfl | rfl
  · have greatest : v ≤ 255 := greatest
    have byte : (UInt8.ofInt v).toNat = v.toNat := by
      rw [UInt8.ofInt, UInt8.toNat_ofNat']
      omega
    cases order <;> simp [itemBytes, ByteOrder.value, byte, nonneg]
  · have greatest : v ≤ 65535 := greatest
    have half : (UInt16.ofInt v).toNat = v.toNat := by
      rw [UInt16.ofInt, UInt16.toNat_ofNat']
      omega
    rw [itemBytes, if_neg (by decide), if_pos rfl, ByteOrder.value_bytes16, half,
      Int.toNat_of_nonneg nonneg]
  · have greatest : v ≤ 2 ^ 32 - 1 := greatest
    have word : (UInt32.ofInt v).toNat = v.toNat := by
      rw [Word.toNat_ofInt]
      omega
    rw [itemBytes, if_neg (by decide), if_neg (by decide), if_pos rfl, ByteOrder.value_bytes32, word,
      Int.toNat_of_nonneg nonneg]

theorem take_drop_flatMap_itemBytes (order : ByteOrder) {size : Int} (known : size ∈ [1, 2, 4])
    {items : List Operand} {j : Nat} {item : Operand} (here : items[j]? = some item) (rest : Bytes) :
    ((items.flatMap (itemBytes order size) ++ rest).drop (j * size.toNat)).take size.toNat =
      itemBytes order size item := by
  obtain ⟨inside, same⟩ := List.getElem?_eq_some_iff.mp here
  have split : items = items.take j ++ item :: items.drop (j + 1) := by
    rw [← same, ← List.drop_eq_getElem_cons inside, List.take_append_drop]
  have before : ((items.take j).flatMap (itemBytes order size)).length = j * size.toNat := by
    rw [length_flatMap_itemBytes order known, List.length_take, Nat.min_eq_left inside.le]
  rw [split, List.flatMap_append, List.append_assoc, List.drop_left' before, List.flatMap_cons,
    List.append_assoc, List.take_left' (length_itemBytes order known item)]

end Directive

namespace SymbolTable

theorem offsetAfter_text_mod (rs : List Record) {offset : Segment → UInt32}
    (aligned : (offset .text).toNat % 4 = 0) : (offsetAfter offset rs .text).toNat % 4 = 0 := by
  induction rs generalizing offset with
  | nil => exact aligned
  | cons r rs ih =>
    apply ih
    cases statement : r.statement with
    | inst i =>
      simp only [Record.sizeIn, Record.segment, statement, Statement.segment, Statement.byteCount,
        if_true, UInt32.toNat_add]
      have four : (4 : UInt32).toNat = 4 := rfl
      omega
    | data d =>
      simpa [Record.sizeIn, Record.segment, statement, Statement.segment] using aligned

theorem definitionsFrom_text_mod (rs : List Record) {offset : Segment → UInt32}
    (aligned : (offset .text).toNat % 4 = 0) {s : Symbol} (member : s ∈ definitionsFrom offset rs)
    (text : s.segment = .text) : s.offset.toNat % 4 = 0 := by
  induction rs generalizing offset with
  | nil => simp [definitionsFrom] at member
  | cons r rs ih =>
    rcases List.mem_append.mp member with here | later
    · obtain ⟨label, _, rfl⟩ := List.mem_map.mp here
      have segment : r.segment = .text := text
      simp only [segment]
      exact aligned
    · exact ih (offsetAfter_text_mod [r] aligned) later

theorem find?_text_mod {rs : List Record} {t : SymbolTable} (placed : ofRecords rs = .ok t)
    {name : Bytes} {s : Symbol} (found : t.find? name = some s) (text : s.segment = .text) :
    s.offset.toNat % 4 = 0 := by
  obtain ⟨rfl, _⟩ := ofRecords_eq_ok_iff.mp placed
  have member := List.mem_reverse.mp (List.mem_of_find?_eq_some found)
  exact definitionsFrom_text_mod rs rfl member text

end SymbolTable

namespace Link

variable {table : SymbolTable} {pc : UInt32} {span : Span} {label : Bytes} {v : Int}

theorem symbol_eq_ok_iff {s : Symbol} :
    symbol table label span = .ok s ↔ table.find? label = some s := by
  unfold symbol
  split <;> simp_all

theorem distance_ok {bounds : Bounds} {bits : Nat} {s : Symbol}
    (result : distance bounds bits label s pc span = .ok v) :
    s.segment = .text ∧ v = (s.offset.toNat : Int) - pc.toNat ∧ bounds.least ≤ v ∧
      v ≤ bounds.greatest := by
  simp only [distance] at result
  split at result
  · simp at result
  · rename_i text
    split at result
    · simp at result
    · rename_i inside
      obtain rfl := Except.ok.inj result
      rw [not_or, Int.not_lt, Int.not_lt] at inside
      exact ⟨not_not.mp text, rfl, inside⟩

/-- What a label stands for: a distance in branches and jumps, and its offset elsewhere. Either way
its instruction has room for the number. -/
theorem labelValue_ok {format : Format}
    (result : labelValue table pc span format label = .ok v) :
    ∃ s, table.find? label = some s ∧ format.fieldBounds.least ≤ v ∧
      v ≤ format.fieldBounds.greatest ∧
      (format ∈ [.branch, .jump] →
        s.segment = .text ∧ v = (s.offset.toNat : Int) - pc.toNat) ∧
      (format ∉ [.branch, .jump] → v = s.offset.toNat) := by
  simp only [labelValue, bind_eq_ok_iff, symbol_eq_ok_iff] at result
  obtain ⟨s, found, result⟩ := result
  refine ⟨s, found, ?_⟩
  split at result
  · obtain ⟨text, value, least, greatest⟩ := distance_ok result
    exact ⟨least, greatest, fun _ => ⟨text, value⟩, fun other => absurd (by simp) other⟩
  · obtain ⟨text, value, least, greatest⟩ := distance_ok result
    exact ⟨least, greatest, fun _ => ⟨text, value⟩, fun other => absurd (by simp) other⟩
  · simp only [bind_eq_ok_iff, pure_eq_ok_iff] at result
    obtain ⟨_, inside, rfl⟩ := result
    obtain ⟨least, greatest, _⟩ := Bounds.check_eq_ok_iff.mp inside
    exact ⟨least, greatest, by simp, fun _ => rfl⟩
  · rename_i notBranch notJump notUpper
    simp only [bind_eq_ok_iff, pure_eq_ok_iff] at result
    obtain ⟨_, inside, rfl⟩ := result
    obtain ⟨least, greatest, _⟩ := Bounds.check_eq_ok_iff.mp inside
    have field : format.fieldBounds = ⟨-2048, 2047, false⟩ := by
      cases format <;> simp_all [Format.fieldBounds]
    rw [field]
    refine ⟨Int.le_trans (b := 0) (by decide) (Int.natCast_nonneg _), greatest, ?_, fun _ => rfl⟩
    intro relative
    simp only [List.mem_cons, List.not_mem_nil, or_false] at relative
    exact (relative.elim notBranch notJump).elim

/-- Between aligned addresses the distance is even, so the number of a label fits its field. -/
theorem fieldBounds_allows_labelValue {format : Format}
    (aligned : ∀ s, table.find? label = some s → s.segment = .text → s.offset.toNat % 4 = 0)
    (address : pc.toNat % 4 = 0) (result : labelValue table pc span format label = .ok v) :
    format.fieldBounds.Allows v := by
  obtain ⟨s, found, least, greatest, relative, _⟩ := labelValue_ok result
  refine ⟨least, greatest, ?_⟩
  intro even
  have near : format ∈ [.branch, .jump] := by
    cases format <;> simp_all [Format.fieldBounds, Bounds.upperLabel]
  obtain ⟨text, rfl⟩ := relative near
  have start := aligned s found text
  omega

theorem Linked.code_at {us rs : List Record} {cs : List CodeWord} {n : Nat}
    (linked : Linked table pc us rs) (coded : Coded n rs cs) (start : pc = UInt32.ofNat (4 * n))
    {k : Nat} {i : Instruction} (here : (us.filterMap Record.instruction?)[k]? = some i) :
    ∃ span i' w, instruction table (UInt32.ofNat (4 * (n + k))) span i = .ok i' ∧
      i'.encode = .ok w ∧ (cs.map CodeWord.word)[k]? = some w := by
  induction linked generalizing n cs k with
  | nil pc => simp at here
  | @cons pc u stmt us rs first rest ih =>
    cases statement : u.statement with
    | data d =>
      rw [statement] at first rest ih
      obtain ⟨d', _, rfl⟩ := statement_data_eq_ok_iff.mp first
      have skipped : u.instruction? = none := by simp [Record.instruction?, statement]
      rw [List.filterMap_cons_none skipped] at here
      rcases coded with _ | ⟨_, after⟩ | ⟨other, _, _⟩
      · exact ih after start here
      · simp at other
    | inst i₀ =>
      rw [statement] at first rest ih
      obtain ⟨i', result, rfl⟩ := statement_inst_eq_ok_iff.mp first
      have kept : u.instruction? = some i₀ := by simp [Record.instruction?, statement]
      rw [List.filterMap_cons_some kept] at here
      rcases coded with _ | ⟨other, _⟩ | ⟨same, encoded, after⟩
      · simp at other
      obtain rfl := Statement.inst.inj same
      cases k with
      | zero =>
        obtain rfl := Option.some.inj here
        exact ⟨_, _, _, start ▸ result, encoded, rfl⟩
      | succ k =>
        have next : nextPc pc (.inst i₀) = UInt32.ofNat (4 * (n + 1)) := by
          rw [nextPc, start, Nat.mul_succ, UInt32.ofNat_add]
          rfl
        have shifted := ih after next here
        rwa [Nat.add_right_comm, Nat.add_assoc] at shifted

theorem Linked.length_eq {us rs : List Record} (linked : Linked table pc us rs) :
    us.length = rs.length := by
  induction linked with
  | nil pc => rfl
  | cons first rest ih => rw [List.length_cons, List.length_cons, ih]

theorem Linked.record_at {us rs : List Record} (linked : Linked table pc us rs) {n : Nat}
    {u : Record} (here : us[n]? = some u) :
    ∃ pc' stmt, (pc.toNat % 4 = 0 → pc'.toNat % 4 = 0) ∧
      statement table pc' u.span u.statement = .ok stmt ∧
      rs[n]? = some { u with statement := stmt } := by
  induction linked generalizing n with
  | nil pc => simp at here
  | @cons pc r stmt us rs first rest ih =>
    cases n with
    | zero =>
      obtain rfl := Option.some.inj here
      exact ⟨pc, stmt, id, first, rfl⟩
    | succ n =>
      obtain ⟨pc', stmt', aligned, result, place⟩ := ih here
      refine ⟨pc', stmt', ?_, result, place⟩
      intro start
      apply aligned
      cases r.statement with
      | data d => exact start
      | inst i =>
        have four : (4 : UInt32).toNat = 4 := rfl
        rw [nextPc, UInt32.toNat_add]
        omega

theorem item_ref_ok {size : Int} {linked : Operand}
    (result : item table size span (.ref label) = .ok linked) :
    ∃ s, table.find? label = some s ∧ linked = .num s.offset.toNat ∧
      (Bounds.data size).Allows s.offset.toNat := by
  simp only [item, bind_eq_ok_iff, symbol_eq_ok_iff, pure_eq_ok_iff] at result
  obtain ⟨s, found, _, inside, rfl⟩ := result
  exact ⟨s, found, rfl, Bounds.check_eq_ok_iff.mp inside⟩

end Link

/-- The bytes of a record stand behind those of the earlier records of its segment. -/
theorem segmentBytes_eq_of_getElem? (order : ByteOrder) {rs : List Record} {n : Nat} {r : Record}
    (here : rs[n]? = some r) :
    segmentBytes order r.segment rs = segmentBytes order r.segment (rs.take n) ++
      (r.emitted order ++ segmentBytes order r.segment (rs.drop (n + 1))) := by
  obtain ⟨inside, same⟩ := List.getElem?_eq_some_iff.mp here
  have split : rs = rs.take n ++ r :: rs.drop (n + 1) := by
    rw [← same, ← List.drop_eq_getElem_cons inside, List.take_append_drop]
  conv_lhs => rw [split, segmentBytes_append, segmentBytes_cons, if_pos rfl]

def Instruction.isShift (i : Instruction) : Bool :=
  (Opcode.find? i.mnemonic).any Opcode.shift

namespace Program

variable {cfg : Config} {source : Bytes} {us : List Record} {p : Program}

theorem Stages.instruction_wellFormed (stages : p.Stages cfg source us) {k : Nat} {i : Instruction}
    (here : (us.filterMap Record.instruction?)[k]? = some i) : i.WellFormed := by
  obtain ⟨u, member, kept⟩ := List.mem_filterMap.mp (List.mem_of_getElem? here)
  have statement : u.statement = .inst i := by
    unfold Record.instruction? at kept
    split at kept <;> simp_all
  have wellFormed := parse_wellFormed stages.parsed u member
  rwa [statement] at wellFormed

theorem Stages.not_isShift (stages : p.Stages cfg source us) {k : Nat} {i : Instruction}
    (here : (us.filterMap Record.instruction?)[k]? = some i) (near : i.format ∈ [.branch, .jump]) :
    i.isShift = false := by
  obtain ⟨op, fits, _⟩ := stages.instruction_wellFormed here
  have sound := Opcode.sound_of_find? fits.listed
  rw [Instruction.isShift, fits.listed, Option.any_some]
  by_contra shifts
  rw [← fits.format, sound.shift (by simpa using shifts)] at near
  simp at near

theorem Stages.immediate_at (stages : p.Stages cfg source us) {k : Nat} {i : Instruction}
    {label : Bytes} (here : (us.filterMap Record.instruction?)[k]? = some i)
    (ref : i.imm? = some (.ref label)) (plain : i.isShift = false) :
    ∃ span v w, labelValue p.symbols (UInt32.ofNat (4 * k)) span i.format label = .ok v ∧
      p.words[k]? = some w ∧ Word.immediateOf w = v := by
  obtain ⟨span, i', w, result, encoded, word⟩ := stages.linked.code_at stages.coded rfl here
  rw [Nat.zero_add] at result
  obtain ⟨op, fits, _⟩ := stages.instruction_wellFormed here
  rcases instruction_cases result with ⟨label', v, ref', value, rfl⟩ | ⟨numeric, _⟩
  · obtain rfl : label = label' := by simpa [ref] using ref'
    have address : (UInt32.ofNat (4 * k)).toNat % 4 = 0 := by
      rw [UInt32.toNat_ofNat']
      omega
    have allowed := fieldBounds_allows_labelValue
      (fun s found text => SymbolTable.find?_text_mod stages.placed found text) address value
    have linkedFits := fits.withImm (.num v)
    obtain ⟨w', packed, encoded'⟩ := linkedFits.encode (instruction_numeric result)
    obtain rfl := Except.ok.inj (encoded'.symm.trans encoded)
    refine ⟨span, v, w', value, word, linkedFits.immediateOf_pack (Instruction.imm?_withImm ref _)
      ?_ ?_ packed⟩
    · simpa [Instruction.isShift, fits.listed] using plain
    · rw [fits.format]
      exact allowed
  · exact absurd ref (numeric label)

/-- Every label operand of the records `us` can be read back from the program. -/
structure ReferencesReach (cfg : Config) (us : List Record) (p : Program) : Prop where
  /-- A branch or a jump holds the distance to a label of the text segment. -/
  relative : ∀ (k : Nat) (i : Instruction) (label : Bytes),
    (us.filterMap Record.instruction?)[k]? = some i →
    i.imm? = some (.ref label) → i.format ∈ [.branch, .jump] →
    ∃ s w, p.symbols.find? label = some s ∧ p.words[k]? = some w ∧ s.segment = .text ∧
      Word.immediateOf w = (s.offset.toNat : Int) - (UInt32.ofNat (4 * k)).toNat
  /-- Any other instruction that does not shift holds the offset of the label. -/
  absolute : ∀ (k : Nat) (i : Instruction) (label : Bytes),
    (us.filterMap Record.instruction?)[k]? = some i →
    i.imm? = some (.ref label) → i.format ∉ [.branch, .jump] → i.isShift = false →
    ∃ s w, p.symbols.find? label = some s ∧ p.words[k]? = some w ∧
      Word.immediateOf w = s.offset.toNat
  /-- An item of a directive is the offset of the label. -/
  item : ∀ (n j : Nat) (u : Record) (d : Directive) (items : List Operand) (label : Bytes),
    us[n]? = some u → u.statement = .data d →
    d.body = .values items → items[j]? = some (.ref label) →
    ∃ s, p.symbols.find? label = some s ∧
      cfg.order.value ((p.data.drop ((segmentBytes cfg.order .data (p.records.take n)).length +
        j * d.size.toNat)).take d.size.toNat) = s.offset.toNat

theorem Stages.item_at (stages : p.Stages cfg source us) {n j : Nat} {u : Record} {d : Directive}
    {items : List Operand} {label : Bytes} (here : us[n]? = some u)
    (statement : u.statement = .data d) (body : d.body = .values items)
    (ref : items[j]? = some (.ref label)) :
    ∃ s, p.symbols.find? label = some s ∧
      cfg.order.value ((p.data.drop ((segmentBytes cfg.order .data (p.records.take n)).length +
        j * d.size.toNat)).take d.size.toNat) = s.offset.toNat := by
  have known : d.size ∈ [1, 2, 4] := by
    have wellFormed := parse_wellFormed stages.parsed u (List.mem_of_getElem? here)
    simp only [statement, Statement.WellFormed, Directive.WellFormed, body] at wellFormed
    exact wellFormed.2
  obtain ⟨pc, stmt, _, result, place⟩ := stages.linked.record_at here
  rw [statement] at result
  obtain ⟨d', linked, rfl⟩ := statement_data_eq_ok_iff.mp result
  rcases directive_cases linked with ⟨bs, other, _⟩ | ⟨items₀, items', same, each, rfl⟩
  · simp [body] at other
  obtain rfl : items = items₀ := by simpa [body] using same
  obtain ⟨inside, isRef⟩ := List.getElem?_eq_some_iff.mp ref
  have inside' : j < items'.length := each.length_eq ▸ inside
  have itemLinked := each.get inside inside'
  simp only [List.get_eq_getElem, isRef] at itemLinked
  obtain ⟨s, found, value, allowed⟩ := item_ref_ok itemLinked
  refine ⟨s, found, ?_⟩
  have here' : items'[j]? = some (.num s.offset.toNat) := by
    rw [← value, List.getElem?_eq_getElem inside']
  have data := (stages.segment_eq .data).trans (segmentBytes_eq_of_getElem? cfg.order place)
  have bytes : p.data = segmentBytes cfg.order .data (p.records.take n) ++
      (items'.flatMap (Directive.itemBytes cfg.order d.size) ++
        segmentBytes cfg.order .data (p.records.drop (n + 1))) := data
  rw [bytes, ← List.drop_drop, List.drop_left,
    Directive.take_drop_flatMap_itemBytes cfg.order known here']
  exact Int.ofNat.inj (Directive.value_itemBytes cfg.order known (Int.natCast_nonneg _) allowed)

theorem referencesReach_of_assemble (assembled : assemble cfg source = .ok p) :
    ∃ us, parse cfg source = .ok us ∧ p.ReferencesReach cfg us := by
  obtain ⟨us, stages⟩ := assemble_stages assembled
  refine ⟨us, stages.parsed, ?_, ?_, ?_⟩
  · intro k i label here ref near
    obtain ⟨span, v, w, value, word, rfl⟩ :=
      stages.immediate_at here ref (stages.not_isShift here near)
    obtain ⟨s, found, _, _, relative, _⟩ := labelValue_ok value
    exact ⟨s, w, found, word, relative near⟩
  · intro k i label here ref far plain
    obtain ⟨span, v, w, value, word, rfl⟩ := stages.immediate_at here ref plain
    obtain ⟨s, found, _, _, _, absolute⟩ := labelValue_ok value
    exact ⟨s, w, found, word, absolute far⟩
  · intro n j u d items label here statement body ref
    exact stages.item_at here statement body ref

def crossingSource : Bytes :=
  Text.utf8 "back: lw x1, v(x0)\nbeq x1, x2, end\nv: .half 7, end\nj back\nend: ret"

theorem referencesReach_crossingSource :
    ∃ us p, assemble ⟨"big", some []⟩ crossingSource = .ok p ∧
      parse ⟨"big", some []⟩ crossingSource = .ok us ∧
      us.map Record.statement =
        [.inst (.load "lw" 1 0 (.ref (Text.utf8 "v"))),
          .inst (.b "beq" 1 2 (.ref (Text.utf8 "end"))),
          .data ⟨".half", 2, .values [.num 7, .ref (Text.utf8 "end")]⟩,
          .inst (.j "jal" 0 (.ref (Text.utf8 "back"))), .inst (.jalr "jalr" 0 1 (.num 0))] ∧
      p.ReferencesReach ⟨"big", some []⟩ us := by
  obtain ⟨p, assembled⟩ := exists_eq_ok_of_isOk
    (show (assemble ⟨"big", some []⟩ crossingSource).isOk = true by decide +kernel)
  obtain ⟨us, parsed, reach⟩ := referencesReach_of_assemble assembled
  have statements : (parse ⟨"big", some []⟩ crossingSource).map (List.map Record.statement) =
      .ok [.inst (.load "lw" 1 0 (.ref (Text.utf8 "v"))),
        .inst (.b "beq" 1 2 (.ref (Text.utf8 "end"))),
        .data ⟨".half", 2, .values [.num 7, .ref (Text.utf8 "end")]⟩,
        .inst (.j "jal" 0 (.ref (Text.utf8 "back"))), .inst (.jalr "jalr" 0 1 (.num 0))] := by
    decide +kernel
  rw [parsed] at statements
  exact ⟨us, p, assembled, parsed, Except.ok.inj statements, reach⟩

end Program

end Rv32Asm
