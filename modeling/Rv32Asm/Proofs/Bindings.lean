import Rv32Asm.Proofs.Placement
import Rv32Asm.Proofs.WordFields

/-!
What a symbol table binds, and which label it refuses.

Records have a table if all their labels have different names, whatever segments the records belong
to. The table binds these names and no others. If names repeat, the label that is refused is the
first one, by records and then by labels of a record, whose name is already taken.
-/

set_option autoImplicit false
set_option relaxedAutoImplicit false

namespace Rv32Asm

open Rv32Asm.Outcome
open Rv32Asm.Text

theorem natCast_toNat_ofInt (n : Int) : ((UInt32.ofInt n).toNat : Int) = n % UInt32.size := by
  rw [Word.toNat_ofInt, Int.toNat_of_nonneg (Int.emod_nonneg n (by decide))]
  rfl

theorem ofInt_natCast (n : Nat) : UInt32.ofInt n = UInt32.ofNat n := by
  rw [← UInt32.toNat_inj, ← Int.ofNat_inj, natCast_toNat_ofInt]
  simp [UInt32.size]

/-- The segment and the number of bytes of a statement: four for an instruction, all items for a
list of items of one size, and the bytes that are written out. -/
def Statement.extent : Statement → Segment × Int
  | .inst _ => (.text, 4)
  | .data ⟨_, size, .values items⟩ => (.data, items.length * size)
  | .data ⟨_, _, .bytes bs⟩ => (.data, bs.length)

def bytesIn (seg : Segment) : List Record → Int
  | [] => 0
  | r :: rs =>
    (if r.statement.extent.1 = seg then r.statement.extent.2 else 0) + bytesIn seg rs

theorem Statement.extent_eq (s : Statement) :
    s.extent.1 = s.segment ∧ UInt32.ofInt s.extent.2 = s.byteCount := by
  rcases s with inst | ⟨name, size, items | bs⟩
  · exact ⟨rfl, rfl⟩
  · refine ⟨rfl, ?_⟩
    rw [extent, UInt32.ofInt_mul, ofInt_natCast]
    rfl
  · exact ⟨rfl, ofInt_natCast bs.length⟩

theorem offsetAfter_eq_add (rs : List Record) (offset : Segment → UInt32) (seg : Segment) :
    offsetAfter offset rs seg = offset seg + UInt32.ofInt (bytesIn seg rs) := by
  induction rs generalizing offset with
  | nil =>
    have none : UInt32.ofInt 0 = 0 := rfl
    simp [offsetAfter, bytesIn, none]
  | cons r rs ih =>
    have next : offsetAfter offset (r :: rs) = offsetAfter (offsetAfter offset [r]) rs := rfl
    have first : offsetAfter offset [r] seg = offset seg + r.sizeIn seg := rfl
    obtain ⟨place, size⟩ := r.statement.extent_eq
    have same : UInt32.ofInt (if r.statement.extent.1 = seg then r.statement.extent.2 else 0) =
        r.sizeIn seg := by
      rw [place, Record.sizeIn, Record.segment]
      split
      · exact size
      · rfl
    rw [next, ih, first, bytesIn, UInt32.ofInt_add, same, UInt32.add_assoc]

theorem definitionsFrom_labels (rs : List Record) (offset : Segment → UInt32) :
    (definitionsFrom offset rs).map (fun s => (s.name, s.line)) =
      (rs.flatMap Record.labels).map fun label => (label.name, label.span.start.line) := by
  induction rs generalizing offset with
  | nil => rfl
  | cons r rs ih =>
    have here : (r.symbolsAt (offset r.segment)).map (fun s => (s.name, s.line)) =
        r.labels.map fun label => (label.name, label.span.start.line) := by
      simp [Record.symbolsAt]
    rw [definitionsFrom, List.map_append, here, ih, List.flatMap_cons, List.map_append]

theorem names_definitions (rs : List Record) :
    (definitions rs).map Symbol.name = (rs.flatMap Record.labels).map Label.name := by
  have pairs := congrArg (List.map Prod.fst) (definitionsFrom_labels rs fun _ => 0)
  simpa [definitions, Function.comp_def] using pairs

namespace SymbolTable

theorem find?_eq_some_iff {t : SymbolTable} (unique : t.Unique) {name : Bytes} {s : Symbol} :
    t.find? name = some s ↔ s ∈ t.entries ∧ s.name = name := by
  constructor
  · intro found
    have named : s.name = name := by simpa using List.find?_some found
    exact ⟨List.mem_of_find?_eq_some found, named⟩
  · rintro ⟨member, named⟩
    rw [← named]
    exact find?_of_mem unique member

theorem define_eq_error_iff {t : SymbolTable} {s : Symbol} {span : Span} {f : Fault} :
    t.define s span = .error f ↔
      ∃ first, t.find? s.name = some first ∧ f = ⟨.duplicateLabel s.name first.line, span⟩ := by
  unfold define
  cases t.find? s.name with
  | none => simp
  | some first => simp [eq_comm]

theorem defineAll_eq_error_iff {symbol : Label → Symbol} {labels : List Label} {t : SymbolTable}
    (unique : t.Unique) {f : Fault} :
    labels.foldlM (fun (t : SymbolTable) label => t.define (symbol label) label.span) t = .error f ↔
      ∃ before label after, labels = before ++ label :: after ∧
        Unique ⟨(before.map symbol).reverse ++ t.entries⟩ ∧
        ∃ first ∈ (before.map symbol).reverse ++ t.entries, first.name = (symbol label).name ∧
          f = ⟨.duplicateLabel (symbol label).name first.line, label.span⟩ := by
  rw [foldlM_eq_error_iff]
  constructor
  · rintro ⟨before, label, after, t', split, defined, refused⟩
    obtain ⟨entries, uniqueNext⟩ := (defineAll_eq_ok_iff before unique).mp defined
    obtain ⟨first, found, cause⟩ := define_eq_error_iff.mp refused
    obtain ⟨member, named⟩ := (find?_eq_some_iff uniqueNext).mp found
    rw [entries] at uniqueNext member
    exact ⟨before, label, after, split, uniqueNext, first, member, named, cause⟩
  · rintro ⟨before, label, after, split, uniqueNext, first, member, named, cause⟩
    have defined := (@defineAll_eq_ok_iff symbol before t _ unique).mpr ⟨rfl, uniqueNext⟩
    have found := (find?_eq_some_iff uniqueNext).mpr ⟨member, named⟩
    exact ⟨before, label, after, _, split, defined, define_eq_error_iff.mpr ⟨first, found, cause⟩⟩

end SymbolTable

theorem exists_symbol_iff {ss : List Symbol} {labels : List Label}
    (same : ss.map (fun s => (s.name, s.line)) =
      labels.map fun label => (label.name, label.span.start.line)) {name : Bytes} {line : Nat} :
    (∃ s ∈ ss, s.name = name ∧ s.line = line) ↔
      ∃ label ∈ labels, label.name = name ∧ label.span.start.line = line := by
  have member : (name, line) ∈ ss.map (fun s => (s.name, s.line)) ↔
      (name, line) ∈ labels.map fun label => (label.name, label.span.start.line) := by rw [same]
  simpa only [List.mem_map, Prod.mk.injEq] using member

/-- A record that comes after `us` is refused at its first label whose name is taken, by a label of
`us` or by one of its own. -/
theorem Placement.place_eq_error_iff {us : List Record} {p : Placement}
    (placed : us.foldlM place start = .ok p) {r : Record} {f : Fault} :
    p.place r = .error f ↔
      ∃ front label back, r.labels = front ++ label :: back ∧
        ((us.flatMap Record.labels ++ front).map Label.name).Nodup ∧
        ∃ first ∈ us.flatMap Record.labels ++ front, first.name = label.name ∧
          f = ⟨.duplicateLabel label.name first.span.start.line, label.span⟩ := by
  obtain ⟨_, table, unique⟩ := (placeAll_eq_ok_iff us SymbolTable.unique_empty).mp placed
  let symbol (label : Label) : Symbol :=
    ⟨label.name, r.segment, p.offset r.segment, label.span.start.line⟩
  have step : p.place r = .error f ↔
      r.labels.foldlM (fun (t : SymbolTable) label => t.define (symbol label) label.span) p.table =
        .error f := by
    unfold place placeSized
    rw [bind_eq_error_iff]
    simp [pure_ne_error, symbol]
  -- What the table holds when a label of `r` is defined, oldest first.
  have seen (front : List Label) :
      ((front.map symbol).reverse ++ p.table.entries).reverse.map (fun s => (s.name, s.line)) =
        (us.flatMap Record.labels ++ front).map fun label =>
          (label.name, label.span.start.line) := by
    have older := definitionsFrom_labels us start.offset
    have none : start.table.entries = [] := rfl
    rw [table, none, List.append_nil, List.reverse_append, List.reverse_reverse,
      List.reverse_reverse, List.map_append, older, List.map_map, List.map_append]
    rfl
  have distinct (front : List Label) :
      SymbolTable.Unique ⟨(front.map symbol).reverse ++ p.table.entries⟩ ↔
        ((us.flatMap Record.labels ++ front).map Label.name).Nodup := by
    have names := congrArg (List.map Prod.fst) (seen front)
    simp only [List.map_map, Function.comp_def] at names
    rw [SymbolTable.Unique, ← List.nodup_reverse, ← List.map_reverse, names]
  rw [step, SymbolTable.defineAll_eq_error_iff unique]
  constructor
  · rintro ⟨front, label, back, split, unique, first, member, named, rfl⟩
    obtain ⟨taker, earlier, same, line⟩ := (exists_symbol_iff (seen front)).mp
      ⟨first, List.mem_reverse.mpr member, named, rfl⟩
    exact ⟨front, label, back, split, (distinct front).mp unique, taker, earlier, same,
      by rw [line]⟩
  · rintro ⟨front, label, back, split, unique, first, earlier, same, rfl⟩
    obtain ⟨taken, member, named, line⟩ := (exists_symbol_iff (seen front)).mpr
      ⟨first, earlier, same, rfl⟩
    exact ⟨front, label, back, split, (distinct front).mpr unique, taken,
      List.mem_reverse.mp member, named, by rw [line]⟩

theorem flatMap_labels_eq_iff {rs : List Record} {before after : List Label} {label : Label} :
    rs.flatMap Record.labels = before ++ label :: after ↔
      ∃ us r vs front back, rs = us ++ r :: vs ∧ r.labels = front ++ label :: back ∧
        before = us.flatMap Record.labels ++ front ∧ after = back ++ vs.flatMap Record.labels := by
  constructor
  · intro split
    induction rs generalizing before with
    | nil => simp at split
    | cons r rs ih =>
      rw [List.flatMap_cons, List.append_eq_append_iff] at split
      rcases split with ⟨earlier, rfl, rest⟩ | ⟨own, labels, rest⟩
      · obtain ⟨us, r', vs, front, back, rfl, labels, rfl, rfl⟩ := ih rest
        exact ⟨r :: us, r', vs, front, back, rfl, labels, by simp, rfl⟩
      · cases own with
        | nil =>
          have rest : rs.flatMap Record.labels = [] ++ label :: after := rest.symm
          obtain ⟨us, r', vs, front, back, rfl, labels', none, rfl⟩ := ih rest
          refine ⟨r :: us, r', vs, front, back, rfl, labels', ?_, rfl⟩
          rw [List.flatMap_cons, List.append_assoc, ← none, labels]
          simp
        | cons head back =>
          obtain ⟨rfl, rfl⟩ := List.cons.inj rest
          exact ⟨[], r, rs, before, back, rfl, labels, rfl, rfl⟩
  · rintro ⟨us, r, vs, front, back, rfl, labels, rfl, rfl⟩
    simp [labels]

/-- The first label in a list whose name is taken, and the label before it that took the name. -/
inductive FirstRepeat : List Label → Label → Label → Prop
  | intro {before after : List Label} {first label : Label}
      (distinct : (before.map Label.name).Nodup) (earlier : first ∈ before)
      (same : first.name = label.name) : FirstRepeat (before ++ label :: after) first label

namespace SymbolTable

theorem ofRecords_eq_error_iff {rs : List Record} {f : Fault} :
    ofRecords rs = .error f ↔
      ∃ first label, FirstRepeat (rs.flatMap Record.labels) first label ∧
        f = ⟨.duplicateLabel label.name first.span.start.line, label.span⟩ := by
  have run : ofRecords rs = .error f ↔ rs.foldlM Placement.place Placement.start = .error f := by
    rw [ofRecords_eq, bind_eq_error_iff]
    simp [pure_ne_error]
  rw [run, foldlM_eq_error_iff]
  constructor
  · rintro ⟨us, r, vs, p, rfl, placed, refused⟩
    obtain ⟨front, label, back, labels, distinct, first, earlier, same, rfl⟩ :=
      (Placement.place_eq_error_iff placed).mp refused
    have all := flatMap_labels_eq_iff.mpr ⟨us, r, vs, front, back, rfl, labels, rfl, rfl⟩
    exact ⟨first, label, all ▸ .intro distinct earlier same, rfl⟩
  · rintro ⟨first, label, repeats, rfl⟩
    generalize all : rs.flatMap Record.labels = labels at repeats
    obtain ⟨distinct, earlier, same⟩ := repeats
    obtain ⟨us, r, vs, front, back, split, labels, rfl, _⟩ := flatMap_labels_eq_iff.mp all
    -- The names on the records before the refused one are distinct, so these have been placed.
    have fresh : ((definitions us).map Symbol.name).Nodup := by
      rw [names_definitions]
      rw [List.map_append] at distinct
      exact (List.nodup_append.mp distinct).1
    have table := ofRecords_eq_ok_iff.mpr ⟨rfl, fresh⟩
    rw [ofRecords_eq] at table
    obtain ⟨p, placed, _⟩ := bind_eq_ok_iff.mp table
    have refused := (Placement.place_eq_error_iff placed).mpr
      ⟨front, label, back, labels, distinct, first, earlier, same, rfl⟩
    exact ⟨us, r, vs, p, split, placed, refused⟩

/-- What the table of records holds: one symbol for each label, with the label's line, the segment
of its record, and the bytes that the records before it take there. -/
structure Binds (rs : List Record) (t : SymbolTable) : Prop where
  unique : t.Unique
  size : t.size = (rs.flatMap Record.labels).length
  names : ∀ name, (∃ s, t.find? name = some s) ↔
    ∃ label ∈ rs.flatMap Record.labels, label.name = name
  symbols : ∀ before r after, rs = before ++ r :: after → ∀ label ∈ r.labels,
    ∃ offset : UInt32, (offset.toNat : Int) = bytesIn r.statement.extent.1 before % UInt32.size ∧
      t.find? label.name =
        some ⟨label.name, r.statement.extent.1, offset, label.span.start.line⟩

theorem binds_of_ofRecords {rs : List Record} {t : SymbolTable} (placed : ofRecords rs = .ok t) :
    Binds rs t := by
  have placed' := placed
  have unique := unique_of_ofRecords placed
  obtain ⟨rfl, _⟩ := ofRecords_eq_ok_iff.mp placed
  refine ⟨unique, ?_, ?_, ?_⟩
  · have lengths := congrArg List.length (names_definitions rs)
    simpa [size] using lengths
  · intro name
    have taken : (∃ s, find? ⟨(definitions rs).reverse⟩ name = some s) ↔
        name ∈ (definitions rs).map Symbol.name := by
      simp [find?_eq_some_iff unique]
    rw [taken, names_definitions, List.mem_map]
  · rintro before r after rfl label member
    refine ⟨_, natCast_toNat_ofInt _, ?_⟩
    rw [find?_of_label placed' member, offsetAfter_eq_add, UInt32.zero_add, r.statement.extent_eq.1]
    rfl

/-- Placing succeeds if and only if no two labels have one name. It then binds the names of all
labels, and otherwise the fault is about the first label that repeats a name. -/
theorem ofRecords_binds_or_refuses (rs : List Record) :
    ((∃ t, ofRecords rs = .ok t) ↔ ((rs.flatMap Record.labels).map Label.name).Nodup) ∧
      (∀ t, ofRecords rs = .ok t → Binds rs t) ∧
      ∀ f, ofRecords rs = .error f ↔
        ∃ first label, FirstRepeat (rs.flatMap Record.labels) first label ∧
          f = ⟨.duplicateLabel label.name first.span.start.line, label.span⟩ ∧
          f.cause.kind = .duplicateLabel ∧
          f.cause.message = utf8 "Label \"" ++ label.name ++ utf8 "\" is already defined on line " ++
            decimal (first.span.start.line + 1) := by
  refine ⟨?_, fun t => binds_of_ofRecords, ?_⟩
  · rw [← names_definitions]
    constructor
    · rintro ⟨t, placed⟩
      exact (ofRecords_eq_ok_iff.mp placed).2
    · intro distinct
      exact ⟨_, ofRecords_eq_ok_iff.mpr ⟨rfl, distinct⟩⟩
  · intro f
    rw [ofRecords_eq_error_iff]
    constructor
    · rintro ⟨first, label, repeats, rfl⟩
      exact ⟨first, label, repeats, rfl, rfl, rfl⟩
    · rintro ⟨first, label, repeats, fault, _⟩
      exact ⟨first, label, repeats, fault⟩

/-- Two labels on one instruction, and labels in both segments that follow each other's records. -/
def mixedRecords : List Record :=
  [⟨[⟨utf8 "a", .onLine 0 0 1⟩, ⟨utf8 "b", .onLine 1 0 1⟩], 1, .onLine 1 3 6,
    .inst (.i "addi" 0 0 (.num 0))⟩,
   ⟨[⟨utf8 "v", .onLine 2 0 1⟩], 2, .onLine 2 3 16,
    .data ⟨".half", 2, .values [.num 1, .num 2, .num 3]⟩⟩,
   ⟨[], 3, .onLine 3 0 3, .inst (.i "addi" 0 0 (.num 0))⟩,
   ⟨[⟨utf8 "c", .onLine 4 0 1⟩], 4, .onLine 4 3 6, .inst (.j "jal" 0 (.ref (utf8 "a")))⟩,
   ⟨[], 5, .onLine 5 0 11, .data ⟨".ascii", 1, .bytes [104, 105]⟩⟩,
   ⟨[⟨utf8 "w", .onLine 6 0 1⟩], 6, .onLine 6 3 10, .data ⟨".byte", 1, .values [.ref (utf8 "v")]⟩⟩]

def repeatedLabel : Record :=
  ⟨[⟨utf8 "d", .onLine 7 0 1⟩, ⟨utf8 "v", .onLine 8 0 1⟩, ⟨utf8 "a", .onLine 9 0 1⟩], 9,
    .onLine 9 3 6, .inst (.i "addi" 0 0 (.num 0))⟩

theorem ofRecords_binds_or_refuses_mixed :
    (∃ t, ofRecords mixedRecords = .ok t ∧ t.size = 5 ∧
      t.find? (utf8 "b") = some ⟨utf8 "b", .text, 0, 1⟩ ∧
      t.find? (utf8 "c") = some ⟨utf8 "c", .text, 8, 4⟩ ∧
      t.find? (utf8 "w") = some ⟨utf8 "w", .data, 8, 6⟩) ∧
    ofRecords (mixedRecords ++ [repeatedLabel]) =
      .error ⟨.duplicateLabel (utf8 "v") 2, .onLine 8 0 1⟩ := by
  have both := ofRecords_binds_or_refuses mixedRecords
  have offset_eq {o v : UInt32} {n : Int} (sum : (o.toNat : Int) = n) (value : n = v.toNat) :
      o = v := by
    rw [← UInt32.toNat_inj]
    exact Int.ofNat_inj.mp (sum.trans value)
  constructor
  · obtain ⟨t, placed⟩ := both.1.mpr (by decide +kernel)
    have binds := both.2.1 t placed
    refine ⟨t, placed, binds.size, ?_, ?_, ?_⟩
    · obtain ⟨offset, sum, found⟩ := binds.symbols [] _ (mixedRecords.drop 1) rfl
        ⟨utf8 "b", .onLine 1 0 1⟩ (by decide +kernel)
      obtain rfl : offset = 0 := offset_eq sum (by decide +kernel)
      exact found
    · obtain ⟨offset, sum, found⟩ := binds.symbols (mixedRecords.take 3) _ (mixedRecords.drop 4) rfl
        ⟨utf8 "c", .onLine 4 0 1⟩ (by decide +kernel)
      obtain rfl : offset = 8 := offset_eq sum (by decide +kernel)
      exact found
    · obtain ⟨offset, sum, found⟩ := binds.symbols (mixedRecords.take 5) _ [] rfl
        ⟨utf8 "w", .onLine 6 0 1⟩ (by decide +kernel)
      obtain rfl : offset = 8 := offset_eq sum (by decide +kernel)
      exact found
  · have repeats : FirstRepeat
        ((mixedRecords.flatMap Record.labels ++ [⟨utf8 "d", .onLine 7 0 1⟩]) ++
          ⟨utf8 "v", .onLine 8 0 1⟩ :: [⟨utf8 "a", .onLine 9 0 1⟩])
        ⟨utf8 "v", .onLine 2 0 1⟩ ⟨utf8 "v", .onLine 8 0 1⟩ :=
      .intro (by decide +kernel) (by decide +kernel) rfl
    exact ((ofRecords_binds_or_refuses _).2.2 _).mpr ⟨_, _, repeats, rfl, rfl, rfl⟩

end SymbolTable

end Rv32Asm
