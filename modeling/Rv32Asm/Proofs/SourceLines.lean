import Mathlib.Data.List.Nodup
import Mathlib.Data.List.Range
import Rv32Asm.Proofs.Interleaving
import Rv32Asm.Proofs.Layout

/-!
Addresses and source lines.

A line holds at most one statement, and lines are read from top to bottom, so the lines of the
records rise. An assembled program with fewer than 2^30 instructions therefore has one address for
each line with an instruction and one such line for each address, and it does not matter in which
order they are searched.
-/

set_option autoImplicit false
set_option relaxedAutoImplicit false

namespace Rv32Asm

open Rv32Asm.Outcome

theorem find?_eq_some_iff_of_unique {α : Type} {l : List α} {test : α → Bool}
    (unique : ∀ x ∈ l, ∀ y ∈ l, test x = true → test y = true → x = y) {x : α} :
    l.find? test = some x ↔ x ∈ l ∧ test x = true := by
  constructor
  · intro found
    exact ⟨List.mem_of_find?_eq_some found, List.find?_some found⟩
  · rintro ⟨member, passes⟩
    have some_match : (l.find? test).isSome := List.find?_isSome.mpr ⟨x, member, passes⟩
    obtain ⟨y, found⟩ := Option.isSome_iff_exists.mp some_match
    have same : x = y :=
      unique x member y (List.mem_of_find?_eq_some found) passes (List.find?_some found)
    rw [found, same]

namespace Parse

variable {cfg : Config} {s s' : State} {n : Nat}

/-- Before line `n`: the records, latest first, have falling lines above `n`. -/
structure State.Falling (n : Nat) (s : State) : Prop where
  ordered : (s.records.map Record.line).Pairwise (· > ·)
  above : ∀ r ∈ s.records, r.line < n

theorem State.Falling.line {bs : Bytes} (falling : s.Falling n)
    (read : Parse.line cfg s (bs, n) = .ok s') : s'.Falling (n + 1) := by
  have later : ∀ r ∈ s.records, r.line < n + 1 := by
    intro r member
    have above := falling.above r member
    omega
  obtain ⟨_, _, _, _, _, ⟨_, rfl⟩ | ⟨_, _, _, _, _, ⟨_, rfl⟩ | ⟨stmt, _, rfl⟩⟩⟩ := line_cases read
  · exact ⟨falling.ordered, later⟩
  · exact ⟨falling.ordered, later⟩
  · constructor
    · rw [List.map_cons, List.pairwise_cons]
      refine ⟨?_, falling.ordered⟩
      intro m member
      obtain ⟨r, known, rfl⟩ := List.mem_map.mp member
      exact falling.above r known
    · rw [List.forall_mem_cons]
      exact ⟨Nat.lt_succ_self n, later⟩

theorem State.Falling.lines {ls : List Bytes} (falling : s.Falling n)
    (run : (ls.zipIdx n).foldlM (Parse.line cfg) s = .ok s') : s'.Falling (n + ls.length) :=
  foldlM_zipIdx_preserves (fun _ _ _ _ => State.Falling.line) ls falling run

end Parse

theorem parse_lines_rise {cfg : Config} {source : Bytes} {rs : List Record}
    (parsed : parse cfg source = .ok rs) :
    (rs.map Record.line).Pairwise (· < ·) ∧ ∀ r ∈ rs, r.line < (Text.lines source).length := by
  obtain ⟨s, run, _, rfl⟩ := parse_eq_ok_iff.mp parsed
  have start : Parse.State.Falling 0 ⟨[], []⟩ := ⟨.nil, by simp⟩
  have falling := start.lines run
  rw [Nat.zero_add] at falling
  constructor
  · rw [List.map_reverse, List.pairwise_reverse]
    exact falling.ordered
  · intro r member
    exact falling.above r (List.mem_reverse.mp member)

theorem Link.Linked.map_line {table : SymbolTable} {pc : UInt32} {us rs : List Record}
    (linked : Linked table pc us rs) : rs.map Record.line = us.map Record.line := by
  induction linked with
  | nil pc => rfl
  | cons _ _ ih => rw [List.map_cons, List.map_cons, ih]

theorem mem_recordsIn_text {rs : List Record} {r : Record} :
    r ∈ recordsIn .text rs ↔ r ∈ rs ∧ ∃ i, r.statement = .inst i := by
  rw [recordsIn, List.mem_filter]
  refine and_congr_right fun _ => ?_
  cases statement : r.statement <;> simp [Record.segment, Statement.segment, statement]

namespace Coded

variable {n : Nat} {rs : List Record} {cs : List CodeWord}

theorem map_line (coded : Coded n rs cs) :
    cs.map CodeWord.line = (recordsIn .text rs).map Record.line := by
  induction coded with
  | nil n => rfl
  | @data n r d rs cs statement _ ih =>
    have other : r.segment ≠ .text := by simp [Record.segment_of_data statement]
    rw [recordsIn_cons_of_ne other, ih]
  | inst statement _ _ ih =>
    rw [recordsIn_cons_of_eq (Record.segment_of_inst statement), List.map_cons, List.map_cons, ih]

theorem map_address (coded : Coded n rs cs) :
    cs.map CodeWord.address = (List.range' n cs.length).map fun k => UInt32.ofNat (4 * k) := by
  induction coded with
  | nil n => rfl
  | data _ _ ih => exact ih
  | inst _ _ _ ih =>
    rw [List.map_cons, ih, List.length_cons, List.range'_succ, List.map_cons]

end Coded

namespace Program

/-- The line of the word at an address. Of two words at one address, the later counts. -/
def lineOf? (p : Program) (address : UInt32) : Option Nat :=
  (p.code.reverse.find? fun c => c.address == address).map CodeWord.line

structure Enumerates (p : Program) (entries : List (UInt32 × Nat)) : Prop where
  once : (entries.map Prod.fst).Nodup
  entry : ∀ a n, (a, n) ∈ entries ↔ p.lineOf? a = some n

def searchLine (entries : List (UInt32 × Nat)) (line : Int) : Option UInt32 :=
  (entries.find? fun e => (e.2 : Int) == line).map Prod.fst

structure OneToOne (p : Program) : Prop where
  lines : (p.code.map CodeWord.line).Nodup
  addresses : (p.code.map CodeWord.address).Nodup

variable {cfg : Config} {source : Bytes} {us : List Record} {p : Program}

theorem Stages.lines_rise (stages : p.Stages cfg source us) :
    (p.records.map Record.line).Pairwise (· < ·) ∧
      ∀ r ∈ p.records, r.line < (Text.lines source).length := by
  obtain ⟨ordered, inside⟩ := parse_lines_rise stages.parsed
  have same := stages.linked.map_line
  refine ⟨same ▸ ordered, ?_⟩
  intro r member
  have known : r.line ∈ us.map Record.line := same ▸ List.mem_map_of_mem member
  obtain ⟨u, parsed, line⟩ := List.mem_map.mp known
  exact line ▸ inside u parsed

theorem Stages.oneToOne (stages : p.Stages cfg source us) (few : p.words.length < 0x40000000) :
    p.OneToOne := by
  constructor
  · rw [stages.coded.map_line]
    have rising : ((recordsIn .text p.records).map Record.line).Pairwise (· < ·) :=
      stages.lines_rise.1.sublist (List.filter_sublist.map Record.line)
    exact rising.imp Nat.ne_of_lt
  · have length : p.code.length < 0x40000000 := by simpa [words] using few
    rw [stages.coded.map_address]
    apply List.Nodup.map_on _ List.nodup_range'
    intro j left k right same
    rw [List.mem_range'_1] at left right
    have equal := congrArg UInt32.toNat same
    rw [UInt32.toNat_ofNat_of_lt' (by simp only [UInt32.size]; omega),
      UInt32.toNat_ofNat_of_lt' (by simp only [UInt32.size]; omega)] at equal
    omega

section Search

variable {a : UInt32} {n : Nat} {line : Int}

theorem OneToOne.lineOf?_eq_some_iff (matching : p.OneToOne) :
    p.lineOf? a = some n ↔ ∃ c ∈ p.code, c.address = a ∧ c.line = n := by
  have unique : ∀ c ∈ p.code.reverse, ∀ d ∈ p.code.reverse, (c.address == a) = true →
      (d.address == a) = true → c = d := by
    intro c left d right here there
    rw [List.mem_reverse] at left right
    rw [beq_iff_eq] at here there
    exact List.inj_on_of_nodup_map matching.addresses left right (here.trans there.symm)
  simp only [lineOf?, Option.map_eq_some_iff, find?_eq_some_iff_of_unique unique, List.mem_reverse,
    beq_iff_eq, and_assoc]

theorem OneToOne.addressOf?_eq_some_iff (matching : p.OneToOne) :
    p.addressOf? line = some a ↔ ∃ c ∈ p.code, (c.line : Int) = line ∧ c.address = a := by
  have unique : ∀ c ∈ p.code, ∀ d ∈ p.code, ((c.line : Int) == line) = true →
      ((d.line : Int) == line) = true → c = d := by
    intro c left d right here there
    rw [beq_iff_eq] at here there
    exact List.inj_on_of_nodup_map matching.lines left right (by omega)
  simp only [addressOf?, Option.map_eq_some_iff, find?_eq_some_iff_of_unique unique, beq_iff_eq,
    and_assoc]

/-- A search finds the same address in whatever order it meets the entries. -/
theorem OneToOne.searchLine_eq (matching : p.OneToOne) {entries : List (UInt32 × Nat)}
    (listed : p.Enumerates entries) (line : Int) : searchLine entries line = p.addressOf? line := by
  have unique : ∀ e ∈ entries, ∀ f ∈ entries, ((e.2 : Int) == line) = true →
      ((f.2 : Int) == line) = true → e = f := by
    rintro ⟨a, m⟩ left ⟨b, n⟩ right here there
    simp only [beq_iff_eq] at here there
    obtain rfl : m = n := by omega
    obtain ⟨c, inside, rfl, same⟩ := matching.lineOf?_eq_some_iff.mp ((listed.entry a m).mp left)
    obtain ⟨d, inside', rfl, same'⟩ := matching.lineOf?_eq_some_iff.mp ((listed.entry b m).mp right)
    rw [List.inj_on_of_nodup_map matching.lines inside inside' (same.trans same'.symm)]
  apply Option.ext
  intro a
  simp only [searchLine, Option.map_eq_some_iff, find?_eq_some_iff_of_unique unique,
    matching.addressOf?_eq_some_iff, beq_iff_eq]
  constructor
  · rintro ⟨⟨_, n⟩, ⟨member, here⟩, rfl⟩
    have known := (listed.entry _ n).mp member
    obtain ⟨c, inside, address, rfl⟩ := matching.lineOf?_eq_some_iff.mp known
    exact ⟨c, inside, here, address⟩
  · rintro ⟨c, inside, here, rfl⟩
    have known := matching.lineOf?_eq_some_iff.mpr ⟨c, inside, rfl, rfl⟩
    exact ⟨(c.address, c.line), ⟨(listed.entry _ _).mpr known, here⟩, rfl⟩

theorem OneToOne.enumerates (matching : p.OneToOne) :
    p.Enumerates (p.code.map fun c => (c.address, c.line)) := by
  constructor
  · rw [List.map_map]
    exact matching.addresses
  · intro a n
    simp only [List.mem_map, Prod.mk.injEq, matching.lineOf?_eq_some_iff]

end Search

theorem length_code (p : Program) : p.code.length = p.words.length := by
  rw [words, List.length_map]

theorem Stages.line_at (stages : p.Stages cfg source us) (k : Nat) :
    (p.code[k]?).map CodeWord.line = ((recordsIn .text p.records)[k]?).map Record.line := by
  rw [← List.getElem?_map, ← List.getElem?_map, stages.coded.map_line]

theorem Stages.address_at (stages : p.Stages cfg source us) {k : Nat} {c : CodeWord}
    (place : p.code[k]? = some c) : c.address = UInt32.ofNat (4 * k) := by
  have inside := (List.getElem?_eq_some_iff.mp place).1
  have addresses := congrArg (·[k]?) stages.coded.map_address
  simpa [place, List.getElem?_range' inside] using addresses

theorem Stages.exists_address_iff (stages : p.Stages cfg source us)
    (few : p.words.length < 0x40000000) {a : UInt32} :
    (∃ c ∈ p.code, c.address = a) ↔ ∃ k < p.words.length, a.toNat = 4 * k := by
  have exact_ (k : Nat) (below : k < p.words.length) :
      (UInt32.ofNat (4 * k)).toNat = 4 * k := by
    apply UInt32.toNat_ofNat_of_lt'
    simp only [UInt32.size]
    omega
  constructor
  · rintro ⟨c, member, rfl⟩
    obtain ⟨k, place⟩ := List.getElem?_of_mem member
    have below : k < p.words.length := by
      rw [← length_code]
      exact (List.getElem?_eq_some_iff.mp place).1
    exact ⟨k, below, by rw [stages.address_at place, exact_ k below]⟩
  · rintro ⟨k, below, address⟩
    have place := List.getElem?_eq_getElem (p.length_code ▸ below)
    refine ⟨_, List.mem_of_getElem? place, ?_⟩
    rw [stages.address_at place]
    exact UInt32.toNat_inj.mp ((exact_ k below).trans address.symm)

theorem Stages.exists_lineOf?_iff (stages : p.Stages cfg source us)
    (few : p.words.length < 0x40000000) (a : UInt32) :
    (∃ n, p.lineOf? a = some n) ↔ ∃ k < p.words.length, a.toNat = 4 * k := by
  rw [← stages.exists_address_iff few]
  simp only [(stages.oneToOne few).lineOf?_eq_some_iff]
  constructor
  · rintro ⟨_, c, member, address, _⟩
    exact ⟨c, member, address⟩
  · rintro ⟨c, member, address⟩
    exact ⟨_, c, member, address, rfl⟩

theorem Stages.lineOf?_at (stages : p.Stages cfg source us) (few : p.words.length < 0x40000000)
    {k : Nat} {a : UInt32} (address : a.toNat = 4 * k) :
    p.lineOf? a = ((recordsIn .text p.records)[k]?).map Record.line := by
  rw [← stages.line_at]
  cases place : p.code[k]? with
  | none =>
    have outside : p.words.length ≤ k := by
      rw [← length_code]
      exact List.getElem?_eq_none_iff.mp place
    cases found : p.lineOf? a with
    | none => rfl
    | some n =>
      obtain ⟨j, below, same⟩ := (stages.exists_lineOf?_iff few a).mp ⟨n, found⟩
      omega
  | some c =>
    have here : c.address = a := by
      rw [stages.address_at place, ← address, UInt32.ofNat_toNat]
    have member := List.mem_of_getElem? place
    exact (stages.oneToOne few).lineOf?_eq_some_iff.mpr ⟨c, member, here, rfl⟩

theorem Stages.exists_addressOf?_iff (stages : p.Stages cfg source us)
    (few : p.words.length < 0x40000000) (line : Int) :
    (∃ a, p.addressOf? line = some a) ↔
      ∃ r ∈ p.records, (∃ i, r.statement = .inst i) ∧ (r.line : Int) = line := by
  have lines : (∃ n ∈ p.code.map CodeWord.line, (n : Int) = line) ↔
      ∃ n ∈ (recordsIn .text p.records).map Record.line, (n : Int) = line := by
    rw [stages.coded.map_line]
  simp only [List.mem_map, exists_exists_and_eq_and] at lines
  simp only [mem_recordsIn_text, and_assoc] at lines
  rw [← lines]
  simp only [(stages.oneToOne few).addressOf?_eq_some_iff]
  constructor
  · rintro ⟨_, c, member, here, _⟩
    exact ⟨c, member, here⟩
  · rintro ⟨c, member, here⟩
    exact ⟨_, c, member, here, rfl⟩

theorem Stages.recordAt?_eq_some_iff (stages : p.Stages cfg source us) {line : Int} {r : Record} :
    p.recordAt? line = some r ↔ r ∈ p.records ∧ (r.line : Int) = line := by
  have distinct : (p.records.map Record.line).Nodup := stages.lines_rise.1.imp Nat.ne_of_lt
  have unique : ∀ r ∈ p.records, ∀ q ∈ p.records, ((r.line : Int) == line) = true →
      ((q.line : Int) == line) = true → r = q := by
    intro r left q right here there
    rw [beq_iff_eq] at here there
    exact List.inj_on_of_nodup_map distinct left right (by omega)
  rw [recordAt?, find?_eq_some_iff_of_unique unique, beq_iff_eq]

structure LinesMatch (source : Bytes) (p : Program) : Prop where
  rising : (p.records.map Record.line).Pairwise (· < ·)
  inside : ∀ r ∈ p.records, r.line < (Text.lines source).length
  count : (recordsIn .text p.records).length = p.words.length
  keys : ∀ a, (∃ n, p.lineOf? a = some n) ↔ ∃ k < p.words.length, a.toNat = 4 * k
  /-- At address `4 * k` stands the line of the instruction with number `k`. -/
  lineOf : ∀ k a, a.toNat = 4 * k →
    p.lineOf? a = ((recordsIn .text p.records)[k]?).map Record.line
  addressed : ∀ line, (∃ a, p.addressOf? line = some a) ↔
    ∃ r ∈ p.records, (∃ i, r.statement = .inst i) ∧ (r.line : Int) = line
  inverse : ∀ line a, p.addressOf? line = some a ↔ ∃ n, p.lineOf? a = some n ∧ (n : Int) = line
  /-- The search for an address does not depend on the order of the entries. -/
  anyOrder : (∃ entries, p.Enumerates entries) ∧
    ∀ entries, p.Enumerates entries → ∀ line, searchLine entries line = p.addressOf? line
  recordAt : ∀ line r, p.recordAt? line = some r ↔ r ∈ p.records ∧ (r.line : Int) = line

theorem linesMatch_of_assemble (assembled : assemble cfg source = .ok p)
    (few : p.words.length < 0x40000000) : p.LinesMatch source := by
  obtain ⟨us, stages⟩ := assemble_stages assembled
  have matching := stages.oneToOne few
  constructor
  case rising => exact stages.lines_rise.1
  case inside => exact stages.lines_rise.2
  case count =>
    have lengths := congrArg List.length stages.coded.map_line
    rw [List.length_map, List.length_map, length_code] at lengths
    exact lengths.symm
  case keys => exact stages.exists_lineOf?_iff few
  case lineOf => exact fun _ _ address => stages.lineOf?_at few address
  case addressed => exact stages.exists_addressOf?_iff few
  case inverse =>
    intro line a
    simp only [matching.addressOf?_eq_some_iff, matching.lineOf?_eq_some_iff]
    constructor
    · rintro ⟨c, member, here, address⟩
      exact ⟨_, ⟨c, member, address, rfl⟩, here⟩
    · rintro ⟨_, ⟨c, member, address, rfl⟩, here⟩
      exact ⟨c, member, here, address⟩
  case anyOrder => exact ⟨⟨_, matching.enumerates⟩, fun _ listed => matching.searchLine_eq listed⟩
  case recordAt => exact fun _ _ => stages.recordAt?_eq_some_iff

def scatteredSource : Bytes :=
  Text.utf8 "# none\nstart: addi x1, x0, 4\n.word start\nback:\n\n  jal x0, back\n"

theorem linesMatch_scatteredSource :
    ∃ p, assemble .standard scatteredSource = .ok p ∧ p.words.length = 2 ∧
      p.records.map Record.line = [1, 2, 5] ∧
      [0, 4, 8].map p.lineOf? = [some 1, some 5, none] ∧
      [1, 2, 5].map p.addressOf? = [some 0, none, some 4] ∧ p.LinesMatch scatteredSource := by
  have run : (assemble .standard scatteredSource).map (fun p => (p.words.length,
      p.records.map Record.line, [0, 4, 8].map p.lineOf?, [1, 2, 5].map p.addressOf?)) =
      .ok (2, [1, 2, 5], [some 1, some 5, none], [some 0, none, some 4]) := by decide +kernel
  obtain ⟨p, assembled, same⟩ := map_eq_ok_iff.mp run
  simp only [Prod.mk.injEq] at same
  obtain ⟨count, recordLines, lines, addresses⟩ := same
  have few : p.words.length < 0x40000000 := by omega
  exact ⟨p, assembled, count, recordLines, lines, addresses, linesMatch_of_assemble assembled few⟩

end Program

end Rv32Asm
