import Rv32Asm.Proofs.Bindings
import Rv32Asm.Proofs.Padding
import Rv32Asm.Proofs.Resolution

/-!
Offsets that wrap.

Nothing bounds the bytes of all records together, and offsets are 32 bit words. A label behind `n`
bytes of its segment has the offset `n` modulo 2^32, which is `n` itself only below 2^32. A
reference to it is accepted by what is left of `n`: where that is not the true number, there would
be no room for the true number. No check notices this. Every program has a twin with the same words
and the same offsets in which all data labels stand 2^32 bytes further behind.
-/

set_option autoImplicit false
set_option relaxedAutoImplicit false

namespace Rv32Asm

open Rv32Asm.Text
open Rv32Asm.Outcome
open Rv32Asm.Link

namespace Link.Site

/-- What the numbers of a site count from, for a site behind `address` bytes of text. -/
def origin (address : Nat) : Site → Nat
  | code .branch _ | code .jump _ => address
  | _ => 0

/-- The number of a label behind `n` bytes, at a site whose numbers count from `o`. -/
structure Reduces (site : Site) (n o : Nat) (v : Int) : Prop where
  value : v = ((n % UInt32.size : Nat) : Int) - ((o % UInt32.size : Nat) : Int)
  /-- The number is the true one if both places have wrapped equally often. -/
  true_iff : v = (n : Int) - o ↔ n / UInt32.size = o / UInt32.size
  /-- Otherwise the site has no room for the true number. -/
  room_iff : site.room.1 ≤ (n : Int) - o ∧ (n : Int) - o ≤ site.room.2 ↔
    n / UInt32.size = o / UInt32.size

variable {site : Site}

theorem value_eq (s : Symbol) {n address : Nat} (offset : s.offset.toNat = n % UInt32.size)
    (pc : ∀ format pc, site = code format pc → pc.toNat = address % UInt32.size) :
    site.value s = ((n % UInt32.size : Nat) : Int) -
      ((site.origin address % UInt32.size : Nat) : Int) := by
  cases site with
  | item size => simp [value, origin, offset]
  | code format start =>
    have here := pc format start rfl
    cases format <;> simp [value, origin, offset, here]

theorem room_lt (site : Site) : site.room.2 < UInt32.size := by
  cases site with
  | item size =>
    simp only [room, Bounds.data]
    split
    · decide
    · split <;> decide
  | code format pc => cases format <;> simp only [room] <;> decide

theorem near_or_absolute (site : Site) (address : Nat) (s : Symbol) :
    -1048576 ≤ site.room.1 ∧ site.room.2 ≤ 1048575 ∨
      site.origin address = 0 ∧ 0 ≤ site.value s := by
  cases site with
  | item size => exact .inr ⟨rfl, Int.natCast_nonneg _⟩
  | code format pc =>
    cases format with
    | branch | jump => simp [room]
    | _ => exact .inr ⟨rfl, Int.natCast_nonneg _⟩

theorem Resolves.reduces {table : SymbolTable} {label : Bytes} {v : Int} {s : Symbol}
    (resolves : site.Resolves table label v) (found : table.find? label = some s) {n address : Nat}
    (offset : s.offset.toNat = n % UInt32.size)
    (pc : ∀ format pc, site = code format pc → pc.toNat = address % UInt32.size) :
    site.Reduces n (site.origin address) v := by
  obtain ⟨s', found', _, rfl, least, greatest⟩ := resolves
  obtain rfl : s' = s := Option.some.inj (found'.symm.trans found)
  have value := value_eq s' offset pc
  have far := room_lt site
  have near := near_or_absolute site address s'
  refine ⟨value, ?_, ?_⟩
  all_goals
    simp only [UInt32.size] at value far ⊢
    omega

end Link.Site

theorem Link.Linked.map_labels {table : SymbolTable} {pc : UInt32} {us rs : List Record}
    (linked : Linked table pc us rs) : rs.map Record.labels = us.map Record.labels := by
  induction linked with
  | nil pc => rfl
  | cons _ _ ih => rw [List.map_cons, List.map_cons, ih]

namespace Program

/-- A record with the label stands behind `n` bytes of its segment. The number is not reduced. -/
def StandsBehind (p : Program) (name : Bytes) (seg : Segment) (n : Nat) : Prop :=
  ∃ before r after, p.records = before ++ r :: after ∧ r.segment = seg ∧
    name ∈ r.labels.map Label.name ∧ n = (segmentBytes p.order seg before).length

variable {cfg : Config} {source : Bytes} {us : List Record} {p : Program} {name : Bytes}
  {seg : Segment} {n : Nat}

section Places

theorem Stages.exists_offset (stages : p.Stages cfg source us)
    (stands : p.StandsBehind name seg n) :
    ∃ s, p.symbols.find? name = some s ∧ s.segment = seg ∧ s.offset.toNat = n % UInt32.size := by
  obtain ⟨before, r, after, split, rfl, named, rfl⟩ := stands
  obtain ⟨label, member, rfl⟩ := List.mem_map.mp named
  refine ⟨_, stages.find?_label split member, rfl, ?_⟩
  rw [order, stages.config]
  exact UInt32.toNat_ofNat'

theorem Stages.exists_standsBehind (stages : p.Stages cfg source us) {s : Symbol}
    (found : p.symbols.find? name = some s) : ∃ n, p.StandsBehind name s.segment n := by
  obtain ⟨label, member, rfl⟩ :=
    ((SymbolTable.binds_of_ofRecords stages.placed).names name).mp ⟨s, found⟩
  rw [List.flatMap_def, ← stages.linked.map_labels, ← List.flatMap_def] at member
  obtain ⟨r, inside, member⟩ := List.mem_flatMap.mp member
  obtain ⟨before, after, split⟩ := List.append_of_mem inside
  have same := stages.find?_label split member
  rw [found] at same
  obtain rfl := Option.some.inj same
  exact ⟨_, before, r, after, split, rfl, List.mem_map_of_mem member, rfl⟩

theorem Stages.le_length_segment (stages : p.Stages cfg source us)
    (stands : p.StandsBehind name seg n) : n ≤ (p.segment seg).length := by
  obtain ⟨before, r, after, split, _, _, rfl⟩ := stands
  rw [stages.segment_eq, split, segmentBytes_append, List.length_append, order, stages.config]
  exact Nat.le_add_right _ _

end Places

section Twins

def padded (source : Bytes) : Bytes := spaceLines 256 0x1000000 ++ newline :: source

/-- The same words and offsets, but the data labels stand further behind. -/
structure Twin (p p' : Program) : Prop where
  words : p'.words = p.words
  offsets : ∀ name, (p'.symbols.find? name).map (fun s => (s.segment, s.offset)) =
    (p.symbols.find? name).map fun s => (s.segment, s.offset)
  further : ∀ name n, p.StandsBehind name .data n → p'.StandsBehind name .data (n + UInt32.size)

theorem segmentBytes_move (order : ByteOrder) (m : Move) (rs : List Record) (seg : Segment) :
    segmentBytes order seg (rs.map (Record.move m)) = segmentBytes order seg rs := by
  rw [segmentBytes, segmentBytes, List.flatMap_map]
  rfl

/-- Any records of zero bytes make a twin if there are 2^32 of the bytes. -/
theorem exists_twin_of_pads {front : Bytes} {fs : List Record} {m : Nat}
    (parsed : parse cfg front = .ok fs) (pads : ∀ r ∈ fs, r.Pads m)
    (total : fs.length * m = UInt32.size) (assembled : assemble cfg source = .ok p) :
    ∃ p', assemble cfg (front ++ newline :: source) = .ok p' ∧ p.Twin p' := by
  have level : UInt32.ofNat (fs.length * m) = 0 := by
    rw [total]
    rfl
  obtain ⟨p', assembled', words, symbols, records⟩ := assemble_padded parsed pads level assembled
  refine ⟨p', assembled', words, ?_, ?_⟩
  · intro name
    rw [symbols, SymbolTable.find?_move, Option.map_map]
    rfl
  · rintro name n ⟨before, r, after, split, segment, named, rfl⟩
    obtain ⟨us, stages⟩ := assemble_stages assembled
    obtain ⟨us', stages'⟩ := assemble_stages assembled'
    have orders : p'.order = p.order := by
      rw [order, order, stages.config, stages'.config]
    let down := Move.down (lines front).length
    refine ⟨fs ++ before.map (Record.move down), r.move down, after.map (Record.move down),
      ?_, segment, ?_, ?_⟩
    · rw [records, split, List.map_append, List.map_cons, List.append_assoc]
    · simpa [Record.move, Label.move, Function.comp_def] using named
    · rw [segmentBytes_append, List.length_append, length_segmentBytes_pads pads, total, orders,
        segmentBytes_move, Nat.add_comm]

theorem exists_twin (assembled : assemble cfg source = .ok p) :
    ∃ p', assemble cfg (padded source) = .ok p' ∧ p.Twin p' := by
  obtain ⟨fs, parsed, length, pads⟩ := parse_spaceLines cfg (Nat.le_refl 0x1000000) 255
  have total : fs.length * 0x1000000 = UInt32.size := by rw [length]
  exact exists_twin_of_pads parsed pads total assembled

end Twins

/-- Offsets are counted modulo 2^32, and nothing notices when they wrap. -/
structure OffsetsWrap (cfg : Config) (us : List Record) (p : Program) : Prop where
  offset : ∀ name seg n, p.StandsBehind name seg n → ∃ s, p.symbols.find? name = some s ∧
    s.segment = seg ∧ s.offset.toNat = n % UInt32.size ∧ (s.offset.toNat = n ↔ n < UInt32.size)
  inside : ∀ name seg n, p.StandsBehind name seg n → n ≤ (p.segment seg).length
  linked : RewritesAfter p.symbols [] us p.records
  /-- What a label is replaced by, in a record behind the instructions of `before`. -/
  reference : ∀ before u after, us = before ++ u :: after → ∀ name,
    .ref name ∈ u.statement.operands →
      ∃ seg n v, p.StandsBehind name seg n ∧
        (u.statement.site (addressAfter before)).Resolves p.symbols name v ∧
        (u.statement.site (addressAfter before)).Reduces n
          ((u.statement.site (addressAfter before)).origin
            (4 * (before.filterMap Record.instruction?).length)) v
  twin : ∃ source' p', assemble cfg source' = .ok p' ∧ p.Twin p'

theorem offsetsWrap_of_assemble (assembled : assemble cfg source = .ok p) :
    ∃ us, parse cfg source = .ok us ∧ p.OffsetsWrap cfg us := by
  obtain ⟨us, stages⟩ := assemble_stages assembled
  have linked : RewritesAfter p.symbols [] us p.records :=
    linked_iff_rewritesAfter.mp stages.linked
  refine ⟨us, stages.parsed, ?_⟩
  constructor
  case offset =>
    intro name seg n stands
    obtain ⟨s, found, segment, offset⟩ := stages.exists_offset stands
    refine ⟨s, found, segment, offset, ?_⟩
    simp only [UInt32.size] at offset ⊢
    omega
  case inside => exact fun name seg n => stages.le_length_segment
  case linked => exact linked
  case reference =>
    intro before u after split name member
    obtain ⟨r, _, becomes⟩ := linked.2 before u after split
    rw [List.nil_append] at becomes
    have result : statement p.symbols (addressAfter before) u.span u.statement = .ok r.statement :=
      statement_eq_ok_iff_resolved.mpr becomes.statement
    obtain ⟨v, resolves⟩ := exists_statement_iff.mp ⟨_, result⟩ name member
    obtain ⟨s, found, _⟩ := id resolves
    obtain ⟨n, stands⟩ := stages.exists_standsBehind found
    obtain ⟨s', found', _, offset⟩ := stages.exists_offset stands
    have pc : ∀ format pc, u.statement.site (addressAfter before) = .code format pc →
        pc.toNat = 4 * (before.filterMap Record.instruction?).length % UInt32.size := by
      intro format pc here
      cases kind : u.statement with
      | data d => simp [kind, Statement.site] at here
      | inst i =>
        rw [kind, Statement.site, Site.code.injEq] at here
        rw [← here.2]
        exact UInt32.toNat_ofNat'
    exact ⟨s.segment, n, v, stands, resolves, resolves.reduces found' offset pc⟩
  case twin =>
    obtain ⟨p', assembled', twin⟩ := exists_twin assembled
    exact ⟨_, p', assembled', twin⟩

def nearSource : Bytes :=
  utf8 ".word 7\nnear: .byte 1, near\naddi x1, x0, near"

theorem offsetsWrap_nearSource :
    ∃ p, assemble .standard nearSource = .ok p ∧ p.words = [0x00400093] ∧
      ∃ us, parse .standard nearSource = .ok us ∧ p.OffsetsWrap .standard us := by
  have run : (assemble .standard nearSource).map Program.words = .ok [0x00400093] := by
    decide +kernel
  obtain ⟨p, assembled, words⟩ := map_eq_ok_iff.mp run
  exact ⟨p, assembled, words, offsetsWrap_of_assemble assembled⟩

def farSource : Bytes :=
  padded (utf8 "far: .byte 1\naddi x1, x0, far")

theorem farSource_wraps :
    ∃ p, assemble .standard farSource = .ok p ∧ p.StandsBehind (utf8 "far") .data UInt32.size ∧
      (p.symbols.find? (utf8 "far")).map (fun s => (s.segment, s.offset)) = some (.data, 0) ∧
      p.words = [0x00000093] := by
  have run : (assemble .standard (utf8 "far: .byte 1\naddi x1, x0, far")).map
      (fun p => (p.data, (p.symbols.find? (utf8 "far")).map fun s => (s.segment, s.offset),
        p.words)) = .ok ([1], some (.data, 0), [0x00000093]) := by decide +kernel
  obtain ⟨p, assembled, same⟩ := map_eq_ok_iff.mp run
  simp only [Prod.mk.injEq] at same
  obtain ⟨data, symbol, words⟩ := same
  obtain ⟨us, stages⟩ := assemble_stages assembled
  obtain ⟨s, found, place⟩ := Option.map_eq_some_iff.mp symbol
  obtain ⟨segment, offset⟩ := Prod.mk.inj place
  obtain ⟨n, stands⟩ := stages.exists_standsBehind found
  rw [segment] at stands
  -- Without the zero bytes the label is the first thing in the data.
  have first : n = 0 := by
    obtain ⟨s', found', _, reduced⟩ := stages.exists_offset stands
    obtain rfl : s = s' := Option.some.inj (found.symm.trans found')
    have short : n ≤ p.data.length := stages.le_length_segment stands
    rw [data, List.length_singleton] at short
    rw [offset, UInt32.toNat_zero, UInt32.size] at reduced
    omega
  obtain ⟨p', assembled', twin⟩ := exists_twin assembled
  have further := twin.further _ _ stands
  rw [first, Nat.zero_add] at further
  exact ⟨p', assembled', further, (twin.offsets _).trans symbol, twin.words.trans words⟩

end Program

end Rv32Asm
