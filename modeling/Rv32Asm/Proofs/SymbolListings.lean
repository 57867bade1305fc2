import Mathlib.Data.List.Chain
import Rv32Asm.Proofs.Bindings
import Rv32Asm.Proofs.SymbolOrder
import Rv32Asm.Statement.Parse

/-!
The listings of a symbol table.

A table answers look-ups, and nothing says in which order its entries are visited. Nor does a sort
say how it arranges elements that are level. A listing shows neither: the names of a table differ,
so the comparison of its symbols is a strict total order, and a list has one sorted arrangement.
-/

set_option autoImplicit false
set_option relaxedAutoImplicit false

namespace Rv32Asm

open Rv32Asm.Outcome
open Rv32Asm.Text

section Sorting

variable {α : Type} {le less : α → α → Bool} {given first second : List α}

/-- What a sort may give: the same elements, none of which is less than the one in front of it. -/
structure SortsTo (less : α → α → Bool) (given sorted : List α) : Prop where
  perm : sorted.Perm given
  ordered : sorted.IsChain fun a b => less b a = false

structure StrictlyOrders (less : α → α → Bool) (given : List α) : Prop where
  irrefl : ∀ a, less a a = false
  trans : ∀ a b c, less a b = true → less b c = true → less a c = true
  total : ∀ a ∈ given, ∀ b ∈ given, a = b ∨ less a b = true ∨ less b a = true

/-- A total order of elements, some of which may be level, and its strict part. -/
structure StrictPart (le less : α → α → Bool) : Prop where
  less_eq : ∀ a b, less a b = !le b a
  trans : ∀ a b c, le a b = true → le b c = true → le a c = true
  total : ∀ a b, (le a b || le b a) = true

theorem SortsTo.of_perm (perm : first.Perm second) {sorted : List α}
    (sorts : SortsTo less first sorted) : SortsTo less second sorted :=
  ⟨sorts.perm.trans perm, sorts.ordered⟩

namespace StrictPart

theorem sortsTo_mergeSort (part : StrictPart le less) (given : List α) :
    SortsTo less given (given.mergeSort le) := by
  refine ⟨List.mergeSort_perm given le, ?_⟩
  have sorted := List.pairwise_mergeSort part.trans part.total given
  refine (sorted.imp fun {a b} least => ?_).isChain
  rw [part.less_eq, least, Bool.not_true]

theorem strictlyOrders (part : StrictPart le less)
    (level : ∀ a ∈ given, ∀ b ∈ given, le a b = true → le b a = true → a = b) :
    StrictlyOrders less given := by
  have weaken (a b : α) (ab : less a b = true) : le a b = true := by
    have total := part.total a b
    rw [part.less_eq, Bool.not_eq_true'] at ab
    rwa [ab, Bool.or_false] at total
  constructor
  case irrefl =>
    intro a
    have total := part.total a a
    rw [Bool.or_self] at total
    rw [part.less_eq, total, Bool.not_true]
  case trans =>
    intro a b c ab bc
    rw [part.less_eq, Bool.not_eq_true', ← Bool.not_eq_true] at bc ⊢
    intro ca
    exact bc (part.trans c a b ca (weaken a b ab))
  case total =>
    intro a here b there
    simp only [part.less_eq, Bool.not_eq_true', ← Bool.not_eq_true]
    by_cases ab : le a b = true
    · by_cases ba : le b a = true
      · exact .inl (level a here b there ab ba)
      · exact .inr (.inl ba)
    · exact .inr (.inr ab)

end StrictPart

namespace StrictlyOrders

theorem pairwise (orders : StrictlyOrders less given) (sorts : SortsTo less given first) :
    first.Pairwise fun a b => a = b ∨ less a b = true := by
  have chain : first.IsChain fun a b => a = b ∨ less a b = true := by
    refine sorts.ordered.imp_of_mem_imp fun a b here there free => ?_
    have total := orders.total a (sorts.perm.mem_iff.mp here) b (sorts.perm.mem_iff.mp there)
    simpa [free] using total
  have : Trans (fun a b => a = b ∨ less a b = true) (fun a b => a = b ∨ less a b = true)
      (fun a b => a = b ∨ less a b = true) := by
    constructor
    rintro a b c (rfl | ab) (rfl | bc)
    · exact .inl rfl
    · exact .inr bc
    · exact .inr ab
    · exact .inr (orders.trans a b c ab bc)
  exact List.isChain_iff_pairwise.mp chain

/-- All sorts give the same list. -/
theorem unique (orders : StrictlyOrders less given) (sorts : SortsTo less given first)
    (sorts' : SortsTo less given second) : first = second := by
  refine List.Perm.eq_of_pairwise ?_ (orders.pairwise sorts) (orders.pairwise sorts')
    (sorts.perm.trans sorts'.perm.symm)
  rintro a b _ _ (same | ab) (same' | ba)
  · exact same
  · exact same
  · exact same'.symm
  · have loop := orders.trans a b a ab ba
    simp [orders.irrefl a] at loop

theorem sortsTo_iff (orders : StrictlyOrders less given) (sorts : SortsTo less given first)
    (perm : second.Perm given) (sorted : List α) : SortsTo less second sorted ↔ sorted = first := by
  constructor
  · intro sorts'
    exact orders.unique (sorts'.of_perm perm) sorts
  · rintro rfl
    exact sorts.of_perm perm.symm

end StrictlyOrders

end Sorting

def nameLess (a b : Bytes) : Bool := a < b

theorem strictPart_nameLess : StrictPart (fun a b => decide (a ≤ b)) nameLess := by
  constructor
  case less_eq =>
    intro a b
    rw [nameLess, ← decide_not]
    exact decide_eq_decide.mpr List.not_le.symm
  case trans =>
    intro a b c ab bc
    exact decide_eq_true (List.le_trans (of_decide_eq_true ab) (of_decide_eq_true bc))
  case total =>
    intro a b
    simpa using List.le_total a b

namespace Symbol

def less (a b : Symbol) : Bool :=
  if a.segment ≠ b.segment then a.segment.number < b.segment.number
  else if a.offset ≠ b.offset then a.offset < b.offset
  else a.name < b.name

theorem less_eq_not_before (a b : Symbol) : a.less b = !b.before a := by
  rw [less, before]
  by_cases segments : a.segment = b.segment
  · by_cases offsets : a.offset = b.offset
    · simpa [segments, offsets, nameLess] using strictPart_nameLess.less_eq a.name b.name
    · have apart : a.offset < b.offset ↔ ¬ b.offset < a.offset := by
        rw [UInt32.lt_iff_toNat_lt, UInt32.lt_iff_toNat_lt]
        rw [← UInt32.toNat_inj] at offsets
        omega
      rw [if_neg (not_not.mpr segments), if_neg (not_not.mpr segments.symm), if_pos offsets,
        if_pos (Ne.symm offsets), ← decide_not]
      exact decide_eq_decide.mpr apart
  · have apart : a.segment.number < b.segment.number ↔ ¬ b.segment.number < a.segment.number := by
      cases here : a.segment <;> cases there : b.segment <;> simp_all [Segment.number]
    rw [if_pos segments, if_pos (Ne.symm segments), ← decide_not]
    exact decide_eq_decide.mpr apart

theorem strictPart_less : StrictPart before less :=
  ⟨less_eq_not_before, fun _ _ _ => before_trans, before_total⟩

theorem name_eq_of_before {a b : Symbol} (ab : a.before b = true) (ba : b.before a = true) :
    a.name = b.name := by
  rw [before_eq_true_iff] at ab ba
  rcases ab with less | ⟨same, rest⟩
  · rcases ba with more | ⟨same, _⟩
    · omega
    · simp [same] at less
  · simp only [same, Nat.lt_irrefl, true_and, false_or] at ba
    rcases rest with less | ⟨level, least⟩
    · rcases ba with more | ⟨level, _⟩
      · exact absurd (UInt32.lt_trans less more) (UInt32.lt_irrefl _)
      · simp [level] at less
    · simp only [level, UInt32.lt_irrefl, true_and, false_or] at ba
      exact List.le_antisymm least ba

end Symbol

namespace SymbolTable

variable {t : SymbolTable} {es : List (Bytes × Symbol)}

/-- A visit to all entries of a table, each of which comes once and with its name. -/
structure Visits (t : SymbolTable) (es : List (Bytes × Symbol)) : Prop where
  once : es.Nodup
  all : ∀ name s, (name, s) ∈ es ↔ t.find? name = some s

theorem visits_iff (unique : t.Unique) :
    t.Visits es ↔ es.Perm (t.entries.map fun s => (s.name, s)) := by
  have once : (t.entries.map fun s => (s.name, s)).Nodup := by
    apply List.Nodup.of_map Prod.fst
    rw [List.map_map]
    exact unique
  have all (name : Bytes) (s : Symbol) :
      (name, s) ∈ t.entries.map (fun s => (s.name, s)) ↔ t.find? name = some s := by
    rw [find?_eq_some_iff unique]
    simp
  constructor
  · rintro ⟨once', all'⟩
    refine (List.perm_ext_iff_of_nodup once' once).mpr fun e => ?_
    exact (all' e.1 e.2).trans (all e.1 e.2).symm
  · intro perm
    exact ⟨perm.nodup_iff.mpr once, fun name s => perm.mem_iff.trans (all name s)⟩

theorem Visits.symbols_perm (unique : t.Unique) (visits : t.Visits es) :
    (es.map Prod.snd).Perm t.entries := by
  have perm := ((visits_iff unique).mp visits).map Prod.snd
  have values : (t.entries.map fun s => (s.name, s)).map Prod.snd = t.entries := by
    rw [List.map_map]
    exact List.map_id _
  rwa [values] at perm

theorem Visits.names_perm (unique : t.Unique) (visits : t.Visits es) :
    (es.map Prod.fst).Perm (t.entries.map Symbol.name) := by
  have perm := ((visits_iff unique).mp visits).map Prod.fst
  rwa [List.map_map] at perm

theorem symbols_sortsTo (t : SymbolTable) : SortsTo Symbol.less t.entries t.symbols :=
  Symbol.strictPart_less.sortsTo_mergeSort t.entries

theorem names_sortsTo (t : SymbolTable) : SortsTo nameLess (t.entries.map Symbol.name) t.names :=
  strictPart_nameLess.sortsTo_mergeSort (t.entries.map Symbol.name)

theorem strictlyOrders_less (unique : t.Unique) : StrictlyOrders Symbol.less t.entries := by
  apply Symbol.strictPart_less.strictlyOrders
  intro a here b there ab ba
  -- Many symbols share a segment and an offset, so that only their names tell them apart.
  have found := find?_of_mem unique here
  rw [Symbol.name_eq_of_before ab ba, find?_of_mem unique there] at found
  exact (Option.some.inj found).symm

theorem strictlyOrders_nameLess (names : List Bytes) : StrictlyOrders nameLess names := by
  apply strictPart_nameLess.strictlyOrders
  intro a _ b _ ab ba
  exact List.le_antisymm (of_decide_eq_true ab) (of_decide_eq_true ba)

theorem names_pairwise (unique : t.Unique) : t.names.Pairwise (· < ·) := by
  have ordered := (strictlyOrders_nameLess _).pairwise t.names_sortsTo
  have distinct : t.names.Nodup := t.names_sortsTo.perm.nodup_iff.mpr unique
  refine ordered.imp₂ (fun a b order different => ?_) distinct
  simpa [different, nameLess] using order

structure ListsAlike (t : SymbolTable) : Prop where
  /-- The entries may be visited in any order. -/
  visits : ∀ es, t.Visits es ↔ es.Perm (t.entries.map fun s => (s.name, s))
  comparison : StrictlyOrders Symbol.less t.entries
  symbols : ∀ es, t.Visits es → ∀ ss, SortsTo Symbol.less (es.map Prod.snd) ss ↔ ss = t.symbols
  names : ∀ es, t.Visits es → ∀ ns, SortsTo nameLess (es.map Prod.fst) ns ↔ ns = t.names
  /-- The listings that are computed do not depend on the order of the entries either. -/
  rearranged : ∀ t' : SymbolTable, t'.entries.Perm t.entries →
    t'.symbols = t.symbols ∧ t'.names = t.names ∧ t'.size = t.size
  symbols_all : t.symbols.Perm t.entries
  symbols_increase : t.symbols.Pairwise Symbol.Precedes
  names_all : t.names.Perm (t.entries.map Symbol.name)
  names_increase : t.names.Pairwise (· < ·)
  lengths : t.symbols.length = t.size ∧ t.names.length = t.size

theorem listsAlike_of_ofRecords {rs : List Record} (placed : ofRecords rs = .ok t) :
    t.ListsAlike := by
  have unique := unique_of_ofRecords placed
  have orders := strictlyOrders_less unique
  constructor
  case visits => exact fun es => visits_iff unique
  case comparison => exact orders
  case symbols =>
    intro es visits
    exact orders.sortsTo_iff t.symbols_sortsTo (visits.symbols_perm unique)
  case names =>
    intro es visits
    exact (strictlyOrders_nameLess _).sortsTo_iff t.names_sortsTo (visits.names_perm unique)
  case rearranged =>
    intro t' perm
    refine ⟨?_, ?_, perm.length_eq⟩
    · exact (orders.sortsTo_iff t.symbols_sortsTo perm _).mp t'.symbols_sortsTo
    · exact ((strictlyOrders_nameLess _).sortsTo_iff t.names_sortsTo (perm.map Symbol.name) _).mp
        t'.names_sortsTo
  case symbols_all => exact t.symbols_perm
  case symbols_increase => exact symbols_pairwise unique
  case names_all => exact t.names_sortsTo.perm
  case names_increase => exact names_pairwise unique
  case lengths =>
    refine ⟨t.symbols_perm.length_eq, ?_⟩
    rw [t.names_sortsTo.perm.length_eq, List.length_map, size]

def levelSource : Bytes :=
  utf8 "d: c: nop\n.data\nb: .space 0\na: .byte 1"

theorem listsAlike_levelSource :
    ∃ rs t, parse .standard levelSource = .ok rs ∧ ofRecords rs = .ok t ∧ t.size = 4 ∧
      t.symbols = [⟨utf8 "c", .text, 0, 0⟩, ⟨utf8 "d", .text, 0, 0⟩, ⟨utf8 "a", .data, 0, 3⟩,
        ⟨utf8 "b", .data, 0, 2⟩] ∧
      t.names = [utf8 "a", utf8 "b", utf8 "c", utf8 "d"] ∧ t.ListsAlike := by
  have run : (parse .standard levelSource >>= ofRecords) =
      .ok ⟨[⟨utf8 "a", .data, 0, 3⟩, ⟨utf8 "b", .data, 0, 2⟩, ⟨utf8 "c", .text, 0, 0⟩,
        ⟨utf8 "d", .text, 0, 0⟩]⟩ := by decide +kernel
  obtain ⟨rs, parsed, placed⟩ := bind_eq_ok_iff.mp run
  have alike := listsAlike_of_ofRecords placed
  have visits := (alike.visits [(utf8 "b", ⟨utf8 "b", .data, 0, 2⟩),
    (utf8 "d", ⟨utf8 "d", .text, 0, 0⟩), (utf8 "a", ⟨utf8 "a", .data, 0, 3⟩),
    (utf8 "c", ⟨utf8 "c", .text, 0, 0⟩)]).mpr (by decide +kernel)
  refine ⟨rs, _, parsed, placed, rfl, ?_, ?_, alike⟩
  · exact ((alike.symbols _ visits _).mp ⟨by decide +kernel, by decide +kernel⟩).symm
  · exact ((alike.names _ visits _).mp ⟨by decide +kernel, by decide +kernel⟩).symm

end SymbolTable

end Rv32Asm
