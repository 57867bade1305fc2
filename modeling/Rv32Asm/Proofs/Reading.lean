import Mathlib.Data.List.Induction
import Mathlib.Data.List.Pairwise
import Rv32Asm.Json.Update
import Rv32Asm.Proofs.Outcome

/-!
What is read from a JSON document.

A reader succeeds if every value that it looks at has the right shape. The values of a field are
those at its path, in the order of the document, and the last one that is not `null` counts.
-/

set_option autoImplicit false
set_option relaxedAutoImplicit false

namespace Rv32Asm.Json

open Rv32Asm.Outcome
open Rv32Asm.Text

/-- The values of all members with a name, in any letter case. -/
def valuesOf (name : String) : Json → List Json
  | .obj members => (members.filter fun m => foldEq name m.1).map Prod.snd
  | _ => []

def entries : Json → List (String × Json)
  | .obj members => members
  | _ => []

def valuesFor (name : String) (values : Json → List Json) (entry : String × Json) : List Json :=
  if foldEq name entry.1 then values entry.2 else []

theorem flatMap_valuesOf (name : String) (values : Json → List Json) (v : Json) :
    (v.valuesOf name).flatMap values = v.entries.flatMap (valuesFor name values) := by
  cases v with
  | obj members =>
    induction members with
    | nil => rfl
    | cons entry rest ih =>
      cases same : foldEq name entry.1 <;>
        simpa [valuesOf, entries, valuesFor, same] using ih
  | _ => rfl

def valuesAt : List String → Json → List Json
  | [], v => [v]
  | name :: path, v => (v.valuesOf name).flatMap (valuesAt path)

def text? : Json → Option String
  | .str s => some s
  | _ => none

def word? : Json → Option Int
  | .num literal => literal.toInt?.filter fun n => -0x8000000000000000 ≤ n ∧ n < 0x8000000000000000
  | _ => none

section Values

variable {α : Type}

/-- The last of the values that can be read, or else what was there before. -/
def lastOf (read : Json → Option α) (values : List Json) (old : α) : α :=
  (values.filterMap read).getLast?.getD old

theorem lastOf_nil (read : Json → Option α) (old : α) : lastOf read [] old = old := rfl

theorem lastOf_append (read : Json → Option α) (vs ws : List Json) (old : α) :
    lastOf read (vs ++ ws) old = lastOf read ws (lastOf read vs old) := by
  simp only [lastOf, List.filterMap_append, List.getLast?_append]
  cases (ws.filterMap read).getLast? <;> rfl

def items : Json → List Json
  | .arr values => values
  | _ => []

def length? : Json → Option Nat
  | .null => none
  | v => some v.items.length

/-- The lists since the last that was empty or `null`. A shorter list does not make the elements of
a longer one before it forgotten. -/
def layers (values : List Json) : List (List Json) :=
  ((values.map items).reverse.takeWhile fun l => !l.isEmpty).reverse

theorem layers_append (values : List Json) (v : Json) :
    layers (values ++ [v]) = if v.items = [] then [] else layers values ++ [v.items] := by
  cases empty : v.items <;> simp [layers, empty]

/-- An element of a list, of which a path leads to the value: the last value that was given. -/
def elementOf (read : Json → Option α) (path : List String) (zero : α) (values : List Json)
    (old : List α) (i : Nat) : α :=
  lastOf read ((layers values).flatMap fun l => l[i]?.toList.flatMap (valuesAt path))
    (if (layers values).length = values.length then old.getD i zero else zero)

/-- The list that values make of an old one. It has the length of the last. -/
def listOf (read : Json → Option α) (path : List String) (zero : α) (values : List Json)
    (old : Option (List α)) : Option (List α) :=
  match values.getLast? with
  | none => old
  | some v => v.length?.map fun n =>
    (List.range n).map (elementOf read path zero values (old.getD []))

def textAt (path : List String) (v : Json) : String :=
  lastOf text? (v.valuesAt path) ""

def wordAt (path : List String) (v : Json) : Int :=
  lastOf word? (v.valuesAt path) 0

end Values

/-! Shapes -/

/-- What a value has to be. A value may always be `null`. -/
abbrev Shape := Json → Prop

def Shape.leaf {α : Type} (read : Json → Option α) : Shape :=
  fun v => v = .null ∨ ∃ a, read v = some a

/-- An object. Only the members with the given names are looked at. -/
def Shape.record (members : List (String × Shape)) : Shape :=
  fun v => v = .null ∨ (∃ ms, v = .obj ms) ∧ ∀ m ∈ members, ∀ w ∈ v.valuesOf m.1, m.2 w

def Shape.list (element : Shape) : Shape :=
  fun v => v = .null ∨ ∃ items, v = .arr items ∧ ∀ w ∈ items, element w

namespace Update

variable {α β γ : Type}

/-- The update succeeds on values of a shape, and on no others. -/
def Accepts (u : Update α) (shape : Shape) : Prop :=
  ∀ place v old, (∃ new, u place v old = .ok new) ↔ shape v

inductive Reads (u : Update α) : List Json → α → α → Prop
  | nil (old : α) : Reads u [] old old
  | cons {place : Option Place} {v : Json} {vs : List Json} {old next new : α}
      (first : u place v old = .ok next) (rest : Reads u vs next new) : Reads u (v :: vs) old new

/-- Whatever the update makes of a value, it makes `field` of it as `leaf` does with the values that
`values` finds. -/
def Carries (u : Update α) (field : α → β) (leaf : Update β) (values : Json → List Json) : Prop :=
  ∀ place v old new, u place v old = .ok new → Reads leaf (values v) (field old) (field new)

def Keeps (u : Update α) (field : α → β) : Prop :=
  ∀ place v old new, u place v old = .ok new → field new = field old

theorem Reads.append {u : Update α} {vs ws : List Json} {a b c : α} (first : Reads u vs a b)
    (rest : Reads u ws b c) : Reads u (vs ++ ws) a c := by
  induction first with
  | nil => exact rest
  | cons step _ ih => exact .cons step (ih rest)

theorem reads_append_iff {u : Update α} {vs ws : List Json} {a c : α} :
    Reads u (vs ++ ws) a c ↔ ∃ b, Reads u vs a b ∧ Reads u ws b c := by
  constructor
  · intro all
    induction vs generalizing a with
    | nil => exact ⟨a, .nil a, all⟩
    | cons v vs ih =>
      cases all with
      | cons step rest =>
        obtain ⟨b, front, back⟩ := ih rest
        exact ⟨b, .cons step front, back⟩
  · rintro ⟨b, front, back⟩
    exact front.append back

theorem reads_singleton_iff {u : Update α} {v : Json} {a b : α} :
    Reads u [v] a b ↔ ∃ place, u place v a = .ok b := by
  constructor
  · rintro (_ | ⟨step, _ | _⟩)
    exact ⟨_, step⟩
  · rintro ⟨place, step⟩
    exact .cons step (.nil b)

/-- The update takes a value as `read` does, and lets `null` be. -/
structure IsLeaf (u : Update α) (read : Json → Option α) : Prop where
  eq_ok_iff : ∀ place v old new,
    u place v old = .ok new ↔ v = .null ∧ new = old ∨ read v = some new
  null : read .null = none

theorem isLeaf_text (type : String) : IsLeaf (text type) text? := by
  refine ⟨?_, rfl⟩
  intro place v old new
  cases v <;> simp [text, text?, eq_comm]

theorem isLeaf_integer : IsLeaf integer word? := by
  refine ⟨?_, rfl⟩
  intro place v old new
  cases v with
  | num literal =>
    have same : literal.toInt?.filter isWord = word? (.num literal) := by
      simp only [word?]
      congr 1
      funext n
      simp [isWord]
    simp only [integer, same]
    cases word? (.num literal) <;> simp
  | _ => simp [integer, word?, eq_comm]

namespace IsLeaf

variable {u : Update α} {read : Json → Option α}

theorem accepts (leaf : IsLeaf u read) : Accepts u (.leaf read) := by
  intro place v old
  simp only [leaf.eq_ok_iff, Shape.leaf]
  constructor
  · rintro ⟨new, ⟨null, _⟩ | some⟩
    · exact .inl null
    · exact .inr ⟨new, some⟩
  · rintro (null | ⟨new, some⟩)
    · exact ⟨old, .inl ⟨null, rfl⟩⟩
    · exact ⟨new, .inr some⟩

theorem reads (leaf : IsLeaf u read) {vs : List Json} {old new : α} (run : Reads u vs old new) :
    new = lastOf read vs old := by
  induction run with
  | nil old => rfl
  | @cons place v vs old next new first _ ih =>
    have step : next = lastOf read [v] old := by
      rcases (leaf.eq_ok_iff _ _ _ _).mp first with ⟨rfl, rfl⟩ | some
      · simp [lastOf, leaf.null]
      · simp [lastOf, some]
    rw [ih, step, ← lastOf_append]
    rfl

end IsLeaf

theorem Carries.eq_lastOf {u : Update α} {field : α → β} {leaf : Update β} {read : Json → Option β}
    {values : Json → List Json} (carries : Carries u field leaf values) (isLeaf : IsLeaf leaf read)
    {place : Option Place} {v : Json} {old new : α} (done : u place v old = .ok new) :
    field new = lastOf read (values v) (field old) :=
  isLeaf.reads (carries place v old new done)

theorem carries_self (u : Update α) : Carries u id u (valuesAt []) := by
  intro place v old new step
  exact .cons step (.nil new)

section Lens

variable {name : String} {get : α → β} {set : α → β → α} {u : Update β}

theorem lens_eq_ok_iff {place : Option Place} {v : Json} {old new : α} :
    (Member.lens name get set u).update place v old = .ok new ↔
      ∃ b, u place v (get old) = .ok b ∧ new = set old b := by
  simp [Member.lens, map_eq_ok_iff, eq_comm]

theorem Accepts.lens {shape : Shape} (accepts : Accepts u shape) :
    Accepts (Member.lens name get set u).update shape := by
  intro place v old
  rw [← accepts place v (get old)]
  simp only [lens_eq_ok_iff]
  constructor
  · rintro ⟨new, b, step, rfl⟩
    exact ⟨b, step⟩
  · rintro ⟨b, step⟩
    exact ⟨_, b, step, rfl⟩

theorem Carries.lens {field : β → γ} {leaf : Update γ} {values : Json → List Json}
    (carries : Carries u field leaf values) (written : ∀ a b, get (set a b) = b) :
    Carries (Member.lens name get set u).update (fun a => field (get a)) leaf values := by
  intro place v old new step
  obtain ⟨b, inner, rfl⟩ := lens_eq_ok_iff.mp step
  simpa only [written] using carries place v _ b inner

theorem Keeps.lens {field : β → γ} (keeps : Keeps u field) (written : ∀ a b, get (set a b) = b) :
    Keeps (Member.lens name get set u).update fun a => field (get a) := by
  intro place v old new step
  obtain ⟨b, inner, rfl⟩ := lens_eq_ok_iff.mp step
  simpa only [written] using keeps place v _ b inner

theorem keeps_lens {field : α → γ} (apart : ∀ a b, field (set a b) = field a) :
    Keeps (Member.lens name get set u).update field := by
  intro place v old new step
  obtain ⟨b, _, rfl⟩ := lens_eq_ok_iff.mp step
  exact apart old b

end Lens

section Record

variable {name type : String} {members : List (Member α)}

/-- No two of the names differ in letter case only. -/
def Apart (names : List String) : Prop :=
  names.Pairwise fun s t => foldEq s t = false

instance (names : List String) : Decidable (Apart names) :=
  inferInstanceAs (Decidable (names.Pairwise _))

theorem apart_singleton (name : String) : Apart [name] :=
  List.pairwise_singleton _ _

abbrev Distinct (members : List (Member α)) : Prop :=
  Apart (members.map Member.name)

theorem foldEq_self (s : String) : foldEq s s = true := by simp [foldEq]

theorem foldEq_comm (s t : String) : foldEq s t = foldEq t s := by
  simp only [foldEq]
  exact BEq.comm

theorem foldEq_of_common {s t key : String} (first : foldEq s key = true)
    (second : foldEq t key = true) : foldEq s t = true := by
  simp only [foldEq, beq_iff_eq] at *
  rw [first, second]

theorem eq_of_distinct {m n : Member α} (distinct : Distinct members) (here : m ∈ members)
    (there : n ∈ members) (same : foldEq m.name n.name = true) : m = n := by
  by_contra different
  have symm : Std.Symm fun m n : Member α => foldEq m.name n.name = false :=
    ⟨fun a b => by rw [foldEq_comm]; exact id⟩
  have pairs : members.Pairwise fun m n => foldEq m.name n.name = false :=
    List.pairwise_map.mp distinct
  have apart : foldEq m.name n.name = false := pairs.forall here there different
  rw [apart] at same
  exact Bool.false_ne_true same

theorem findMember_eq_some_iff (distinct : Distinct members) {key : String} {m : Member α} :
    findMember members key = some m ↔ m ∈ members ∧ foldEq m.name key = true := by
  have sound {n : Member α} (found : findMember members key = some n) :
      n ∈ members ∧ foldEq n.name key = true := by
    rcases Option.or_eq_some_iff.mp found with exact_ | ⟨_, folded⟩
    · have same : n.name = key := by simpa using List.find?_some exact_
      exact ⟨List.mem_of_find?_eq_some exact_, same ▸ foldEq_self _⟩
    · exact ⟨List.mem_of_find?_eq_some folded, by simpa using List.find?_some folded⟩
  constructor
  · exact sound
  · rintro ⟨member, same⟩
    cases found : findMember members key with
    | none =>
      have none := (Option.or_eq_none_iff.mp found).2
      exact absurd same (by simpa using List.find?_eq_none.mp none m member)
    | some n =>
      -- the exact name is preferred, but then no other member has the name up to letter case
      obtain ⟨there, same'⟩ := sound found
      rw [eq_of_distinct distinct member there (foldEq_of_common same same')]

theorem findMember_eq_none_iff {key : String} :
    findMember members key = none ↔ ∀ m ∈ members, foldEq m.name key = false := by
  simp only [findMember, Option.or_eq_none_iff, List.find?_eq_none, beq_iff_eq]
  constructor
  · rintro ⟨_, none⟩ m member
    simpa using none m member
  · intro none
    constructor
    · intro m member same
      have self := none m member
      rw [same, foldEq_self] at self
      exact Bool.noConfusion self
    · intro m member
      simp [none m member]

/-- One member of a document: the record's member with that name takes it, or it is skipped. -/
inductive Takes (members : List (Member α)) (place : Option Place) (key : String) (value : Json)
    (old : α) : α → Prop
  | skip (none : ∀ m ∈ members, foldEq m.name key = false) : Takes members place key value old old
  | take {m : Member α} {new : α} (member : m ∈ members) (same : foldEq m.name key = true)
      (step : m.update place value old = .ok new) : Takes members place key value old new

theorem record_cons_eq_ok_iff {place : Option Place} {key : String} {value : Json}
    {rest : List (String × Json)} {old new : α} (distinct : Distinct members) :
    record name type members place (.obj ((key, value) :: rest)) old = .ok new ↔
      ∃ next,
        Takes members (some ((place.getD ⟨name, []⟩).enter (.member key))) key value old next ∧
        record name type members place (.obj rest) next = .ok new := by
  refine bind_eq_ok_iff.trans (exists_congr fun next => and_congr_left' ?_)
  constructor
  · intro first
    cases found : findMember members key with
    | none =>
      simp only [found, Except.ok.injEq] at first
      exact first ▸ .skip (findMember_eq_none_iff.mp found)
    | some m =>
      simp only [found] at first
      obtain ⟨member, same⟩ := (findMember_eq_some_iff distinct).mp found
      exact .take member same first
  · intro first
    cases first with
    | skip none => simp only [findMember_eq_none_iff.mpr none]
    | take member same step =>
      simp only [(findMember_eq_some_iff distinct).mpr ⟨member, same⟩, step]

/-- A record takes the members of a document one after another. -/
theorem record_induction {P : List (String × Json) → α → α → Prop} (distinct : Distinct members)
    (nil : ∀ old, P [] old old)
    (cons : ∀ place key value rest old next new, Takes members place key value old next →
      P rest next new → P ((key, value) :: rest) old new)
    {place : Option Place} {v : Json} {old new : α}
    (read : record name type members place v old = .ok new) : P v.entries old new := by
  cases v with
  | null =>
    obtain rfl : old = new := by simpa [record] using read
    exact nil old
  | obj kvs =>
    induction kvs generalizing old with
    | nil =>
      obtain rfl : old = new := by simpa [record, pure, Except.pure] using read
      exact nil old
    | cons kv rest ih =>
      obtain ⟨next, first, later⟩ := (record_cons_eq_ok_iff distinct).mp read
      exact cons _ _ _ rest old next new first (ih later)
  | _ => simp [record] at read

theorem exists_of_forall₂ {R : α → β → Prop} {as : List α} {bs : List β}
    (all : List.Forall₂ R as bs) : ∀ a ∈ as, ∃ b ∈ bs, R a b := by
  induction all with
  | nil => simp
  | @cons a b as bs related _ ih =>
    intro c member
    rcases List.mem_cons.mp member with rfl | member
    · exact ⟨b, List.mem_cons_self, related⟩
    · obtain ⟨d, found, other⟩ := ih c member
      exact ⟨d, List.mem_cons_of_mem _ found, other⟩

def MembersAccept (members : List (Member α)) (shapes : List (String × Shape)) : Prop :=
  List.Forall₂ (fun m s => m.name = s.1 ∧ Accepts m.update s.2) members shapes

theorem exists_takes_iff {shapes : List (String × Shape)} (distinct : Distinct members)
    (each : MembersAccept members shapes) (place : Option Place) (key : String) (value : Json)
    (old : α) :
    (∃ new, Takes members place key value old new) ↔
      ∀ s ∈ shapes, foldEq s.1 key = true → s.2 value := by
  constructor
  · rintro ⟨new, taken⟩ s known same
    obtain ⟨m, member, named, accepts⟩ := exists_of_forall₂ each.flip s known
    rw [← named] at same
    cases taken with
    | skip none => simp [none m member] at same
    | @take m' _ member' same' step =>
      obtain rfl := eq_of_distinct distinct member member' (foldEq_of_common same same')
      exact (accepts place value old).mp ⟨new, step⟩
  · intro fits
    by_cases known : ∃ m ∈ members, foldEq m.name key = true
    · obtain ⟨m, member, same⟩ := known
      obtain ⟨s, shape, named, accepts⟩ := exists_of_forall₂ each m member
      obtain ⟨new, step⟩ := (accepts place value old).mpr (fits s shape (named ▸ same))
      exact ⟨new, .take member same step⟩
    · exact ⟨old, .skip (by simpa using known)⟩

theorem Shape.record_obj_iff {shapes : List (String × Shape)} {values : List (String × Json)} :
    Shape.record shapes (.obj values) ↔
      ∀ kv ∈ values, ∀ s ∈ shapes, foldEq s.1 kv.1 = true → s.2 kv.2 := by
  simp only [Shape.record, valuesOf, List.mem_map, List.mem_filter]
  constructor
  · rintro (null | ⟨_, fits⟩) kv known s shape same
    · exact nomatch null
    · exact fits s shape kv.2 ⟨kv, ⟨known, same⟩, rfl⟩
  · intro fits
    refine .inr ⟨⟨values, rfl⟩, ?_⟩
    rintro s shape _ ⟨kv, ⟨known, same⟩, rfl⟩
    exact fits kv known s shape same

theorem Accepts.record {shapes : List (String × Shape)} (distinct : Distinct members)
    (each : MembersAccept members shapes) :
    Accepts (record name type members) (.record shapes) := by
  intro place v old
  cases v with
  | null => simp [Update.record, Shape.record]
  | obj values =>
    rw [Shape.record_obj_iff]
    induction values generalizing old with
    | nil => exact ⟨fun _ => by simp, fun _ => ⟨old, rfl⟩⟩
    | cons kv rest ih =>
      obtain ⟨key, value⟩ := kv
      rw [List.forall_mem_cons, ← exists_takes_iff distinct each
        (some ((place.getD ⟨name, []⟩).enter (.member key))) key value old]
      simp only [record_cons_eq_ok_iff distinct]
      constructor
      · rintro ⟨new, next, first, others⟩
        exact ⟨⟨next, first⟩, (ih next).mp ⟨new, others⟩⟩
      · rintro ⟨⟨next, first⟩, others⟩
        obtain ⟨new, read⟩ := (ih next).mpr others
        exact ⟨new, next, first, read⟩
  | _ => simp [Update.record, Shape.record]

/-- The update of member `m` makes a field, and no other member does. -/
structure Owns (members : List (Member α)) (m : Member α) (field : α → β) (leaf : Update β)
    (values : Json → List Json) : Prop where
  member : m ∈ members
  own : Carries m.update field leaf values
  others : ∀ n ∈ members, n.name ≠ m.name → Keeps n.update field

section Owns

variable {m : Member α} {field : α → β} {leaf : Update β} {values : Json → List Json}

theorem Owns.here (own : Carries m.update field leaf values)
    (others : ∀ n ∈ members, Keeps n.update field) : Owns (m :: members) m field leaf values where
  member := List.mem_cons_self
  own := own
  others n member different := by
    rcases List.mem_cons.mp member with rfl | member
    · exact absurd rfl different
    · exact others n member

theorem Owns.there {n : Member α} (kept : Keeps n.update field)
    (owns : Owns members m field leaf values) : Owns (n :: members) m field leaf values where
  member := List.mem_cons_of_mem _ owns.member
  own := owns.own
  others k member different := by
    rcases List.mem_cons.mp member with rfl | member
    · exact kept
    · exact owns.others k member different

theorem Takes.reads_of_owns {place : Option Place} {key : String} {value : Json} {old new : α}
    (taken : Takes members place key value old new) (distinct : Distinct members)
    (owns : Owns members m field leaf values) :
    Reads leaf (valuesFor m.name values (key, value)) (field old) (field new) := by
  unfold valuesFor
  cases taken with
  | skip none =>
    rw [none m owns.member]
    exact .nil _
  | @take n _ member same step =>
    cases own : foldEq m.name key with
    | true =>
      obtain rfl := eq_of_distinct distinct owns.member member (foldEq_of_common own same)
      exact owns.own place value old new step
    | false =>
      have other : n.name ≠ m.name := by
        intro named
        simp [← named, same] at own
      rw [owns.others n member other place value old new step]
      exact .nil _

/-- A record makes of a field what the member that holds it makes of all values with its name. -/
theorem Owns.carries (distinct : Distinct members) (owns : Owns members m field leaf values) :
    Carries (record name type members) field leaf fun v => (v.valuesOf m.name).flatMap values := by
  intro place v old new read
  simp only [flatMap_valuesOf]
  refine record_induction (P := fun entries old new => Reads leaf
    (entries.flatMap (valuesFor m.name values)) (field old) (field new))
    distinct (fun _ => .nil _) ?_ read
  intro place key value rest old next new taken later
  exact (taken.reads_of_owns distinct owns).append later

theorem Owns.carriesAt {path : List String} {key : String} (distinct : Distinct members)
    (owns : Owns members m field leaf (valuesAt path)) (named : m.name = key) :
    Carries (record name type members) field leaf (valuesAt (key :: path)) := by
  rw [← named]
  exact owns.carries distinct

theorem Keeps.record (distinct : Distinct members) (each : ∀ m ∈ members, Keeps m.update field) :
    Keeps (record name type members) field := by
  intro place v old new read
  refine record_induction (P := fun _ old new => field new = field old) distinct (fun _ => rfl) ?_
    read
  intro place key value rest old next new taken later
  cases taken with
  | skip => exact later
  | take member _ step => exact later.trans (each _ member _ _ old next step)

/-! Records that are nothing but one member -/

theorem Accepts.only {key : String} {u : Update α} {shape : Shape} (accepts : Accepts u shape) :
    Accepts (Update.record name type [.lens key id (fun _ a => a) u]) (.record [(key, shape)]) :=
  .record (apart_singleton key) (.cons ⟨rfl, accepts.lens⟩ .nil)

theorem Carries.only {key : String} {u : Update α} {path : List String}
    (carries : Carries u field leaf (valuesAt path)) :
    Carries (record name type [.lens key id (fun _ a => a) u]) field leaf
      (valuesAt (key :: path)) := by
  have own : Carries (Member.lens key id (fun _ a => a) u).update field leaf (valuesAt path) :=
    carries.lens fun _ _ => rfl
  exact (Owns.here own (by simp)).carriesAt (apart_singleton key) rfl

end Owns

end Record

section List

variable {type : String} {zero : α} {u : Update α} {read : Json → Option α} {path : List String}

def ReadsAt (u : Update α) (read : Json → Option α) (path : List String) : Prop :=
  ∀ place v old new, u place v old = .ok new → new = lastOf read (valuesAt path v) old

theorem IsLeaf.readsAt {leaf : Update α} (isLeaf : IsLeaf leaf read)
    (carries : Carries u id leaf (valuesAt path)) : ReadsAt u read path := by
  intro place v old new step
  exact carries.eq_lastOf isLeaf step

theorem elements_cons_eq_ok_iff {place : Option Place} {index : Nat} {v : Json} {vs : List Json}
    {old new : List α} :
    elements zero u place index (v :: vs) old = .ok new ↔
      ∃ first rest, u (place.map (·.enter (.element index))) v (old.headD zero) = .ok first ∧
        elements zero u place (index + 1) vs old.tail = .ok rest ∧ new = first :: rest := by
  simp only [elements, bind_eq_ok_iff, pure_eq_ok_iff, eq_comm (b := new)]
  grind

theorem exists_elements_iff {shape : Shape} (accepts : Accepts u shape) (zero : α)
    (place : Option Place) (index : Nat) (vs : List Json) (old : List α) :
    (∃ new, elements zero u place index vs old = .ok new) ↔ ∀ v ∈ vs, shape v := by
  induction vs generalizing index old with
  | nil => simp [elements]
  | cons v vs ih =>
    rw [List.forall_mem_cons,
      ← accepts (place.map (·.enter (.element index))) v (old.headD zero), ← ih]
    simp only [elements_cons_eq_ok_iff]
    constructor
    · rintro ⟨_, first, rest, head, tail, rfl⟩
      exact ⟨⟨first, head⟩, rest, tail⟩
    · rintro ⟨⟨first, head⟩, rest, tail⟩
      exact ⟨_, first, rest, head, tail, rfl⟩

theorem Accepts.list {shape : Shape} (accepts : Accepts u shape) :
    Accepts (list type zero u) (.list shape) := by
  intro place v old
  cases v with
  | null => simp [Update.list, Shape.list]
  | arr values =>
    cases values with
    | nil => simp [Update.list, Shape.list]
    | cons v vs =>
      simp only [Shape.list, Update.list, bind_eq_ok_iff, pure_eq_ok_iff, reduceCtorEq, false_or,
        Json.arr.injEq, exists_eq_left']
      rw [← exists_elements_iff accepts zero place 0 (v :: vs) old.elements]
      constructor
      · rintro ⟨_, slots, read, rfl⟩
        exact ⟨slots, read⟩
      · rintro ⟨slots, read⟩
        exact ⟨_, slots, read, rfl⟩
  | _ => simp [Update.list, Shape.list]

theorem length_elements {place : Option Place} {index : Nat} {vs : List Json} {old new : List α}
    (done : elements zero u place index vs old = .ok new) : vs.length ≤ new.length := by
  induction vs generalizing index old new with
  | nil => exact Nat.zero_le _
  | cons v vs ih =>
    obtain ⟨first, rest, _, tail, rfl⟩ := elements_cons_eq_ok_iff.mp done
    exact Nat.succ_le_succ (ih tail)

theorem getD_elements (reads : ReadsAt u read path) {place : Option Place} {index : Nat}
    {vs : List Json} {old new : List α} (done : elements zero u place index vs old = .ok new)
    (i : Nat) :
    new.getD i zero =
      lastOf read (vs[i]?.toList.flatMap (valuesAt path)) (old.getD i zero) := by
  induction vs generalizing index old new i with
  | nil =>
    obtain rfl : old = new := by simpa [elements] using done
    simp [lastOf_nil]
  | cons v vs ih =>
    obtain ⟨first, rest, head, tail, rfl⟩ := elements_cons_eq_ok_iff.mp done
    cases i with
    | zero =>
      have value := reads _ _ _ _ head
      cases old <;> simpa using value
    | succ i =>
      have later := ih tail i
      cases old <;> simpa using later

/-- What values have made of the slots. Slots that a later list may bring back are there too. -/
structure Filled (read : Json → Option α) (path : List String) (zero : α) (values : List Json)
    (old : List α) (s : Slots α) : Prop where
  room : s.length.getD 0 ≤ s.elements.length
  element : ∀ i, s.elements.getD i zero = elementOf read path zero values old i

theorem elementOf_of_items_eq_nil {v : Json} (empty : v.items = []) (values : List Json)
    (old : List α) (i : Nat) : elementOf read path zero (values ++ [v]) old i = zero := by
  simp [elementOf, layers_append, empty, lastOf_nil]

theorem elementOf_append {v : Json} (filled : v.items ≠ []) (values : List Json) (old : List α)
    (i : Nat) :
    elementOf read path zero (values ++ [v]) old i =
      lastOf read (v.items[i]?.toList.flatMap (valuesAt path))
        (elementOf read path zero values old i) := by
  simp only [elementOf, layers_append, filled, if_false, List.flatMap_append, lastOf_append,
    List.length_append, List.length_singleton, Nat.add_right_cancel_iff, List.flatMap_singleton]

theorem Filled.list (reads : ReadsAt u read path) {values : List Json} {old : List α}
    {s s' : Slots α} (filled : Filled read path zero values old s) {place : Option Place} {v : Json}
    (step : list type zero u place v s = .ok s') :
    Filled read path zero (values ++ [v]) old s' ∧
      s'.length = v.length? := by
  cases v with
  | null =>
    obtain rfl : (⟨none, []⟩ : Slots α) = s' := by simpa [Update.list] using step
    refine ⟨⟨Nat.zero_le _, ?_⟩, rfl⟩
    intro i
    rw [elementOf_of_items_eq_nil rfl]
    rfl
  | arr items =>
    cases items with
    | nil =>
      obtain rfl : (⟨some 0, []⟩ : Slots α) = s' := by simpa [Update.list] using step
      refine ⟨⟨Nat.zero_le _, ?_⟩, rfl⟩
      intro i
      rw [elementOf_of_items_eq_nil rfl]
      rfl
    | cons w ws =>
      simp only [Update.list, bind_eq_ok_iff, pure_eq_ok_iff] at step
      obtain ⟨slots, done, rfl⟩ := step
      refine ⟨⟨length_elements done, ?_⟩, rfl⟩
      intro i
      rw [elementOf_append (by simp [Json.items]), ← filled.element]
      exact getD_elements reads done i
  | _ => simp [Update.list] at step

theorem filled_of_reads (reads : ReadsAt u read path) {values : List Json} {s s' : Slots α}
    (whole : s.length.getD 0 = s.elements.length) (run : Reads (list type zero u) values s s') :
    Filled read path zero values s.elements s' := by
  -- from the last list on: what one list leaves in the slots depends on those before it
  induction values using List.reverseRecOn generalizing s' with
  | nil =>
    cases run
    refine ⟨Nat.le_of_eq whole, ?_⟩
    intro i
    simp [elementOf, layers, lastOf_nil]
  | append_singleton values v ih =>
    obtain ⟨middle, before, last⟩ := reads_append_iff.mp run
    obtain ⟨place, step⟩ := reads_singleton_iff.mp last
    exact ((ih before).list reads step).1

theorem Filled.toList?_eq {values : List Json} {old : List α} {s : Slots α}
    (filled : Filled read path zero values old s) :
    s.toList? = s.length.map fun n => (List.range n).map (elementOf read path zero values old) := by
  have room := filled.room
  rw [Slots.toList?]
  cases length : s.length with
  | none => rfl
  | some n =>
    rw [length, Option.getD_some] at room
    refine congrArg some (List.ext_getElem (by simp [room]) ?_)
    intro i bound _
    have inside : i < s.elements.length := by
      rw [List.length_take] at bound
      omega
    simp [← filled.element, inside]

/-- Several lists, one after another, make what `listOf` says of the slots of an old one. -/
theorem toList?_of_reads (reads : ReadsAt u read path) {values : List Json} {s s' : Slots α}
    (whole : s.length.getD 0 = s.elements.length) (run : Reads (list type zero u) values s s') :
    s'.toList? = listOf read path zero values s.toList? := by
  have kept : s.toList?.getD [] = s.elements := by
    cases length : s.length with
    | none =>
      rw [length] at whole
      simp [Slots.toList?, length, List.eq_nil_of_length_eq_zero whole.symm]
    | some n =>
      rw [length, Option.getD_some] at whole
      simp [Slots.toList?, length, whole]
  rcases List.eq_nil_or_concat values with rfl | ⟨before, v, rfl⟩
  · cases run
    rfl
  · rw [List.concat_eq_append] at run ⊢
    obtain ⟨middle, first, last⟩ := reads_append_iff.mp run
    obtain ⟨place, step⟩ := reads_singleton_iff.mp last
    obtain ⟨filled, length⟩ := (filled_of_reads reads whole first).list reads step
    rw [filled.toList?_eq, length, listOf, List.getLast?_concat, kept]

end List

end Update

end Rv32Asm.Json
