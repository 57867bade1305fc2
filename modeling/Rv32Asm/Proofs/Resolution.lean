import Rv32Asm.Proofs.Linking

/-!
Which records can be linked, and what comes out.

A label operand stands in an instruction or in a data item. This site alone says which number a
symbol stands for there and which numbers it has room for. Linking succeeds if and only if every
label has a symbol whose number its site has room for. It puts these numbers in place of the labels
and changes nothing else. Otherwise the fault is about the first label that has none.
-/

set_option autoImplicit false
set_option relaxedAutoImplicit false

namespace Rv32Asm.Link

open Rv32Asm.Outcome
open Rv32Asm.Text

/-- Where a label operand stands: in an instruction of a format at an address, or in a data item of
a size. -/
inductive Site where
  | code (format : Format) (pc : UInt32)
  | item (size : Int)

namespace Site

def Relative : Site → Prop
  | code format _ => format = .branch ∨ format = .jump
  | item _ => False

instance (site : Site) : Decidable site.Relative :=
  match site with
  | code format _ => inferInstanceAs (Decidable (format = .branch ∨ format = .jump))
  | item _ => .isFalse id

def value (s : Symbol) : Site → Int
  | code .branch pc | code .jump pc => s.offset.toNat - pc.toNat
  | _ => s.offset.toNat

def room : Site → Int × Int
  | code .branch _ => (-4096, 4095)
  | code .jump _ => (-1048576, 1048575)
  | code .upperImmediate _ => (0, 1048575)
  | code _ _ => (0, 2047)
  | item size => ((Bounds.data size).least, (Bounds.data size).greatest)

def overflow (label : Bytes) (s : Symbol) : Site → Cause
  | code .branch pc => .labelTooFar label (value s (code .branch pc)) 13
  | code .jump pc => .labelTooFar label (value s (code .jump pc)) 21
  | code format pc => .outOfRange label (room (code format pc)).1 (room (code format pc)).2
  | item size =>
    .outOfRange (label ++ utf8 " = " ++ decimal s.offset.toNat) (room (item size)).1
      (room (item size)).2

/-- A label has a symbol, which is in the text if the site is relative, and the site has room for
its number `v`. -/
def Resolves (site : Site) (table : SymbolTable) (label : Bytes) (v : Int) : Prop :=
  ∃ s, table.find? label = some s ∧ (site.Relative → s.segment = .text) ∧ v = site.value s ∧
    site.room.1 ≤ v ∧ v ≤ site.room.2

inductive Refuses (site : Site) (table : SymbolTable) (label : Bytes) : Cause → Prop
  | missing (free : table.find? label = none) : Refuses site table label (.undefinedLabel label)
  | outside {s : Symbol} (found : table.find? label = some s) (relative : site.Relative)
      (elsewhere : s.segment ≠ .text) : Refuses site table label (.labelOutsideText label)
  | beyond {s : Symbol} (found : table.find? label = some s)
      (within : site.Relative → s.segment = .text)
      (far : site.value s < site.room.1 ∨ site.room.2 < site.value s) :
      Refuses site table label (site.overflow label s)

def place (site : Site) (label : Bytes) (span : Span) : Option Symbol → Except Fault Int
  | none => .error ⟨.undefinedLabel label, span⟩
  | some s =>
    if site.Relative ∧ s.segment ≠ .text then .error ⟨.labelOutsideText label, span⟩
    else if site.value s < site.room.1 ∨ site.room.2 < site.value s then
      .error ⟨site.overflow label s, span⟩
    else .ok (site.value s)

variable {site : Site} {table : SymbolTable} {label : Bytes} {span : Span}

theorem place_eq_ok_iff {v : Int} :
    site.place label span (table.find? label) = .ok v ↔ site.Resolves table label v := by
  unfold Resolves
  cases found : table.find? label with
  | none => simp [place]
  | some s =>
    simp only [place]
    split
    · rename_i outside
      simp only [reduceCtorEq, Option.some.injEq, false_iff]
      rintro ⟨_, rfl, text, _⟩
      exact outside.2 (text outside.1)
    split
    · simp only [reduceCtorEq, Option.some.injEq, false_iff]
      rintro ⟨_, rfl, _, rfl, least, greatest⟩
      omega
    · rename_i text room
      have text : site.Relative → s.segment = .text := by
        intro relative
        by_contra elsewhere
        exact text ⟨relative, elsewhere⟩
      constructor
      · intro same
        obtain rfl := Except.ok.inj same
        exact ⟨s, rfl, text, rfl, by omega, by omega⟩
      · rintro ⟨_, same, _, rfl, _⟩
        obtain rfl := Option.some.inj same
        rfl

theorem place_eq_error_iff {f : Fault} :
    site.place label span (table.find? label) = .error f ↔
      ∃ c, site.Refuses table label c ∧ f = ⟨c, span⟩ := by
  constructor
  · intro failed
    cases found : table.find? label with
    | none =>
      rw [found] at failed
      exact ⟨_, .missing found, (Except.error.inj failed).symm⟩
    | some s =>
      simp only [found, place] at failed
      split at failed
      · rename_i outside
        exact ⟨_, .outside found outside.1 outside.2, (Except.error.inj failed).symm⟩
      split at failed
      · rename_i text far
        refine ⟨_, .beyond found ?_ far, (Except.error.inj failed).symm⟩
        intro relative
        by_contra elsewhere
        exact text ⟨relative, elsewhere⟩
      · simp at failed
  · rintro ⟨c, refuses, rfl⟩
    cases refuses with
    | missing free => rw [free, place]
    | outside found relative elsewhere =>
      rw [found, place, if_pos ⟨relative, elsewhere⟩]
    | @beyond s found within far =>
      have text : ¬ (site.Relative ∧ s.segment ≠ .text) := fun outside =>
        outside.2 (within outside.1)
      rw [found, place, if_neg text, if_pos far]

theorem Refuses.not_resolves {c : Cause} (refuses : site.Refuses table label c) (v : Int) :
    ¬ site.Resolves table label v := by
  intro resolves
  have ok : site.place label default (table.find? label) = .ok v := place_eq_ok_iff.mpr resolves
  have failed : site.place label default (table.find? label) = .error ⟨c, default⟩ :=
    place_eq_error_iff.mpr ⟨c, refuses, rfl⟩
  simp [ok] at failed

end Site

theorem check_bind_pure {α : Type} {b : Bounds} (all : b.even = false) (v : Int) (shown : Bytes)
    (span : Span) (a : α) :
    (do b.check v shown span; return a) =
      if v < b.least ∨ b.greatest < v then
        (.error ⟨.outOfRange shown b.least b.greatest, span⟩ : Except Fault α)
      else .ok a := by
  unfold Bounds.check
  split
  · rfl
  · rw [if_neg (by simp [all])]
    rfl

theorem distance_eq_place {site : Site} (relative : site.Relative) (bounds : Bounds) (bits : Nat)
    (label : Bytes) (s : Symbol) (pc : UInt32) (span : Span)
    (value : site.value s = (s.offset.toNat : Int) - pc.toNat)
    (room : site.room = (bounds.least, bounds.greatest))
    (overflow : site.overflow label s = .labelTooFar label (site.value s) bits) :
    distance bounds bits label s pc span = site.place label span (some s) := by
  simp only [distance, Site.place, relative, true_and, room, overflow, value]

theorem labelValue_eq_place (table : SymbolTable) (pc : UInt32) (span : Span) (format : Format)
    (label : Bytes) :
    labelValue table pc span format label =
      (Site.code format pc).place label span (table.find? label) := by
  unfold labelValue symbol
  cases table.find? label with
  | none => rfl
  | some s =>
    rw [ok_bind]
    cases format with
    | branch =>
      have relative : (Site.code .branch pc).Relative := Or.inl rfl
      exact distance_eq_place relative _ _ _ _ _ _ rfl rfl rfl
    | jump =>
      have relative : (Site.code .jump pc).Relative := Or.inr rfl
      exact distance_eq_place relative _ _ _ _ _ _ rfl rfl rfl
    | upperImmediate => exact check_bind_pure rfl _ _ _ _
    | registerRegister | registerImmediate | load | store | jumpRegister =>
      exact check_bind_pure rfl _ _ _ _

def settle (table : SymbolTable) (site : Site) (span : Span) : Operand → Except Fault Operand
  | .num v => .ok (.num v)
  | .ref label => (site.place label span (table.find? label)).map .num

/-- What an operand becomes: numbers stay, and labels become the numbers that they resolve to. -/
inductive Settled (table : SymbolTable) (site : Site) : Operand → Operand → Prop
  | num (v : Int) : Settled table site (.num v) (.num v)
  | ref {label : Bytes} {v : Int} (resolves : site.Resolves table label v) :
      Settled table site (.ref label) (.num v)

variable {table : SymbolTable} {site : Site} {pc : UInt32} {span : Span} {f : Fault}

theorem settle_eq_ok_iff {v w : Operand} :
    settle table site span v = .ok w ↔ Settled table site v w := by
  cases v with
  | num v =>
    constructor
    · intro same
      obtain rfl := Except.ok.inj same
      exact .num v
    · intro settled
      cases settled
      rfl
  | ref label =>
    rw [settle, map_eq_ok_iff]
    constructor
    · rintro ⟨v, placed, rfl⟩
      exact .ref (Site.place_eq_ok_iff.mp placed)
    · intro settled
      cases settled with
      | ref resolves => exact ⟨_, Site.place_eq_ok_iff.mpr resolves, rfl⟩

theorem settle_eq_error_iff {v : Operand} :
    settle table site span v = .error f ↔
      ∃ label c, v = .ref label ∧ site.Refuses table label c ∧ f = ⟨c, span⟩ := by
  cases v with
  | num v => simp [settle]
  | ref label =>
    rw [settle, map_eq_error_iff, Site.place_eq_error_iff]
    constructor
    · rintro ⟨c, refuses, rfl⟩
      exact ⟨label, c, rfl, refuses, rfl⟩
    · rintro ⟨_, c, same, refuses, rfl⟩
      obtain rfl := Operand.ref.inj same
      exact ⟨c, refuses, rfl⟩

theorem even_data (size : Int) : (Bounds.data size).even = false := by
  unfold Bounds.data
  split
  · rfl
  split <;> rfl

theorem item_eq_settle (table : SymbolTable) (size : Int) (span : Span) (v : Operand) :
    item table size span v = settle table (.item size) span v := by
  cases v with
  | num v => rfl
  | ref label =>
    rw [item, symbol, settle]
    cases table.find? label with
    | none => rfl
    | some s =>
      have absolute : ¬ ((Site.item size).Relative ∧ s.segment ≠ .text) := fun outside => outside.1
      rw [ok_bind, check_bind_pure (even_data size), Site.place, if_neg absolute,
        apply_ite (Except.map Operand.num)]
      rfl

theorem instruction_eq_settle (table : SymbolTable) (pc : UInt32) (span : Span)
    (inst : Instruction) :
    instruction table pc span inst =
      match inst.imm? with
      | none => .ok inst
      | some v => (settle table (.code inst.format pc) span v).map inst.withImm := by
  unfold instruction
  cases has : inst.imm? with
  | none => rfl
  | some v =>
    cases v with
    | num v =>
      have same : inst.withImm (.num v) = inst := by
        cases inst <;> simp_all [Instruction.imm?, Instruction.withImm]
      simp only [settle, Except.map, same]
    | ref label =>
      simp only [labelValue_eq_place, settle]
      cases (Site.code inst.format pc).place label span (table.find? label) <;> rfl

end Rv32Asm.Link

namespace Rv32Asm

open Rv32Asm.Link
open Rv32Asm.Outcome

theorem Instruction.eq_of_parts {i i' : Instruction} (format : i'.format = i.format)
    (mnemonic : i'.mnemonic = i.mnemonic) (registers : i'.registers = i.registers)
    (imm : i'.imm? = i.imm?) : i' = i := by
  cases i <;> cases i' <;>
    simp_all [Instruction.format, Instruction.mnemonic, Instruction.registers, Instruction.imm?]

namespace Statement

def operands : Statement → List Operand
  | .inst i => i.imm?.toList
  | .data d =>
    match d.body with
    | .values items => items
    | .bytes _ => []

def site (pc : UInt32) : Statement → Site
  | .inst i => .code i.format pc
  | .data d => .item d.size

def Resolvable (table : SymbolTable) (pc : UInt32) (stmt : Statement) : Prop :=
  ∀ label, .ref label ∈ stmt.operands → ∃ v, (stmt.site pc).Resolves table label v

/-- What a statement at an address becomes: its operands are settled and all else stays. -/
inductive Resolved (table : SymbolTable) (pc : UInt32) : Statement → Statement → Prop
  | inst {i i' : Instruction} (format : i'.format = i.format)
      (mnemonic : i'.mnemonic = i.mnemonic) (registers : i'.registers = i.registers)
      (imm : Option.Rel (Settled table (.code i.format pc)) i.imm? i'.imm?) :
      Resolved table pc (.inst i) (.inst i')
  | bytes (name : String) (size : Int) (bs : Bytes) :
      Resolved table pc (.data ⟨name, size, .bytes bs⟩) (.data ⟨name, size, .bytes bs⟩)
  | values (name : String) {size : Int} {items items' : List Operand}
      (each : List.Forall₂ (Settled table (.item size)) items items') :
      Resolved table pc (.data ⟨name, size, .values items⟩) (.data ⟨name, size, .values items'⟩)

theorem Resolved.numeric {table : SymbolTable} {pc : UInt32} {stmt stmt' : Statement}
    (resolved : stmt.Resolved table pc stmt') (label : Bytes) : .ref label ∉ stmt'.operands := by
  cases resolved with
  | @inst i i' _ _ _ imm =>
    intro member
    have here : i'.imm? = some (.ref label) := Option.mem_toList.mp member
    rw [here] at imm
    generalize i.imm? = v at imm
    cases imm with
    | some settled => cases settled
  | bytes => simp [operands]
  | values name each =>
    intro member
    induction each with
    | nil => simp [operands] at member
    | cons settled _ ih =>
      rcases List.mem_cons.mp member with rfl | later
      · cases settled
      · exact ih later

def RefusedAt (table : SymbolTable) (pc : UInt32) (stmt : Statement) (label : Bytes) (c : Cause) :
    Prop :=
  ∃ before after, stmt.operands = before ++ .ref label :: after ∧
    (∀ earlier, .ref earlier ∈ before → ∃ v, (stmt.site pc).Resolves table earlier v) ∧
    (stmt.site pc).Refuses table label c

end Statement

namespace Link

open Statement

variable {table : SymbolTable} {pc : UInt32} {span : Span} {f : Fault}

theorem instruction_eq_ok_iff_resolved {i i' : Instruction} :
    instruction table pc span i = .ok i' ↔ Resolved table pc (.inst i) (.inst i') := by
  rw [instruction_eq_settle]
  cases has : i.imm? with
  | none =>
    constructor
    · intro same
      obtain rfl := Except.ok.inj same
      exact .inst rfl rfl rfl (has ▸ .none)
    · intro resolved
      cases resolved with
      | inst format mnemonic registers imm =>
        rw [has] at imm
        generalize new : i'.imm? = w at imm
        cases imm
        rw [Instruction.eq_of_parts format mnemonic registers (new.trans has.symm)]
  | some v =>
    simp only [map_eq_ok_iff, settle_eq_ok_iff]
    constructor
    · rintro ⟨w, settled, rfl⟩
      have imm := Instruction.imm?_withImm has w
      refine .inst ?_ ?_ ?_ (has ▸ imm ▸ .some settled)
      all_goals cases i <;> rfl
    · intro resolved
      cases resolved with
      | inst format mnemonic registers imm =>
        rw [has] at imm
        generalize new : i'.imm? = w at imm
        cases imm with
        | @some _ w settled =>
          refine ⟨w, settled, Eq.symm ?_⟩
          apply Instruction.eq_of_parts
          · cases i <;> exact format
          · cases i <;> exact mnemonic
          · cases i <;> exact registers
          · rw [new, Instruction.imm?_withImm has]

theorem statement_eq_ok_iff_resolved {stmt stmt' : Statement} :
    statement table pc span stmt = .ok stmt' ↔ Resolved table pc stmt stmt' := by
  cases stmt with
  | inst i =>
    rw [statement_inst_eq_ok_iff]
    constructor
    · rintro ⟨i', result, rfl⟩
      exact instruction_eq_ok_iff_resolved.mp result
    · intro resolved
      cases resolved with
      | @inst _ i' format mnemonic registers imm =>
        have whole := Resolved.inst format mnemonic registers imm
        exact ⟨i', instruction_eq_ok_iff_resolved.mpr whole, rfl⟩
  | data d =>
    rw [statement_data_eq_ok_iff]
    obtain ⟨name, size, body⟩ := d
    cases body with
    | bytes bs =>
      constructor
      · rintro ⟨d', result, rfl⟩
        obtain rfl := Except.ok.inj result
        exact .bytes name size bs
      · intro resolved
        cases resolved
        exact ⟨_, rfl, rfl⟩
    | values items =>
      simp only [directive, bind_eq_ok_iff, pure_eq_ok_iff, mapM_eq_ok_iff, item_eq_settle,
        settle_eq_ok_iff]
      constructor
      · rintro ⟨_, ⟨items', each, rfl⟩, rfl⟩
        exact .values name each
      · intro resolved
        cases resolved with
        | values _ each => exact ⟨_, ⟨_, each, rfl⟩, rfl⟩

theorem statement_eq_error_iff {stmt : Statement} :
    statement table pc span stmt = .error f ↔
      ∃ label c, stmt.RefusedAt table pc label c ∧ f = ⟨c, span⟩ := by
  cases stmt with
  | inst i =>
    have step : statement table pc span (.inst i) = .error f ↔
        instruction table pc span i = .error f := by
      rw [statement, bind_eq_error_iff]
      simp [pure_ne_error]
    rw [step, instruction_eq_settle]
    unfold RefusedAt
    cases has : i.imm? with
    | none => simp [operands, has]
    | some v =>
      have only : Statement.operands (.inst i) = [v] := by simp [operands, has]
      simp only [map_eq_error_iff, settle_eq_error_iff, only]
      constructor
      · rintro ⟨label, c, rfl, refuses, rfl⟩
        exact ⟨label, c, ⟨[], [], rfl, by simp, refuses⟩, rfl⟩
      · rintro ⟨label, c, ⟨before, after, split, _, refuses⟩, rfl⟩
        rcases List.append_eq_cons_iff.mp split.symm with ⟨_, same⟩ | ⟨rest, _, never⟩
        · obtain ⟨rfl, _⟩ := List.cons.inj same
          exact ⟨label, c, rfl, refuses, rfl⟩
        · simp at never
  | data d =>
    have step : statement table pc span (.data d) = .error f ↔
        directive table span d = .error f := by
      rw [statement, bind_eq_error_iff]
      simp [pure_ne_error]
    rw [step]
    unfold RefusedAt
    obtain ⟨name, size, body⟩ := d
    cases body with
    | bytes bs => simp [directive, operands]
    | values items =>
      have run : directive table span ⟨name, size, .values items⟩ = .error f ↔
          items.mapM (settle table (.item size) span) = .error f := by
        have each : item table size span = settle table (.item size) span := by
          funext v
          exact item_eq_settle table size span v
        simp only [directive, bind_eq_error_iff, pure_ne_error, and_false, exists_false, or_false,
          each]
      rw [run, mapM_eq_error_iff]
      constructor
      · rintro ⟨before, v, after, rfl, earlier, failed⟩
        obtain ⟨label, c, rfl, refuses, rfl⟩ := settle_eq_error_iff.mp failed
        refine ⟨label, c, ⟨before, after, rfl, ?_, refuses⟩, rfl⟩
        intro other member
        obtain ⟨w, settled⟩ := earlier _ member
        cases settle_eq_ok_iff.mp settled with
        | ref resolves => exact ⟨_, resolves⟩
      · rintro ⟨label, c, ⟨before, after, split, earlier, refuses⟩, rfl⟩
        refine ⟨before, .ref label, after, split, ?_,
          settle_eq_error_iff.mpr ⟨label, c, rfl, refuses, rfl⟩⟩
        intro v member
        cases v with
        | num v => exact ⟨.num v, rfl⟩
        | ref other =>
          obtain ⟨w, resolves⟩ := earlier other member
          exact ⟨.num w, settle_eq_ok_iff.mpr (.ref resolves)⟩

theorem resolves_of_mem {site : Site} {items items' : List Operand}
    (each : List.Forall₂ (Settled table site) items items') {label : Bytes}
    (member : .ref label ∈ items) : ∃ v, site.Resolves table label v := by
  induction each with
  | nil => simp at member
  | cons settled _ ih =>
    rcases List.mem_cons.mp member with rfl | later
    · cases settled with
      | ref resolves => exact ⟨_, resolves⟩
    · exact ih later

theorem exists_statement_iff {stmt : Statement} :
    (∃ stmt', statement table pc span stmt = .ok stmt') ↔ stmt.Resolvable table pc := by
  constructor
  · rintro ⟨stmt', result⟩ label member
    cases statement_eq_ok_iff_resolved.mp result with
    | @inst i i' _ _ _ imm =>
      have here : i.imm? = some (.ref label) := Option.mem_toList.mp member
      rw [here] at imm
      generalize i'.imm? = w at imm
      cases imm with
      | some settled =>
        cases settled with
        | ref resolves => exact ⟨_, resolves⟩
    | bytes => simp [operands] at member
    | values name each => exact resolves_of_mem each member
  · intro resolvable
    cases result : statement table pc span stmt with
    | ok stmt' => exact ⟨stmt', rfl⟩
    | error f =>
      obtain ⟨label, c, ⟨before, after, split, _, refuses⟩, _⟩ := statement_eq_error_iff.mp result
      obtain ⟨v, resolves⟩ := resolvable label (by simp [split])
      exact absurd resolves (refuses.not_resolves v)

end Link

/-- The address behind records, if the first is at zero: four for each instruction, modulo 2^32. -/
def addressAfter (rs : List Record) : UInt32 :=
  UInt32.ofNat (4 * (rs.filterMap Record.instruction?).length)

theorem nextPc_addressAfter (rs : List Record) (r : Record) :
    nextPc (addressAfter rs) r.statement = addressAfter (rs ++ [r]) := by
  unfold addressAfter
  rw [List.filterMap_append]
  cases statement : r.statement with
  | data d => simp [nextPc, Record.instruction?, statement]
  | inst i =>
    simp only [nextPc, List.filterMap_cons, Record.instruction?, statement, List.filterMap_nil,
      List.length_append, List.length_singleton, Nat.mul_add, UInt32.ofNat_add]
    rfl

structure Record.Becomes (table : SymbolTable) (pc : UInt32) (r r' : Record) : Prop where
  labels : r'.labels = r.labels
  line : r'.line = r.line
  span : r'.span = r.span
  statement : r.statement.Resolved table pc r'.statement

def RewritesAfter (table : SymbolTable) (done rs out : List Record) : Prop :=
  out.length = rs.length ∧ ∀ before r after, rs = before ++ r :: after →
    ∃ r', out[before.length]? = some r' ∧ r.Becomes table (addressAfter (done ++ before)) r'

theorem Link.linked_iff_rewritesAfter {table : SymbolTable} {rs done out : List Record} :
    Linked table (addressAfter done) rs out ↔ RewritesAfter table done rs out := by
  induction rs generalizing done out with
  | nil =>
    constructor
    · intro linked
      cases linked
      exact ⟨rfl, by simp⟩
    · rintro ⟨length, _⟩
      rw [List.length_eq_zero_iff.mp length]
      exact .nil _
  | cons r rs ih =>
    constructor
    · intro linked
      cases linked with
      | @cons _ _ stmt _ out first rest =>
        rw [nextPc_addressAfter] at rest
        obtain ⟨length, each⟩ := ih.mp rest
        refine ⟨by simp [length], ?_⟩
        intro before u after split
        cases before with
        | nil =>
          obtain ⟨rfl, _⟩ := List.cons.inj split
          refine ⟨_, rfl, rfl, rfl, rfl, ?_⟩
          rw [List.append_nil]
          exact statement_eq_ok_iff_resolved.mp first
        | cons b before =>
          obtain ⟨rfl, later⟩ := List.cons.inj split
          obtain ⟨u', place, becomes⟩ := each before u after later
          refine ⟨u', place, ?_⟩
          rwa [List.append_assoc] at becomes
    · rintro ⟨length, each⟩
      obtain ⟨r', place, becomes⟩ := each [] r rs rfl
      cases out with
      | nil => simp at length
      | cons head out =>
        obtain rfl : head = r' := Option.some.inj place
        rw [List.append_nil] at becomes
        have first : statement table (addressAfter done) r.span r.statement = .ok head.statement :=
          statement_eq_ok_iff_resolved.mpr becomes.statement
        have whole : head = { r with statement := head.statement } := by
          obtain ⟨labels, line, span, _⟩ := becomes
          cases head
          simp_all
        rw [whole]
        refine .cons first ?_
        rw [nextPc_addressAfter]
        refine ih.mpr ⟨by simpa using length, ?_⟩
        intro before u after split
        obtain ⟨u', place, becomes⟩ := each (r :: before) u after (by rw [split]; rfl)
        refine ⟨u', place, ?_⟩
        rwa [List.append_assoc]

theorem RewritesAfter.numeric {table : SymbolTable} {done rs out : List Record}
    (rewrites : RewritesAfter table done rs out) {r' : Record} (member : r' ∈ out)
    (label : Bytes) : .ref label ∉ r'.statement.operands := by
  obtain ⟨length, each⟩ := rewrites
  obtain ⟨n, inside, rfl⟩ := List.mem_iff_getElem.mp member
  have inside' : n < rs.length := by omega
  have split : rs = rs.take n ++ rs[n] :: rs.drop (n + 1) := by simp
  obtain ⟨_, place, becomes⟩ := each _ _ _ split
  rw [List.length_take, Nat.min_eq_left (by omega), List.getElem?_eq_getElem inside] at place
  rw [Option.some.inj place]
  exact becomes.statement.numeric label

namespace Link

variable {table : SymbolTable} {f : Fault}

end Link

end Rv32Asm
