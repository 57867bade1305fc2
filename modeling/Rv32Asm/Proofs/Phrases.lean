import Rv32Asm.Proofs.Operands

/-!
The operands of a statement as a grammar.

An operand is a register, a value, or an address that may leave out its offset. One comma may stand
before every operand but the first. Each reader of operands accepts one such phrase and nothing
else, and a mnemonic or a shorthand accepts the phrases of its forms.
-/

set_option autoImplicit false
set_option relaxedAutoImplicit false

namespace Rv32Asm

open Rv32Asm.Text
open Rv32Asm.Outcome
open Rv32Asm.Operands

theorem Number.ofToken_eq_ok_iff {line : Nat} {t : Token} {n : Int} :
    ofToken line t = .ok n ↔ read t.text = .ok n := by
  unfold ofToken
  split <;> simp_all

namespace Token

def Names (t : Token) (r : Register) : Prop :=
  (t.kind = .ident ∨ t.kind = .number) ∧ Register.ofName? (latin t.text) = some r

inductive Denotes (bounds : Bounds) (t : Token) : Operand → Prop
  | label (kind : t.kind = .ident) : Denotes bounds t (.ref t.text)
  | literal {n : Int} (kind : t.kind = .number) (value : Number.read t.text = .ok n)
      (within : bounds.Allows n) : Denotes bounds t (.num n)

theorem Denotes.kind {bounds : Bounds} {t : Token} {v : Operand} (value : t.Denotes bounds v) :
    t.kind = .ident ∨ t.kind = .number := by
  cases value with
  | label kind => exact .inl kind
  | literal kind => exact .inr kind

end Token

inductive Phrase where
  | reg (r : Register)
  | val (v : Operand)
  | mem (offset : Option Operand) (base : Register)
deriving DecidableEq

namespace Phrase

def size : Phrase → Nat
  | reg _ | val _ => 1
  | mem none _ => 3
  | mem (some _) _ => 4

def totalSize : List Phrase → Nat
  | [] => 0
  | p :: ps => p.size + totalSize ps

inductive Written (bounds : Bounds) : Phrase → List Token → Prop
  | reg {t : Token} {r : Register} (name : t.Names r) : Written bounds (reg r) [t]
  | val {t : Token} {v : Operand} (value : t.Denotes bounds v) : Written bounds (val v) [t]
  | base {opening t closing : Token} {r : Register} (opens : opening.kind = .openParen)
      (name : t.Names r) (closes : closing.kind = .closeParen) :
      Written bounds (mem none r) [opening, t, closing]
  | offset {u opening t closing : Token} {v : Operand} {r : Register}
      (value : u.Denotes bounds v) (opens : opening.kind = .openParen) (name : t.Names r)
      (closes : closing.kind = .closeParen) :
      Written bounds (mem (some v) r) [u, opening, t, closing]

inductive Separator : List Token → Prop
  | none : Separator []
  | comma {t : Token} (kind : t.kind = .comma) : Separator [t]

inductive Follow (bounds : Bounds) : List Phrase → List Token → Prop
  | nil : Follow bounds [] []
  | cons {p : Phrase} {ps : List Phrase} {between us rest : List Token}
      (separator : Separator between) (written : Written bounds p us)
      (more : Follow bounds ps rest) : Follow bounds (p :: ps) (between ++ us ++ rest)

inductive Listed (bounds : Bounds) : List Phrase → List Token → Prop
  | nil : Listed bounds [] []
  | cons {p : Phrase} {ps : List Phrase} {us rest : List Token} (written : Written bounds p us)
      (more : Follow bounds ps rest) : Listed bounds (p :: ps) (us ++ rest)

def Opens (bounds : Bounds) (p : Phrase) (ts rest : List Token) : Prop :=
  ∃ us, Written bounds p us ∧ ts = us ++ rest

variable {bounds : Bounds} {p : Phrase} {ps : List Phrase} {ts rest : List Token}

theorem Written.starts {us : List Token} (written : Written bounds p us) :
    ∃ t more, us = t :: more ∧ t.kind ≠ .comma ∧ t.kind ≠ .colon := by
  have word {t : Token} (kind : t.kind = .ident ∨ t.kind = .number) :
      t.kind ≠ .comma ∧ t.kind ≠ .colon := by
    rcases kind with kind | kind <;> simp [kind]
  cases written with
  | reg name => exact ⟨_, _, rfl, word name.1⟩
  | val value => exact ⟨_, _, rfl, word value.kind⟩
  | base opens => exact ⟨_, _, rfl, by simp [opens]⟩
  | offset value => exact ⟨_, _, rfl, word value.kind⟩

theorem opens_reg_iff {r : Register} :
    Opens bounds (reg r) ts rest ↔ ∃ t, ts = t :: rest ∧ t.Names r := by
  constructor
  · rintro ⟨_, written, rfl⟩
    cases written with
    | reg name => exact ⟨_, rfl, name⟩
  · rintro ⟨t, rfl, name⟩
    exact ⟨[t], .reg name, rfl⟩

theorem opens_val_iff {v : Operand} :
    Opens bounds (val v) ts rest ↔ ∃ t, ts = t :: rest ∧ t.Denotes bounds v := by
  constructor
  · rintro ⟨_, written, rfl⟩
    cases written with
    | val value => exact ⟨_, rfl, value⟩
  · rintro ⟨t, rfl, value⟩
    exact ⟨[t], .val value, rfl⟩

@[simp] theorem follow_nil_iff : Follow bounds [] ts ↔ ts = [] := by
  constructor
  · rintro ⟨⟩
    rfl
  · rintro rfl
    exact .nil

@[simp] theorem listed_nil_iff : Listed bounds [] ts ↔ ts = [] := by
  constructor
  · rintro ⟨⟩
    rfl
  · rintro rfl
    exact .nil

theorem listed_cons_iff :
    Listed bounds (p :: ps) ts ↔ ∃ rest, Opens bounds p ts rest ∧ Follow bounds ps rest := by
  constructor
  · intro listed
    cases listed with
    | cons written more => exact ⟨_, ⟨_, written, rfl⟩, more⟩
  · rintro ⟨rest, ⟨us, written, rfl⟩, more⟩
    exact .cons written more

theorem follow_cons_iff :
    Follow bounds (p :: ps) ts ↔
      ∃ rest, Opens bounds p (skipComma ts) rest ∧ Follow bounds ps rest := by
  constructor
  · intro follow
    cases follow with
    | cons separator written more =>
      refine ⟨_, ⟨_, written, ?_⟩, more⟩
      obtain ⟨t, us, rfl, comma, _⟩ := written.starts
      cases separator with
      | none => simp [skipComma, comma]
      | comma kind => simp [skipComma, kind]
  · rintro ⟨rest, ⟨us, written, split⟩, more⟩
    cases ts with
    | nil =>
      obtain ⟨t, us, rfl, _⟩ := written.starts
      simp [skipComma] at split
    | cons t ts =>
      by_cases comma : t.kind = .comma
      · rw [skipComma, if_pos comma] at split
        subst split
        exact .cons (.comma comma) written more
      · rw [skipComma, if_neg comma] at split
        rw [split]
        exact .cons .none written more

theorem Written.remaining_eq {us : List Token} (written : Written bounds p us) :
    remaining us = p.size := by
  have word {t : Token} (kind : t.kind = .ident ∨ t.kind = .number) : t.kind ≠ .comma := by
    rcases kind with kind | kind <;> simp [kind]
  cases written with
  | reg name => simp [remaining, size, word name.1]
  | val value => simp [remaining, size, word value.kind]
  | base opens name closes => simp [remaining, size, opens, closes, word name.1]
  | offset value opens name closes =>
    simp [remaining, size, opens, closes, word name.1, word value.kind]

theorem Follow.remaining_eq (follow : Follow bounds ps ts) :
    remaining ts = totalSize ps := by
  induction follow with
  | nil => rfl
  | @cons p ps between us rest separator written more ih =>
    have none : remaining between = 0 := by
      cases separator with
      | none => rfl
      | comma kind => simp [remaining, kind]
    calc
      remaining (between ++ us ++ rest) = remaining between + remaining us + remaining rest := by
        simp only [remaining, List.countP_append]
      _ = p.size + totalSize ps := by rw [none, written.remaining_eq, ih, Nat.zero_add]

theorem Listed.remaining_eq (listed : Listed bounds ps ts) :
    remaining ts = totalSize ps := by
  cases listed with
  | nil => rfl
  | cons written more =>
    rw [totalSize, ← written.remaining_eq, ← more.remaining_eq]
    exact List.countP_append

theorem Listed.nextIs_colon (listed : Listed bounds ps ts) : nextIs .colon ts = false := by
  cases listed with
  | nil => rfl
  | cons written more =>
    obtain ⟨t, us, rfl, _, colon⟩ := written.starts
    simp [nextIs, colon]

theorem Follow.ne_nil (follow : Follow bounds (p :: ps) ts) : ts ≠ [] := by
  rintro rfl
  obtain ⟨rest, ⟨us, written, split⟩, _⟩ := follow_cons_iff.mp follow
  obtain ⟨t, more, rfl, _⟩ := written.starts
  simp [skipComma] at split

end Phrase

namespace Operands

open Phrase

variable {c : Context} {bounds : Bounds} {ts rest : List Token} {r : Register} {v : Operand}

theorem operand_eq_ok_iff_denotes {t : Token} :
    operand c bounds t = .ok v ↔ t.Denotes bounds v := by
  rw [operand_eq_ok_iff]
  constructor
  · rintro (⟨kind, n, value, within, rfl⟩ | ⟨kind, rfl⟩)
    · exact .literal kind (Number.ofToken_eq_ok_iff.mp value) within
    · exact .label kind
  · intro value
    cases value with
    | label kind => exact .inr ⟨kind, rfl⟩
    | literal kind value within =>
      exact .inl ⟨kind, _, Number.ofToken_eq_ok_iff.mpr value, within, rfl⟩

theorem register_eq_ok_iff_opens (bounds : Bounds) :
    register c ts = .ok (r, rest) ↔ Opens bounds (.reg r) ts rest := by
  rw [register_eq_ok_iff, opens_reg_iff]
  rfl

theorem immediate_eq_ok_iff_opens :
    immediate c bounds ts = .ok (v, rest) ↔ Opens bounds (.val v) ts rest := by
  simp only [immediate_eq_ok_iff, opens_val_iff, operand_eq_ok_iff_denotes]

theorem nextIs_openParen_of_denotes {t : Token} (value : t.Denotes bounds v) :
    nextIs .openParen (t :: ts) = false := by
  rcases value.kind with kind | kind <;> simp [nextIs, kind]

theorem memory_eq_ok_iff_opens :
    memory c ts = .ok (v, r, rest) ↔
      ∃ offset, v = offset.getD (.num 0) ∧ Opens .twelveBit (.mem offset r) ts rest := by
  simp only [memory, bind_eq_ok_iff, pure_eq_ok_iff, Prod.exists, Prod.mk.injEq,
    exactly_eq_ok_iff, register_eq_ok_iff]
  constructor
  · rintro ⟨_, _, offset, _, ⟨opening, rfl, opens⟩, _, _, ⟨t, rfl, name⟩, _,
      ⟨closing, rfl, closes⟩, rfl, rfl, rfl⟩
    unfold memoryOffset at offset
    split at offset
    · simp only [Except.ok.injEq, Prod.mk.injEq] at offset
      obtain ⟨rfl, rfl⟩ := offset
      exact ⟨none, rfl, _, .base opens name closes, rfl⟩
    · obtain ⟨u, rfl, value⟩ := immediate_eq_ok_iff.mp offset
      exact ⟨some _, rfl, _, .offset (operand_eq_ok_iff_denotes.mp value) opens name closes, rfl⟩
  · rintro ⟨_, rfl, _, written, rfl⟩
    cases written with
    | @base opening t closing _ opens name closes =>
      have offset : memoryOffset c (opening :: t :: closing :: rest) =
          .ok (.num 0, opening :: t :: closing :: rest) := by
        simp [memoryOffset, nextIs, opens]
      exact ⟨_, _, offset, _, ⟨_, rfl, opens⟩, r, _, ⟨_, rfl, name⟩, _, ⟨_, rfl, closes⟩, rfl, rfl,
        rfl⟩
    | @offset u opening t closing v _ value opens name closes =>
      have offset : memoryOffset c (u :: opening :: t :: closing :: rest) =
          .ok (v, opening :: t :: closing :: rest) := by
        simp only [memoryOffset, nextIs_openParen_of_denotes value, List.isEmpty_cons, Bool.or_self,
          Bool.false_eq_true, ↓reduceIte]
        exact immediate_eq_ok_iff.mpr ⟨u, rfl, operand_eq_ok_iff_denotes.mpr value⟩
      exact ⟨_, _, offset, _, ⟨_, rfl, opens⟩, r, _, ⟨_, rfl, name⟩, _, ⟨_, rfl, closes⟩, rfl, rfl,
        rfl⟩

theorem moreOperands_eq_ok_nil_iff : moreOperands c bounds ts = .ok [] ↔ ts = [] := by
  match ts with
  | [] => simp [moreOperands]
  | [t] =>
    by_cases comma : t.kind = .comma
    · simp [moreOperands, comma]
    · simp only [moreOperands, comma, ↓reduceIte, bind_eq_ok_iff, pure_eq_ok_iff]
      simp
  | t :: u :: ts =>
    by_cases comma : t.kind = .comma
    all_goals
      simp only [moreOperands, comma, ↓reduceIte, bind_eq_ok_iff, pure_eq_ok_iff]
      simp

theorem moreOperands_eq_ok_cons_iff {vs : List Operand} :
    moreOperands c bounds ts = .ok (v :: vs) ↔
      ∃ rest, Opens bounds (.val v) (skipComma ts) rest ∧
        moreOperands c bounds rest = .ok vs := by
  simp only [opens_val_iff, ← operand_eq_ok_iff_denotes (c := c)]
  match ts with
  | [] => simp [moreOperands, skipComma]
  | [t] =>
    by_cases comma : t.kind = .comma
    · simp [moreOperands, skipComma, comma]
    · simp only [moreOperands, skipComma, comma, ↓reduceIte, bind_eq_ok_iff, pure_eq_ok_iff]
      constructor
      · rintro ⟨_, read, ⟨⟩⟩
        exact ⟨[], ⟨t, rfl, read⟩, rfl⟩
      · rintro ⟨_, ⟨_, ⟨⟩, read⟩, more⟩
        simp only [moreOperands, Except.ok.injEq] at more
        exact ⟨v, read, by rw [more]⟩
  | t :: u :: ts =>
    by_cases comma : t.kind = .comma
    all_goals
      simp only [moreOperands, skipComma, comma, ↓reduceIte, bind_eq_ok_iff, pure_eq_ok_iff]
      constructor
      · rintro ⟨_, read, _, more, ⟨⟩⟩
        exact ⟨_, ⟨_, rfl, read⟩, more⟩
      · rintro ⟨_, ⟨_, ⟨⟩, read⟩, more⟩
        exact ⟨v, read, vs, more, rfl⟩

/-- Values up to the end of the line may each have a comma in front. -/
theorem moreOperands_eq_ok_iff {vs : List Operand} :
    moreOperands c bounds ts = .ok vs ↔ Follow bounds (vs.map .val) ts := by
  induction vs generalizing ts with
  | nil => rw [moreOperands_eq_ok_nil_iff, List.map_nil, follow_nil_iff]
  | cons v vs ih =>
    rw [moreOperands_eq_ok_cons_iff, List.map_cons, follow_cons_iff]
    simp only [ih]

theorem operands_eq_ok_iff {vs : List Operand} :
    operands c bounds ts = .ok vs ↔ vs ≠ [] ∧ Listed bounds (vs.map .val) ts := by
  constructor
  · intro read
    refine ⟨operands_ne_nil read, ?_⟩
    cases ts with
    | nil => simp [operands] at read
    | cons t ts =>
      simp only [operands, bind_eq_ok_iff, pure_eq_ok_iff] at read
      obtain ⟨v, first, more, others, rfl⟩ := read
      rw [List.map_cons, listed_cons_iff]
      exact ⟨ts, opens_val_iff.mpr ⟨t, rfl, operand_eq_ok_iff_denotes.mp first⟩,
        moreOperands_eq_ok_iff.mp others⟩
  · rintro ⟨some_item, listed⟩
    obtain ⟨v, vs, rfl⟩ := List.exists_cons_of_ne_nil some_item
    rw [List.map_cons, listed_cons_iff] at listed
    obtain ⟨rest, first, others⟩ := listed
    obtain ⟨t, rfl, value⟩ := opens_val_iff.mp first
    simp only [operands, bind_eq_ok_iff, pure_eq_ok_iff]
    exact ⟨v, operand_eq_ok_iff_denotes.mpr value, vs, moreOperands_eq_ok_iff.mpr others, rfl⟩

end Operands

section Address

-- How the reader of indirect jumps tells an address from a register.

open Phrase

variable {bounds : Bounds} {ts rest : List Token} {ps : List Phrase} {r : Register}

theorem nextIs_openParen_of_follow {v : Operand} (follow : Follow bounds (val v :: ps) ts) :
    nextIs .openParen ts = false := by
  obtain ⟨rest, opens, _⟩ := follow_cons_iff.mp follow
  obtain ⟨t, split, value⟩ := opens_val_iff.mp opens
  cases ts with
  | nil => rfl
  | cons u ts =>
    by_cases comma : u.kind = .comma
    · simp [nextIs, comma]
    · rw [skipComma, if_neg comma] at split
      rw [split]
      exact nextIs_openParen_of_denotes value

theorem atMemory_of_opens_mem {offset : Option Operand}
    (opens : Opens bounds (mem offset r) (skipComma ts) rest) : atMemory ts = true := by
  obtain ⟨us, written, split⟩ := opens
  unfold atMemory
  rw [split]
  cases written with
  | base opens => simp [nextIs, opens]
  | offset _ opens => simp [nextIs, opens]

theorem not_atMemory_of_opens_reg (opens : Opens bounds (reg r) (skipComma ts) rest)
    (after : nextIs .openParen rest = false) : atMemory ts = false := by
  obtain ⟨t, split, name⟩ := opens_reg_iff.mp opens
  unfold atMemory
  rw [split]
  rcases name.1 with kind | kind
  all_goals
    rw [List.drop_one, List.tail_cons, after]
    simp [nextIs, kind]

end Address

section Shapes

-- Lists of operands in the order in which the readers take them.

open Phrase

variable {bounds : Bounds} {ts : List Token} {r r' r'' : Register} {v : Operand}

theorem listed_val_iff (c : Context) :
    Listed bounds [val v] ts ↔ immediate c bounds ts = .ok (v, []) := by
  simp only [listed_cons_iff, follow_nil_iff, immediate_eq_ok_iff_opens, exists_eq_right]

theorem listed_reg_iff (c : Context) :
    Listed bounds [reg r] ts ↔ register c ts = .ok (r, []) := by
  simp only [listed_cons_iff, follow_nil_iff, register_eq_ok_iff_opens bounds, exists_eq_right]

theorem listed_reg_val_iff (c : Context) :
    Listed bounds [reg r, val v] ts ↔
      ∃ left, register c ts = .ok (r, left) ∧
        immediate c bounds (skipComma left) = .ok (v, []) := by
  simp only [listed_cons_iff, follow_cons_iff, follow_nil_iff, register_eq_ok_iff_opens bounds,
    immediate_eq_ok_iff_opens, exists_eq_right]

theorem listed_reg_mem_iff (c : Context) :
    (∃ offset, v = offset.getD (.num 0) ∧ Listed .twelveBit [reg r, mem offset r'] ts) ↔
      ∃ left, register c ts = .ok (r, left) ∧ memory c (skipComma left) = .ok (v, r', []) := by
  simp only [listed_cons_iff, follow_cons_iff, follow_nil_iff, memory_eq_ok_iff_opens,
    register_eq_ok_iff_opens .twelveBit, exists_eq_right]
  constructor
  · rintro ⟨offset, value, left, first, second⟩
    exact ⟨left, first, offset, value, second⟩
  · rintro ⟨left, first, offset, value, second⟩
    exact ⟨offset, value, left, first, second⟩

theorem listed_reg_reg_iff (c : Context) :
    Listed bounds [reg r, reg r'] ts ↔ registerPair c ts = .ok (r, r', []) := by
  simp only [listed_cons_iff, follow_cons_iff, follow_nil_iff, registerPair_eq_ok_iff,
    register_eq_ok_iff_opens bounds, exists_eq_right]

theorem listed_reg_reg_val_iff (c : Context) :
    Listed bounds [reg r, reg r', val v] ts ↔
      ∃ left, registerPair c ts = .ok (r, r', left) ∧
        immediate c bounds (skipComma left) = .ok (v, []) := by
  simp only [listed_cons_iff, follow_cons_iff, follow_nil_iff, registerPair_eq_ok_iff,
    register_eq_ok_iff_opens bounds, immediate_eq_ok_iff_opens, exists_eq_right]
  constructor
  · rintro ⟨middle, first, left, second, third⟩
    exact ⟨left, ⟨middle, first, second⟩, third⟩
  · rintro ⟨left, ⟨middle, first, second⟩, third⟩
    exact ⟨middle, first, left, second, third⟩

theorem listed_reg_reg_reg_iff (c : Context) :
    Listed bounds [reg r, reg r', reg r''] ts ↔
      ∃ left, register c ts = .ok (r, left) ∧
        registerPair c (skipComma left) = .ok (r', r'', []) := by
  simp only [listed_cons_iff, follow_cons_iff, follow_nil_iff, registerPair_eq_ok_iff,
    register_eq_ok_iff_opens bounds, exists_eq_right]

end Shapes

section Forms

open Phrase

/-- The operands that a mnemonic of a format takes, and the instruction that they make. -/
inductive Format.Form (name : String) : Format → List Phrase → Instruction → Prop
  | r {rd rs1 rs2 : Register} :
      Form name .registerRegister [reg rd, reg rs1, reg rs2] (.r name rd rs1 rs2)
  | i {rd rs1 : Register} {imm : Operand} :
      Form name .registerImmediate [reg rd, reg rs1, val imm] (.i name rd rs1 imm)
  | load {rd rs1 : Register} {offset : Option Operand} :
      Form name .load [reg rd, mem offset rs1] (.load name rd rs1 (offset.getD (.num 0)))
  | s {rs1 rs2 : Register} {offset : Option Operand} :
      Form name .store [reg rs2, mem offset rs1] (.s name rs1 rs2 (offset.getD (.num 0)))
  | b {rs1 rs2 : Register} {imm : Operand} :
      Form name .branch [reg rs1, reg rs2, val imm] (.b name rs1 rs2 imm)
  | u {rd : Register} {imm : Operand} :
      Form name .upperImmediate [reg rd, val imm] (.u name rd imm)
  | jump {imm : Operand} : Form name .jump [val imm] (.j name 1 imm)
  | jumpLink {rd : Register} {imm : Operand} : Form name .jump [reg rd, val imm] (.j name rd imm)
  | target {rs1 : Register} : Form name .jumpRegister [reg rs1] (.jalr name 1 rs1 (.num 0))
  | targetLink {rd rs1 : Register} :
      Form name .jumpRegister [reg rd, reg rs1] (.jalr name rd rs1 (.num 0))
  | targetOffset {rd rs1 : Register} {imm : Operand} :
      Form name .jumpRegister [reg rd, reg rs1, val imm] (.jalr name rd rs1 imm)
  | targetMemory {rd rs1 : Register} {offset : Option Operand} :
      Form name .jumpRegister [reg rd, mem offset rs1]
        (.jalr name rd rs1 (offset.getD (.num 0)))

variable {op : Opcode} {c : Context} {ts : List Token} {inst : Instruction}

theorem formatOperands_jump_iff (format : op.format = .jump) :
    Parse.formatOperands op c ts = .ok (inst, []) ↔
      ∃ ps, Listed op.literalBounds ps ts ∧ Format.jump.Form op.name ps inst := by
  rw [Opcode.literalBounds_of_jump format]
  simp only [Parse.formatOperands, format]
  constructor
  · intro read
    split at read
    · simp only [bind_eq_ok_iff, pure_eq_ok_iff, Prod.exists, Prod.mk.injEq] at read
      obtain ⟨imm, _, value, rfl, rfl⟩ := read
      exact ⟨_, (listed_val_iff c).mpr value, .jump⟩
    · simp only [bind_eq_ok_iff, pure_eq_ok_iff, Prod.exists, Prod.mk.injEq] at read
      obtain ⟨rd, left, first, imm, _, value, rfl, rfl⟩ := read
      exact ⟨_, (listed_reg_val_iff c).mpr ⟨left, first, value⟩, .jumpLink⟩
  · rintro ⟨_, listed, form⟩
    cases form with
    | jump =>
      have alone : remaining ts = 1 := listed.remaining_eq
      simp only [alone, ↓reduceIte, bind_eq_ok_iff, pure_eq_ok_iff, Prod.exists, Prod.mk.injEq]
      exact ⟨_, _, (listed_val_iff c).mp listed, rfl, rfl⟩
    | jumpLink =>
      have two : remaining ts = 2 := listed.remaining_eq
      obtain ⟨left, first, value⟩ := (listed_reg_val_iff c).mp listed
      simp only [two, Nat.reduceEqDiff, ↓reduceIte, bind_eq_ok_iff, pure_eq_ok_iff, Prod.exists,
        Prod.mk.injEq]
      exact ⟨_, left, first, _, _, value, rfl, rfl⟩

theorem exists_form_of_jumpRegister (format : op.format = .jumpRegister)
    (read : Parse.formatOperands op c ts = .ok (inst, [])) :
    ∃ ps, Listed op.literalBounds ps ts ∧ Format.jumpRegister.Form op.name ps inst := by
  rw [Opcode.literalBounds_of_offset (.inr (.inr format))]
  simp only [Parse.formatOperands, format, bind_eq_ok_iff, Prod.exists] at read
  obtain ⟨rd, left, first, read⟩ := read
  split at read
  · simp only [pure_eq_ok_iff, Prod.mk.injEq] at read
    obtain ⟨rfl, rfl⟩ := read
    exact ⟨_, (listed_reg_iff c).mpr first, .target⟩
  split at read
  · simp only [bind_eq_ok_iff, pure_eq_ok_iff, Prod.exists, Prod.mk.injEq] at read
    obtain ⟨imm, rs1, _, address, rfl, rfl⟩ := read
    obtain ⟨offset, rfl, listed⟩ := (listed_reg_mem_iff c).mpr ⟨left, first, address⟩
    exact ⟨_, listed, .targetMemory⟩
  · simp only [bind_eq_ok_iff, Prod.exists] at read
    obtain ⟨rs1, more, second, read⟩ := read
    have pair : registerPair c ts = .ok (rd, rs1, more) :=
      registerPair_eq_ok_iff.mpr ⟨left, first, second⟩
    split at read
    · simp only [pure_eq_ok_iff, Prod.mk.injEq] at read
      obtain ⟨rfl, rfl⟩ := read
      exact ⟨_, (listed_reg_reg_iff c).mpr pair, .targetLink⟩
    · simp only [bind_eq_ok_iff, pure_eq_ok_iff, Prod.exists, Prod.mk.injEq] at read
      obtain ⟨imm, _, value, rfl, rfl⟩ := read
      exact ⟨_, (listed_reg_reg_val_iff c).mpr ⟨more, pair, value⟩, .targetOffset⟩

theorem formatOperands_of_jumpRegister {ps : List Phrase} (format : op.format = .jumpRegister)
    (listed : Listed op.literalBounds ps ts) (form : Format.jumpRegister.Form op.name ps inst) :
    Parse.formatOperands op c ts = .ok (inst, []) := by
  rw [Opcode.literalBounds_of_offset (.inr (.inr format))] at listed
  simp only [Parse.formatOperands, format, bind_eq_ok_iff, Prod.exists]
  -- An address is told from a register by the parenthesis, which must not come too early.
  cases form with
  | target => exact ⟨_, _, (listed_reg_iff c).mp listed, rfl⟩
  | @targetLink rd rs1 =>
    obtain ⟨left, first, follow⟩ := listed_cons_iff.mp listed
    obtain ⟨more, second, rfl⟩ := by simpa only [follow_cons_iff, follow_nil_iff] using follow
    have register : atMemory left = false := not_atMemory_of_opens_reg second rfl
    refine ⟨rd, left, (register_eq_ok_iff_opens .twelveBit).mpr first, ?_⟩
    simp only [List.isEmpty_eq_false_iff.mpr follow.ne_nil, register, Bool.false_eq_true,
      ↓reduceIte, bind_eq_ok_iff, Prod.exists]
    exact ⟨rs1, [], (register_eq_ok_iff_opens .twelveBit).mpr second, rfl⟩
  | @targetOffset rd rs1 imm =>
    obtain ⟨left, first, follow⟩ := listed_cons_iff.mp listed
    obtain ⟨more, second, value⟩ := follow_cons_iff.mp follow
    have register : atMemory left = false :=
      not_atMemory_of_opens_reg second (nextIs_openParen_of_follow value)
    refine ⟨rd, left, (register_eq_ok_iff_opens .twelveBit).mpr first, ?_⟩
    simp only [List.isEmpty_eq_false_iff.mpr follow.ne_nil, register, Bool.false_eq_true,
      ↓reduceIte, bind_eq_ok_iff, Prod.exists]
    refine ⟨rs1, more, (register_eq_ok_iff_opens .twelveBit).mpr second, ?_⟩
    simp only [List.isEmpty_eq_false_iff.mpr value.ne_nil, Bool.false_eq_true, ↓reduceIte,
      bind_eq_ok_iff, pure_eq_ok_iff, Prod.exists, Prod.mk.injEq, immediate_eq_ok_iff_opens]
    obtain ⟨_, opens, rfl⟩ := by simpa only [follow_cons_iff, follow_nil_iff] using value
    exact ⟨imm, _, opens, rfl, rfl⟩
  | @targetMemory rd rs1 offset =>
    obtain ⟨left, first, follow⟩ := listed_cons_iff.mp listed
    obtain ⟨more, address, rfl⟩ := by simpa only [follow_cons_iff, follow_nil_iff] using follow
    refine ⟨rd, left, (register_eq_ok_iff_opens .twelveBit).mpr first, ?_⟩
    simp only [List.isEmpty_eq_false_iff.mpr follow.ne_nil, atMemory_of_opens_mem address,
      Bool.false_eq_true, ↓reduceIte, bind_eq_ok_iff, pure_eq_ok_iff, Prod.exists, Prod.mk.injEq,
      memory_eq_ok_iff_opens]
    exact ⟨_, _, _, ⟨offset, rfl, address⟩, rfl, rfl⟩

/-- A mnemonic accepts the operands of its forms and nothing after them. -/
theorem formatOperands_eq_ok_iff :
    Parse.formatOperands op c ts = .ok (inst, []) ↔
      ∃ ps, Listed op.literalBounds ps ts ∧ op.format.Form op.name ps inst := by
  cases format : op.format with
  | registerRegister =>
    simp only [Parse.formatOperands, format, bind_eq_ok_iff, pure_eq_ok_iff, Prod.exists,
      Prod.mk.injEq]
    constructor
    · rintro ⟨rd, left, first, rs1, rs2, _, pair, rfl, rfl⟩
      exact ⟨_, (listed_reg_reg_reg_iff c).mpr ⟨left, first, pair⟩, .r⟩
    · rintro ⟨_, listed, form⟩
      cases form
      obtain ⟨left, first, pair⟩ := (listed_reg_reg_reg_iff c).mp listed
      exact ⟨_, left, first, _, _, _, pair, rfl, rfl⟩
  | registerImmediate =>
    simp only [Parse.formatOperands, format, bind_eq_ok_iff, pure_eq_ok_iff, Prod.exists,
      Prod.mk.injEq]
    constructor
    · rintro ⟨rd, rs1, left, pair, imm, _, value, rfl, rfl⟩
      exact ⟨_, (listed_reg_reg_val_iff c).mpr ⟨left, pair, value⟩, .i⟩
    · rintro ⟨_, listed, form⟩
      cases form
      obtain ⟨left, pair, value⟩ := (listed_reg_reg_val_iff c).mp listed
      exact ⟨_, _, left, pair, _, _, value, rfl, rfl⟩
  | load =>
    rw [Opcode.literalBounds_of_offset (.inl format)]
    simp only [Parse.formatOperands, format, bind_eq_ok_iff, pure_eq_ok_iff, Prod.exists,
      Prod.mk.injEq]
    constructor
    · rintro ⟨rd, left, first, imm, rs1, _, address, rfl, rfl⟩
      obtain ⟨offset, rfl, listed⟩ := (listed_reg_mem_iff c).mpr ⟨left, first, address⟩
      exact ⟨_, listed, .load⟩
    · rintro ⟨_, listed, form⟩
      cases form
      obtain ⟨left, first, address⟩ := (listed_reg_mem_iff c).mp ⟨_, rfl, listed⟩
      exact ⟨_, left, first, _, _, _, address, rfl, rfl⟩
  | store =>
    rw [Opcode.literalBounds_of_offset (.inr (.inl format))]
    simp only [Parse.formatOperands, format, bind_eq_ok_iff, pure_eq_ok_iff, Prod.exists,
      Prod.mk.injEq]
    constructor
    · rintro ⟨rs2, left, first, imm, rs1, _, address, rfl, rfl⟩
      obtain ⟨offset, rfl, listed⟩ := (listed_reg_mem_iff c).mpr ⟨left, first, address⟩
      exact ⟨_, listed, .s⟩
    · rintro ⟨_, listed, form⟩
      cases form
      obtain ⟨left, first, address⟩ := (listed_reg_mem_iff c).mp ⟨_, rfl, listed⟩
      exact ⟨_, left, first, _, _, _, address, rfl, rfl⟩
  | branch =>
    rw [Opcode.literalBounds_of_branch format]
    simp only [Parse.formatOperands, format, bind_eq_ok_iff, pure_eq_ok_iff, Prod.exists,
      Prod.mk.injEq]
    constructor
    · rintro ⟨rs1, rs2, left, pair, imm, _, value, rfl, rfl⟩
      exact ⟨_, (listed_reg_reg_val_iff c).mpr ⟨left, pair, value⟩, .b⟩
    · rintro ⟨_, listed, form⟩
      cases form
      obtain ⟨left, pair, value⟩ := (listed_reg_reg_val_iff c).mp listed
      exact ⟨_, _, left, pair, _, _, value, rfl, rfl⟩
  | jump => exact formatOperands_jump_iff format
  | jumpRegister =>
    constructor
    · exact exists_form_of_jumpRegister format
    · rintro ⟨ps, listed, form⟩
      exact formatOperands_of_jumpRegister format listed form
  | upperImmediate =>
    rw [Opcode.literalBounds_of_upperImmediate format]
    simp only [Parse.formatOperands, format, bind_eq_ok_iff, pure_eq_ok_iff, Prod.exists,
      Prod.mk.injEq]
    constructor
    · rintro ⟨rd, left, first, imm, _, value, rfl, rfl⟩
      exact ⟨_, (listed_reg_val_iff c).mpr ⟨left, first, value⟩, .u⟩
    · rintro ⟨_, listed, form⟩
      cases form
      obtain ⟨left, first, value⟩ := (listed_reg_val_iff c).mp listed
      exact ⟨_, left, first, _, _, value, rfl, rfl⟩

inductive Pseudo.Form : Pseudo → List Phrase → Instruction → Prop
  | nop : Form .nop [] (.i "addi" 0 0 (.num 0))
  | ret : Form .ret [] (.jalr "jalr" 0 1 (.num 0))
  | mv {rd rs : Register} : Form .mv [reg rd, reg rs] (.i "addi" rd rs (.num 0))
  | not {rd rs : Register} : Form .not [reg rd, reg rs] (.i "xori" rd rs (.num (-1)))
  | neg {rd rs : Register} : Form .neg [reg rd, reg rs] (.r "sub" rd 0 rs)
  | j {target : Operand} : Form .j [val target] (.j "jal" 0 target)

theorem Pseudo.expand_eq_ok_iff {p : Pseudo} :
    p.expand c ts = .ok (inst, []) ↔ ∃ ps, Listed .jumpLiteral ps ts ∧ p.Form ps inst := by
  constructor
  · intro read
    cases p with
    | nop | ret =>
      simp only [expand, Except.ok.injEq, Prod.mk.injEq] at read
      obtain ⟨rfl, rfl⟩ := read
      exact ⟨_, .nil, by constructor⟩
    | mv | not | neg =>
      simp only [expand, bind_eq_ok_iff, pure_eq_ok_iff, Prod.exists, Prod.mk.injEq] at read
      obtain ⟨rd, rs, _, pair, rfl, rfl⟩ := read
      exact ⟨_, (listed_reg_reg_iff c).mpr pair, by constructor⟩
    | j =>
      simp only [expand, bind_eq_ok_iff, pure_eq_ok_iff, Prod.exists, Prod.mk.injEq] at read
      obtain ⟨target, _, value, rfl, rfl⟩ := read
      exact ⟨_, (listed_val_iff c).mpr value, .j⟩
  · rintro ⟨_, listed, form⟩
    cases form with
    | nop | ret =>
      obtain rfl := listed_nil_iff.mp listed
      rfl
    | mv | not | neg =>
      simp only [expand, bind_eq_ok_iff, pure_eq_ok_iff, Prod.exists, Prod.mk.injEq]
      exact ⟨_, _, _, (listed_reg_reg_iff c).mp listed, rfl, rfl⟩
    | j =>
      simp only [expand, bind_eq_ok_iff, pure_eq_ok_iff, Prod.exists, Prod.mk.injEq]
      exact ⟨_, _, (listed_val_iff c).mp listed, rfl, rfl⟩

end Forms

end Rv32Asm
