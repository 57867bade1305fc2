import Rv32Asm.Program
import Rv32Asm.Proofs.Placement
import Rv32Asm.Proofs.Relocation

/-!
Placing, linking and encoding do not look at positions.

Records that differ in their positions only have the same symbols up to lines, the same numbers in
place of labels, and the same words and bytes.
-/

set_option autoImplicit false
set_option relaxedAutoImplicit false

namespace Rv32Asm

open Rv32Asm.Outcome

def Symbol.move (m : Move) (s : Symbol) : Symbol :=
  { s with line := m.line s.line }

def SymbolTable.move (m : Move) (t : SymbolTable) : SymbolTable :=
  ⟨t.entries.map (Symbol.move m)⟩

def Placement.move (m : Move) (p : Placement) : Placement :=
  { p with table := p.table.move m }

def CodeWord.move (m : Move) (c : CodeWord) : CodeWord :=
  { c with line := m.line c.line }

variable (m : Move)

namespace SymbolTable

theorem find?_move (t : SymbolTable) (name : Bytes) :
    (t.move m).find? name = (t.find? name).map (Symbol.move m) := by
  rw [find?, find?, move, List.find?_map]
  rfl

theorem define_move (t : SymbolTable) (s : Symbol) (span : Span) :
    (t.move m).define (s.move m) (span.move m) =
      both (Fault.move m) (SymbolTable.move m) (t.define s span) := by
  have name : (s.move m).name = s.name := rfl
  simp only [define, find?_move, name]
  cases t.find? s.name <;> rfl

end SymbolTable

theorem Placement.place_move (p : Placement) (r : Record) :
    (p.move m).place (r.move m) = both (Fault.move m) (Placement.move m) (p.place r) := by
  let define (t : SymbolTable) (label : Label) : Except Fault SymbolTable :=
    t.define ⟨label.name, r.segment, p.offset r.segment, label.span.start.line⟩ label.span
  have each (t : SymbolTable) (label : Label) : define (t.move m) (label.move m) =
      both (Fault.move m) (SymbolTable.move m) (define t label) :=
    SymbolTable.define_move m t
      ⟨label.name, r.segment, p.offset r.segment, label.span.start.line⟩ label.span
  refine both_bind (both_foldlM each r.labels p.table) fun table => ?_
  obtain ⟨labels, line, span, statement⟩ := r
  cases statement <;> rfl

theorem SymbolTable.ofRecords_move (rs : List Record) :
    ofRecords (rs.map (Record.move m)) =
      both (Fault.move m) (SymbolTable.move m) (ofRecords rs) := by
  rw [ofRecords_eq, ofRecords_eq]
  exact both_bind (both_foldlM (Placement.place_move m) rs Placement.start) fun _ => rfl

namespace Link

variable (t : SymbolTable) (pc : UInt32) (span : Span)

theorem symbol_move (label : Bytes) :
    symbol (t.move m) label (span.move m) =
      both (Fault.move m) (Symbol.move m) (symbol t label span) := by
  rw [symbol, symbol, SymbolTable.find?_move]
  cases t.find? label <;> rfl

theorem distance_move (bounds : Bounds) (bits : Nat) (label : Bytes) (s : Symbol) :
    distance bounds bits label (s.move m) pc (span.move m) =
      both (Fault.move m) id (distance bounds bits label s pc span) := by
  have segment : (s.move m).segment = s.segment := rfl
  have offset : (s.move m).offset = s.offset := rfl
  simp only [distance]
  rw [segment, offset]
  split
  · rfl
  · split <;> rfl

theorem labelValue_move (format : Format) (label : Bytes) :
    labelValue (t.move m) pc (span.move m) format label =
      both (Fault.move m) id (labelValue t pc span format label) := by
  refine both_bind (symbol_move m t span label) fun s => ?_
  cases format with
  | branch => exact distance_move m pc span .branchLabel 13 label s
  | jump => exact distance_move m pc span .jumpLabel 21 label s
  | upperImmediate =>
    exact both_bind (Bounds.check_move m .upperLabel s.offset.toNat label span) fun _ => rfl
  | registerRegister | registerImmediate | load | store | jumpRegister =>
    exact both_bind (Bounds.check_move m .absoluteLabel s.offset.toNat label span) fun _ => rfl

theorem instruction_move (inst : Instruction) :
    instruction (t.move m) pc (span.move m) inst =
      both (Fault.move m) id (instruction t pc span inst) := by
  simp only [instruction]
  split
  · rename_i label _
    exact both_bind (labelValue_move m t pc span inst.format label) fun _ => rfl
  · rfl

theorem item_move (size : Int) (item : Operand) :
    Link.item (t.move m) size (span.move m) item =
      both (Fault.move m) id (Link.item t size span item) := by
  cases item with
  | num v => rfl
  | ref label =>
    refine both_bind (symbol_move m t span label) fun s => ?_
    exact both_bind (Bounds.check_move m (.data size) s.offset.toNat _ span) fun _ => rfl

theorem directive_move (d : Directive) :
    directive (t.move m) (span.move m) d =
      both (Fault.move m) id (directive t span d) := by
  simp only [directive]
  split
  · rfl
  · rename_i items _
    have each := both_mapM (g := id) (h := id) (item_move m t span d.size) items
    rw [List.map_id] at each
    exact both_bind each fun items => by rw [List.map_id]; rfl

theorem statement_move (stmt : Statement) :
    statement (t.move m) pc (span.move m) stmt =
      both (Fault.move m) id (statement t pc span stmt) := by
  cases stmt with
  | inst i => exact both_bind (instruction_move m t pc span i) fun _ => rfl
  | data d => exact both_bind (directive_move m t span d) fun _ => rfl

theorem recordsFrom_move (rs : List Record) (done : List Record) :
    recordsFrom (t.move m) (done.map (Record.move m)) pc (rs.map (Record.move m)) =
      both (Fault.move m) (List.map (Record.move m)) (recordsFrom t done pc rs) := by
  induction rs generalizing done pc with
  | nil => simp [recordsFrom]
  | cons r rs ih =>
    have moved : statement (t.move m) pc (r.move m).span (r.move m).statement = _ :=
      statement_move m t pc r.span r.statement
    rw [List.map_cons, recordsFrom, recordsFrom, moved]
    cases statement t pc r.span r.statement with
    | error fault => rfl
    | ok stmt => exact ih (nextPc pc r.statement) ({ r with statement := stmt } :: done)

end Link

theorem link_move (t : SymbolTable) (rs : List Record) :
    link (t.move m) (rs.map (Record.move m)) =
      both (Fault.move m) (List.map (Record.move m)) (link t rs) :=
  Link.recordsFrom_move m t 0 rs []

def AssembleFault.move (m : Move) : AssembleFault → AssembleFault
  | .source fault => .source (fault.move m)
  | fault => fault

theorem codeFrom_move (rs : List Record) (done : List CodeWord) (n : Nat) :
    codeFrom (done.map (CodeWord.move m)) n (rs.map (Record.move m)) =
      both id (List.map (CodeWord.move m)) (codeFrom done n rs) := by
  induction rs generalizing done n with
  | nil => simp [codeFrom]
  | cons r rs ih =>
    have same : (r.move m).statement = r.statement := rfl
    rw [List.map_cons, codeFrom, codeFrom, same]
    cases r.statement with
    | data d => exact ih done n
    | inst i =>
      simp only
      cases i.encode with
      | error fault => rfl
      | ok w => exact ih (⟨UInt32.ofNat (4 * n), w, r.line⟩ :: done) (n + 1)

/-- A program without its source text, with its lines and columns moved. -/
def Program.outline (m : Move) (p : Program) : Program :=
  { p with
    source := #[]
    symbols := p.symbols.move m
    records := p.records.map (Record.move m)
    code := p.code.map (CodeWord.move m) }

section Alike

variable {m₁ m₂ : Move}

private theorem both_source_congr {α β γ : Type} {f : α → γ} {g : β → γ} {x : Except Fault α}
    {y : Except Fault β} (same : both (Fault.move m₁) f x = both (Fault.move m₂) g y) :
    both (AssembleFault.move m₁) f (x.mapError .source) =
      both (AssembleFault.move m₂) g (y.mapError .source) := by
  have wrapped (m : Move) (fault : Fault) :
      AssembleFault.move m (.source fault) = .source (fault.move m) := rfl
  rw [both_mapError (wrapped m₁), same, ← both_mapError (wrapped m₂)]

theorem assemble_of_parse_alike (cfg : Config) {source source' : Bytes}
    (parsed : both (Fault.move m₁) (List.map (Record.move m₁)) (parse cfg source) =
      both (Fault.move m₂) (List.map (Record.move m₂)) (parse cfg source')) :
    both (AssembleFault.move m₁) (Program.outline m₁) (assemble cfg source) =
      both (AssembleFault.move m₂) (Program.outline m₂) (assemble cfg source') := by
  have valid : both (AssembleFault.move m₁) id (cfg.validate.mapError .config) =
      both (AssembleFault.move m₂) id (cfg.validate.mapError .config) := by
    cases cfg.validate <;> rfl
  refine both_bind_congr valid fun _ _ _ => ?_
  refine both_bind_congr (both_source_congr parsed) fun us vs same => ?_
  have tables := SymbolTable.ofRecords_move m₁ us
  rw [same, SymbolTable.ofRecords_move m₂ vs] at tables
  refine both_bind_congr (both_source_congr tables.symm) fun table table' sameTable => ?_
  have linked := link_move m₁ table us
  rw [same, sameTable, link_move m₂ table' vs] at linked
  refine both_bind_congr (both_source_congr linked.symm) fun rs rs' sameRecords => ?_
  have coded : both id (List.map (CodeWord.move m₁)) (codeFrom [] 0 rs) =
      both id (List.map (CodeWord.move m₂)) (codeFrom [] 0 rs') := by
    rw [← codeFrom_move m₁ rs [] 0, ← codeFrom_move m₂ rs' [] 0, sameRecords]
    rfl
  have encoded : both (AssembleFault.move m₁) (List.map (CodeWord.move m₁))
      ((codeFrom [] 0 rs).mapError .encode) =
        both (AssembleFault.move m₂) (List.map (CodeWord.move m₂))
          ((codeFrom [] 0 rs').mapError .encode) := by
    have wrapped (m : Move) (fault : EncodeFault) :
        AssembleFault.move m (.encode fault) = .encode (id fault) := rfl
    rw [both_mapError (wrapped m₁), coded, ← both_mapError (wrapped m₂)]
  refine both_bind_congr encoded fun code code' sameCode => ?_
  have bytes (m : Move) (rs : List Record) :
      (rs.flatMap fun r => r.statement.dataBytes cfg.order) =
        (rs.map (Record.move m)).flatMap fun r => r.statement.dataBytes cfg.order := by
    rw [List.flatMap_map]
    rfl
  simp only [both_pure, Program.outline, sameTable, sameRecords, sameCode]
  rw [bytes m₁ rs, sameRecords, ← bytes m₂ rs']

/-- Sources that are alike line by line assemble alike. -/
theorem assemble_alike (cfg : Config) {source source' : Bytes}
    (alike : List.Forall₂ (Parse.Alike m₁ m₂) (Text.lines source).zipIdx
      (Text.lines source').zipIdx) :
    both (AssembleFault.move m₁) (Program.outline m₁) (assemble cfg source) =
      both (AssembleFault.move m₂) (Program.outline m₂) (assemble cfg source') :=
  assemble_of_parse_alike cfg (Parse.records_alike cfg alike)

end Alike

end Rv32Asm
