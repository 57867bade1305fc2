import Rv32Asm.Program
import Rv32Asm.Proofs.Outcome

/-!
The stages of assembly after parsing.

`build` places, links and emits records. A configuration is seen in the last stage only: the words
are the same under every configuration, and the data differ in the order of their bytes.
-/

set_option autoImplicit false
set_option relaxedAutoImplicit false

namespace Rv32Asm

open Rv32Asm.Outcome

def emit (cfg : Config) (source : Bytes) (table : SymbolTable) (rs : List Record) :
    Except EncodeFault Program := do
  let code ← codeFrom [] 0 rs
  return {
    config := cfg
    source := (Text.lines source).toArray
    symbols := table
    records := rs
    code := code
    data := rs.flatMap fun r => r.statement.dataBytes cfg.order }

def build (cfg : Config) (source : Bytes) (us : List Record) : Except AssembleFault Program := do
  let table ← (SymbolTable.ofRecords us).mapError .source
  let rs ← (link table us).mapError .source
  (emit cfg source table rs).mapError .encode

theorem assemble_eq (cfg : Config) (source : Bytes) :
    assemble cfg source = (do
      cfg.validate.mapError .config
      let us ← (parse cfg source).mapError .source
      build cfg source us) := by
  simp only [build, emit, mapError_bind]
  rfl

/-- A program with the data that its records have under another configuration. -/
def Program.under (cfg : Config) (p : Program) : Program :=
  { p with
    config := cfg
    data := p.records.flatMap fun r => r.statement.dataBytes cfg.order }

theorem emit_under (cfg cfg' : Config) (source : Bytes) (table : SymbolTable) (rs : List Record) :
    emit cfg' source table rs = (emit cfg source table rs).map (Program.under cfg') := by
  unfold emit
  cases codeFrom [] 0 rs <;> rfl

theorem build_under (cfg cfg' : Config) (source : Bytes) (us : List Record) :
    build cfg' source us = (build cfg source us).map (Program.under cfg') := by
  simp only [build, map_bind, emit_under cfg cfg', mapError_map]

/-- Configurations that read a source alike give programs that differ in their data only. -/
theorem assemble_under {cfg cfg' : Config} {source : Bytes} (valid : cfg.validate = .ok ())
    (valid' : cfg'.validate = .ok ()) (same : parse cfg' source = parse cfg source) :
    assemble cfg' source = (assemble cfg source).map (Program.under cfg') := by
  simp only [assemble_eq, valid, valid', same, map_bind, build_under cfg cfg']

end Rv32Asm
