import Rv32Asm.Command.Run
import Rv32Asm.Proofs.ConfigDocuments
import Rv32Asm.Proofs.FilePlaces

/-!
What a command line leaves behind.

A command line that fails leaves the files and the standard output alone. One that assembles a
file fails only if its options cannot be applied, its input cannot be assembled or its output has
no place, and otherwise delivers the whole program: to the standard output, or to one file while
every other place stays as it was. The configuration is the standard one or that of the file, and
a byte order on the command line replaces the one it has. All of this holds for any reader of
command lines, and so for any spelling of the flags.
-/

set_option autoImplicit false
set_option relaxedAutoImplicit false

namespace Rv32Asm.Command

open Rv32Asm.Outcome
open Rv32Asm.Text

section Configuration

variable {files : FileSet} {options : Options} {c : Config} {input : String} {p : Program}

def ordered (c : Config) : Option String → Config
  | none => c
  | some given => { c with byteOrder := given }

/-- The configuration that options ask for: the standard one or the one that a file describes,
under the byte order of the options. -/
inductive Options.Asks (files : FileSet) (options : Options) : Config → Prop where
  | standard (unnamed : options.configPath = "") :
      Asks files options (ordered ⟨"big", some ["m"]⟩ options.byteOrder)
  | loaded {content : Bytes} {c : Config} (named : options.configPath ≠ "")
      (held : files.Holds options.configPath content) (described : Config.Described content c) :
      Asks files options (ordered c options.byteOrder)

def Options.Applies (files : FileSet) (options : Options) (c : Config) : Prop :=
  options.Asks files c ∧ c.Valid

def Assembles (files : FileSet) (c : Config) (input : String) (p : Program) : Prop :=
  ∃ source, files.Holds input source ∧ assemble c source = .ok p

theorem read_eq_ok_iff {path : String} {content : Bytes} :
    Disk.read files.node path = .ok content ↔ files.Holds path content := by
  rw [← FileSet.node_eq_file_iff]
  unfold Disk.read
  split <;> simp_all

theorem ordered_eq_getD (c : Config) (given : Option String) :
    ordered c given = { c with byteOrder := given.getD c.byteOrder } := by
  cases given <;> rfl

theorem Options.Asks.config_eq (asks : options.Asks files c) :
    options.config files.node = (c.validate.mapError CommandFault.config).map fun _ => c := by
  cases asks with
  | standard unnamed =>
    rw [ordered_eq_getD, Options.config, if_pos (by simp [unnamed]), Config.standard]
    simp only [pure_bind]
    cases Config.validate _ <;> rfl
  | loaded named held described =>
    rw [ordered_eq_getD, Options.config, if_neg (by simpa using named), read_eq_ok_iff.mpr held]
    simp only [Config.load_eq_ok_iff.mpr described, pure_bind]
    cases Config.validate _ <;> rfl

theorem Options.exists_asks_of_config (chosen : options.config files.node = .ok c) :
    ∃ asked, options.Asks files asked := by
  by_cases unnamed : options.configPath = ""
  · exact ⟨_, .standard unnamed⟩
  cases read : Disk.read files.node options.configPath with
  | error problem => simp [Options.config, unnamed, read, throw_bind, throw_ne_ok] at chosen
  | ok content =>
    cases load : Config.load content with
    | error fault =>
      cases fault <;>
        simp [Options.config, unnamed, read, load, throw_bind, throw_ne_ok] at chosen
    | ok loaded =>
      exact ⟨_, .loaded unnamed (read_eq_ok_iff.mp read) (Config.load_eq_ok_iff.mp load)⟩

theorem Options.config_eq_ok_iff :
    options.config files.node = .ok c ↔ options.Applies files c := by
  constructor
  · intro chosen
    obtain ⟨asked, asks⟩ := exists_asks_of_config chosen
    rw [asks.config_eq, map_eq_ok_iff] at chosen
    obtain ⟨_, valid, rfl⟩ := chosen
    exact ⟨asks, Config.validate_eq_ok_iff_valid.mp (mapError_eq_ok_iff.mp valid)⟩
  · rintro ⟨asks, valid⟩
    rw [asks.config_eq, Config.validate_eq_ok_iff_valid.mpr valid]
    rfl

theorem assembleInput_eq_ok_iff :
    assembleInput files.node c input = .ok p ↔ Assembles files c input p := by
  unfold assembleInput Assembles
  simp only [← FileSet.node_eq_file_iff]
  split <;> simp_all [mapError_eq_ok_iff]

end Configuration

section Run

variable {reader : Reader} {disk : Disk} {o : Outcome}

@[simp]
theorem Outcome.config_say (message : String) : (o.say message).config = o.config := by
  unfold Outcome.say
  split <;> rfl

@[simp]
theorem Outcome.fault_say (message : String) : (o.say message).fault = o.fault := by
  unfold Outcome.say
  split <;> rfl

@[simp]
theorem Outcome.output_say (message : String) : (o.say message).output = o.output := by
  unfold Outcome.say
  split <;> rfl

@[simp]
theorem Outcome.output_failing (addr : String) (checked : Except Network.ListenFault Unit) :
    (o.failing addr checked).output = o.output := by
  cases checked <;> rfl

theorem Task.output_of_fault (task : Task) (idle : o.output = .nowhere) (sound : o.fault = none)
    (failed : (task.run disk o).fault ≠ none) : (task.run disk o).output = .nowhere := by
  cases task with
  | assemble input output symbols =>
    cases made : assembleInput disk o.config input with
    | error fault => simpa [Task.run, made] using idle
    | ok p => simp [Task.run, made, sound] at failed
  | languageServer tcp debug =>
    by_cases silent : tcp.isEmpty = true <;> simpa [Task.run, silent] using idle
  | serve addr => simpa [Task.run] using idle

theorem output_of_fault {cfg : Config} {args : List String}
    (failed : (reader.run disk cfg args).fault ≠ none) :
    (reader.run disk cfg args).output = .nowhere := by
  revert failed
  unfold Reader.run
  cases reader args with
  | error fault => exact fun _ => rfl
  | ok invocation =>
    cases invocation with
    | help => exact fun _ => rfl
    | perform options task =>
      dsimp only [Invocation.run]
      cases options.config disk with
      | error fault => exact fun _ => rfl
      | ok chosen => exact task.output_of_fault (by simp) (by simp)

section Assemble

variable (cfg : Config) {args : List String} {options : Options} {input output : String}
  {symbols : Bool}
  (understood : reader args = .ok (.perform options (.assemble input output symbols)))
include understood

theorem run_of_config_error {fault : CommandFault} (refused : options.config disk = .error fault) :
    (reader.run disk cfg args).fault = some fault ∧ (reader.run disk cfg args).config = cfg := by
  simp [Reader.run, understood, Invocation.run, refused]

theorem config_run {c : Config} (chosen : options.config disk = .ok c) :
    (reader.run disk cfg args).config = c := by
  cases made : assembleInput disk c input <;>
    simp [Reader.run, understood, Invocation.run, chosen, Task.run, made]

theorem run_of_input_error {c : Config} {fault : CommandFault}
    (chosen : options.config disk = .ok c) (unmade : assembleInput disk c input = .error fault) :
    (reader.run disk cfg args).fault = some fault := by
  simp [Reader.run, understood, Invocation.run, chosen, Task.run, unmade]

theorem run_of_program {c : Config} {p : Program}
    (chosen : options.config disk = .ok c) (made : assembleInput disk c input = .ok p) :
    (reader.run disk cfg args).fault = none ∧
      (reader.run disk cfg args).output = if output = "-" then .stdout p else .file output p := by
  simp [Reader.run, understood, Invocation.run, chosen, Task.run, made]

end Assemble

end Run

section Execute

variable {reader : Reader} {files : FileSet} {cfg : Config} {args : List String}
  {options : Options} {input output : String} {symbols : Bool}

/-- A result that is a fault, with nothing written anywhere. -/
structure Failed (files : FileSet) (result : Outcome × FileSet) : Prop where
  fault : result.1.fault ≠ none
  silent : result.1.output.stdoutBytes = []
  kept : result.2 = files

theorem execute_of_written {path : String} {p : Program} {written : FileSet}
    (given : (reader.run files.node cfg args).output = .file path p)
    (wrote : files.write path p.bytes = .ok written) :
    reader.execute files cfg args = (reader.run files.node cfg args, written) := by
  simp [Reader.execute, given, wrote]

theorem failed_of_unwritten {path : String} {p : Program} {problem : FileProblem}
    (given : (reader.run files.node cfg args).output = .file path p)
    (refused : files.write path p.bytes = .error problem) :
    Failed files (reader.execute files cfg args) := by
  have executed : reader.execute files cfg args =
      ({ reader.run files.node cfg args with
          fault := some (.unwritable path problem) }, files) := by
    simp [Reader.execute, given, refused]
  rw [executed]
  exact ⟨by simp, by simp [given, Output.stdoutBytes], rfl⟩

theorem execute_of_not_file
    (given : ∀ path p, (reader.run files.node cfg args).output ≠ .file path p) :
    reader.execute files cfg args = (reader.run files.node cfg args, files) := by
  unfold Reader.execute
  dsimp only
  split
  case h_1 path p same => exact absurd same (given path p)
  case h_2 => rfl

theorem config_execute :
    (reader.execute files cfg args).1.config = (reader.run files.node cfg args).config := by
  unfold Reader.execute
  dsimp only
  repeat' split
  all_goals rfl

theorem failed_of_run_fault (failed : (reader.run files.node cfg args).fault ≠ none) :
    Failed files (reader.execute files cfg args) := by
  have idle := output_of_fault failed
  rw [execute_of_not_file (by simp [idle])]
  exact ⟨failed, by rw [idle]; rfl, rfl⟩

/-- A command line that fails, in whatever way, leaves everything alone. -/
theorem failed_of_fault (failed : (reader.execute files cfg args).1.fault ≠ none) :
    Failed files (reader.execute files cfg args) := by
  by_cases early : (reader.run files.node cfg args).fault = none
  · cases given : (reader.run files.node cfg args).output with
    | file path p =>
      cases wrote : files.write path p.bytes with
      | ok written => simp [execute_of_written given wrote, early] at failed
      | error problem => exact failed_of_unwritten given wrote
    | nowhere => simp [execute_of_not_file, given, early] at failed
    | stdout p => simp [execute_of_not_file, given, early] at failed
  · exact failed_of_run_fault early

/-- What comes of assembling `input` into `output` under some options, when `cfg` is the
configuration before. -/
structure Delivery (files : FileSet) (cfg : Config) (options : Options) (input output : String)
    (result : Outcome × FileSet) : Prop where
  refused : (¬∃ c, options.Applies files c) → Failed files result ∧ result.1.config = cfg
  applied : ∀ c, options.Applies files c → result.1.config = c
  failed : ∀ c, options.Applies files c → (¬∃ p, Assembles files c input p) → Failed files result
  printed : ∀ c p, options.Applies files c → Assembles files c input p → output = "-" →
    result.1.fault = none ∧ result.1.output.stdoutBytes = p.text ++ p.data ∧ result.2 = files
  written : ∀ c p place, options.Applies files c → Assembles files c input p → output ≠ "-" →
    files.Leads output place → files.find? place ≠ some .directory →
    result.1.fault = none ∧ result.1.output.stdoutBytes = [] ∧
      result.2.Holds output (p.text ++ p.data) ∧
      result.2.find? place = some (.file (p.text ++ p.data)) ∧
      ∀ other, other ≠ place → result.2.find? other = files.find? other
  unwritable : ∀ c p, options.Applies files c → Assembles files c input p → output ≠ "-" →
    (¬∃ place, files.Leads output place ∧ files.find? place ≠ some .directory) →
    Failed files result

theorem run_of_assembles (cfg : Config) {c : Config} {p : Program}
    (understood : reader args = .ok (.perform options (.assemble input output symbols)))
    (applies : options.Applies files c) (made : Assembles files c input p) :
    (reader.run files.node cfg args).fault = none ∧
      (reader.run files.node cfg args).output =
        if output = "-" then .stdout p else .file output p :=
  run_of_program cfg understood (Options.config_eq_ok_iff.mpr applies)
    (assembleInput_eq_ok_iff.mpr made)

theorem delivery_of_understood
    (understood : reader args = .ok (.perform options (.assemble input output symbols))) :
    Delivery files cfg options input output (reader.execute files cfg args) where
  refused := by
    intro inapplicable
    cases chosen : options.config files.node with
    | ok c => exact absurd ⟨c, Options.config_eq_ok_iff.mp chosen⟩ inapplicable
    | error fault =>
      obtain ⟨failed, config⟩ := run_of_config_error cfg understood chosen
      refine ⟨failed_of_run_fault ?_, config_execute.trans config⟩
      simp [failed]
  applied := by
    intro c applies
    exact config_execute.trans (config_run cfg understood (Options.config_eq_ok_iff.mpr applies))
  failed := by
    intro c applies unmade
    cases made : assembleInput files.node c input with
    | ok p => exact absurd ⟨p, assembleInput_eq_ok_iff.mp made⟩ unmade
    | error fault =>
      have failed := run_of_input_error cfg understood (Options.config_eq_ok_iff.mpr applies) made
      refine failed_of_run_fault ?_
      simp [failed]
  printed := by
    intro c p applies made dash
    obtain ⟨sound, given⟩ := run_of_assembles cfg understood applies made
    rw [if_pos dash] at given
    rw [execute_of_not_file (by simp [given])]
    exact ⟨sound, by rw [given]; rfl, rfl⟩
  written := by
    intro c p place applies made named leads free
    obtain ⟨sound, given⟩ := run_of_assembles cfg understood applies made
    rw [if_neg named] at given
    have wrote : files.write output p.bytes = .ok (files.insert place (.file p.bytes)) :=
      FileSet.write_eq_ok_iff.mpr ⟨place, leads, free, rfl⟩
    rw [execute_of_written given wrote]
    exact ⟨sound, by rw [given]; rfl, FileSet.find?_write leads free⟩
  unwritable := by
    intro c p applies made named unplaced
    obtain ⟨-, given⟩ := run_of_assembles cfg understood applies made
    rw [if_neg named] at given
    cases wrote : files.write output p.bytes with
    | ok written =>
      obtain ⟨place, leads, free, -⟩ := FileSet.write_eq_ok_iff.mp wrote
      exact absurd ⟨place, leads, free⟩ unplaced
    | error problem => exact failed_of_unwritten given wrote

/-- The assembled bytes or nothing, whatever reads the command line: one that fails leaves
everything alone, and one that is read as assembling a file delivers its program. -/
theorem execute_delivers (reader : Reader) (files : FileSet) (cfg : Config) (args : List String) :
    ((reader.execute files cfg args).1.fault ≠ none →
      Failed files (reader.execute files cfg args)) ∧
    ∀ options input output symbols,
      reader args = .ok (.perform options (.assemble input output symbols)) →
        Delivery files cfg options input output (reader.execute files cfg args) := by
  constructor
  · exact failed_of_fault
  · intro options input output symbols understood
    exact delivery_of_understood understood

end Execute

def layeredFiles : FileSet where
  here := ["home", "work"]
  entries :=
    [(["etc"], .directory), (["etc", "c"], .file (utf8 "\x7b\"byteOrder\":\"little\"\x7d")),
     (["home"], .directory), (["home", "out"], .directory), (["home", "out", "o"], .file [7]),
     (["home", "work"], .directory),
     (["home", "work", "s"], .file (utf8 "mul a0, a1, a2\n.half 1"))]

theorem holds_layeredFiles :
    layeredFiles.Holds "/etc/c" (utf8 "\x7b\"byteOrder\":\"little\"\x7d") ∧
      layeredFiles.Holds "./s" (utf8 "mul a0, a1, a2\n.half 1") ∧
      layeredFiles.Leads "../out/o" ["home", "out", "o"] ∧
      layeredFiles.Leads "/home/out/o" ["home", "out", "o"] := by
  simp only [FileSet.Holds, FileSet.leads_iff_walk]
  refine ⟨⟨["etc", "c"], ⟨⟨true, ["etc"], "c", false⟩, ["etc"], ?_⟩, by decide +kernel⟩,
    ⟨["home", "work", "s"], ⟨⟨false, ["."], "s", false⟩, ["home", "work"], ?_⟩, by decide +kernel⟩,
    ⟨⟨false, ["..", "out"], "o", false⟩, ["home", "out"], ?_⟩,
    ⟨⟨true, ["home", "out"], "o", false⟩, ["home", "out"], ?_⟩⟩ <;> decide +kernel

/-- The configuration of the file is used, and what it leaves out is kept. A byte order on the
command line wins over that of the file. The old output goes, and nothing else. -/
theorem execute_delivers_layeredFiles :
    let plain := Reader.standard.execute layeredFiles .standard
      ["--config", "/etc/c", "./s", "../out/o"]
    let given := Reader.standard.execute layeredFiles .standard
      ["./s", "/home/out/o", "--byte-order=big", "--config", "/etc/c"]
    (plain.1.fault = none ∧ plain.1.config = ⟨"little", some ["m"]⟩ ∧
      plain.2.Holds "../out/o" [0x33, 0x85, 0xc5, 0x02, 1, 0] ∧
      ∀ other, other ≠ ["home", "out", "o"] → plain.2.find? other = layeredFiles.find? other) ∧
    given.1.fault = none ∧ given.1.config = ⟨"big", some ["m"]⟩ ∧
      given.2.Holds "/home/out/o" [0x02, 0xc5, 0x85, 0x33, 0, 1] := by
  obtain ⟨config, input, relative, absolute⟩ := holds_layeredFiles
  have described : Config.Described (utf8 "\x7b\"byteOrder\":\"little\"\x7d")
      ⟨"little", some ["m"]⟩ := Config.load_eq_ok_iff.mp (by decide +kernel)
  have free : layeredFiles.find? ["home", "out", "o"] ≠ some .directory := by decide +kernel
  have assembled (order : String) (bytes : Bytes)
      (made : (assemble ⟨order, some ["m"]⟩ (utf8 "mul a0, a1, a2\n.half 1")).map Program.bytes =
        .ok bytes) : ∃ p, Assembles layeredFiles ⟨order, some ["m"]⟩ "./s" p ∧ p.bytes = bytes := by
    obtain ⟨p, made, bytes⟩ := map_eq_ok_iff.mp made
    exact ⟨p, ⟨_, input, made⟩, bytes⟩
  constructor
  · have delivers := (execute_delivers Reader.standard layeredFiles .standard
      ["--config", "/etc/c", "./s", "../out/o"]).2 ⟨"/etc/c", none, false, ""⟩ "./s" "../out/o"
      false (by decide +kernel)
    have applies : Options.Applies layeredFiles ⟨"/etc/c", none, false, ""⟩
        ⟨"little", some ["m"]⟩ :=
      ⟨.loaded (by decide) config described, Config.validate_eq_ok_iff_valid.mp (by decide +kernel)⟩
    obtain ⟨p, made, bytes⟩ := assembled "little" [0x33, 0x85, 0xc5, 0x02, 1, 0] (by decide +kernel)
    obtain ⟨sound, -, holds, -, others⟩ :=
      delivers.written _ p _ applies made (by decide) relative free
    exact ⟨sound, delivers.applied _ applies, bytes ▸ holds, others⟩
  · have delivers := (execute_delivers Reader.standard layeredFiles .standard
      ["./s", "/home/out/o", "--byte-order=big", "--config", "/etc/c"]).2
      ⟨"/etc/c", some "big", false, ""⟩ "./s" "/home/out/o" false (by decide +kernel)
    have applies : Options.Applies layeredFiles ⟨"/etc/c", some "big", false, ""⟩
        ⟨"big", some ["m"]⟩ :=
      ⟨.loaded (by decide) config described, Config.validate_eq_ok_iff_valid.mp (by decide +kernel)⟩
    obtain ⟨p, made, bytes⟩ := assembled "big" [0x02, 0xc5, 0x85, 0x33, 0, 1] (by decide +kernel)
    obtain ⟨sound, -, holds, -, -⟩ := delivers.written _ p _ applies made (by decide) absolute free
    exact ⟨sound, delivers.applied _ applies, bytes ▸ holds⟩

end Rv32Asm.Command
