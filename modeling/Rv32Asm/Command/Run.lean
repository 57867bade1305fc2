import Rv32Asm.Command.Files
import Rv32Asm.Command.Invocation
import Rv32Asm.Config.Load
import Rv32Asm.Log
import Rv32Asm.Network.Address
import Rv32Asm.Network.Url
import Rv32Asm.Program

/-!
The work of a command line.

`run` decides everything from the arguments and the files that can be read, and says what is to be
written. `execute` writes it to a file set.
-/

set_option autoImplicit false
set_option relaxedAutoImplicit false

namespace Rv32Asm.Command

open Rv32Asm.Network
open Rv32Asm.Text

inductive CommandFault where
  | usage (text : String)
  | unreadableConfig (path : String) (problem : FileProblem)
  | malformedConfig (path : String)
  | refusedConfig (path : String) (fault : ConfigFault)
  | config (fault : ConfigFault)
  | missingInput (path : String)
  | unusableInput (path : String) (problem : FileProblem)
  | unreadableInput (path : String) (problem : FileProblem)
  | assembly (path : String) (fault : AssembleFault)
  | unwritable (path : String) (problem : FileProblem)
  | listen (addr : String) (fault : ListenFault)
deriving Repr

/-- What a problem with reading a file says. A directory can be opened, but not read. -/
def readMessage (path : String) (problem : FileProblem) : String :=
  (if problem = .isDirectory then "read " else "open ") ++ path ++ ": " ++ problem.message

def CommandFault.message : CommandFault → Bytes
  | usage text => utf8 text
  | unreadableConfig path problem => utf8 (readMessage path problem)
  | malformedConfig path => utf8 (path ++ ": malformed configuration")
  | refusedConfig path fault => utf8 (path ++ ": " ++ fault.message)
  | config fault => utf8 fault.message
  | missingInput path => utf8 ("file `" ++ path ++ "` does not exist")
  | unusableInput path problem => utf8 ("stat " ++ path ++ ": " ++ problem.message)
  | unreadableInput path problem =>
    utf8 ("could not read file " ++ path ++ ": " ++ readMessage path problem)
  | assembly path fault => utf8 (path ++ ": ") ++ fault.report
  | unwritable path problem =>
    utf8 ("could not write file " ++ path ++ ": open " ++ path ++ ": " ++ problem.message)
  | listen addr fault => utf8 ("could not bind to address " ++ addr ++ ": " ++ fault.message)

/-- The files as a command sees them: what a path leads to. -/
abbrev Disk := String → Except FileProblem Node

def Disk.read (disk : Disk) (path : String) : Except FileProblem Bytes :=
  match disk path with
  | .ok (.file content) => .ok content
  | .ok .directory => .error .isDirectory
  | .error problem => .error problem

inductive Output where
  | nowhere
  | stdout (program : Program)
  | file (path : String) (program : Program)

def Output.stdoutBytes : Output → Bytes
  | stdout program => program.bytes
  | _ => []

structure Outcome where
  /-- The configuration in force afterwards. -/
  config : Config
  logging : Bool := false
  /-- Where messages are posted to instead of being logged; empty if they are logged. -/
  endpoint : String := ""
  log : List String := []
  stderr : Bytes := []
  output : Output := .nowhere
  fault : Option CommandFault := none

/-- The lines for the log: one for each message, unless messages are posted. -/
def Outcome.logged (o : Outcome) : List String :=
  if o.endpoint.isEmpty then o.log.map logLine else []

/-- The messages that are posted, with the address they go to. None are posted to an endpoint that
is no address. -/
def Outcome.posted (o : Outcome) : List (String × String) :=
  match postTarget? o.endpoint with
  | none => []
  | some url => o.log.map fun message => (url, message)

/-- The configuration of the options: that of the file, or the standard one, with the byte order
that is given. -/
def Options.config (disk : Disk) (o : Options) : Except CommandFault Config := do
  let loaded ←
    if o.configPath.isEmpty then pure Config.standard
    else match disk.read o.configPath with
      | .error problem => throw (.unreadableConfig o.configPath problem)
      | .ok content => match Config.load content with
        | .error .malformed => throw (.malformedConfig o.configPath)
        | .error (.refused fault) => throw (.refusedConfig o.configPath fault)
        | .ok loaded => pure loaded
  let chosen := { loaded with byteOrder := o.byteOrder.getD loaded.byteOrder }
  match chosen.validate with
  | .error fault => throw (.config fault)
  | .ok _ => return chosen

def symbolText (s : Symbol) : String :=
  "  assembler.Symbol\x7b\n    Name:    " ++ quote (latin s.name) ++
  ",\n    Segment: " ++ latin (decimal s.segment.number) ++
  ",\n    Offset:  " ++ latin (decimal s.offset.toNat) ++
  ",\n    Line:    " ++ latin (decimal s.line) ++ ",\n  \x7d,\n"

def symbolDump (t : SymbolTable) : String :=
  match t.symbols with
  | [] => "[]assembler.Symbol\x7b\x7d\n"
  | symbols => "[]assembler.Symbol\x7b\n" ++ String.join (symbols.map symbolText) ++ "\x7d\n"

def assembleInput (disk : Disk) (cfg : Config) (input : String) : Except CommandFault Program :=
  match disk input with
  | .error .notFound => .error (.missingInput input)
  | .error problem => .error (.unusableInput input problem)
  | .ok .directory => .error (.unreadableInput input .isDirectory)
  | .ok (.file source) => (assemble cfg source).mapError (.assembly input)

def assembledMessage (input : String) (p : Program) : String :=
  "assembled " ++ input ++ ": " ++ latin (decimal p.text.length) ++ " text bytes, " ++
    latin (decimal p.data.length) ++ " data bytes"

def Outcome.say (o : Outcome) (message : String) : Outcome :=
  if o.logging then { o with log := o.log ++ [message] } else o

def Outcome.failing (o : Outcome) (addr : String) : Except ListenFault Unit → Outcome
  | .ok _ => o
  | .error fault => { o with fault := some (.listen addr fault) }

def Task.run (disk : Disk) (o : Outcome) : Task → Outcome
  | .assemble input output symbols =>
    match assembleInput disk o.config input with
    | .error fault => { o with fault := some fault }
    | .ok p =>
      { o.say (assembledMessage input p) with
        stderr := if symbols then utf8 (symbolDump p.symbols) else []
        output := if output = "-" then .stdout p else .file output p }
  | .languageServer tcp debug =>
    let o := { o with logging := o.logging || debug }
    if tcp.isEmpty then o else o.failing tcp (checkListen tcp)
  | .serve addr => o.failing addr (checkListen addr)

/-- Does what a command line asks for. `cfg` is the configuration in force before. -/
def Invocation.run (disk : Disk) (cfg : Config) : Invocation → Outcome
  | .help => { config := cfg }
  | .perform options task =>
    let o : Outcome := { config := cfg, logging := options.logging, endpoint := options.logEndpoint }
    match options.config disk with
    | .error fault => { o with fault := some fault }
    | .ok chosen =>
      task.run disk ({ o with config := chosen }.say ("assembler config: " ++ chosen.describe))

namespace Reader

/-- Runs a command line. Nothing changes if it is not understood. -/
def run (reader : Reader) (disk : Disk) (cfg : Config) (args : List String) : Outcome :=
  match reader args with
  | .error text => { config := cfg, fault := some (.usage text) }
  | .ok invocation => invocation.run disk cfg

def execute (reader : Reader) (files : FileSet) (cfg : Config) (args : List String) :
    Outcome × FileSet :=
  let o := reader.run files.node cfg args
  match o.output with
  | .file path program =>
    match files.write path program.bytes with
    | .ok written => (o, written)
    | .error problem => ({ o with fault := some (.unwritable path problem) }, files)
  | _ => (o, files)

end Reader

def execute (files : FileSet) (cfg : Config) (args : List String) : Outcome × FileSet :=
  Reader.standard.execute files cfg args

end Rv32Asm.Command
