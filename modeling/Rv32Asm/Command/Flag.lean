import Rv32Asm.Text.Bytes
import Rv32Asm.Text.Quoted

/-!
The flags of the command line.

Arguments are read from left to right, and the first fault wins. A flag may stand anywhere, and
`--` ends the flags. Of a flag that is given more than once the last value counts.
-/

set_option autoImplicit false
set_option relaxedAutoImplicit false

namespace Rv32Asm.Command

open Rv32Asm.Text

inductive Verb where
  | assemble
  | languageServer
  | serve
deriving DecidableEq, Repr

inductive Flag where
  | config
  | byteOrder
  | log
  | logEndpoint
  | symbols
  | tcp
  | addr
  | help
deriving DecidableEq, Repr

namespace Flag

def name : Flag → String
  | config => "config"
  | byteOrder => "byte-order"
  | log => "log"
  | logEndpoint => "log-endpoint"
  | symbols => "symbols"
  | tcp => "tcp"
  | addr => "addr"
  | help => "help"

def isSwitch : Flag → Bool
  | log | symbols | help => true
  | _ => false

/-- The value of a flag that is given without one. A flag that has none here takes the next
argument. -/
def implied? (f : Flag) : Option String :=
  if f.isSwitch then some "true"
  else if f = .tcp then some ":2035"
  else none

def shown : Flag → String
  | help => "-h, --help"
  | f => "--" ++ f.name

end Flag

def Verb.flags : Verb → List Flag
  | assemble => [.config, .byteOrder, .log, .logEndpoint, .symbols, .help]
  | languageServer => [.config, .byteOrder, .log, .logEndpoint, .tcp, .help]
  | serve => [.config, .byteOrder, .log, .logEndpoint, .addr, .help]

def Verb.flag? (v : Verb) (name : List Char) : Option Flag :=
  v.flags.find? fun f => f.name.toList = name

inductive UsageFault where
  | badFlag (arg : String)
  | unknownFlag (name : String)
  | unknownShorthand (group : String)
  | needsValue (arg : String)
  | badSwitch (flag : Flag) (value : String)
  | operandCount (received : Nat)
  | tooManyOperands (received : Nat)
  | badOperand (operand : String)
  | unknownCommand (operand : String)
deriving DecidableEq, Repr

def firstByte (s : String) : Char :=
  Char.ofNat ((utf8 s).headD 0).toNat

def UsageFault.message : UsageFault → String
  | badFlag arg => "bad flag syntax: " ++ arg
  | unknownFlag name => "unknown flag: --" ++ name
  | unknownShorthand group =>
    "unknown shorthand flag: " ++ quoteSingle (firstByte group) ++ " in -" ++ group
  | needsValue arg => "flag needs an argument: " ++ arg
  | badSwitch flag value =>
    "invalid argument " ++ quote value ++ " for " ++ quote flag.shown ++
      " flag: strconv.ParseBool: parsing " ++ quote value ++ ": invalid syntax"
  | operandCount received => "accepts 2 arg(s), received " ++ latin (decimal received)
  | tooManyOperands received => "accepts at most 1 arg(s), received " ++ latin (decimal received)
  | badOperand operand => "invalid argument " ++ quote operand ++ " for \"riscv-asm languageServer\""
  | unknownCommand operand => "unknown command " ++ quote operand ++ " for \"riscv-asm serve\""

def switch? (value : String) : Option Bool :=
  if ["1", "t", "T", "TRUE", "true", "True"].contains value then some true
  else if ["0", "f", "F", "FALSE", "false", "False"].contains value then some false
  else none

structure Setting where
  flag : Flag
  value : String
deriving DecidableEq, Repr

def Setting.make (flag : Flag) (value : String) : Except UsageFault Setting :=
  if flag.isSwitch && (switch? value).isNone then .error (.badSwitch flag value)
  else .ok ⟨flag, value⟩

/-- The settings of a group of one-letter flags, of which there is only the one for help. Groups
that start with `test.` are skipped. -/
def shorthands : List Char → Except UsageFault (List Setting)
  | [] => .ok []
  | c :: rest =>
    if "test.".toList.isPrefixOf (c :: rest) then .ok []
    else if c ≠ 'h' then .error (.unknownShorthand (String.ofList (c :: rest)))
    else match rest with
      | '=' :: d :: more => (Setting.make .help (String.ofList (d :: more))).map ([·])
      | _ => do
        let settings ← shorthands rest
        return ⟨.help, "true"⟩ :: settings

structure Arguments where
  settings : List Setting
  operands : List String
deriving DecidableEq, Repr

inductive Reading where
  | stop
  | operand
  | settings (settings : List Setting)
  /-- A flag whose value is the next argument. -/
  | wants (flag : Flag)
deriving DecidableEq, Repr

/-- What a long flag is, given its name and the text after it, which starts with an equals sign if
there is a value. -/
def Verb.readLong (v : Verb) (name value : List Char) : Except UsageFault Reading :=
  match v.flag? name with
  | none => .error (.unknownFlag (String.ofList name))
  | some flag =>
    match value, flag.implied? with
    | _ :: value, _ => (Setting.make flag (String.ofList value)).map fun s => .settings [s]
    | [], some value => .ok (.settings [⟨flag, value⟩])
    | [], none => .ok (.wants flag)

def Verb.readOne (v : Verb) (arg : String) : Except UsageFault Reading :=
  match arg.toList with
  | ['-', '-'] => .ok .stop
  | '-' :: '-' :: body =>
    if body.head? = some '-' ∨ body.head? = some '=' then .error (.badFlag arg)
    else
      let name := body.takeWhile (· ≠ '=')
      v.readLong name (body.drop name.length)
  | '-' :: c :: group => (shorthands (c :: group)).map .settings
  | _ => .ok .operand

def Verb.read (v : Verb) : List String → Except UsageFault Arguments
  | [] => .ok ⟨[], []⟩
  | arg :: rest =>
    match v.readOne arg with
    | .error fault => .error fault
    | .ok .stop => .ok ⟨[], rest⟩
    | .ok .operand => (v.read rest).map fun a => ⟨a.settings, arg :: a.operands⟩
    | .ok (.settings settings) => (v.read rest).map fun a => ⟨settings ++ a.settings, a.operands⟩
    | .ok (.wants flag) =>
      match rest with
      | [] => .error (.needsValue arg)
      | value :: rest => (v.read rest).map fun a => ⟨⟨flag, value⟩ :: a.settings, a.operands⟩

def Arguments.value? (a : Arguments) (flag : Flag) : Option String :=
  (a.settings.reverse.find? fun s => s.flag = flag).map Setting.value

def Arguments.isOn (a : Arguments) (flag : Flag) : Bool :=
  ((a.value? flag).bind switch?).getD false

/-- Whether an argument is a flag whose value is the next argument, as far as that can be told
before the verb is known. -/
def takesNext (v : Verb) (arg : List Char) : Bool :=
  !arg.contains '=' &&
  match arg with
  | '-' :: '-' :: name => ((v.flag? name).bind Flag.implied?).isNone
  | ['-', c] => c.toNat < 0x80
  | _ => false

/-- The first word of a command line that is neither a flag nor a value of one, and the other
arguments. -/
def firstWord? : List String → Option (String × List String)
  | [] => none
  | arg :: rest =>
    if arg = "--" then none
    else if takesNext .assemble arg.toList then
      match rest with
      | value :: next :: more =>
        (firstWord? (next :: more)).map fun (word, others) => (word, arg :: value :: others)
      | _ => none
    else if arg.isEmpty ∨ arg.toList.head? = some '-' then
      (firstWord? rest).map fun (word, others) => (word, arg :: others)
    else some (arg, rest)

def Verb.ofArgs (args : List String) : Verb × List String :=
  match firstWord? args with
  | some ("languageServer", others) => (.languageServer, others)
  | some ("serve", others) => (.serve, others)
  | _ => (.assemble, args)

end Rv32Asm.Command
