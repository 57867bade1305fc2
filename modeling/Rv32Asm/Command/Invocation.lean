import Rv32Asm.Command.Flag

/-!
What a command line asks for.
-/

set_option autoImplicit false
set_option relaxedAutoImplicit false

namespace Rv32Asm.Command

structure Options where
  /-- The configuration file; empty if there is none. -/
  configPath : String
  byteOrder : Option String
  log : Bool
  /-- Where log messages are posted to; empty if they are not. -/
  logEndpoint : String
deriving DecidableEq, Repr

/-- Messages are logged if either flag asks for it. -/
def Options.logging (o : Options) : Bool :=
  o.log || !o.logEndpoint.isEmpty

inductive Task where
  | assemble (input output : String) (symbols : Bool)
  /-- Talks to an editor: over the standard streams if `tcp` is empty. -/
  | languageServer (tcp : String) (debug : Bool)
  | serve (addr : String)
deriving DecidableEq, Repr

inductive Invocation where
  /-- Shows a text about the program, or a script that completes its command lines. -/
  | help
  | perform (options : Options) (task : Task)
deriving DecidableEq, Repr

def Options.ofArguments (a : Arguments) : Options where
  configPath := (a.value? .config).getD ""
  byteOrder := a.value? .byteOrder
  log := a.isOn .log
  logEndpoint := (a.value? .logEndpoint).getD ""

def Task.ofArguments (v : Verb) (a : Arguments) : Except UsageFault Task :=
  match v, a.operands with
  | .assemble, [input, output] => .ok (.assemble input output (a.isOn .symbols))
  | .assemble, operands => .error (.operandCount operands.length)
  | .languageServer, [] => .ok (.languageServer ((a.value? .tcp).getD "") false)
  | .languageServer, [operand] =>
    if operand = "debug" then .ok (.languageServer ((a.value? .tcp).getD "") true)
    else .error (.badOperand operand)
  | .languageServer, operands => .error (.tooManyOperands operands.length)
  | .serve, [] => .ok (.serve ((a.value? .addr).getD ":2035"))
  | .serve, operand :: _ => .error (.unknownCommand operand)

def helpWords : List String := ["help", "completion"]

/-- Understands a command line: the verb is found first, then its flags are read, then its operands
are checked. A call for help needs no operands. -/
def Invocation.ofArgs (args : List String) : Except UsageFault Invocation := do
  if (firstWord? args).any fun (word, _) => helpWords.contains word then return .help
  let (verb, others) := Verb.ofArgs args
  let arguments ← verb.read others
  if arguments.isOn .help then return .help
  let task ← Task.ofArguments verb arguments
  return .perform (.ofArguments arguments) task

/-- A reader of command lines, with the text of its fault if it does not understand one. What the
program does with an invocation does not depend on how the flags are spelled. -/
abbrev Reader := List String → Except String Invocation

def Reader.standard : Reader := fun args =>
  (Invocation.ofArgs args).mapError UsageFault.message

example : (Invocation.ofArgs ["--log", "a.s", "-"]).toOption =
    some (.perform ⟨"", none, true, ""⟩ (.assemble "a.s" "-" false)) := by decide +kernel

end Rv32Asm.Command
