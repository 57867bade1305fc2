import Rv32Asm.Command.Run
import Rv32Asm.Editor.Frame
import Rv32Asm.Editor.Session
import Rv32Asm.Json.Parse
import Rv32Asm.Listing

/-!
The command line program. Here files are read and written and messages travel; what they say is
decided by `Rv32Asm.Command.Invocation.run` and `Rv32Asm.Editor.Session.step`.
-/

set_option autoImplicit false
set_option relaxedAutoImplicit false

namespace Rv32Asm.Main

open Rv32Asm.Command
open Rv32Asm.Editor
open Rv32Asm.Text

def usage : String :=
  "Usage:\n" ++
  "  riscv-asm <input-file> <output-file>\n" ++
  "  riscv-asm languageServer [debug]\n" ++
  "  riscv-asm serve\n\n" ++
  "Flags:\n" ++
  "  --config FILE         JSON assembler config file\n" ++
  "  --byte-order ORDER    byte order of emitted words, \"big\" or \"little\"\n" ++
  "  --log                 enable debug logging to stderr\n" ++
  "  --log-endpoint URL    POST debug log messages to this URL instead of stderr\n" ++
  "  --symbols             dump the symbol table to stderr\n" ++
  "  --tcp[=ADDR]          listen for TCP connections on this address (languageServer)\n" ++
  "  --addr ADDR           address to listen on (serve)\n"

def problemOf : IO.Error → FileProblem
  | .noFileOrDirectory .. => .notFound
  | .inappropriateType _ code _ =>
    if code = 21 then .isDirectory else .notDirectory
  | .invalidArgument _ code _ =>
    if code = 36 then .nameTooLong else .invalidName
  | .permissionDenied .. => .other "permission denied"
  | error => .other (toString error)

def probe (path : String) : IO (Except FileProblem Node) := do
  try
    return .ok (.file (← IO.FS.readBinFile path).toList)
  catch error =>
    match problemOf error with
    | .isDirectory => return .ok .directory
    | problem => return .error problem

def filesOf : Invocation → List String
  | .help => []
  | .perform options (.assemble input ..) => [options.configPath, input]
  | .perform options _ => [options.configPath]

def snapshot (invocation : Invocation) : IO Disk := do
  let nodes ← (filesOf invocation).mapM fun path => return (path, ← probe path)
  return fun path => (nodes.lookup path).getD (.error .notFound)

def put (stream : IO.FS.Stream) (bytes : Bytes) : IO Unit := do
  stream.write (ByteArray.mk bytes.toArray)
  stream.flush

/-- Reads the header of a message up to its empty line. -/
partial def readHeader (stream : IO.FS.Stream) (length : Option Nat) : IO (Option Nat) := do
  let line ← stream.getLine
  if line.trimAscii.isEmpty then return (if line.isEmpty then none else length)
  readHeader stream ((contentLength? line).or length)

/-- Reads a number of bytes, or fewer if the stream ends. -/
partial def readBody (stream : IO.FS.Stream) (count : Nat) (done : ByteArray) : IO ByteArray := do
  if count ≤ done.size then return done
  let chunk ← stream.read (USize.ofNat (count - done.size))
  if chunk.isEmpty then return done
  readBody stream count (done ++ chunk)

partial def converse (say : String → IO Unit) (session : Session) : IO Unit := do
  let some length ← readHeader (← IO.getStdin) none | return ()
  let body ← readBody (← IO.getStdin) length ByteArray.empty
  match (Json.parse? body.toList).bind Incoming.ofJson? with
  | none => converse say session
  | some message =>
    let (session, reaction) := session.step message
    for line in reaction.log do say line
    for outgoing in reaction.messages do put (← IO.getStdout) outgoing.frame
    if session.isOpen then converse say session

def fail (message : Bytes) : IO UInt32 := do
  put (← IO.getStderr) (utf8 "Error: " ++ message ++ [newline])
  return 1

/-- Does what is left to do after a command without fault. This program opens no connections. -/
def finish (say : String → IO Unit) (o : Outcome) : Invocation → IO UInt32
  | .help => do
    put (← IO.getStdout) (utf8 usage)
    return 0
  | .perform _ (.languageServer "" _) => do
    converse say { config := o.config }
    return 0
  | .perform _ (.languageServer ..) | .perform _ (.serve ..) =>
    fail (utf8 "network listeners are not available")
  | .perform _ (.assemble ..) =>
    match o.output with
    | .nowhere => return 0
    | .stdout program => do
      let stdout ← IO.getStdout
      put stdout (if ← stdout.isTty then program.listing else program.bytes)
      return 0
    | .file path program => do
      try
        IO.FS.writeBinFile path (ByteArray.mk program.bytes.toArray)
        return 0
      catch error => fail (CommandFault.unwritable path (problemOf error)).message

def start (args : List String) : IO UInt32 := do
  match Reader.standard args with
  | .error text => fail (CommandFault.usage text).message
  | .ok invocation =>
    let o := invocation.run (← snapshot invocation) .standard
    let say (line : String) : IO Unit := do
      if o.logging && o.endpoint.isEmpty then put (← IO.getStderr) (utf8 (line ++ "\n"))
    for line in o.logged do say line
    put (← IO.getStderr) o.stderr
    match o.fault with
    | some fault => fail fault.message
    | none => finish say o invocation

end Rv32Asm.Main

def main (args : List String) : IO UInt32 :=
  Rv32Asm.Main.start args
