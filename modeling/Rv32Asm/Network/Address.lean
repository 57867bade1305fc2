/-!
Network addresses as text: a host and a service with a colon between them.
-/

set_option autoImplicit false
set_option relaxedAutoImplicit false

namespace Rv32Asm.Network

inductive AddressFault where
  | missingPort
  | tooManyColons
  | missingBracket
  | unexpectedOpen
  | unexpectedClose
deriving DecidableEq, Repr

def AddressFault.message : AddressFault → String
  | missingPort => "missing port in address"
  | tooManyColons => "too many colons in address"
  | missingBracket => "missing ']' in address"
  | unexpectedOpen => "unexpected '[' in address"
  | unexpectedClose => "unexpected ']' in address"

def splitLast? (sep : Char) (s : List Char) : Option (List Char × List Char) :=
  let after := (s.reverse.takeWhile (· ≠ sep)).reverse
  if after.length = s.length then none else some (s.take (s.length - after.length - 1), after)

/-- Host and service of an address. A host that holds colons stands in brackets. -/
def splitAddress (s : List Char) : Except AddressFault (List Char × List Char) :=
  match splitLast? ':' s with
  | none => .error .missingPort
  | some (front, service) =>
    match s with
    | '[' :: rest =>
      let host := rest.takeWhile (· ≠ ']')
      match rest.drop host.length with
      | [] => .error .missingBracket
      | _ :: after =>
        if after = ':' :: service then
          if host.contains '[' ∨ service.contains '[' then .error .unexpectedOpen
          else if service.contains ']' then .error .unexpectedClose
          else .ok (host, service)
        else if after.head? = some ':' then .error .tooManyColons
        else .error .missingPort
    | _ =>
      if front.contains ':' then .error .tooManyColons
      else if s.contains '[' then .error .unexpectedOpen
      else if s.contains ']' then .error .unexpectedClose
      else .ok (front, service)

def joinAddress (host service : List Char) : List Char :=
  if host.contains ':' then '[' :: host ++ ']' :: ':' :: service else host ++ ':' :: service

def digitsValue (base : Nat) (digit : Char → Option Nat) (s : List Char) : Option Nat :=
  s.foldlM (fun acc c => (digit c).map fun d => acc * base + d) 0

def decimalDigit (c : Char) : Option Nat :=
  if '0' ≤ c ∧ c ≤ '9' then some (c.toNat - '0'.toNat) else none

def hexDigitValue (c : Char) : Option Nat :=
  if 'a' ≤ c ∧ c ≤ 'f' then some (c.toNat - 'a'.toNat + 10)
  else if 'A' ≤ c ∧ c ≤ 'F' then some (c.toNat - 'A'.toNat + 10)
  else decimalDigit c

/-- A decimal number up to 255, without leading zeros. -/
def octet? (s : List Char) : Option Nat :=
  if s.isEmpty ∨ (1 < s.length ∧ s.head? = some '0') then none
  else (digitsValue 10 decimalDigit s).filter (· ≤ 255)

/-- The fields of a text between separators. There is always at least one. -/
def fields (sep : Char) : List Char → List (List Char)
  | [] => [[]]
  | c :: rest =>
    if c = sep then [] :: fields sep rest
    else match fields sep rest with
      | [] => [[c]]
      | field :: more => (c :: field) :: more

def dotted? (s : List Char) : Option (List Nat) := do
  match ← (fields '.' s).mapM octet? with
  | [a, b, c, d] => some [a * 256 + b, c * 256 + d]
  | _ => none

def group? (s : List Char) : Option Nat :=
  if s.isEmpty ∨ 4 < s.length then none else digitsValue 16 hexDigitValue s

/-- The groups of colon-separated fields. If `last` holds, the last field may be an address of four
octets. -/
def groups? (last : Bool) : List (List Char) → Option (List Nat)
  | [] => some []
  | [field] => if last && field.contains '.' then dotted? field else (group? field).map ([·])
  | field :: more => do
    let g ← group? field
    let gs ← groups? last more
    return g :: gs

def part? (last : Bool) (s : List Char) : Option (List Nat) :=
  if s.isEmpty then some [] else groups? last (fields ':' s)

def splitDouble? : List Char → Option (List Char × List Char)
  | ':' :: ':' :: rest => some ([], rest)
  | c :: rest => (splitDouble? rest).map fun (a, b) => (c :: a, b)
  | [] => none

/-- The eight groups of an address of the long form. A double colon stands for one or more groups
of zeros. -/
def longGroups? (s : List Char) : Option (List Nat) :=
  match splitDouble? s with
  | none => (part? true s).filter fun gs => gs.length = 8
  | some (front, back) => do
    let a ← part? false front
    let b ← part? true back
    if a.length + b.length < 8 then
      some (a ++ List.replicate (8 - a.length - b.length) 0 ++ b)
    else none

/-- Whether a host is an address that stands for every interface: all zeros, or the short form of
it inside the long one. -/
def isUnspecified (host : List Char) : Bool :=
  match host.find? fun c => c = '.' || c = ':' || c = '%' with
  | some '.' => dotted? host == some [0, 0]
  | some ':' =>
    match longGroups? host with
    | some gs => gs == [0, 0, 0, 0, 0, 0, 0, 0] || gs == [0, 0, 0, 0, 0, 0xffff, 0, 0]
    | none => false
  | _ => false

def servicePorts : List (String × Nat) :=
  [("domain", 53), ("ftp", 21), ("ftps", 990), ("gopher", 70), ("http", 80), ("https", 443),
   ("imap2", 143), ("imap3", 220), ("imaps", 993), ("pop3", 110), ("pop3s", 995), ("smtp", 25),
   ("ssh", 22), ("submissions", 465), ("telnet", 23)]

/-- From here on a service number is out of range, whatever digits follow. -/
def portCutoff : UInt32 := 0x40000000

/-- Reads the digits of a service number as a 32 bit word, which wraps below the cutoff. -/
def portDigits (n : UInt32) : List Char → Option UInt32
  | [] => some n
  | c :: rest => do
    let d ← decimalDigit c
    if portCutoff ≤ n then some 0xffffffff else portDigits (n * 10 + UInt32.ofNat d) rest

def portNumber? : List Char → Option Int
  | '+' :: digits => (portDigits 0 digits).map fun n => n.toNat
  | '-' :: digits => (portDigits 0 digits).map fun n => -n.toNat
  | digits => (portDigits 0 digits).map fun n => n.toNat

inductive ListenFault where
  | address (given : String) (fault : AddressFault)
  | invalidPort (service : String)
  | unknownPort (service : String)
deriving DecidableEq, Repr

def ListenFault.message : ListenFault → String
  | address given fault => "listen tcp: address " ++ given ++ ": " ++ fault.message
  | invalidPort service => "listen tcp: address " ++ service ++ ": invalid port"
  | unknownPort service => "listen tcp: lookup tcp/" ++ service ++ ": unknown port"

def checkPort (service : List Char) : Except ListenFault Unit :=
  match portNumber? service with
  | some n => if 0 ≤ n ∧ n ≤ 65535 then .ok () else .error (.invalidPort (String.ofList service))
  | none =>
    if servicePorts.any fun s => s.1.toList = service.map Char.toLower then .ok ()
    else .error (.unknownPort (String.ofList service))

/-- Checks the address of a listener. The empty address is any service on every interface. -/
def checkListen (given : String) : Except ListenFault Unit :=
  if given.isEmpty then .ok ()
  else match splitAddress given.toList with
    | .error fault => .error (.address given fault)
    | .ok (_, service) => checkPort service

example : (checkListen "[::1]:65535").toOption = some () := by decide +kernel
example : (checkListen ":65536").toOption = none := by decide +kernel

end Rv32Asm.Network
