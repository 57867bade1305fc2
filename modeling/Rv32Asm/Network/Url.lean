import Rv32Asm.Network.Address
import Rv32Asm.Text.Bytes

/-!
Addresses of web resources.

`Url.parse?` reads an address and `Url.write` writes it. A written address is in a regular form:
the scheme is in lower case, a service that is left out has no colon, and escapes that a part does
not need are gone from hosts and users.
-/

set_option autoImplicit false
set_option relaxedAutoImplicit false

namespace Rv32Asm.Network

open Rv32Asm.Text

inductive UrlPart where
  | user
  | host
  | path
  | fragment
deriving DecidableEq, Repr

namespace UrlPart

def marks : UrlPart → String
  | user => "-_.~$&+,;="
  | host => "-_.~!$&'()*+,;=:[]<>\""
  | path => "-_.~$&+,/:;=@"
  | fragment => "-_.~$&+,/:;=?@!()*"

/-- A character that is never escaped in a part. -/
def keeps (part : UrlPart) (c : Char) : Bool :=
  c.isAlphanum || part.marks.toList.contains c

/-- A character that a part may hold where it is left as it was written. -/
def allows (part : UrlPart) (c : Char) : Bool :=
  part.keeps c || "!$&'()*+,;=:@[]%".toList.contains c

def escapeByte (part : UrlPart) (b : UInt8) : List Char :=
  let c := Char.ofNat b.toNat
  if b < 0x80 && part.keeps c then [c]
  else '%' :: (hexDigits 2 b.toNat).map fun d => (Char.ofNat d.toNat).toUpper

def escape (part : UrlPart) (bs : Bytes) : List Char :=
  bs.flatMap part.escapeByte

end UrlPart

/-- Text with its percent escapes replaced by the bytes they stand for. Escapes may stand for the
bytes of `escaped` only, and other characters have to be in `plain`. -/
def unescapeIf? (escaped : UInt8 → Bool) (plain : Char → Bool) : List Char → Option Bytes
  | [] => some []
  | '%' :: a :: b :: rest => do
    let high ← hexDigitValue a
    let low ← hexDigitValue b
    let byte := UInt8.ofNat (high * 16 + low)
    let bytes ← unescapeIf? escaped plain rest
    if escaped byte then some (byte :: bytes) else none
  | c :: rest =>
    if c ≠ '%' && plain c then (unescapeIf? escaped plain rest).map (utf8 (String.singleton c) ++ ·)
    else none

def unescape? : List Char → Option Bytes :=
  unescapeIf? (fun _ => true) (fun _ => true)

/-- A part that is kept as it is written if it may be, and is escaped anew otherwise. -/
def UrlPart.regular? (part : UrlPart) (s : List Char) : Option (List Char) := do
  let bytes ← unescape? s
  return if s.all part.allows then s else part.escape bytes

structure UserInfo where
  name : Bytes
  password : Option Bytes
deriving DecidableEq, Repr

namespace UserInfo

def isUserChar (c : Char) : Bool :=
  c.isAlphanum || "-._:~!$&'()*+,;=%@".toList.contains c

/-- Reads a user, and a password after the first colon. -/
def parse? (s : List Char) : Option UserInfo := do
  guard (s.all isUserChar)
  let name ← unescape? (s.takeWhile (· ≠ ':'))
  match s.dropWhile (· ≠ ':') with
  | [] => return ⟨name, none⟩
  | _ :: password => return ⟨name, ← unescape? password⟩

def write (u : UserInfo) : List Char :=
  UrlPart.user.escape u.name ++ match u.password with
    | none => []
    | some password => ':' :: UrlPart.user.escape password

end UserInfo

def isHostChar (c : Char) : Bool :=
  UrlPart.host.keeps c || 0x80 ≤ c.toNat

/-- The bytes of a host. Only a percent sign and bytes beyond ASCII may be escaped in it. -/
def hostBytes? : List Char → Option Bytes :=
  unescapeIf? (fun b => b == 0x25 || 0x80 ≤ b) isHostChar

/-- The bytes of a zone. A percent sign, a space and what a host may hold may be escaped in it. -/
def zoneBytes? : List Char → Option Bytes :=
  unescapeIf? (fun b => b == 0x25 || b == 0x20 || UrlPart.host.escapeByte b == [Char.ofNat b.toNat])
    isHostChar

def isLongAddress (s : List Char) : Bool :=
  s.find? (fun c => c == '.' || c == ':' || c == '%') == some ':' &&
  (longGroups? (s.takeWhile (· ≠ '%'))).isSome && s.dropWhile (· ≠ '%') ≠ ['%']

def splitZone : List Char → List Char × List Char
  | '%' :: '2' :: '5' :: rest => ([], '%' :: '2' :: '5' :: rest)
  | c :: rest => let (before, zone) := splitZone rest; (c :: before, zone)
  | [] => ([], [])

/-- Whether a text is a colon and a service number, or nothing at all. The digits may be missing. -/
def isServiceSuffix : List Char → Bool
  | [] => true
  | c :: digits => c = ':' && digits.all Char.isDigit

/-- Reads a host with an optional service. Brackets hold an address of the long form; in other hosts
the last colon leads to the service. -/
def parseHost? (s : List Char) : Option Bytes :=
  match s with
  | '[' :: rest => do
    let (inside, suffix) ← splitLast? ']' rest
    guard (!rest.contains '[' && isServiceSuffix suffix)
    let (before, zone) := splitZone inside
    let address := (← hostBytes? before) ++ (← zoneBytes? zone)
    guard (isLongAddress (latin address).toList)
    return utf8 "[" ++ address ++ utf8 "]" ++ utf8 (String.ofList suffix)
  | _ => do
    guard (!s.contains '[' && ((splitLast? ':' s).map fun p => p.2.all Char.isDigit).getD true)
    hostBytes? s

def trimService (host : Bytes) : Bytes :=
  if host.getLast? = some 0x3a then host.dropLast else host

structure Authority where
  user : Option UserInfo
  host : Bytes
deriving DecidableEq, Repr

namespace Authority

/-- Reads an authority. The last at sign ends the user. -/
def parse? (s : List Char) : Option Authority :=
  match splitLast? '@' s with
  | none => do return ⟨none, trimService (← parseHost? s)⟩
  | some (user, host) => do return ⟨← UserInfo.parse? user, trimService (← parseHost? host)⟩

def write (a : Authority) : List Char :=
  ((a.user.map fun u => u.write ++ ['@']).getD []) ++ UrlPart.host.escape a.host

end Authority

inductive Resource where
  | name (text : List Char)
  | path (text : List Char)
  | remote (authority : Authority) (path : List Char)
deriving DecidableEq, Repr

namespace Resource

def parse? : List Char → Option Resource
  | '/' :: '/' :: rest => do
    let authority ← Authority.parse? (rest.takeWhile (· ≠ '/'))
    return .remote authority (← UrlPart.path.regular? (rest.dropWhile (· ≠ '/')))
  | '/' :: rest => (UrlPart.path.regular? ('/' :: rest)).map .path
  | text => some (.name text)

/-- Writes what stands between scheme and query. Without any party or path there is nothing. -/
def write : Resource → List Char
  | name text => text
  | path text => text
  | remote authority text =>
    if authority = ⟨none, []⟩ ∧ text = [] then [] else '/' :: '/' :: authority.write ++ text

end Resource

structure Url where
  scheme : List Char
  resource : Resource
  /-- The query with its question mark, or nothing. -/
  query : List Char
  /-- The fragment without its number sign. -/
  fragment : List Char
deriving DecidableEq, Repr

namespace Url

def isSchemeChar (c : Char) : Bool :=
  c.isAlphanum || c = '+' || c = '-' || c = '.'

def splitScheme? (s : List Char) : Option (List Char × List Char) :=
  let scheme := s.takeWhile isSchemeChar
  match s.dropWhile isSchemeChar with
  | ':' :: rest =>
    if scheme.head?.any Char.isAlpha then some (scheme.map Char.toLower, rest) else none
  | _ => none

/-- Reads an address. Control characters may stand in the fragment only. -/
def parse? (s : List Char) : Option Url := do
  let front := s.takeWhile (· ≠ '#')
  guard (front.all fun c => 0x20 ≤ c.toNat && c.toNat ≠ 0x7f)
  let (scheme, rest) ← splitScheme? front
  return {
    scheme
    resource := ← Resource.parse? (rest.takeWhile (· ≠ '?'))
    query := rest.dropWhile (· ≠ '?')
    fragment := ← UrlPart.fragment.regular? ((s.dropWhile (· ≠ '#')).drop 1) }

def write (u : Url) : List Char :=
  u.scheme ++ ':' :: u.resource.write ++ u.query ++
    if u.fragment.isEmpty then [] else '#' :: u.fragment

end Url

def postTarget? (endpoint : String) : Option String :=
  (Url.parse? endpoint.toList).map fun u => String.ofList u.write

example : postTarget? "HTTP://a!b@log:/a b?c#" = some "http://a%21b@log/a%20b?c" := by
  decide +kernel
example : postTarget? "http://[fe80::1%25a]:80" = some "http://[fe80::1%25a]:80" := by
  decide +kernel
example : postTarget? "log" = none ∧ postTarget? "http://[log]/" = none := by decide +kernel

end Rv32Asm.Network
