/-
The parts of a URL: scheme, authority, path, query and fragment, cut at the first mark of each. Control characters and
spaces in front are dropped, tabs and line breaks everywhere.

Main statement: `splitScheme_no_colon` (a text without a colon has no scheme).
-/
import EndpointSurvey.Text.LowerCase
import EndpointSurvey.Text.Quoted
import EndpointSurvey.Url.HostAddress

namespace EndpointSurvey.Url

/-- what is wrong with an authority -/
inductive Fault where
  /-- one square bracket without the other, or something beside a bracketed host that is no port -/
  | misplacedBracket
  /-- a version mark in brackets that no address follows -/
  | badFutureAddress
  /-- an address of four octets in brackets -/
  | bracketedOctets
  /-- brackets around something that is no address -/
  | badAddress (host : Text)
  /-- a character that is written out as a mark of URLs -/
  | disguisedMark (authority : Text)
  deriving DecidableEq, Repr

def Fault.message : Fault → Text
  | misplacedBracket => "Invalid IPv6 URL"
  | badFutureAddress => "IPvFuture address is invalid"
  | bracketedOctets => "An IPv4 address cannot be in brackets"
  | badAddress host => Text.quoted host ++ " does not appear to be an IPv4 or IPv6 address"
  | disguisedMark authority =>
    "netloc '" ++ authority ++ "' contains invalid characters under NFKC normalization"

structure Parts where
  scheme : Text
  authority : Text
  path : Text
  query : Text
  fragment : Text
  deriving DecidableEq, Repr

/-- a character of a scheme -/
def schemeChar (c : Char) : Bool := c.isAlphanum || c == '+' || c == '-' || c == '.'

/-- the scheme in small letters and what follows its colon -/
def splitScheme (t : Text) : Text × Text :=
  let start := Text.beforeFirst ':' t
  if start.length < t.length && start.head?.any Char.isAlpha && start.all schemeChar then
    (start.map Char.toLower, t.drop (start.length + 1))
  else ([], t)

/-- the parts before and after the first mark; all of the text comes before a mark that is missing -/
def cutAt (mark : Char) (t : Text) : Text × Text :=
  let before := Text.beforeFirst mark t
  (before, t.drop (before.length + 1))

def splitAuthority (t : Text) : Text × Text :=
  match t with
  | '/' :: '/' :: rest => (rest.takeWhile fun c => c != '/' && c != '?' && c != '#',
      rest.dropWhile fun c => c != '/' && c != '?' && c != '#')
  | _ => ([], t)

/-- compatibility characters that are written out with one of the marks `/?#@:` -/
def disguised : List Nat :=
  [0x2047, 0x2048, 0x2049, 0x2100, 0x2101, 0x2105, 0x2106, 0x2a74, 0xfe13, 0xfe16, 0xfe55, 0xfe56, 0xfe5f, 0xfe6b,
    0xff03, 0xff0f, 0xff1a, 0xff1f, 0xff20]

/-- an address of a later version: a version number in hexadecimal, a dot and something more -/
def futureAddress (t : Text) : Bool :=
  match t with
  | 'v' :: rest =>
    let version := rest.takeWhile fun c => c.isDigit || ('a' ≤ c && c ≤ 'f') || ('A' ≤ c && c ≤ 'F')
    !version.isEmpty && (rest.drop version.length).head? = some '.' && version.length + 1 < rest.length
  | _ => false

/-- what is wrong with the text between the brackets of an authority -/
def hostFault? (host : Text) : Option Fault :=
  if host.head? = some 'v' then (if futureAddress host then none else some .badFutureAddress)
  else if (octets? host).isSome then some .bracketedOctets
  else if longAddress host then none
  else some (.badAddress host)

/-- what is wrong with the host and the port of an authority that has brackets somewhere -/
def placeFault? (place : Text) : Option Fault :=
  match place with
  | '[' :: inner =>
    let (host, port) := cutAt ']' inner
    if port.isEmpty || port.head? = some ':' then hostFault? host else some .misplacedBracket
  | _ => if place.elem '[' then some .misplacedBracket else hostFault? (Text.beforeFirst ':' place)

/-- what is wrong with the brackets of an authority; host and port follow the last `@` -/
def bracketFault? (authority : Text) : Option Fault :=
  if authority.elem '[' != authority.elem ']' then some .misplacedBracket
  else if authority.elem '[' then placeFault? (Text.afterLast '@' authority)
  else none

def faultOf? (authority : Text) : Option Fault :=
  match bracketFault? authority with
  | some fault => some fault
  | none => if authority.any fun c => disguised.contains c.toNat then some (.disguisedMark authority) else none

/-- control characters and the space -/
def controlOrSpace (c : Char) : Bool := c.toNat ≤ 32

namespace Parts

/-- the parts of a URL, unless its authority is at fault -/
def ofText? (t : Text) : Except Fault Parts :=
  let cleaned := (t.dropWhile controlOrSpace).filter fun c => c != '\t' && c != '\r' && c != '\n'
  let (scheme, afterScheme) := splitScheme cleaned
  let (authority, afterAuthority) := splitAuthority afterScheme
  match faultOf? authority with
  | some fault => .error fault
  | none =>
    let (beforeFragment, fragment) := cutAt '#' afterAuthority
    let (path, query) := cutAt '?' beforeFragment
    .ok ⟨scheme, authority, path, query, fragment⟩

end Parts

theorem splitScheme_no_colon (t : Text) (h : ':' ∉ t) : splitScheme t = ([], t) := by
  simp [splitScheme, Text.beforeFirst_of_not_mem h]

end EndpointSurvey.Url
