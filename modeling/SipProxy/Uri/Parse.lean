import SipProxy.SipError
import SipProxy.Text.Blank
import SipProxy.Text.Decimal
import SipProxy.Uri.Basic

/-!
# Reading URIs

The text is trimmed, the scheme decides how the rest is read, and all of the rest has to be read.
The grammar is wider than RFC 3261's (a user part may hold any octet that ends nothing), for a proxy
forwards what it need not understand; it is narrower in one place, as a parameter without a value
must be one of three known flags.

Of several faults the first in this order is reported: the grammar, text left over, parameters,
headers, the port.
-/

namespace SipProxy

namespace Lexeme

open Reader

def isSchemeOctet (b : UInt8) : Bool := isAlnum b || isOneOf ['+', '-', '.'] b

def isPasswordOctet (b : UInt8) : Bool := !(isBreak b || isOneOf ['@', ';', '?'] b)

def isUserOctet (b : UInt8) : Bool := isPasswordOctet b && b != ascii ':'

def isHostOctet (b : UInt8) : Bool := isAlnum b || isOneOf ['-', '.', '_'] b

def isHostReferenceOctet (b : UInt8) : Bool := isHexDigit b || isOneOf [':', '.'] b

def isHeaderValueOctet (b : UInt8) : Bool := !(isBreak b || b == ascii '&')

def isHeaderNameOctet (b : UInt8) : Bool :=
  isHeaderValueOctet b && !isOneOf ['=', ';', '?'] b

/-- A letter, then letters, digits and the three marks. -/
def scheme : Reader Octets := fun s =>
  match s with
  | b :: _ => if isAlpha b then some (run isSchemeOctet s) else none
  | [] => none

/-- User and password, up to and with the at sign. -/
def userInfo : Reader (Octets × Option Octets) := fun s =>
  match run1 isUserOctet s with
  | some (user, s) =>
    let password := optional (after (octet (ascii ':')) fun s => some (run isPasswordOctet s)) s
    (octet (ascii '@') password.2).map fun s => ((user, password.1), s)
  | none => none

/-- What looks like an IPv6 address in brackets; whether it is one is not asked. -/
def hostReference : Reader Octets
  | 0x5B :: s =>
    match run1 isHostReferenceOctet s with
    | some (inside, 0x5D :: s) => some (0x5B :: inside ++ [0x5D], s)
    | _ => none
  | _ => none

def host : Reader Octets := fun s =>
  match hostReference s with
  | some r => some r
  | none => run1 isHostOctet s

/-- The digits of a port, behind a colon. -/
def port : Reader Octets := after (octet (ascii ':')) digits

/-- A name, and a value behind an equals sign if one follows. -/
def assignment (name : UInt8 → Bool) (value : Reader Octets) : Reader (Octets × Option Octets) :=
  fun s =>
    match run1 name s with
    | some (name, s) =>
      let value := optional (after (octet (ascii '=')) value) s
      some ((name, value.1), value.2)
    | none => none

def uriParam : Reader (Octets × Option Octets) :=
  after (octet (ascii ';')) (assignment isParamOctet (run1 isParamOctet))

/-- URI headers with ampersands between them; a value may be empty. -/
def uriHeaders : Reader (List (Octets × Option Octets)) :=
  sepBy1 (octet (ascii '&'))
    (assignment isHeaderNameOctet fun s => some (run isHeaderValueOctet s))

/-- What stands behind the scheme of a SIP URI, in octets. -/
structure SipUriParts where
  user : Option (Octets × Option Octets)
  host : Octets
  port : Option Octets
  params : List (Octets × Option Octets)
  headers : Option (List (Octets × Option Octets))

def sipUriParts : Reader SipUriParts := fun s =>
  let user := optional userInfo s
  match host user.2 with
  | some (host, s) =>
    let port := optional port s
    let params := many uriParam port.2
    let headers := optional (after (octet (ascii '?')) uriHeaders) params.2
    some (⟨user.1, host, port.1, params.1, headers.1⟩, headers.2)
  | none => none

end Lexeme

/-- Parameters that may stand in a URI without a value. -/
def Uri.flagNames : List String := ["lr", "ob", "gr"]

namespace SipUri

/-- A parameter of a URI, which needs a value unless it is a known flag. -/
def checkParam (p : Octets × Option Octets) : Except SipError Param :=
  let name := Utf8.decode p.1
  match p.2 with
  | some value => .ok (.of name (Utf8.decode value))
  | none =>
    if Uri.flagNames.any (Text.sameIgnoringCase name) then .ok (.flag name)
    else .error (.invalidParameter name)

/-- A header of a URI, which always needs a value. -/
def checkHeader (p : Octets × Option Octets) : Except SipError Param :=
  match p.2 with
  | some value => .ok (.of (Utf8.decode p.1) (Utf8.decode value))
  | none => .error (.invalidParameter (Utf8.decode p.1))

/-- The port that digits spell; none is port 0. -/
def checkPort (digits : Option Octets) (whole : String) : Except SipError UInt16 :=
  match digits with
  | none => .ok 0
  | some digits =>
    match Decimal.word16? (Utf8.decode digits) with
    | some port => .ok port
    | none => .error (.invalidUri ("invalid port in " ++ whole))

def ofParts (scheme : Scheme) (whole : String) (parts : Lexeme.SipUriParts) :
    Except SipError SipUri := do
  let params ← parts.params.mapM checkParam
  let headers ← (parts.headers.getD []).mapM checkHeader
  let port ← checkPort parts.port whole
  return {
    scheme
    user := parts.user.map fun u => Utf8.decode u.1
    password := parts.user.bind fun u => u.2.map Utf8.decode
    host := Utf8.decode parts.host
    port
    params
    headers }

/-- The URI behind its scheme; `whole` is the trimmed text, for the words of a fault. -/
def parseBody (scheme : Scheme) (whole : String) (body : Octets) : Except SipError SipUri :=
  match Lexeme.sipUriParts body with
  | some (parts, []) => ofParts scheme whole parts
  | some (_, rest) =>
    .error (.invalidUri s!"unexpected '{Utf8.decode rest}' in '{whole}'")
  | none => .error (.invalidUri whole)

end SipUri

/-- The scheme of a trimmed text and what follows its colon. -/
def Uri.cutScheme (text : String) : Except SipError (String × Octets) :=
  match Lexeme.scheme (Utf8.encode text) with
  | some (scheme, 0x3A :: rest) => .ok (Utf8.decode scheme, rest)
  | some _ => .error (.invalidUri s!"missing ':' after scheme in '{text}'")
  | none => .error (.invalidUri s!"missing scheme in '{text}'")

/-- Reads a URI of any scheme as an opaque one. -/
def AbsoluteUri.parse (s : String) : Except SipError AbsoluteUri := do
  let text := Text.trim s
  let (scheme, rest) ← Uri.cutScheme text
  if rest.isEmpty || rest.any Lexeme.isAsciiBlank then
    throw (.invalidUri s!"invalid opaque part in '{text}'")
  return ⟨scheme, Utf8.decode rest⟩

def Uri.parse (s : String) : Except SipError Uri := do
  let text := Text.trim s
  let (scheme, rest) ← Uri.cutScheme text
  if Text.sameIgnoringCase scheme "sip" then
    return .sip (← SipUri.parseBody .sip text rest)
  else if Text.sameIgnoringCase scheme "sips" then
    return .sip (← SipUri.parseBody .sips text rest)
  else
    return .absolute (← AbsoluteUri.parse text)

/-- Reads a URI that has to be a SIP one. -/
def SipUri.parse (s : String) : Except SipError SipUri := do
  match ← Uri.parse s with
  | .sip uri => return uri
  | .absolute uri =>
    throw (.invalidUri s!"expected sip or sips scheme, got {uri.scheme}")

end SipProxy
