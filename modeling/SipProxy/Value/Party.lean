import SipProxy.NameAddress

/-!
# To and From

The two parties of a call. A party is written as a name-address or as a bare URI; the bare form has
no room for parameters of its own, so everything from the first semicolon on belongs to the header.
The form is kept, because a party is sent on in the form in which it came.
-/

namespace SipProxy

inductive PartyAddress where
  | nameAddress (address : NameAddress)
  | bare (uri : Uri)
deriving DecidableEq, Repr

namespace PartyAddress

def uri : PartyAddress → Uri
  | nameAddress address => address.uri
  | bare uri => uri

def text : PartyAddress → String
  | nameAddress address => address.text
  | bare uri => uri.text

end PartyAddress

structure Party where
  address : PartyAddress
  params : Params
deriving DecidableEq, Repr

namespace Party

/-- A name-address without parameters. -/
def ofAddress (address : NameAddress) : Party := ⟨.nameAddress address, []⟩

def uri (p : Party) : Uri := p.address.uri

def sip? (p : Party) : Option SipUri := p.uri.sip?

def host? (p : Party) : Option String := p.sip?.map SipUri.host

def tag? (p : Party) : Option String := p.params.value? "tag"

/-- Puts the tag in the place of the old one, or in front of all parameters. -/
def setTag (p : Party) (tag : String) : Party :=
  { p with params := p.params.setInFront (.of "tag" tag) }

def text (p : Party) : String := p.address.text ++ p.params.text

end Party

/-! ## Reading -/

/-- Octets of a URI that stands without brackets. -/
def Lexeme.isBareOctet (b : UInt8) : Bool :=
  !(isOneOf [';', ',', '<', '>', '"'] b || isAsciiBlank b)

namespace Party

/-- The address in front of the octets, and what follows it; `none` if there is none. -/
def takeAddress (s : Octets) : Option (Except SipError PartyAddress × Octets) :=
  match Lexeme.bracketed s with
  | some (parts, rest) => some ((NameAddress.ofParts parts).map .nameAddress, rest)
  | none =>
    match Reader.run1 Lexeme.isBareOctet s with
    | some (uri, rest) => some ((Uri.parse (Utf8.decode uri)).map .bare, rest)
    | none => none

/-- Reads the value of the named header. -/
def parse (header value : String) : Except SipError Party :=
  match takeAddress (Utf8.encode (Text.trim value)) with
  | some (.ok address, rest) =>
    match Lexeme.params rest with
    | (params, []) => .ok ⟨address, params⟩
    | (_, rest) => .error (.malformedEntry s!"unexpected '{Utf8.decode rest}' in {header}")
  | some (.error e, _) => .error e
  | none => .error (.malformedEntry s!"invalid {header} '{value}'")

end Party

end SipProxy
