import SipProxy.Params

/-!
# URIs

A SIP URI is taken apart, since routing needs its host, port, transport and flags; a URI of any
other scheme is an opaque text behind its scheme.

Port 0 means that the URI names no port. The two are one value because the text `sip:h:0` and the
text `sip:h` are resolved alike, and a port that is never dialled needs no second representation.
-/

namespace SipProxy

/-- The port of SIP over UDP and TCP. -/
def defaultPort : UInt16 := 5060

/-- The port of SIP over TLS. -/
def defaultSecurePort : UInt16 := 5061

/-- The port that a transport name stands for. -/
def portFor (transport : Option String) : UInt16 :=
  match transport with
  | some t => if Text.sameIgnoringCase t "tls" then defaultSecurePort else defaultPort
  | none => defaultPort

inductive Scheme where
  | sip
  | sips
deriving DecidableEq, Repr

def Scheme.text : Scheme → String
  | .sip => "sip"
  | .sips => "sips"

structure SipUri where
  scheme : Scheme
  user : Option String
  password : Option String
  /-- As written, an IPv6 address in its brackets. -/
  host : String
  /-- 0 if none is named. -/
  port : UInt16
  params : Params
  headers : Params
deriving DecidableEq, Repr

/-- A URI of a scheme that the proxy does not look into. -/
structure AbsoluteUri where
  scheme : String
  opaquePart : String
deriving DecidableEq, Repr

inductive Uri where
  | sip (uri : SipUri)
  | absolute (uri : AbsoluteUri)
deriving DecidableEq, Repr

namespace SipUri

/-- A URI with nothing but a host. -/
def ofHost (host : String) : SipUri := ⟨.sip, none, none, host, 0, [], []⟩

def transport? (u : SipUri) : Option String := u.params.value? "transport"

/-- The port to send to: the named one, else the one that scheme and transport stand for. -/
def resolvedPort (u : SipUri) : UInt16 :=
  if u.port ≠ 0 then u.port
  else match u.scheme with
    | .sips => defaultSecurePort
    | .sip => portFor u.transport?

/-- The address of record, as far as it identifies a user of this proxy. -/
def userAtHost (u : SipUri) : String :=
  match u.user with
  | some user => user ++ "@" ++ u.host
  | none => u.host

/-- Does a proxy of this URI leave the request URI alone? -/
def isLoose (u : SipUri) : Bool := u.params.has "lr"

/-- User, password if there is a user, and the at sign. -/
def userText (u : SipUri) : String :=
  match u.user with
  | some user =>
    match u.password with
    | some password => user ++ ":" ++ password ++ "@"
    | none => user ++ "@"
  | none => ""

def portText (port : UInt16) : String := if port = 0 then "" else ":" ++ toString port.toNat

/-- URI headers behind a question mark, ampersands between them. -/
def headersText (headers : Params) : String :=
  match headers with
  | [] => ""
  | h :: hs => "?" ++ h.text ++ String.join (hs.map fun h => "&" ++ h.text)

def text (u : SipUri) : String :=
  u.scheme.text ++ ":" ++ u.userText ++ u.host ++ portText u.port ++ u.params.text
    ++ headersText u.headers

end SipUri

def AbsoluteUri.text (u : AbsoluteUri) : String := u.scheme ++ ":" ++ u.opaquePart

namespace Uri

def sip? : Uri → Option SipUri
  | sip u => some u
  | absolute _ => none

def host? (u : Uri) : Option String := u.sip?.map SipUri.host

def text : Uri → String
  | sip u => u.text
  | absolute u => u.text

end Uri

end SipProxy
