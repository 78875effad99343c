import SipProxy.Digest.Branch
import SipProxy.Ip.Endpoint
import SipProxy.Ip.Host
import SipProxy.Uri.Parse

/-!
# Via

One Via entry says which hop a request passed and where that hop wants the response. The topmost
entry is the one a response is sent to; what the receiver of the request learned about its source
is written into it (`received`, and `rport` if the sender asked for it, RFC 3581).

A Via header value is a list of entries, the topmost first, so taking an entry off and putting one
in front are `List` operations.
-/

namespace SipProxy

structure ViaEntry where
  protocolName : String
  protocolVersion : String
  transport : String
  /-- As written, an IPv6 address in its brackets. -/
  host : String
  /-- 0 if none is named. -/
  port : UInt16
  params : Params
deriving DecidableEq, Repr

/-- What the `rport` parameter says. -/
inductive ReturnPort where
  /-- There is none: the sender takes the response at the port it named. -/
  | absent
  /-- The sender asks for the port it sent from, or the value is no port. -/
  | asked
  | known (port : UInt16)
deriving DecidableEq, Repr

namespace ViaEntry

/-- An entry of SIP/2.0 without parameters. -/
def of (transport host : String) (port : UInt16) : ViaEntry :=
  ⟨"SIP", "2.0", transport, host, port, []⟩

/-- The entry a proxy adds for the endpoint it sends from. -/
def ofLocal (transport : String) (address : Endpoint) : ViaEntry :=
  of transport (Host.ofIp address.ip) address.port

def resolvedPort (v : ViaEntry) : UInt16 :=
  if v.port ≠ 0 then v.port else portFor (some v.transport)

def branch? (v : ViaEntry) : Option String := v.params.value? "branch"

def received? (v : ViaEntry) : Option String := v.params.value? "received"

def returnPort (v : ViaEntry) : ReturnPort :=
  match v.params.named? "rport" with
  | none => .absent
  | some p =>
    match p.value.bind Decimal.word16? with
    | some port => .known port
    | none => .asked

def setParam (v : ViaEntry) (p : Param) : ViaEntry := { v with params := v.params.set p }

def setReceived (v : ViaEntry) (ip : IpAddress) : ViaEntry := v.setParam (.of "received" ip.text)

/-- Writes the port to return to, or asks for it. -/
def setReturnPort (v : ViaEntry) (port : Option UInt16) : ViaEntry :=
  match port with
  | some port => v.setParam (.of "rport" (toString port.toNat))
  | none => v.setParam (.flag "rport")

/-- Notes where the request came from: its address always, its port if it was asked for. -/
def noteSource (v : ViaEntry) (source : Endpoint) : ViaEntry :=
  let v := v.setReceived source.ip
  match v.returnPort with
  | .asked => v.setReturnPort (some source.port)
  | _ => v

/-- Where the response goes: the address the request was received from if one is noted. -/
def responseHost (v : ViaEntry) : String := v.received?.getD (Host.unbracket v.host)

def responsePort (v : ViaEntry) : UInt16 :=
  match v.returnPort with
  | .known port => port
  | _ => v.resolvedPort

def text (v : ViaEntry) : String :=
  v.protocolName ++ "/" ++ v.protocolVersion ++ "/" ++ v.transport ++ " " ++ v.host
    ++ SipUri.portText v.port ++ v.params.text

end ViaEntry

/-! ## Reading -/

/-- A Via entry in octets. -/
structure ViaParts where
  name : Octets
  version : Octets
  transport : Octets
  host : Octets
  port : Option Octets
  params : Params

namespace Lexeme

open Reader

/-- Protocol, version and transport with slashes between them. -/
def sentProtocol : Reader (Octets × Octets × Octets) := fun s =>
  match token s with
  | some (name, s) =>
    match after slash token s with
    | some (version, s) =>
      (after slash token s).map fun r => ((name, version, r.1), r.2)
    | none => none
  | none => none

/-- The digits of a port; spaces may stand before the colon, none behind it. -/
def spacedPort : Reader Octets := fun s => port (spaces s)

def viaEntry : Reader ViaParts := fun s =>
  match sentProtocol s with
  | some ((name, version, transport), s) =>
    match after spaces1 host s with
    | some (host, s) =>
      let port := optional spacedPort s
      let ps := params port.2
      some (⟨name, version, transport, host, port.1, ps.1⟩, ps.2)
    | none => none
  | none => none

end Lexeme

namespace ViaEntry

/-- The entry that its parts spell; `value` is the whole header value, for the words of a fault. -/
def ofParts (value : String) (parts : ViaParts) : Except SipError ViaEntry :=
  match SipUri.checkPort parts.port value with
  | .ok port => .ok {
      protocolName := Utf8.decode parts.name
      protocolVersion := Utf8.decode parts.version
      transport := Utf8.decode parts.transport
      host := Utf8.decode parts.host
      port
      params := parts.params }
  | .error _ => .error (.malformedEntry s!"invalid port in Via '{value}'")

end ViaEntry

namespace Via

/-- The value of a Via header. -/
def text (entries : List ViaEntry) : String := ", ".intercalate (entries.map ViaEntry.text)

/-- Reads the value of a Via header: one entry or more. -/
def parse (value : String) : Except SipError (List ViaEntry) :=
  match Reader.sepBy1 Lexeme.comma Lexeme.viaEntry (Utf8.encode (Text.trim value)) with
  | some (parts, []) => parts.mapM (ViaEntry.ofParts value)
  | some (_, rest) => .error (.malformedEntry s!"unexpected '{Utf8.decode rest}' in Via")
  | none => .error (.malformedEntry s!"invalid Via '{value}'")

end Via

end SipProxy
