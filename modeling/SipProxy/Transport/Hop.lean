import SipProxy.Ip.Host
import SipProxy.ProxyError
import SipProxy.Text.Blank
import SipProxy.Transport.Protocol

/-!
# Hops

A peer as configuration and messages name it: a protocol, a host and a port. The same triple is the
next hop of a message, the key under which a connection is kept, and a backend to balance over; the
three differ only in how they are written.

A host is kept without brackets, and each text puts them back where a colon would be ambiguous. The
name of a connection has no brackets: it is read by people only.
-/

namespace SipProxy

structure Hop where
  protocol : Protocol
  /-- A name or an address, no brackets around it. -/
  host : String
  port : UInt16
deriving DecidableEq, Repr

namespace Hop

/-- The hop at a host that may stand in brackets. -/
def of (protocol : Protocol) (host : String) (port : UInt16) : Hop :=
  ⟨protocol, Host.unbracket host, port⟩

/-- The address of the host, if the host is one. -/
def ip? (h : Hop) : Option IpAddress := IpAddress.ofText? h.host

/-! ## Writing -/

/-- Host and port, brackets around a host with colons. -/
def hostPortText (h : Hop) : String :=
  if h.host.toList.contains ':' then s!"[{h.host}]:{h.port.toNat}" else s!"{h.host}:{h.port.toNat}"

/-- The hop as a next hop. -/
def text (h : Hop) : String := h.protocol.text ++ ":" ++ h.hostPortText

/-- The hop as the name of a connection. -/
def connectionText (h : Hop) : String :=
  h.protocol.lowerText ++ ":" ++ h.host ++ ":" ++ toString h.port.toNat

/-- The hop as a backend. -/
def targetText (h : Hop) : String := h.protocol.lowerText ++ "://" ++ h.hostPortText

/-! ## Reading -/

/-- Cuts `[host]`, `[host]:port`, `host` or `host:port`; a bare host has no colon. -/
def cutPort? (s : List Char) : Option (List Char × Option (List Char)) :=
  match s with
  | '[' :: rest =>
    match Text.cutFirst ']' rest with
    | some (host, []) => some (host, none)
    | some (host, ':' :: port) => some (host, some port)
    | _ => none
  | _ =>
    match Text.cutLast ':' s with
    | some (host, port) => if host.contains ':' then none else some (host, some port)
    | none => some (s, none)

/-- The hop of a text without white space around it. -/
def ofChars? (protocol : Protocol) (s : List Char) : Option Hop :=
  match cutPort? s with
  | some (host, port) =>
    if host.isEmpty then none
    else match port with
      | some port => (Decimal.word16? (String.ofList port)).map (of protocol (String.ofList host))
      | none => some (of protocol (String.ofList host) protocol.defaultPort)
  | none => none

/-- Reads `host[:port]`; a missing port is the protocol's. -/
def parse (protocol : Protocol) (s : String) : Except ProxyError Hop :=
  let s := Text.trim s
  match ofChars? protocol s.toList with
  | some hop => .ok hop
  | none => .error (.config s!"invalid next hop '{s}'")

end Hop

/-- The protocol that a configuration names. -/
def Protocol.parse (s : String) : Except ProxyError Protocol :=
  match Protocol.ofText? s with
  | some p => .ok p
  | none => .error (.transport (.unsupportedProtocol s))

/-- Reads a backend, `[protocol://]host[:port]`; a missing protocol is UDP. -/
def Hop.parseTarget (s : String) : Except ProxyError Hop := do
  let s := Text.trim s
  let (protocol, rest) ←
    match Text.cutFirstText [':', '/', '/'] s.toList with
    | some (name, rest) => do pure (← Protocol.parse (String.ofList name), rest)
    | none => pure (.udp, s.toList)
  match ofChars? protocol (Text.trimChars rest) with
  | some hop => return hop
  | none => throw (.config s!"invalid backend '{s}'")

end SipProxy
