import SipProxy.Ip.Endpoint
import SipProxy.Uri.Basic

/-!
# Transport protocols and listening points

SIP travels in datagrams or over streams. The name of a protocol appears in Via entries and URI
parameters in upper or lower case, and is read in any.

TLS can be named, since a peer may ask for it, but the proxy has no connections of that kind; the
place where one would be opened refuses it.
-/

namespace SipProxy

inductive Protocol where
  | udp
  | tcp
  | tls
deriving DecidableEq, Repr

namespace Protocol

/-- The name in a Via entry. -/
def text : Protocol → String
  | udp => "UDP"
  | tcp => "TCP"
  | tls => "TLS"

/-- The name in a URI parameter or in front of a backend. -/
def lowerText : Protocol → String
  | udp => "udp"
  | tcp => "tcp"
  | tls => "tls"

/-- Do messages follow each other on a connection? -/
def isStream : Protocol → Bool
  | udp => false
  | _ => true

/-- The protocol of a name in any letter case. -/
def ofText? (s : String) : Option Protocol :=
  match s.toLower with
  | "udp" => some udp
  | "tcp" => some tcp
  | "tls" => some tls
  | _ => none

/-- The port of a peer that names none. -/
def defaultPort (p : Protocol) : UInt16 := portFor (some p.text)

end Protocol

/-- An endpoint of this host at which the proxy receives messages over one protocol. -/
structure ListeningPoint where
  protocol : Protocol
  address : Endpoint
deriving DecidableEq, Repr

namespace ListeningPoint

def text (l : ListeningPoint) : String := l.protocol.text ++ "/" ++ l.address.text

/-- Can only one of the two be held at a time? -/
def overlaps (l m : ListeningPoint) : Bool :=
  l.protocol == m.protocol && l.address.port == m.address.port
    && l.address.ip.canonical == m.address.ip.canonical

end ListeningPoint

end SipProxy
