import SipProxy.Transport.Hop
import SipProxy.Transport.Listener
import SipProxy.Transport.Resolver

/-!
# Connections to peers

A connection is one path from this host to a hop: its host resolved once, when the connection is
opened, and messages queued for it in the order in which they are sent. For UDP it is a name for a
peer only, and opening it asks the network for nothing but a socket to send from.
-/

namespace SipProxy

structure Connection where
  hop : Hop
  /-- The endpoint that the hop's host was resolved to. -/
  remote : Endpoint
  isOpen : Bool
deriving DecidableEq, Repr

namespace Connection

/-- The endpoint of the remote's family that stands for any address and any free port. -/
def anyEndpoint : Endpoint → Endpoint
  | .v4 _ _ => .v4 ⟨0, 0, 0, 0⟩ 0
  | .v6 _ _ _ => .v6 ⟨[0, 0, 0, 0, 0, 0, 0, 0], rfl⟩ 0 0

/-- What the network says to a connection of the protocol. With `sharesSocket`, datagrams leave from
a socket that is there already. -/
def reach (net : Network) (sharesSocket : Bool) (protocol : Protocol) (remote : Endpoint) :
    Except TransportError Unit :=
  match protocol with
  | .udp =>
    if sharesSocket then .ok ()
    else match net.bindFault? .udp (anyEndpoint remote) with
      | some fault => .error (.bindFailed (anyEndpoint remote) fault)
      | none => .ok ()
  | .tcp =>
    match net.peerFault? .tcp remote with
    | some fault => .error (.sendFailed remote fault)
    | none => .ok ()
  | .tls => .error (.unsupportedProtocol Protocol.tls.text)

/-- Resolves the host of a hop, of several endpoints to the first, and opens a connection. -/
def connect (net : Network) (resolve : Resolver) (sharesSocket : Bool) (hop : Hop) :
    Except TransportError Connection := do
  match ← resolve hop.host hop.port with
  | [] => throw (.resolveFailed hop.host "no addresses")
  | remote :: _ =>
    reach net sharesSocket hop.protocol remote
    return ⟨hop, remote, true⟩

/-- Queues a message; what becomes of it on the way is not seen. -/
def send (c : Connection) : Except TransportError Unit :=
  if c.isOpen then .ok () else .error (.queueClosed c.hop.connectionText)

def close (c : Connection) : Connection := { c with isOpen := false }

/-- Does a queued message of these octets get through to the peer? -/
def carries (net : Network) (data : Octets) (c : Connection) : Bool :=
  match c.hop.protocol with
  | .udp => (net.sendDatagram c.remote data).isOk
  | _ => (net.peerFault? c.hop.protocol c.remote).isNone

end Connection

end SipProxy
