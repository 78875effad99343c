import SipProxy.Transport.Error
import SipProxy.Transport.Protocol

/-!
# The network of the host

The proxy decides what to send and where; whether an endpoint can be held, whether a peer can be
reached and what a name resolves to are answers of the host's network. They are a parameter here, a
`Network`, so that a statement about the proxy can range over all of them. Sends that the network
accepts are not promised to arrive.
-/

namespace SipProxy

structure Network where
  /-- Why the proxy cannot hold the endpoint, even while it does not hold it already. -/
  bindFault? : Protocol → Endpoint → Option SocketFault
  /-- Why no datagram and no connection of the protocol reaches the peer. -/
  peerFault? : Protocol → Endpoint → Option SocketFault
  /-- The addresses of a host name with their zones, or why there are none; ports say nothing. -/
  lookup : String → Except String (List Endpoint)

/-- Why a host on which no IPv6 address is assigned cannot use one, unless it is an IPv4 address in
disguise. -/
def Ipv6.unassignedFault? (ip : Ipv6) : Option SocketFault :=
  if ip.mapped?.isSome then none
  else if ip.isLinkLocal then some .invalidArgument
  else some .addressNotAvailable

/-- The network of a host none of whose interfaces is up: IPv4 endpoints can be held, since nothing
says which addresses are foreign, no IPv6 address is assigned, and no peer is reached. -/
def Network.isolated : Network where
  bindFault? _ address :=
    match address with
    | .v4 _ _ => none
    | .v6 ip _ _ => if ip.isUnspecified then none else ip.unassignedFault?
  peerFault? _ peer :=
    match peer with
    | .v4 _ _ => some .networkUnreachable
    | .v6 ip _ _ => some (ip.unassignedFault?.getD .networkUnreachable)
  lookup _ := .error "failed to lookup address information: Temporary failure in name resolution"

/-- The network while others on this host hold the given points. -/
def Network.sharedWith (others : List ListeningPoint) (net : Network) : Network where
  bindFault? protocol address :=
    if others.any (ListeningPoint.overlaps ⟨protocol, address⟩) then some .addressInUse
    else net.bindFault? protocol address
  peerFault? := net.peerFault?
  lookup := net.lookup

end SipProxy
