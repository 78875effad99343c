import SipProxy.Backend.Open
import SipProxy.Backend.Watch
import SipProxy.Engine.Forward
import SipProxy.Transport.ConnectionCache

/-!
# Relaying

A `Relay` is one configured listener with everything it needs to pass a message on: the engine that
decides, the listening transports, the backends and the connections to other peers. Messages are
handled one at a time; of a message that cannot be passed on nothing is left but the fault and what
was learned from it.

What leaves is described by a `Transmission`. A stream peer is answered on the stream that it
opened, if the hop of a message is the endpoint at its other end.
-/

namespace SipProxy

/-- What carries a message away. -/
inductive Carrier where
  /-- The stream that the peer opened. -/
  | accepted (peer : Endpoint)
  /-- The connection at this place of the cache. -/
  | cached (place : Nat)
  | backend (connection : Connection)
deriving DecidableEq, Repr

structure Transmission where
  carrier : Carrier
  message : Message
deriving DecidableEq, Repr

/-- What the outside gives a relay to work with. -/
structure Surroundings where
  net : Network
  resolve : Resolver
  /-- The time in milliseconds. -/
  now : Nat

structure Relay where
  engine : Engine
  udp : Option Listener
  tcp : Option Listener
  pool : WatchedPool Connection
  connections : ConnectionCache

namespace Relay

/-- The listening points, that of UDP first. -/
def points (r : Relay) : List ListeningPoint :=
  (r.udp.toList ++ r.tcp.toList).map Listener.point

/-- Opens connections; datagrams leave from the UDP listener if there is one. -/
def connect (s : Surroundings) (r : Relay) (hop : Hop) : Except TransportError Connection :=
  Connection.connect s.net s.resolve r.udp.isSome hop

/-- The peer of a hop that has opened a stream to the TCP listener. -/
def streamPeer? (hop : Hop) (r : Relay) : Option Endpoint :=
  match hop.protocol, r.tcp, hop.ip? with
  | .tcp, some l, some ip =>
    if l.hasStream (.of ip hop.port) then some (.of ip hop.port) else none
  | _, _, _ => none

/-- Sends a message to a hop on the cached connection. -/
def sendCached (s : Surroundings) (hop : Hop) (m : Message) (r : Relay) :
    Except ProxyError Transmission × Relay :=
  let found := r.connections.connection s.now (r.connect s) hop
  let r := { r with connections := found.2 }
  match found.1 with
  | .ok place => (.ok ⟨.cached place, m⟩, r)
  | .error e => (.error (.transport e), r)

/-- Sends a message to the next backend in rotation. -/
def sendToBackend (m : Message) (r : Relay) : Except ProxyError Transmission × Relay :=
  match r.pool.pool.next with
  | .ok (b, pool) =>
    let r := { r with pool := { r.pool with pool } }
    match b.send with
    | .ok () => (.ok ⟨.backend b, m⟩, r)
    | .error e => (.error (.transport e), r)
  | .error e => (.error e, r)

/-- Sends a message where the engine decided. -/
def dispatch (s : Surroundings) (f : Forward) (r : Relay) :
    Except ProxyError Transmission × Relay :=
  match f with
  | .toBackend m => r.sendToBackend m
  | .relay hop m =>
    match r.streamPeer? hop with
    | some peer => (.ok ⟨.accepted peer, m⟩, r)
    | none => r.sendCached s hop m

/-- Runs a received message through the engine and sends it on. -/
def handle (s : Surroundings) (d : Delivery) (r : Relay) (learned : LearnedRoutes) :
    Except ProxyError Transmission × Relay × LearnedRoutes :=
  match r.engine.process d.source d.point d.message learned with
  | (.ok f, learned) =>
    let sent := r.dispatch s f
    (sent.1, sent.2, learned)
  | (.error e, learned) => (.error e, r, learned)

/-- What became of messages, and the relay and the learned routes after them. -/
abbrev Handled := List (Except ProxyError Transmission) × Relay × LearnedRoutes

/-- Handles messages one after another. -/
def handleAll (s : Surroundings) : List Delivery → Relay → LearnedRoutes → Handled
  | [], r, learned => ([], r, learned)
  | d :: ds, r, learned =>
    let first := r.handle s d learned
    let rest := handleAll s ds first.2.1 first.2.2
    (first.1 :: rest.1, rest.2)

/-- Takes a datagram from a peer. -/
def receiveDatagram (s : Surroundings) (source : Endpoint) (data : Octets) (r : Relay)
    (learned : LearnedRoutes) : Handled :=
  match r.udp with
  | some l => r.handleAll s (l.deliver source data).toList learned
  | none => ([], r, learned)

/-- Takes the next piece of a stream that a peer opened; the first piece opens it. -/
def receiveStream (s : Surroundings) (source : Endpoint) (piece : Octets) (r : Relay)
    (learned : LearnedRoutes) : Handled :=
  match r.tcp with
  | some l =>
    let received := (if l.hasStream source then l else l.accept source).receive source piece
    handleAll s received.1 { r with tcp := some received.2 } learned
  | none => ([], r, learned)

/-- Where a message that a peer sends back on one of the relay's own streams is said to be received:
at the TCP listener, or without one at the UDP listener. -/
def inboundPoint? (r : Relay) : Option ListeningPoint :=
  (r.tcp.or r.udp).map Listener.point

/-- Takes whole messages that a peer sent back on one of the relay's own streams. -/
def receiveBack (s : Surroundings) (source : Endpoint) (frames : List Octets) (r : Relay)
    (learned : LearnedRoutes) : Handled :=
  match r.inboundPoint? with
  | some point => r.handleAll s (frames.filterMap (Delivery.ofOctets point false source)) learned
  | none => ([], r, learned)

end Relay

end SipProxy
