import SipProxy.Message.Parse
import SipProxy.Message.Edit
import SipProxy.Table
import SipProxy.Transport.Network
import SipProxy.Transport.Stream

/-!
# Listeners

A listener holds an endpoint and turns what arrives there into messages: over UDP every datagram is
a message, over TCP every accepted stream carries any number of them. What is no message is dropped
without a word, and so is a request whose Via cannot be annotated by a listener that notes sources,
since the response could not be returned.

Messages leave over the same endpoint. Over TCP a peer is answered on the stream that it opened and
on no other.
-/

namespace SipProxy

/-- A message as it arrived. -/
structure Delivery where
  message : Message
  source : Endpoint
  /-- Where it was received. -/
  point : ListeningPoint
deriving DecidableEq, Repr

/-- The delivery that octets from a peer make, none if they are dropped. -/
def Delivery.ofOctets (point : ListeningPoint) (notesSource : Bool) (source : Endpoint)
    (data : Octets) : Option Delivery :=
  match Message.parse data with
  | .ok m =>
    if notesSource then
      match m.noteSource source with
      | (.ok (), m) => some ⟨m, source, point⟩
      | (.error _, _) => none
    else some ⟨m, source, point⟩
  | .error _ => none

/-- The largest payload of a datagram. -/
def maxDatagram : Nat := 65507

/-- Sends a datagram to a peer. -/
def Network.sendDatagram (net : Network) (peer : Endpoint) (data : Octets) :
    Except TransportError Unit :=
  if maxDatagram < data.length then .error (.packetTooLarge data.length maxDatagram)
  else match net.peerFault? .udp peer with
    | some fault => .error (.sendFailed peer fault)
    | none => .ok ()

structure Listener where
  point : ListeningPoint
  /-- Are requests annotated with where they came from? -/
  notesSource : Bool
  isOpen : Bool
  /-- The readers of accepted streams, by peer. -/
  streams : Table Endpoint StreamReader

namespace Listener

/-- A listener that holds its endpoint; nothing has arrived yet. -/
def of (point : ListeningPoint) (notesSource : Bool) : Listener := ⟨point, notesSource, true, ∅⟩

def deliver (l : Listener) (source : Endpoint) (data : Octets) : Option Delivery :=
  Delivery.ofOctets l.point l.notesSource source data

/-- Accepts a stream from a peer. -/
def accept (peer : Endpoint) (l : Listener) : Listener :=
  { l with streams := l.streams.put peer .start }

/-- Drops the stream of a peer, which ended it. -/
def hangUp (peer : Endpoint) (l : Listener) : Listener :=
  { l with streams := l.streams.erase peer }

/-- Has the peer an open stream? -/
def hasStream (peer : Endpoint) (l : Listener) : Bool := (l.streams.find? peer).isSome

/-- Takes the next piece of a peer's stream. A stream that cannot be framed is closed. -/
def receive (peer : Endpoint) (piece : Octets) (l : Listener) : List Delivery × Listener :=
  match l.streams.find? peer with
  | some reader =>
    match reader.feed piece with
    | (frames, .gaveUp) => (frames.filterMap (l.deliver peer), l.hangUp peer)
    | (frames, reader) =>
      (frames.filterMap (l.deliver peer), { l with streams := l.streams.put peer reader })
  | none => ([], l)

/-- Takes the pieces of a peer's stream one after another. -/
def receiveAll (peer : Endpoint) : List Octets → Listener → List Delivery
  | [], _ => []
  | piece :: pieces, l =>
    let r := l.receive peer piece
    r.1 ++ receiveAll peer pieces r.2

/-- What a listener delivers of what a peer sends: datagrams, or the pieces of one stream. -/
def hear (peer : Endpoint) (sent : List Octets) (l : Listener) : List Delivery :=
  match l.point.protocol with
  | .udp => sent.filterMap (l.deliver peer)
  | _ => receiveAll peer sent (l.accept peer)

/-- Sends a message from the listener's endpoint. -/
def send (net : Network) (m : Message) (peer : Endpoint) (l : Listener) :
    Except TransportError Unit :=
  if l.isOpen then
    match l.point.protocol with
    | .udp => net.sendDatagram peer m.wire
    | _ => if l.hasStream peer then .ok () else .error (.sendFailed peer .notConnected)
  else .error .closed

/-- Gives the endpoint back and drops all streams. -/
def close (l : Listener) : Listener := { l with isOpen := false, streams := ∅ }

end Listener

end SipProxy
