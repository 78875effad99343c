import SipProxy.Document.Config
import SipProxy.Document.Error
import SipProxy.Document.Parse
import SipProxy.Document.Print
import SipProxy.Server.Start

/-!
# Rehearsals

A rehearsal runs a server on the isolated network and shows what it would do. It is a conversation
in lines, each a document: the first is the configuration, and every further one a message that
arrives, with the listening point (`at`), the peer (`from`) and the octets as text (`data`). It is
answered by what leaves, each with the hop that it leaves for, and by the faults of what does not.
-/

namespace SipProxy

open Document (record)

/-- A message that arrives in a rehearsal. -/
structure Arrival where
  point : String
  source : Endpoint
  data : Octets

instance : OfDocument Arrival where
  ofDocument? d := do
    let fs ← d.fields? ["at", "from", "data"]
    let source : String ← fs.get? "from"
    let data : String ← fs.get? "data"
    return ⟨← fs.get? "at", ← Endpoint.ofText? source, Utf8.encode data⟩

inductive Rehearsal where
  | unconfigured
  | running (server : Server)

namespace Rehearsal

/-- Where a transmission goes. -/
def destination (r : Relay) : Carrier → String
  | .accepted peer => (ListeningPoint.mk .tcp peer).text
  | .cached place => (r.connections.connections[place]?.map fun c => c.hop.text).getD ""
  | .backend c => c.hop.targetText

def outcome (r : Relay) (o : Except ProxyError Transmission) : Document :=
  document (o.map fun t => record [("to", document (destination r t.carrier)),
    ("data", document (Utf8.decode t.message.wire))])

/-- Lets a message arrive at a relay. -/
def arrive (s : Surroundings) (a : Arrival) (learned : LearnedRoutes) (r : Relay) : Relay.Handled :=
  if (r.udp.map fun l => l.point.text) = some a.point then
    r.receiveDatagram s a.source a.data learned
  else r.receiveStream s a.source a.data learned

/-- Has the relay a listening point of this text? -/
def listensAt (point : String) (r : Relay) : Bool := r.points.any fun p => p.text == point

/-- Lets a message arrive at the server; the second value is the answer. -/
def receive (a : Arrival) (server : Server) : Server × Document :=
  match server.relays.findIdx? (listensAt a.point) with
  | some i =>
    match server.relays[i]? with
    | some r =>
      let handled := arrive ⟨.isolated, server.resolve, 0⟩ a server.learned r
      ({ server with relays := server.relays.set i handled.2.1, learned := handled.2.2 },
        .list (handled.1.map (outcome handled.2.1)))
    | none => (server, .fault "NoListener" a.point)
  | none => (server, .fault "NoListener" a.point)

/-- What a server says about its start. -/
def startReport (server : Server) : Document := record [
  ("listening", document (server.points.map ListeningPoint.text)),
  ("failed", .list (server.startupErrors.map fun e =>
    record [("what", document e.1), ("why", document e.2)]))]

/-- Starts a server with a checked configuration. -/
def configure (c : ProxyConfig) : Except ProxyError Server := do
  c.check
  Server.start .isolated c

/-- Takes a line; the second value is the answer. -/
def step (line : String) : Rehearsal → Rehearsal × Document
  | unconfigured =>
    match (Document.parse line).bind ofDocument? with
    | some c =>
      match configure c with
      | .ok server => (running server, startReport server)
      | .error e => (unconfigured, document e)
    | none => (unconfigured, .fault "Shape" "no configuration")
  | running server =>
    match (Document.parse line).bind ofDocument? with
    | some a =>
      let r := receive a server
      (running r.1, r.2)
    | none => (running server, .fault "Shape" "no message")

end Rehearsal

end SipProxy
