import SipProxy.Config.Basic
import SipProxy.Server.Relay

/-!
# Starting

A server is a relay for every configured listener; what one of them learns, all of them know. Faults
in the host addresses or the static routes refuse the whole configuration. A listener or a backend
that cannot be started is left out, and the reason is kept in `startupErrors`.

Within one server an endpoint is held once per protocol. A listener holds its UDP endpoint before
its TCP endpoint. If it does not get the second it is not started, but the first comes free only
when the server is up: no later listener of the same start gets it.
-/

namespace SipProxy

structure Server where
  /-- Resolves the hosts of hops. -/
  resolve : Resolver
  relays : List Relay
  learned : LearnedRoutes
  /-- The listeners, by address, and the backends that could not be started. -/
  startupErrors : List (String × ProxyError)

/-- Holds the endpoint of a listening point, beside those that are held already. Port 0 asks for
any free port and is never taken. -/
def ListeningPoint.bind (net : Network) (held : List ListeningPoint) (point : ListeningPoint) :
    Except TransportError (List ListeningPoint) :=
  match net.bindFault? point.protocol point.address with
  | some fault => .error (.bindFailed point.address fault)
  | none =>
    if point.address.port ≠ 0 && held.any point.overlaps then
      .error (.bindFailed point.address .addressInUse)
    else .ok (point :: held)

/-- Holds the endpoints of listening points one after another, up to the first that is refused; the
second value is what is held then. -/
def ListeningPoint.bindAll (net : Network) :
    List ListeningPoint → List ListeningPoint → Except TransportError Unit × List ListeningPoint
  | [], held => (.ok (), held)
  | point :: points, held =>
    match point.bind net held with
    | .ok held => bindAll net points held
    | .error e => (.error e, held)

namespace ListenerConfig

/-- The listening point of a protocol, if a port is configured for it. -/
def point? (protocol : Protocol) (ip : IpAddress) (port : Option UInt16) : Option ListeningPoint :=
  port.map fun port => ⟨protocol, .of ip port⟩

/-- The listening points, that of UDP first. -/
def points (c : ListenerConfig) (ip : IpAddress) : List ListeningPoint :=
  (point? .udp ip c.udpPort).toList ++ (point? .tcp ip c.tcpPort).toList

end ListenerConfig

namespace Relay

/-- A relay without backends. -/
def ofConfig (c : ListenerConfig) (engine : Engine) (ip : IpAddress) : Relay where
  engine
  udp := (ListenerConfig.point? .udp ip c.udpPort).map fun p => .of p c.receivedSupport
  tcp := (ListenerConfig.point? .tcp ip c.tcpPort).map fun p => .of p c.receivedSupport
  pool := .empty
  connections := .empty ConnectionCache.defaultIdle

/-- Opens backends at the addresses of a watched name. -/
def opener (net : Network) (r : Relay) : Opener Connection := fun protocol address =>
  (Connection.openBackend net r.udp.isSome protocol address).toOption

/-- Starts a backend: at once at a fixed address, by a watch on a name. -/
def startBackend (net : Network) (resolve : Resolver) (interval : Nat) (target : Hop) (r : Relay) :
    Except ProxyError Unit × Relay :=
  match target.ip? with
  | some ip =>
    match Connection.openBackend net r.udp.isSome target.protocol (.of ip target.port) with
    | .ok b => (.ok (), { r with pool := { r.pool with pool := r.pool.pool.add b } })
    | .error e => (.error (.transport e), r)
  | none =>
    let started := r.pool.watch resolve (r.opener net) target interval
    (started.1, { r with pool := started.2.1 })

/-- Starts backends one after another; gives those that could not be started. -/
def startBackends (net : Network) (resolve : Resolver) (interval : Nat) :
    List Hop → Relay → List (String × ProxyError) × Relay
  | [], r => ([], r)
  | target :: targets, r =>
    let first := r.startBackend net resolve interval target
    let rest := startBackends net resolve interval targets first.2
    match first.1 with
    | .ok () => rest
    | .error e => ((target.targetText, e) :: rest.1, rest.2)

end Relay

/-- A listener that was started. -/
structure StartedListener where
  relay : Relay
  /-- The backends that could not be started. -/
  errors : List (String × ProxyError)

/-- The address of a listener and its backends, if all can be read. -/
def ListenerConfig.plan (c : ListenerConfig) : Except ProxyError (IpAddress × List Hop) := do
  c.check
  return (← c.ip, ← c.targets)

/-- Starts a listener; the second value is what is held then, also if it could not be started. -/
def ListenerConfig.start (net : Network) (resolve : Resolver) (interval : Nat) (engine : Engine)
    (held : List ListeningPoint) (c : ListenerConfig) :
    Except ProxyError StartedListener × List ListeningPoint :=
  match c.plan with
  | .ok (ip, targets) =>
    match ListeningPoint.bindAll net (c.points ip) held with
    | (.ok (), held) =>
      let started := (Relay.ofConfig c engine ip).startBackends net resolve interval targets
      (.ok ⟨started.2, started.1⟩, held)
    | (.error e, held) => (.error (.transport e), held)
  | .error e => (.error e, held)

namespace Server

/-- The server before its listeners. -/
def empty (resolve : Resolver) : Server := ⟨resolve, [], Table.empty, []⟩

/-- Bound listening points of all relays. -/
def points (s : Server) : List ListeningPoint := s.relays.flatMap Relay.points

def isRunning (s : Server) : Bool := !s.relays.isEmpty

/-- The engine of a listener. -/
def engine (c : ProxyConfig) (routes : StaticRoutes) (l : ListenerConfig) : Engine :=
  ⟨c.names ++ l.destinations, routes, l.defaultRoute⟩

/-- Takes the outcome of starting a listener at this address. -/
def withListener (address : String) (outcome : Except ProxyError StartedListener) (s : Server) :
    Server :=
  match outcome with
  | .ok started =>
    { s with
      relays := s.relays ++ [started.relay]
      startupErrors := s.startupErrors ++ started.errors }
  | .error e => { s with startupErrors := s.startupErrors ++ [(address, e)] }

/-- Starts listeners one after another, beside what is held already. -/
def startListeners (net : Network) (c : ProxyConfig) (routes : StaticRoutes) :
    List ListenerConfig → List ListeningPoint → Server → Server
  | [], _, s => s
  | l :: ls, held, s =>
    let started :=
      l.start net s.resolve (max c.resolveInterval 1) (engine c routes l) held
    startListeners net c routes ls started.2 (s.withListener l.address started.1)

/-- The host table of a configuration. -/
def hostTable (c : ProxyConfig) : Except ProxyError HostTable :=
  (c.hosts.mapM fun h : HostConfig => h.address.map fun ip => (h.name, ip)).map HostTable.ofList

/-- Starts a server on the network of this host. -/
def start (net : Network) (c : ProxyConfig) : Except ProxyError Server := do
  let hosts ← hostTable c
  let routes ← StaticRoutes.ofConfig c.routes
  return startListeners net c routes c.listeners [] (empty (hosts.resolver net.lookup))

end Server

end SipProxy
