import SipProxy.Ip.Address
import SipProxy.Transport.Hop

/-!
# Configuration

What an operator writes down: the names the proxy answers to, where it listens and what it serves
there, static routes, and addresses of hosts. The record holds texts as they were written; the
functions here read them, and each says what is wrong with the text it reads.

`ProxyConfig.check` reads every text once, so that a configuration can be refused before anything is
started.
-/

namespace SipProxy

/-- A static route. -/
structure RouteConfig where
  protocol : String := "udp"
  /-- A host, a pattern of hosts, or `default`. -/
  destination : String := ""
  /-- `host[:port]` -/
  nextHop : String := ""
deriving DecidableEq, Repr

/-- The address of a host name. -/
structure HostConfig where
  name : String
  ip : String
deriving DecidableEq, Repr

/-- An address to listen at, and what is served there. -/
structure ListenerConfig where
  /-- Also written into Via and Record-Route, so it has to be one that peers can send to. -/
  address : String := "127.0.0.1"
  udpPort : Option UInt16 := none
  tcpPort : Option UInt16 := none
  /-- What owned requests are balanced over, each `[protocol://]host[:port]`. -/
  backends : List String := []
  /-- Further names that belong to this listener alone. -/
  destinations : List String := []
  /-- Does the listener stay on the path of requests to hosts that nothing was learned of? -/
  defaultRoute : Bool := false
  /-- Are received requests annotated with where they came from? -/
  receivedSupport : Bool := false
deriving DecidableEq, Repr

structure ProxyConfig where
  /-- Names the proxy answers to, commas between them. -/
  name : String := ""
  listeners : List ListenerConfig := []
  routes : List RouteConfig := []
  hosts : List HostConfig := []
  /-- Seconds from one resolution of a backend's host to the next. -/
  resolveInterval : Nat := 30
deriving DecidableEq, Repr

/-! ## Reading the texts -/

/-- The next hop of a route. -/
def RouteConfig.hop (r : RouteConfig) : Except ProxyError Hop := do
  Hop.parse (← Protocol.parse r.protocol) r.nextHop

def HostConfig.address (h : HostConfig) : Except ProxyError IpAddress :=
  match IpAddress.ofText? (Text.trim h.ip) with
  | some ip => .ok ip
  | none => .error (.config s!"invalid address '{h.ip}' for host {h.name}")

namespace ListenerConfig

def ip (l : ListenerConfig) : Except ProxyError IpAddress :=
  match IpAddress.ofText? (Text.trim l.address) with
  | some ip => .ok ip
  | none => .error (.config s!"invalid listener address '{l.address}'")

/-- The backends of the listener. -/
def targets (l : ListenerConfig) : Except ProxyError (List Hop) := l.backends.mapM Hop.parseTarget

/-- Reads all texts of a listener; the error is that of the first at fault. -/
def check (l : ListenerConfig) : Except ProxyError Unit := do
  if (← l.ip).isUnspecified then
    throw (.config
      s!"listener address {l.address} is unspecified, bind a concrete interface address")
  if l.udpPort.isNone && l.tcpPort.isNone then
    throw (.config s!"listener {l.address} has neither udp_port nor tcp_port")
  discard l.targets

end ListenerConfig

namespace ProxyConfig

/-- The names, without the white space around them; an empty one is none. -/
def names (c : ProxyConfig) : List String :=
  ((c.name.toList.splitOn ',').map fun name => String.ofList (Text.trimChars name)).filter
    fun name => !name.isEmpty

/-- Reads all texts of a configuration; the error is that of the first at fault. -/
def check (c : ProxyConfig) : Except ProxyError Unit := do
  if c.listeners.isEmpty then throw (.config "no listeners configured")
  c.listeners.forM ListenerConfig.check
  c.routes.forM fun route => discard route.hop
  c.hosts.forM fun host => discard host.address
  if c.resolveInterval = 0 then throw (.config "resolve_interval_secs must be positive")

end ProxyConfig

end SipProxy
