import SipProxy.Config.Basic
import SipProxy.Document.Basic

/-!
# Configurations as documents

A document has the shape of a configuration if every field that it gives has its type; fields that
it does not give take their defaults, and fields of other names are passed over. A host needs both
of its fields. Only a port may be null, which is the same as leaving it out.
-/

namespace SipProxy

open Document (record)

instance : ToDocument RouteConfig where
  document r := record [("protocol", document r.protocol),
    ("destination", document r.destination), ("next_hop", document r.nextHop)]

instance : OfDocument RouteConfig where
  ofDocument? d := do
    let fs ← d.someFields? ["protocol", "destination", "next_hop"]
    let base : RouteConfig := {}
    return ⟨← fs.getOr? "protocol" base.protocol, ← fs.getOr? "destination" base.destination,
      ← fs.getOr? "next_hop" base.nextHop⟩

instance : ToDocument HostConfig where
  document h := record [("name", document h.name), ("ip", document h.ip)]

instance : OfDocument HostConfig where
  ofDocument? d := do
    let fs ← d.fields? ["name", "ip"]
    return ⟨← fs.get? "name", ← fs.get? "ip"⟩

instance : ToDocument ListenerConfig where
  document l := record [("address", document l.address), ("udp_port", document l.udpPort),
    ("tcp_port", document l.tcpPort), ("backends", document l.backends),
    ("destinations", document l.destinations), ("default_route", document l.defaultRoute),
    ("received_support", document l.receivedSupport)]

instance : OfDocument ListenerConfig where
  ofDocument? d := do
    let fs ← d.someFields? ["address", "udp_port", "tcp_port", "backends", "destinations",
      "default_route", "received_support"]
    let base : ListenerConfig := {}
    return {
      address := ← fs.getOr? "address" base.address
      udpPort := ← fs.getOr? "udp_port" base.udpPort
      tcpPort := ← fs.getOr? "tcp_port" base.tcpPort
      backends := ← fs.getOr? "backends" base.backends
      destinations := ← fs.getOr? "destinations" base.destinations
      defaultRoute := ← fs.getOr? "default_route" base.defaultRoute
      receivedSupport := ← fs.getOr? "received_support" base.receivedSupport }

/-- The resolve interval is a machine word. -/
def ProxyConfig.interval? (fs : Fields) (default : Nat) : Option Nat :=
  match fs "resolve_interval_secs" with
  | some d => d.below? UInt64.size
  | none => some default

instance : ToDocument ProxyConfig where
  document c := record [("name", document c.name), ("listeners", document c.listeners),
    ("routes", document c.routes), ("hosts", document c.hosts),
    ("resolve_interval_secs", document c.resolveInterval)]

instance : OfDocument ProxyConfig where
  ofDocument? d := do
    let fs ← d.someFields? ["name", "listeners", "routes", "hosts", "resolve_interval_secs"]
    let base : ProxyConfig := {}
    return {
      name := ← fs.getOr? "name" base.name
      listeners := ← fs.getOr? "listeners" base.listeners
      routes := ← fs.getOr? "routes" base.routes
      hosts := ← fs.getOr? "hosts" base.hosts
      resolveInterval := ← ProxyConfig.interval? fs base.resolveInterval }

end SipProxy
