import SipProxy.Table
import SipProxy.Transport.Error

/-!
# Resolving hosts

A host is an address, a name of the host table, or a name to look up, in this order. The table is
asked without regard to letter case; brackets around a host are no part of it.
-/

namespace SipProxy

/-- Every endpoint that a host and a port stand for. -/
abbrev Resolver := String → UInt16 → Except TransportError (List Endpoint)

/-- Addresses of host names that need no look-up; names are in lower case. -/
abbrev HostTable := Table String IpAddress

namespace HostTable

def add (name : String) (ip : IpAddress) (hosts : HostTable) : HostTable :=
  hosts.put name.toLower ip

def ofList (hosts : List (String × IpAddress)) : HostTable :=
  hosts.foldl (fun t h => add h.1 h.2 t) Table.empty

/-- Drops all opening brackets in front and all closing brackets behind. -/
def bare (host : String) : String :=
  String.ofList ((host.toList.dropWhile (· == '[')).reverse.dropWhile (· == ']')).reverse

/-- Resolves with the table, and with `lookup` what the table does not know. -/
def resolver (hosts : HostTable) (lookup : String → Except String (List Endpoint)) : Resolver :=
  fun host port =>
    let host := bare host
    match IpAddress.ofText? host with
    | some ip => .ok [.of ip port]
    | none =>
      match hosts.find? host.toLower with
      | some ip => .ok [.of ip port]
      | none =>
        match lookup host with
        | .ok [] => .error (.resolveFailed host "no addresses")
        | .ok found => .ok (found.map fun e => e.withPort port)
        | .error reason => .error (.resolveFailed host reason)

end HostTable

end SipProxy
