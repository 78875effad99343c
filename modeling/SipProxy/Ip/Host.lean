import SipProxy.Ip.Address

/-!
# Host text

A host in a SIP message is a name, a dotted quad or an IPv6 address in brackets. Brackets are part
of the text there and of no other text: resolvers, routing tables and next hops hold hosts without
them.
-/

namespace SipProxy.Host

/-- The host without the brackets around it; a host bracketed on one side only stays as it is. -/
def unbracket (host : String) : String :=
  match host.toList with
  | '[' :: rest =>
    match rest.getLast? with
    | some ']' => String.ofList rest.dropLast
    | _ => host
  | _ => host

/-- An address as a message writes it. -/
def ofIp : IpAddress → String
  | .v4 ip => ip.text
  | .v6 ip => "[" ++ ip.text ++ "]"

/-- The address a host of a message is, if it is one. -/
def ip? (host : String) : Option IpAddress := IpAddress.ofText? (unbracket host)

end SipProxy.Host
