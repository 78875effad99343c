import SipProxy.Backend.Pool
import SipProxy.Transport.Connection

/-!
# Backends over connections

A backend of the running proxy is a connection to a fixed address: no name is looked up again when
it is opened. It is known in its pool by the address that the connection reaches.
-/

namespace SipProxy

/-- A backend is known by the endpoint that its connection was opened to. -/
instance : Addressed Connection := ⟨Connection.remote⟩

/-- Opens a backend of a protocol at an address. -/
def Connection.openBackend (net : Network) (sharesSocket : Bool) (protocol : Protocol)
    (address : Endpoint) : Except TransportError Connection :=
  connect net (HostTable.resolver Table.empty net.lookup) sharesSocket
    ⟨protocol, address.ip.text, address.port⟩

end SipProxy
