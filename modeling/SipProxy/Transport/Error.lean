import SipProxy.Ip.Endpoint

/-!
# Transport faults

What can go wrong between the proxy and its peers. `SocketFault` is what the host's network answers;
`TransportError` says what the proxy was doing when it did.
-/

namespace SipProxy

inductive SocketFault where
  | networkUnreachable
  | addressInUse
  | addressNotAvailable
  | invalidArgument
  | connectionRefused
  /-- No peer has opened a connection from the endpoint. -/
  | notConnected
deriving DecidableEq, Repr

def SocketFault.text : SocketFault → String
  | networkUnreachable => "Network is unreachable (os error 101)"
  | addressInUse => "Address already in use (os error 98)"
  | addressNotAvailable => "Cannot assign requested address (os error 99)"
  | invalidArgument => "Invalid argument (os error 22)"
  | connectionRefused => "Connection refused (os error 111)"
  | notConnected => "no connection from peer"

inductive TransportError where
  | bindFailed (address : Endpoint) (fault : SocketFault)
  | sendFailed (peer : Endpoint) (fault : SocketFault)
  /-- The listener was closed. -/
  | closed
  | packetTooLarge (size limit : Nat)
  /-- The connection of this name takes no more messages. -/
  | queueClosed (connection : String)
  | resolveFailed (host reason : String)
  /-- No such protocol, or one without connections. -/
  | unsupportedProtocol (name : String)
deriving DecidableEq, Repr

namespace TransportError

def message : TransportError → String
  | bindFailed address fault => s!"Failed to bind to {address.text}: {fault.text}"
  | sendFailed peer fault => s!"Failed to send message to {peer.text}: {fault.text}"
  | closed => "Transport closed"
  | packetTooLarge size limit => s!"Message too large: {size} bytes (max {limit})"
  | queueClosed connection => s!"Outbound queue to {connection} is closed"
  | resolveFailed host reason => s!"Failed to resolve {host}: {reason}"
  | unsupportedProtocol name => s!"Unsupported transport protocol: {name}"

/-- The name of the cause, for programs that read logs. -/
def name : TransportError → String
  | bindFailed .. => "BindFailed"
  | sendFailed .. => "SendFailed"
  | closed => "TransportClosed"
  | packetTooLarge .. => "PacketTooLarge"
  | queueClosed _ => "QueueClosed"
  | resolveFailed .. => "ResolveFailed"
  | unsupportedProtocol _ => "UnsupportedProtocol"

end TransportError

end SipProxy
