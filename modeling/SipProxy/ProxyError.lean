import SipProxy.SipError
import SipProxy.Transport.Error

/-!
# Faults of the proxy

Why the proxy does not start, or why it drops a message. Faults of a message and of a transport keep
their own causes inside.
-/

namespace SipProxy

inductive ProxyError where
  | parse (e : SipError)
  /-- Nothing says where the message goes. -/
  | noRoute (reason : String)
  | noBackend
  /-- A request of this method used up its hops. -/
  | tooManyHops (method : String)
  | transport (e : TransportError)
  | routeNotFound (destination : String)
  | config (text : String)
  | resolve (host reason : String)
deriving DecidableEq, Repr

namespace ProxyError

def message : ProxyError → String
  | parse e => "Parse error: " ++ e.message
  | noRoute reason => "No route for " ++ reason
  | noBackend => "No backend available"
  | tooManyHops method => s!"Max-Forwards exhausted for {method} request"
  | transport e => "Transport error: " ++ e.message
  | routeNotFound destination => "No static route matches " ++ destination
  | config text => "Configuration error: " ++ text
  | resolve host reason => s!"Failed to resolve {host}: {reason}"

/-- The name of the cause, behind the part it comes from if that is not the proxy itself. -/
def name : ProxyError → String
  | parse e => "Parse." ++ e.name
  | noRoute _ => "NoRoute"
  | noBackend => "NoBackend"
  | tooManyHops _ => "TooManyHops"
  | transport e => "Transport." ++ e.name
  | routeNotFound _ => "RouteNotFound"
  | config _ => "Config"
  | resolve .. => "Resolve"

/-- Does the fault drop the message at hand and nothing else? -/
def isMessageError : ProxyError → Bool
  | parse _ => true
  | noRoute _ => true
  | noBackend => true
  | tooManyHops _ => true
  | routeNotFound _ => true
  | _ => false

end ProxyError

end SipProxy
