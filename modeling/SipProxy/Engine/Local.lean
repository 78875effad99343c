import SipProxy.Message.Edit
import SipProxy.Transport.Protocol
import SipProxy.Uri.Parse

/-!
# What belongs to the proxy

A request is the proxy's own if its request URI is one of the proxy's names as written, if it is
sent to the listening point that received it, or if the user and host, or the host alone, are a name
in any letter case. A Route entry is the proxy's own if it names the listening point that received
the message: it has brought the message here and says nothing about the way from here.
-/

namespace SipProxy

namespace ListeningPoint

/-- Do a host and a port of a message mean this listening point? -/
def isAt (l : ListeningPoint) (host : String) (port : UInt16) : Bool :=
  port == l.address.port && Host.ip? host == some l.address.ip

/-- Does a SIP URI lead to this listening point? -/
def isAtUri (l : ListeningPoint) (u : SipUri) : Bool := l.isAt u.host u.resolvedPort

end ListeningPoint

/-- Is a SIP URI one of the names, by user and host or by host? -/
def SipUri.isNamed (names : List String) (u : SipUri) : Bool :=
  names.any fun name =>
    Text.sameIgnoringCase name u.userAtHost || Text.sameIgnoringCase name u.host

namespace Message

/-- Is a request that was received at `point` sent to the proxy of these names? -/
def isFor (names : List String) (point : ListeningPoint) (m : Message) : Bool :=
  match m.requestUri? with
  | some text =>
    names.contains text ||
      match Uri.parse text with
      | .ok (.sip u) => point.isAtUri u || u.isNamed names
      | _ => false
  | none => false

/-- Takes off the topmost Route entry if it names the listening point. -/
def dropOwnRoute (point : ListeningPoint) (m : Message) : Except SipError Message :=
  match m.topRoute with
  | (.ok entry, m) =>
    if (entry.bind RouteEntry.sip?).any point.isAtUri then
      match m.popRoute with
      | (.ok _, m) => .ok m
      | (.error e, _) => .error e
    else .ok m
  | (.error e, _) => .error e

end Message

end SipProxy
