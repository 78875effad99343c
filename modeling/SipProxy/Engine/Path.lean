import SipProxy.Digest.Branch
import SipProxy.Message.Edit
import SipProxy.ProxyError
import SipProxy.Transport.Protocol

/-!
# Staying on the path

A proxy that wants the responses to a request puts a Via entry on it, and one that wants the later
requests of the dialog puts a Record-Route entry on it. Both name the listening point that peers are
to send to; a wildcard address is none.

The branch of the Via entry is computed from what a retransmission repeats: the branch that the
request came with, or for a request without one its Call-ID, CSeq and request URI, together with the
listening point it leaves through.
-/

namespace SipProxy

namespace ListeningPoint

/-- The URI of the listening point; a protocol other than UDP is named. -/
def uri (l : ListeningPoint) : SipUri :=
  { SipUri.ofHost (Host.ofIp l.address.ip) with
    port := l.address.port
    params := match l.protocol with
      | .udp => []
      | p => [.of "transport" p.lowerText] }

/-- The Record-Route entry that leads here. -/
def recordRoute (l : ListeningPoint) : RouteEntry := .loose l.uri

/-- The Via entry of a request that leaves through here. -/
def via (l : ListeningPoint) (branch : String) : ViaEntry :=
  let entry := ViaEntry.ofLocal l.protocol.text l.address
  { entry with params := entry.params ++ [.of "branch" branch] }

end ListeningPoint

namespace Message

/-- What the branch of a request is computed from if the request came without one. -/
def identityText (m : Message) : String :=
  (m.headerText? .callId).getD "" ++ "|" ++ (m.headerText? .cSeq).getD "" ++ "|"
    ++ m.requestUri?.getD ""

/-- The seed of the branch for a request that leaves through a listening point. -/
def branchSeed (point : ListeningPoint) (m : Message) : Except SipError String × Message :=
  match m.topVia with
  | (.ok entry, m) =>
    (.ok ((entry.bind ViaEntry.branch?).getD m.identityText ++ "|" ++ point.text), m)
  | (.error e, m) => (.error e, m)

/-- Puts a listening point on the path of a request. -/
def stayOnPath (point : ListeningPoint) (m : Message) : Except ProxyError Message :=
  if point.address.ip.isUnspecified then
    .error (.config s!"listener {point.text} has no routable address for Via and Record-Route")
  else
    match m.branchSeed point with
    | (.ok seed, m) =>
      .ok ((m.pushVia (point.via (Branch.ofSeed seed))).pushRecordRoute point.recordRoute)
    | (.error e, _) => .error (.parse e)

end Message

end SipProxy
