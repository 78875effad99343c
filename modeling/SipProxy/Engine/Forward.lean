import SipProxy.Engine.Local
import SipProxy.Engine.Path
import SipProxy.Routing.Learned
import SipProxy.Routing.StaticTable

/-!
# Forwarding decisions

`Engine.process` takes one received message and says where it goes, with Via, Route, Record-Route
and Max-Forwards changed as needed. Nothing is remembered from message to message but the learned
routes, which are learned before anything can go wrong with a message and stay learned if it does.

A response follows its Via entries. A request goes to a backend if it is the proxy's own; otherwise
it follows its Route entries, and without any the static route of the host in To.
-/

namespace SipProxy

/-- Where a processed message goes. -/
inductive Forward where
  /-- A request of the proxy's own, for one of its backends. -/
  | toBackend (m : Message)
  | relay (hop : Hop) (m : Message)
deriving DecidableEq, Repr

/-- The part of a listener that decides. -/
structure Engine where
  /-- Names the proxy answers to. -/
  names : List String
  routes : StaticRoutes
  /-- Does the listener stay on the path of requests to hosts that nothing was learned of? -/
  defaultRoute : Bool

/-- Learns where the source of a message and every host of its Via entries were seen. -/
def LearnedRoutes.learnFrom (source : Endpoint) (point : ListeningPoint) (m : Message)
    (learned : LearnedRoutes) : Except SipError Message × LearnedRoutes :=
  let learned := learned.learn source.ip.text point
  match m.viaEntries with
  | (.ok entries, m) =>
    (.ok m, entries.foldl (fun l v => l.learn (Host.unbracket v.host) point) learned)
  | (.error e, _) => (.error e, learned)

namespace SipUri

/-- The protocol to reach a URI with. -/
def protocol (u : SipUri) : Except ProxyError Protocol :=
  match u.transport? with
  | some name => Protocol.parse name
  | none =>
    match u.scheme with
    | .sips => .ok .tls
    | .sip => .ok .udp

/-- The hop that a URI leads to. -/
def hop (u : SipUri) : Except ProxyError Hop :=
  u.protocol.map fun p => Hop.of p u.host u.resolvedPort

end SipUri

/-- The hop that a Via entry wants the response at. -/
def ViaEntry.responseHop (v : ViaEntry) : Except ProxyError Hop :=
  (Protocol.parse v.transport).map fun p => Hop.of p v.responseHost v.responsePort

namespace Message

/-- Takes one hop off a request; a request without Max-Forwards has any number. -/
def spendHop (m : Message) : Except ProxyError Message :=
  match m.typed .maxForwards with
  | (.ok (some hops), m) =>
    if hops.isExhausted then .error (.tooManyHops (m.method?.getD ""))
    else .ok (m.modify .maxForwards Hops.decrement).2
  | (.ok none, m) => .ok m
  | (.error e, _) => .error (.parse e)

/-- Takes off the topmost Route entry and gives the hop that it leads to. -/
def followRoute (m : Message) : Except ProxyError (Hop × Message) :=
  match m.popRoute with
  | (.ok entry, m) =>
    match entry.sip? with
    | some u => u.hop.map fun hop => (hop, m)
    | none => .error (.noRoute s!"non-SIP route {entry.text}")
  | (.error e, _) => .error (.parse e)

/-- The hop of the static route for the host in To. -/
def followTo (routes : StaticRoutes) (m : Message) : Except ProxyError (Hop × Message) :=
  match m.typed .toParty with
  | (.ok party, m) =>
    match party.bind Party.host? with
    | some host =>
      match routes.find host with
      | .ok hop => .ok (hop, m)
      | .error _ => .error (.noRoute host)
    | none => .error (.noRoute "request without a To host")
  | (.error e, _) => .error (.parse e)

/-- The next hop of a request. -/
def nextHop (routes : StaticRoutes) (m : Message) : Except ProxyError (Hop × Message) :=
  match Headers.named? .route m.headers with
  | some _ => m.followRoute
  | none => m.followTo routes

/-- Takes the proxy's Via entry off a response and gives the hop that the next one wants it at. -/
def returnHop (m : Message) : Except ProxyError (Hop × Message) :=
  match m.popVia with
  | (.ok _, m) =>
    match m.topVia with
    | (.ok (some v), m) => v.responseHop.map fun hop => (hop, m)
    | (.ok none, _) => .error (.noRoute "response without a Via to return to")
    | (.error e, _) => .error (.parse e)
  | (.error _, _) => .error (.noRoute "response without a Via to return to")

end Message

namespace Engine

/-- The listening point that stays on the path of a request to a hop, if one does. -/
def pathPoint? (e : Engine) (point : ListeningPoint) (hop : Hop) (learned : LearnedRoutes) :
    Option ListeningPoint :=
  (learned.seenAt? hop.host).or (if e.defaultRoute then some point else none)

/-- What becomes of a request without a Route entry to this proxy. -/
def forwardRequest (e : Engine) (point : ListeningPoint) (learned : LearnedRoutes) (m : Message) :
    Except ProxyError Forward := do
  let m ← m.spendHop
  if m.isFor e.names point then
    return .toBackend (← m.stayOnPath point)
  let (hop, m) ← m.nextHop e.routes
  match e.pathPoint? point hop learned with
  | some point => return .relay hop (← m.stayOnPath point)
  | none => return .relay hop m

/-- What becomes of a message that has been learned from. -/
def forward (e : Engine) (point : ListeningPoint) (learned : LearnedRoutes) (m : Message) :
    Except ProxyError Forward :=
  match m.dropOwnRoute point with
  | .error e => .error (.parse e)
  | .ok m =>
    if m.isRequest then e.forwardRequest point learned m
    else m.returnHop.map fun r => .relay r.1 r.2

/-- Decides on a message from `source` that was received at `point`. -/
def process (e : Engine) (source : Endpoint) (point : ListeningPoint) (m : Message)
    (learned : LearnedRoutes) : Except ProxyError Forward × LearnedRoutes :=
  match learned.learnFrom source point m with
  | (.ok m, learned) => (e.forward point learned m, learned)
  | (.error e, learned) => (.error (.parse e), learned)

end Engine

end SipProxy
