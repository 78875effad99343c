import SipProxy.Config.Basic
import SipProxy.Routing.Pattern
import SipProxy.Table
import SipProxy.Text.Cut

/-!
# Static routes

The next hop of a destination host: the entry of the very host, else one whose pattern matches, else
the entry `default`. Hosts are compared as they are written here. If several patterns match, the
entry that was inserted last before the others wins; an operator should not rely on it.
-/

namespace SipProxy

structure StaticRoute where
  /-- A host, a pattern of hosts, or `default`. -/
  destination : String
  hop : Hop
deriving DecidableEq, Repr

namespace StaticRoute

/-- The route to a hop, unless the destination is too large for a pattern. -/
def of (destination : String) (hop : Hop) : Except ProxyError StaticRoute :=
  if Pattern.fits destination then .ok ⟨destination, hop⟩
  else
    let reason := s!"Compiled regex exceeds size limit of {Pattern.sizeLimit} bytes."
    .error (.config s!"invalid route pattern '{destination}': {reason}")

/-- Reads `destination=host[:port]`, a route over UDP. -/
def parse (s : String) : Except ProxyError StaticRoute :=
  match Text.cutFirst '=' s.toList with
  | some (destination, hop) =>
    match Hop.parse .udp (String.ofList hop) with
    | .ok hop => of (String.ofList (Text.trimChars destination)) hop
    | .error e => .error e
  | none => .error (.config s!"invalid route '{s}'")

def ofConfig (r : RouteConfig) : Except ProxyError StaticRoute :=
  match r.hop with
  | .ok hop => of (Text.trim r.destination) hop
  | .error e => .error e

/-- Does the pattern of the route match the whole host? -/
def covers (r : StaticRoute) (host : String) : Bool := Pattern.isMatch r.destination host

end StaticRoute

/-- Next hops by destination. -/
abbrev StaticRoutes := Table String Hop

namespace StaticRoutes

/-- The destination of the route that is taken when no other is. -/
def fallback : String := "default"

def insert (r : StaticRoute) (routes : StaticRoutes) : StaticRoutes :=
  routes.put r.destination r.hop

def ofList (rs : List StaticRoute) : StaticRoutes := rs.foldl (fun t r => insert r t) Table.empty

/-- The routes of a configuration; a later one replaces an earlier one of the same destination. -/
def ofConfig (rs : List RouteConfig) : Except ProxyError StaticRoutes :=
  (rs.mapM StaticRoute.ofConfig).map ofList

/-- The hop of the first entry that is a pattern and matches the host. -/
def byPattern? (routes : StaticRoutes) (host : String) : Option Hop :=
  (routes.entries.find? fun e => Pattern.hasStar e.1 && Pattern.isMatch e.1 host).map Prod.snd

def find (routes : StaticRoutes) (host : String) : Except ProxyError Hop :=
  match routes.find? host with
  | some hop => .ok hop
  | none =>
    match routes.byPattern? host with
    | some hop => .ok hop
    | none =>
      match routes.find? fallback with
      | some hop => .ok hop
      | none => .error (.routeNotFound host)

end StaticRoutes

end SipProxy
