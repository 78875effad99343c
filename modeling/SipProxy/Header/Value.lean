import SipProxy.Header.Name
import SipProxy.Value.CSeq
import SipProxy.Value.Hops
import SipProxy.Value.Party
import SipProxy.Value.Route
import SipProxy.Value.Via

/-!
# Header values the proxy understands

Seven headers are read into values. `HeaderKind` names them and `HeaderKind.Value` is the type each
is read into, so that one set of operations (read, write, find, change) serves all seven and still
hands out a Via list for Via and a party for To. `HeaderValue` is the sum of the seven, for a header
that keeps what it was last read as.
-/

namespace SipProxy

inductive HeaderKind where
  | via
  | route
  | recordRoute
  | toParty
  | fromParty
  | cSeq
  | maxForwards
deriving DecidableEq, Repr

inductive HeaderValue where
  | via (entries : List ViaEntry)
  | route (entries : List RouteEntry)
  | recordRoute (entries : List RouteEntry)
  | toParty (party : Party)
  | fromParty (party : Party)
  | cSeq (value : CSeq)
  | maxForwards (hops : Hops)
deriving DecidableEq, Repr

def HeaderValue.text : HeaderValue → String
  | via entries => Via.text entries
  | route entries => Route.text entries
  | recordRoute entries => Route.text entries
  | toParty party => party.text
  | fromParty party => party.text
  | cSeq value => value.text
  | maxForwards hops => hops.text

namespace HeaderKind

def name : HeaderKind → HeaderName
  | via => .via
  | route => .route
  | recordRoute => .recordRoute
  | toParty => .toParty
  | fromParty => .fromParty
  | cSeq => .cSeq
  | maxForwards => .maxForwards

/-- What a header of the kind is read into. -/
abbrev Value : HeaderKind → Type
  | via => List ViaEntry
  | route => List RouteEntry
  | recordRoute => List RouteEntry
  | toParty => Party
  | fromParty => Party
  | cSeq => CSeq
  | maxForwards => Hops

def parse : (k : HeaderKind) → String → Except SipError k.Value
  | via, text => Via.parse text
  | route, text => Route.parse "Route" text
  | recordRoute, text => Route.parse "Record-Route" text
  | toParty, text => Party.parse "To" text
  | fromParty, text => Party.parse "From" text
  | cSeq, text => CSeq.parse text
  | maxForwards, text => Hops.parse text

def wrap : (k : HeaderKind) → k.Value → HeaderValue
  | via, v => .via v
  | route, v => .route v
  | recordRoute, v => .recordRoute v
  | toParty, v => .toParty v
  | fromParty, v => .fromParty v
  | cSeq, v => .cSeq v
  | maxForwards, v => .maxForwards v

/-- The value if it is of this kind. -/
def unwrap? : (k : HeaderKind) → HeaderValue → Option k.Value
  | via, .via v => some v
  | route, .route v => some v
  | recordRoute, .recordRoute v => some v
  | toParty, .toParty v => some v
  | fromParty, .fromParty v => some v
  | cSeq, .cSeq v => some v
  | maxForwards, .maxForwards v => some v
  | _, _ => none

@[simp] theorem unwrap?_wrap (k : HeaderKind) (v : k.Value) : k.unwrap? (k.wrap v) = some v := by
  cases k <;> rfl

theorem wrap_of_unwrap? {k : HeaderKind} {w : HeaderValue} {v : k.Value}
    (h : k.unwrap? w = some v) : k.wrap v = w := by
  cases k <;> cases w <;> simp_all [unwrap?, wrap]

end HeaderKind

end SipProxy
