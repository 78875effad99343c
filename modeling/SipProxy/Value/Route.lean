import SipProxy.NameAddress

/-!
# Route and Record-Route

Both headers hold a list of name-addresses with parameters behind them: Route the proxies a request
still has to pass, Record-Route those that want to stay on the path. The entries are one type, since
a Record-Route entry becomes a Route entry of the next request unchanged.
-/

namespace SipProxy

structure RouteEntry where
  address : NameAddress
  params : Params
deriving DecidableEq, Repr

namespace RouteEntry

/-- A name-address without parameters. -/
def ofAddress (address : NameAddress) : RouteEntry := ⟨address, []⟩

/-- The entry of a proxy at this URI that leaves the request URI alone. -/
def loose (uri : SipUri) : RouteEntry :=
  ofAddress (.ofUri (.sip
    (if uri.isLoose then uri else { uri with params := uri.params ++ [.flag "lr"] })))

def sip? (e : RouteEntry) : Option SipUri := e.address.sip?

def isLoose (e : RouteEntry) : Bool := e.sip?.any SipUri.isLoose

def text (e : RouteEntry) : String := e.address.text ++ e.params.text

end RouteEntry

/-- A bracketed URI with parameters behind it. -/
def Lexeme.routeEntry : Reader ((Option String × Octets) × Params) := fun s =>
  match bracketed s with
  | some (parts, s) => some ((parts, (params s).1), (params s).2)
  | none => none

def RouteEntry.ofParts (parts : (Option String × Octets) × Params) :
    Except SipError RouteEntry := do
  return ⟨← NameAddress.ofParts parts.1, parts.2⟩

namespace Route

/-- The value of a Route or Record-Route header. -/
def text (entries : List RouteEntry) : String := ", ".intercalate (entries.map RouteEntry.text)

/-- Reads the value of the named header: one entry or more. -/
def parse (header value : String) : Except SipError (List RouteEntry) :=
  match Reader.sepBy1 Lexeme.comma Lexeme.routeEntry (Utf8.encode (Text.trim value)) with
  | some (parts, []) => parts.mapM RouteEntry.ofParts
  | some (_, rest) => .error (.malformedEntry s!"unexpected '{Utf8.decode rest}' in {header}")
  | none => .error (.malformedEntry s!"invalid {header} '{value}'")

/-- Reads a Record-Route value that has to be a single entry. -/
def parseOne (value : String) : Except SipError RouteEntry := do
  match ← parse "Record-Route" value with
  | [entry] => return entry
  | _ => throw (.malformedEntry s!"expected one entry in '{value}'")

end Route

end SipProxy
