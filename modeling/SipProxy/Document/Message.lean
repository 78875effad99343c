import SipProxy.Document.Basic
import SipProxy.Message.Basic

/-!
# Messages as documents

The document form of a message shows how far it has been read: a header is its raw text or the value
that its text was read into. Numbers that are absent in a message (a port) are 0, as in the types. A
body is written as the list of its octets and read from that or from a text, of which it is the
encoding.
-/

namespace SipProxy

open Document (record)

/-! ## Parameters and URIs -/

instance : ToDocument Param := ⟨fun p => record [("name", document p.name),
  ("value", document p.value)]⟩

instance : OfDocument Param where
  ofDocument? d := do
    let fs ← d.fields? ["name", "value"]
    return ⟨← fs.get? "name", ← fs.getOr? "value" none⟩

instance : ToDocument Scheme where
  document
    | .sip => .text "Sip"
    | .sips => .text "Sips"

instance : OfDocument Scheme where
  ofDocument? d :=
    if d.isBare "Sip" then some .sip else if d.isBare "Sips" then some .sips else none

instance : ToDocument SipUri where
  document u := record [("scheme", document u.scheme), ("user", document u.user),
    ("password", document u.password), ("host", document u.host), ("port", document u.port),
    ("params", document u.params), ("headers", document u.headers)]

instance : OfDocument SipUri where
  ofDocument? d := do
    let fs ← d.fields? ["scheme", "user", "password", "host", "port", "params", "headers"]
    return {
      scheme := ← fs.get? "scheme"
      user := ← fs.getOr? "user" none
      password := ← fs.getOr? "password" none
      host := ← fs.get? "host"
      port := ← fs.get? "port"
      params := ← fs.get? "params"
      headers := ← fs.get? "headers" }

instance : ToDocument AbsoluteUri where
  document u := record [("scheme", document u.scheme), ("opaque", document u.opaquePart)]

instance : OfDocument AbsoluteUri where
  ofDocument? d := do
    let fs ← d.fields? ["scheme", "opaque"]
    return ⟨← fs.get? "scheme", ← fs.get? "opaque"⟩

instance : ToDocument Uri where
  document
    | .sip u => .choice "Sip" u
    | .absolute u => .choice "Absolute" u

instance : OfDocument Uri where
  ofDocument? d := (d.chosen? "Sip").map .sip <|> (d.chosen? "Absolute").map .absolute

instance : ToDocument NameAddress where
  document a := record [("display_name", document a.displayName), ("uri", document a.uri)]

instance : OfDocument NameAddress where
  ofDocument? d := do
    let fs ← d.fields? ["display_name", "uri"]
    return ⟨← fs.getOr? "display_name" none, ← fs.get? "uri"⟩

/-! ## Header values -/

instance : ToDocument RouteEntry where
  document e := record [("address", document e.address), ("params", document e.params)]

instance : OfDocument RouteEntry where
  ofDocument? d := do
    let fs ← d.fields? ["address", "params"]
    return ⟨← fs.get? "address", ← fs.get? "params"⟩

instance : ToDocument ViaEntry where
  document v := record [("protocol_name", document v.protocolName),
    ("protocol_version", document v.protocolVersion), ("transport", document v.transport),
    ("host", document v.host), ("port", document v.port), ("params", document v.params)]

instance : OfDocument ViaEntry where
  ofDocument? d := do
    let fs ← d.fields?
      ["protocol_name", "protocol_version", "transport", "host", "port", "params"]
    return {
      protocolName := ← fs.get? "protocol_name"
      protocolVersion := ← fs.get? "protocol_version"
      transport := ← fs.get? "transport"
      host := ← fs.get? "host"
      port := ← fs.get? "port"
      params := ← fs.get? "params" }

instance : ToDocument PartyAddress where
  document
    | .nameAddress a => .choice "NameAddr" a
    | .bare u => .choice "AddrSpec" u

instance : OfDocument PartyAddress where
  ofDocument? d := (d.chosen? "NameAddr").map .nameAddress <|> (d.chosen? "AddrSpec").map .bare

instance : ToDocument Party where
  document p := record [("address", document p.address), ("params", document p.params)]

instance : OfDocument Party where
  ofDocument? d := do
    let fs ← d.fields? ["address", "params"]
    return ⟨← fs.get? "address", ← fs.get? "params"⟩

instance : ToDocument CSeq where
  document c := record [("seq", document c.number), ("method", document c.method)]

instance : OfDocument CSeq where
  ofDocument? d := do
    let fs ← d.fields? ["seq", "method"]
    return ⟨← fs.get? "seq", ← fs.get? "method"⟩

instance : ToDocument HeaderValue where
  document
    | .via entries => .choice "Via" entries
    | .route entries => .choice "Route" entries
    | .recordRoute entries => .choice "RecordRoute" entries
    | .toParty party => .choice "To" party
    | .fromParty party => .choice "From" party
    | .cSeq value => .choice "CSeq" value
    | .maxForwards hops => .choice "MaxForwards" hops.left

instance : OfDocument HeaderValue where
  ofDocument? d :=
    (d.chosen? "Via").map .via <|> (d.chosen? "Route").map .route
      <|> (d.chosen? "RecordRoute").map .recordRoute <|> (d.chosen? "To").map .toParty
      <|> (d.chosen? "From").map .fromParty <|> (d.chosen? "CSeq").map .cSeq
      <|> (d.chosen? "MaxForwards").map fun n => .maxForwards ⟨n⟩

/-! ## Messages -/

instance : ToDocument HeaderName where
  document
    | .via => .text "Via"
    | .route => .text "Route"
    | .recordRoute => .text "RecordRoute"
    | .toParty => .text "To"
    | .fromParty => .text "From"
    | .cSeq => .text "CSeq"
    | .maxForwards => .text "MaxForwards"
    | .contentLength => .text "ContentLength"
    | .callId => .text "CallId"
    | .contact => .text "Contact"
    | .contentType => .text "ContentType"
    | .other name => .choice "Other" name

instance : ToDocument Slot where
  document
    | .raw text => .choice "Raw" text
    | .typed value => .choice "Typed" value

instance : OfDocument Slot where
  ofDocument? d := (d.chosen? "Raw").map .raw <|> (d.chosen? "Typed").map .typed

instance : ToDocument Header where
  document h := record [("name", document h.name), ("value", document h.slot)]

instance : OfDocument Header where
  ofDocument? d := do
    let fs ← d.fields? ["name", "value"]
    return ⟨← fs.get? "name", ← fs.get? "value"⟩

instance : ToDocument RequestLine where
  document l := record [("method", document l.method), ("uri", document l.uri),
    ("version", document l.version)]

instance : OfDocument RequestLine where
  ofDocument? d := do
    let fs ← d.fields? ["method", "uri", "version"]
    return ⟨← fs.get? "method", ← fs.get? "uri", ← fs.get? "version"⟩

instance : ToDocument StatusLine where
  document l := record [("version", document l.version), ("status_code", document l.code),
    ("reason", document l.reason)]

instance : OfDocument StatusLine where
  ofDocument? d := do
    let fs ← d.fields? ["version", "status_code", "reason"]
    return ⟨← fs.get? "version", ← fs.get? "status_code", ← fs.get? "reason"⟩

instance : ToDocument StartLine where
  document
    | .request l => .choice "Request" l
    | .response l => .choice "Response" l

instance : OfDocument StartLine where
  ofDocument? d := (d.chosen? "Request").map .request <|> (d.chosen? "Response").map .response

/-- The body that a document spells. -/
def Message.bodyOf? : Document → Option Octets
  | .text s => some (Utf8.encode s)
  | d => ofDocument? d

instance : ToDocument Message where
  document m := record [("start_line", document m.start), ("headers", document m.headers),
    ("body", document m.body)]

instance : OfDocument Message where
  ofDocument? d := do
    let fs ← d.fields? ["start_line", "headers", "body"]
    return ⟨← fs.get? "start_line", ← fs.get? "headers", ← (fs "body").bind Message.bodyOf?⟩

end SipProxy
