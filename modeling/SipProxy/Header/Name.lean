import SipProxy.SipError
import SipProxy.Text.Case

/-!
# Header names

A header is found by its name in any letter case and, for the headers that have one, by its compact
form of one letter. Names the proxy has no use for are compared by their text.
-/

namespace SipProxy

inductive HeaderName where
  | via
  | route
  | recordRoute
  | toParty
  | fromParty
  | cSeq
  | maxForwards
  | contentLength
  | callId
  | contact
  | contentType
  | other (name : String)
deriving DecidableEq, Repr

namespace HeaderName

/-- The full form of the name. -/
def text : HeaderName → String
  | via => "Via"
  | route => "Route"
  | recordRoute => "Record-Route"
  | toParty => "To"
  | fromParty => "From"
  | cSeq => "CSeq"
  | maxForwards => "Max-Forwards"
  | contentLength => "Content-Length"
  | callId => "Call-ID"
  | contact => "Contact"
  | contentType => "Content-Type"
  | other name => name

/-- The known name that a text in lower case writes, in full or in compact form. -/
def known? (lower : String) : Option HeaderName :=
  match lower with
  | "via" | "v" => some via
  | "route" => some route
  | "record-route" => some recordRoute
  | "to" | "t" => some toParty
  | "from" | "f" => some fromParty
  | "cseq" => some cSeq
  | "max-forwards" => some maxForwards
  | "content-length" | "l" => some contentLength
  | "call-id" | "i" => some callId
  | "contact" | "m" => some contact
  | "content-type" | "c" => some contentType
  | _ => none

/-- The name that a text writes. -/
def ofText (written : String) : HeaderName := (known? written.toLower).getD (other written)

/-- Reads a name; only the empty text is none. -/
def parse (written : String) : Except SipError HeaderName :=
  if written.isEmpty then .error (.malformedHeader "empty header name") else .ok (ofText written)

/-- Does the text write this name? -/
def isWrittenAs (name : HeaderName) (written : String) : Bool :=
  match ofText written with
  | other theirs =>
    match name with
    | other ours => !written.isEmpty && Text.sameIgnoringCase ours theirs
    | _ => false
  | known => known == name

end HeaderName

end SipProxy
