/-!
# Faults of a message

Everything that can be wrong with a message or a piece of one. The constructor says what kind of
thing is at fault and carries the text to show; `message` is the only place where the two are put
into words.
-/

namespace SipProxy

inductive SipError where
  /-- The first line is neither a request line nor a status line. -/
  | malformedFirstLine (text : String)
  /-- A header line has no name, or a header holds a value of another kind. -/
  | malformedHeader (text : String)
  /-- The length of the body is missing, no number or too large. -/
  | invalidContentLength (text : String)
  /-- The body ends before its announced length. -/
  | truncatedBody (expected actual : Nat)
  /-- A URI parameter or URI header lacks the value it must have. -/
  | invalidParameter (text : String)
  | invalidUri (text : String)
  /-- A value of Via, Route, Record-Route, To or From does not follow its grammar. -/
  | malformedEntry (text : String)
  /-- The header holds no entry that could be taken off. -/
  | noEntry (header : String)
  | missingHeader (header : String)
  /-- A value of CSeq or Max-Forwards is not what the header must hold. -/
  | invalidHeader (header reason : String)
deriving DecidableEq, Repr

namespace SipError

def message : SipError → String
  | malformedFirstLine text => "Malformed first line: " ++ text
  | malformedHeader text => "Malformed header: " ++ text
  | invalidContentLength text => "Invalid Content-Length: " ++ text
  | truncatedBody expected actual => s!"Truncated body: expected {expected} bytes, got {actual}"
  | invalidParameter text => "Invalid parameter: " ++ text
  | invalidUri text => "Invalid URI: " ++ text
  | malformedEntry text => "Malformed entry: " ++ text
  | noEntry header => s!"No entry left in {header} header"
  | missingHeader header => "Missing header: " ++ header
  | invalidHeader header reason => s!"Invalid {header} header: {reason}"

/-- The name of the cause, for programs that read logs. -/
def name : SipError → String
  | malformedFirstLine _ => "MalformedFirstLine"
  | malformedHeader _ => "MalformedHeader"
  | invalidContentLength _ => "InvalidContentLength"
  | truncatedBody .. => "TruncatedBody"
  | invalidParameter _ => "InvalidParameter"
  | invalidUri _ => "InvalidUri"
  | malformedEntry _ => "MalformedEntry"
  | noEntry _ => "NoEntry"
  | missingHeader _ => "MissingHeader"
  | invalidHeader .. => "InvalidHeader"

/-- Is the fault in what was received, and not in what was asked of a well-formed message? -/
def isParseError : SipError → Bool
  | noEntry _ => false
  | missingHeader _ => false
  | _ => true

end SipError

end SipProxy
