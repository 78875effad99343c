import SipProxy.Header.Basic

/-!
# Messages

A request or a response: a first line, header lines and a body. Lines stay in order and keep their
text, since a proxy may change only what it must; the length of the body is no field, because it is
counted when the message is written.
-/

namespace SipProxy

/-- The version this library writes. -/
def sipVersion : String := "SIP/2.0"

structure RequestLine where
  method : String
  uri : String
  version : String
deriving DecidableEq, Repr

structure StatusLine where
  version : String
  code : UInt16
  reason : String
deriving DecidableEq, Repr

inductive StartLine where
  | request (line : RequestLine)
  | response (line : StatusLine)
deriving DecidableEq, Repr

def StartLine.text : StartLine → String
  | request line => line.method ++ " " ++ line.uri ++ " " ++ line.version
  | response line => line.version ++ " " ++ toString line.code.toNat ++ " " ++ line.reason

structure Message where
  start : StartLine
  headers : Headers
  body : Octets
deriving DecidableEq, Repr

namespace Message

/-- A request without headers and body. -/
def request (method uri : String) : Message := ⟨.request ⟨method, uri, sipVersion⟩, [], []⟩

/-- A response without headers and body. -/
def response (code : UInt16) (reason : String) : Message :=
  ⟨.response ⟨sipVersion, code, reason⟩, [], []⟩

/-- Adds a header line behind the others. -/
def withHeader (m : Message) (h : Header) : Message := { m with headers := m.headers ++ [h] }

def isRequest (m : Message) : Bool :=
  match m.start with
  | .request _ => true
  | .response _ => false

def isResponse (m : Message) : Bool := !m.isRequest

def method? (m : Message) : Option String :=
  match m.start with
  | .request line => some line.method
  | .response _ => none

def code? (m : Message) : Option UInt16 :=
  match m.start with
  | .request _ => none
  | .response line => some line.code

/-- The request URI as written. -/
def requestUri? (m : Message) : Option String :=
  match m.start with
  | .request line => some line.uri
  | .response _ => none

/-- The text of the first header of the name. -/
def headerText? (m : Message) (name : HeaderName) : Option String :=
  (Headers.named? name m.headers).map Header.valueText

/-! ## Writing -/

/-- The header lines that are written: the length of the body is counted, never copied. -/
def writtenHeaders (m : Message) : Headers := m.headers.filter fun h => !h.is .contentLength

/-- Everything before the body. -/
def headText (m : Message) : String :=
  m.start.text ++ "\r\n"
    ++ String.join (m.writtenHeaders.map fun h => h.text ++ "\r\n")
    ++ "Content-Length: " ++ toString m.body.length ++ "\r\n\r\n"

/-- The message as it is sent. -/
def wire (m : Message) : Octets := Utf8.encode m.headText ++ m.body

/-- The message as text, for a body that may be none. -/
def text (m : Message) : String := m.headText ++ Utf8.decode m.body

end Message

end SipProxy
