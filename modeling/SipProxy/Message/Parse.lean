import SipProxy.Message.Framing

/-!
# Reading messages

A first line that begins with `SIP/` is a status line, any other a request line. The fields of a
status line are cut at single spaces, so that a reason may hold spaces; those of a request line at
white space of any kind and amount.
-/

namespace SipProxy

namespace StatusLine

/-- A code has three characters; whether they are all digits is left to the reader of numbers. -/
def code? (s : String) : Option UInt16 := if s.length = 3 then Decimal.word16? s else none

def parse (line : String) : Except SipError StatusLine :=
  match Text.cutFirst ' ' line.toList with
  | some (version, rest) =>
    match Text.cutFirst ' ' rest with
    | some (code, reason) =>
      match code? (String.ofList code) with
      | some code => .ok ⟨String.ofList version, code, Text.trim (String.ofList reason)⟩
      | none => .error (.malformedFirstLine s!"invalid status code in '{line}'")
    | none => .error (.malformedFirstLine line)
  | none => .error (.malformedFirstLine line)

end StatusLine

def RequestLine.parse (line : String) : Except SipError RequestLine :=
  match Text.words line with
  | [method, uri, version] => .ok ⟨method, uri, version⟩
  | _ => .error (.malformedFirstLine line)

/-- Begins a status line. -/
def isStatusText (line : String) : Bool := (Text.dropFront? ['S', 'I', 'P', '/'] line.toList).isSome

def StartLine.parse (line : String) : Except SipError StartLine :=
  if isStatusText line then (StatusLine.parse line).map .response
  else (RequestLine.parse line).map .request

/-- Reads a message; octets behind the announced body are ignored. -/
def Message.parse (s : Octets) : Except SipError Message :=
  match Line.read s with
  | none => .error (.malformedFirstLine "no line ending after first line")
  | some (first, rest) => do
    let start ← StartLine.parse (Utf8.decode first)
    match HeaderBlock.read rest with
    | .unfinished => throw (.malformedHeader "header block is not terminated")
    | .malformed e => throw e
    | .ended headers body =>
      let length ← headers.contentLength
      if body.length < length then throw (.truncatedBody length body.length)
      return ⟨start, headers, body.take length⟩

end SipProxy
