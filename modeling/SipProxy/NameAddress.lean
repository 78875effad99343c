import SipProxy.Uri.Parse

/-!
# Name-addresses

A URI in angle brackets behind an optional display name, the form every entry of Route and
Record-Route has. The URI ends at the first closing bracket, whatever stands before it.

A display name that is not made of token octets and spaces is written as a quoted string, with a
backslash before every backslash and every quote; the empty name is written as an empty quoted
string, which is why an absent name and an empty one stay apart.
-/

namespace SipProxy

structure NameAddress where
  displayName : Option String
  uri : Uri
deriving DecidableEq, Repr

namespace NameAddress

/-- A URI without a display name. -/
def ofUri (uri : Uri) : NameAddress := ⟨none, uri⟩

def sip? (a : NameAddress) : Option SipUri := a.uri.sip?

/-- Would a display name be read as something else without quotes? -/
def needsQuotes (name : String) : Bool :=
  name.isEmpty || !(Utf8.encode name).all fun b => Lexeme.isTokenOctet b || b == 0x20

/-- A character as it stands between quotes. -/
def escapeChar (c : Char) : List Char := if c = '\\' || c = '"' then ['\\', c] else [c]

/-- A text between quotes. -/
def quote (name : String) : String :=
  "\"" ++ String.ofList (name.toList.flatMap escapeChar) ++ "\""

/-- The display name with the space behind it. -/
def nameText (name : Option String) : String :=
  match name with
  | some name => (if needsQuotes name then quote name else name) ++ " "
  | none => ""

def text (a : NameAddress) : String := nameText a.displayName ++ "<" ++ a.uri.text ++ ">"

end NameAddress

namespace Lexeme

open Reader

/-- Tokens with spaces between and behind them. -/
def tokenRun : Reader Octets := fun s =>
  match s with
  | b :: _ => if isTokenOctet b then some (run (fun b => isTokenOctet b || isSpace b) s) else none
  | [] => none

/-- A display name: a quoted string, or tokens without the spaces behind the last. -/
def displayName : Reader String := fun s =>
  match quotedText s with
  | some (name, s) => some (name, spaces s)
  | none =>
    match tokenRun s with
    | some (name, s) => some (Text.trimEnd (Utf8.decode name), s)
    | none => none

/-- The octets before the first closing bracket, if there is one. -/
def toCloseAngle : Reader Octets := fun s =>
  let r := run (fun b => b != ascii '>') s
  if r.2.isEmpty then none else some r

/-- A display name, if any, and the octets between angle brackets. -/
def bracketed : Reader (Option String × Octets) := fun s =>
  let name := optional displayName (spaces s)
  match openAngle name.2 with
  | some s =>
    match toCloseAngle s with
    | some (uri, s) => (closeAngle s).map fun s => ((name.1, uri), s)
    | none => none
  | none => none

end Lexeme

namespace NameAddress

/-- The name-address that a display name and the octets between the brackets make. -/
def ofParts (parts : Option String × Octets) : Except SipError NameAddress := do
  return ⟨parts.1, ← Uri.parse (Utf8.decode parts.2)⟩

/-- Reads one name-address; only ASCII white space may stand behind it. -/
def parse (s : String) : Except SipError NameAddress :=
  match Lexeme.bracketed (Utf8.encode s) with
  | some (parts, rest) =>
    if rest.all Lexeme.isAsciiBlank then ofParts parts
    else .error (.malformedEntry s!"unexpected '{Utf8.decode rest}' after name-address")
  | none => .error (.malformedEntry s!"expected <addr-spec> in '{s}'")

end NameAddress

end SipProxy
