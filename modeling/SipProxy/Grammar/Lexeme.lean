import SipProxy.Grammar.Reader

/-!
# Lexemes

The character classes, separators and quoted strings of RFC 3261, section 25.1, over octets. White
space inside a header value is a space or a tab and nothing else; a line break never reaches these
rules, because a header is one line.

A quoted string is read in two ways. In a parameter it is kept as written, quotes and backslashes
included (`quotedRaw`), since nothing in the proxy needs its meaning. As a display name it is
unescaped (`quotedText`): a backslash takes one octet, and every piece between backslashes is
decoded on its own, so a backslash inside the octets of a character splits that character.
-/

namespace SipProxy.Lexeme

open Reader

/-! ## Classes of octets -/

/-- The octet of an ASCII character. -/
def ascii (c : Char) : UInt8 := UInt8.ofNat c.toNat

def isAlpha (b : UInt8) : Bool := (0x41 ≤ b && b ≤ 0x5A) || (0x61 ≤ b && b ≤ 0x7A)

def isDigit (b : UInt8) : Bool := 0x30 ≤ b && b ≤ 0x39

def isAlnum (b : UInt8) : Bool := isAlpha b || isDigit b

def isHexDigit (b : UInt8) : Bool :=
  isDigit b || (0x41 ≤ b && b ≤ 0x46) || (0x61 ≤ b && b ≤ 0x66)

/-- Is the octet one of these ASCII characters? -/
def isOneOf (cs : List Char) (b : UInt8) : Bool := cs.any fun c => ascii c == b

/-- A space or a tab. -/
def isSpace (b : UInt8) : Bool := b == 0x20 || b == 0x09

/-- ASCII white space in the wide sense: line feed, form feed and carriage return too. -/
def isAsciiBlank (b : UInt8) : Bool := isSpace b || b == 0x0A || b == 0x0C || b == 0x0D

/-- Octets of a token: method, transport, parameter name, unquoted display name. -/
def isTokenOctet (b : UInt8) : Bool :=
  isAlnum b || isOneOf ['-', '.', '!', '%', '*', '_', '+', '\x60', '\x27', '~'] b

/-- Ends every unquoted part of a URI or parameter. -/
def isBreak (b : UInt8) : Bool := isOneOf ['<', '>', ',', '"', ' ', '\t', '\r', '\n'] b

/-- Octets of an unquoted parameter value. -/
def isParamOctet (b : UInt8) : Bool := !(isBreak b || isOneOf [';', '=', '?', '&'] b)

/-! ## Separators and tokens -/

/-- Passes over spaces and tabs, if any. -/
def spaces (s : Octets) : Octets := s.dropWhile isSpace

/-- Passes over at least one space or tab. -/
def spaces1 : Skipper := fun s => (run1 isSpace s).map Prod.snd

/-- An ASCII character with spaces allowed on both sides. -/
def separator (c : Char) : Skipper := fun s => (octet (ascii c) (spaces s)).map spaces

def slash : Skipper := separator '/'
def equal : Skipper := separator '='
def comma : Skipper := separator ','
def semi : Skipper := separator ';'
def colon : Skipper := separator ':'

/-- An opening angle bracket; what follows it is not spaced. -/
def openAngle : Skipper := fun s => octet (ascii '<') (spaces s)

/-- A closing angle bracket; what precedes it is not spaced. -/
def closeAngle : Skipper := fun s => (octet (ascii '>') s).map spaces

def token : Reader Octets := run1 isTokenOctet

def digits : Reader Octets := run1 isDigit

/-! ## Quoted strings -/

/-- Octets that stand for themselves between quotes. -/
def isPlain (b : UInt8) : Bool := !isOneOf ['"', '\\'] b

/-- What stands before the closing quote, as written, the quote included. -/
def rawToQuote : Reader Octets
  | 0x22 :: s => some ([0x22], s)
  | 0x5C :: b :: s => (rawToQuote s).map fun p => (0x5C :: b :: p.1, p.2)
  | [0x5C] => none
  | b :: s => (rawToQuote s).map fun p => (b :: p.1, p.2)
  | [] => none

/-- A quoted string as written. -/
def quotedRaw : Reader Octets
  | 0x22 :: s => (rawToQuote s).map fun p => (0x22 :: p.1, p.2)
  | _ => none

/-- The pieces before the closing quote: an escaped octet, or a run of plain ones. -/
def piecesToQuote : Reader (List Octets)
  | 0x22 :: s => some ([], s)
  | 0x5C :: b :: s => (piecesToQuote s).map fun p => ([b] :: p.1, p.2)
  | [0x5C] => none
  | b :: s =>
    (piecesToQuote (s.dropWhile isPlain)).map fun p => ((b :: s.takeWhile isPlain) :: p.1, p.2)
  | [] => none
termination_by s => s.length
decreasing_by
  · simp only [List.length_cons]; omega
  · have := (List.dropWhile_sublist isPlain (l := s)).length_le
    simp only [List.length_cons]; omega

/-- The text of a quoted string. -/
def quotedText : Reader String
  | 0x22 :: s => (piecesToQuote s).map fun p => (String.join (p.1.map Utf8.decode), p.2)
  | _ => none

end SipProxy.Lexeme
