import SipProxy.Document.Basic

/-!
# Writing documents

A document is written on one line without white space. Inside a string a quote, a backslash and the
control characters below U+0020 are escaped and no other character is.
-/

namespace SipProxy.Document

/-- A digit of a `\u` escape. -/
def hexDigits (n : Nat) : List Char := [Nat.digitChar (n / 16), Nat.digitChar (n % 16)]

/-- A character as it stands inside a string. -/
def escapeChar (c : Char) : List Char :=
  if c = '"' || c = '\\' then ['\\', c]
  else if c.toNat < 0x20 then ['\\', 'u', '0', '0'] ++ hexDigits c.toNat
  else [c]

def quote (s : String) : String :=
  "\"" ++ String.ofList (s.toList.flatMap escapeChar) ++ "\""

mutual

def print : Document → String
  | null => "null"
  | bool b => if b then "true" else "false"
  | integer n => toString n
  | real digits => digits
  | text s => quote s
  | list items => "[" ++ ",".intercalate (printItems items) ++ "]"
  | record fields => "\x7b" ++ ",".intercalate (printFields fields) ++ "\x7d"

def printItems : List Document → List String
  | [] => []
  | d :: ds => print d :: printItems ds

def printFields : List (String × Document) → List String
  | [] => []
  | (name, d) :: fs => (quote name ++ ":" ++ print d) :: printFields fs

end

end SipProxy.Document
