import SipProxy.Document.Basic
import SipProxy.Text.Hex

/-!
# Reading documents

Reading follows the grammar of RFC 8259 with one character of look-ahead; nothing but white space
may stand behind the document. The depth of recursion is bounded by the length of the text, which
every step shortens, so the bound never shows. A string is bounded by the text that it stands in
front of, which need not be counted.
-/

namespace SipProxy.Document

def isSpace (c : Char) : Bool := c == ' ' || c == '\t' || c == '\n' || c == '\r'

def skipSpace (s : List Char) : List Char := s.dropWhile isSpace

/-- The value of four hexadecimal digits in front. -/
def takeHex4 : List Char → Option (Nat × List Char)
  | a :: b :: c :: d :: s => (Hex.ofDigits? [a, b, c, d]).map fun n => (n, s)
  | _ => none

/-- The character of an escape `\u`; above U+FFFF it is spelt by a pair of them. -/
def takeUnicode (s : List Char) : Option (Char × List Char) :=
  match takeHex4 s with
  | some (n, s) =>
    if 0xD800 ≤ n && n < 0xDC00 then
      match s with
      | '\\' :: 'u' :: s =>
        match takeHex4 s with
        | some (m, s) =>
          if 0xDC00 ≤ m && m < 0xE000 then
            some (Char.ofNat (0x10000 + (n - 0xD800) * 0x400 + (m - 0xDC00)), s)
          else none
        | none => none
      | _ => none
    else if 0xDC00 ≤ n && n < 0xE000 then none
    else some (Char.ofNat n, s)
  | none => none

/-- The character that an escape without digits stands for. -/
def simpleEscape? : Char → Option Char
  | '"' => some '"'
  | '\\' => some '\\'
  | '/' => some '/'
  | 'b' => some '\x08'
  | 'f' => some '\x0c'
  | 'n' => some '\n'
  | 'r' => some '\r'
  | 't' => some '\t'
  | _ => none

/-- A character inside a string, and what follows it. -/
def takeChar : List Char → Option (Char × List Char)
  | '\\' :: 'u' :: s => takeUnicode s
  | '\\' :: c :: s => (simpleEscape? c).map fun d => (d, s)
  | c :: s => if c.toNat < 0x20 || c == '\\' then none else some (c, s)
  | [] => none

/-- The characters up to the closing quote, which is sought no further than `room` reaches. -/
def takeString : (room : List Char) → List Char → Option (List Char × List Char)
  | [], _ => none
  | _, '"' :: s => some ([], s)
  | _ :: room, s =>
    match takeChar s with
    | some (c, s) => (takeString room s).map fun r => (c :: r.1, r.2)
    | none => none

/-- Digits in front, at least one. -/
def takeDigits (s : List Char) : Option (List Char × List Char) :=
  let ds := s.takeWhile Char.isDigit
  if ds.isEmpty then none else some (ds, s.dropWhile Char.isDigit)

/-- The digits before the point; no zero stands in front of others. -/
def takeWhole (s : List Char) : Option (List Char × List Char) :=
  match takeDigits s with
  | some ('0' :: _ :: _, _) => none
  | r => r

/-- A point and digits, or nothing. -/
def takeFraction : List Char → Option (List Char × List Char)
  | '.' :: s => (takeDigits s).map fun r => ('.' :: r.1, r.2)
  | s => some ([], s)

/-- The sign of an exponent. -/
def takeSign : List Char → List Char × List Char
  | '+' :: s => (['+'], s)
  | '-' :: s => (['-'], s)
  | s => ([], s)

/-- An exponent, or nothing. -/
def takeExponent : List Char → Option (List Char × List Char)
  | c :: s =>
    if c == 'e' || c == 'E' then
      let sign := takeSign s
      (takeDigits sign.2).map fun r => (c :: sign.1 ++ r.1, r.2)
    else some ([], c :: s)
  | [] => some ([], [])

/-- A number without its sign. -/
def takeNumber (negative : Bool) (s : List Char) : Option (Document × List Char) := do
  let (whole, s) ← takeWhole s
  let (fraction, s) ← takeFraction s
  let (exponent, s) ← takeExponent s
  let n := Nat.ofDigitChars 10 whole 0
  if fraction.isEmpty && exponent.isEmpty && !(negative && n == 0) then
    return (.integer (if negative then -n else n), s)
  else
    let sign := if negative then ['-'] else []
    return (.real (String.ofList (sign ++ whole ++ fraction ++ exponent)), s)

/-- The rest behind a word in front. -/
def word (w : List Char) (d : Document) (s : List Char) : Option (Document × List Char) :=
  if w.isPrefixOf s then some (d, s.drop w.length) else none

mutual

/-- A value, white space in front allowed. -/
def takeValue : Nat → List Char → Option (Document × List Char)
  | 0, _ => none
  | fuel + 1, s =>
    match skipSpace s with
    | '{' :: s =>
      match skipSpace s with
      | '}' :: s => some (.record [], s)
      | s => (takeFields fuel s).map fun r => (.record r.1, r.2)
    | '[' :: s =>
      match skipSpace s with
      | ']' :: s => some (.list [], s)
      | s => (takeItems fuel s).map fun r => (.list r.1, r.2)
    | '"' :: s => (takeString s s).map fun r => (.text (String.ofList r.1), r.2)
    | '-' :: s => takeNumber true s
    | 'n' :: s => word ['u', 'l', 'l'] .null s
    | 't' :: s => word ['r', 'u', 'e'] (.bool true) s
    | 'f' :: s => word ['a', 'l', 's', 'e'] (.bool false) s
    | s => takeNumber false s

/-- The items of a list up to its closing bracket. -/
def takeItems : Nat → List Char → Option (List Document × List Char)
  | 0, _ => none
  | fuel + 1, s =>
    match takeValue fuel s with
    | some (d, s) =>
      match skipSpace s with
      | ',' :: s => (takeItems fuel s).map fun r => (d :: r.1, r.2)
      | ']' :: s => some ([d], s)
      | _ => none
    | none => none

/-- The fields of a record up to its closing brace. -/
def takeFields : Nat → List Char → Option (List (String × Document) × List Char)
  | 0, _ => none
  | fuel + 1, s =>
    match skipSpace s with
    | '"' :: s =>
      match takeString s s with
      | some (name, s) =>
        match skipSpace s with
        | ':' :: s =>
          match takeValue fuel s with
          | some (d, s) =>
            match skipSpace s with
            | ',' :: s => (takeFields fuel s).map fun r => ((String.ofList name, d) :: r.1, r.2)
            | '}' :: s => some ([(String.ofList name, d)], s)
            | _ => none
          | none => none
        | _ => none
      | none => none
    | _ => none

end

/-- The document that a whole text spells. -/
def parse (s : String) : Option Document :=
  match takeValue (s.length + 1) s.toList with
  | some (d, rest) => if (skipSpace rest).isEmpty then some d else none
  | none => none

end SipProxy.Document
