import SipProxy.Grammar.Lexeme
import SipProxy.Text.Case

/-!
# Parameters

The `;name=value` tail of a URI or header value: an ordered list in which a name may occur twice and
a value may be absent (a flag, `;lr`) or empty. Names are compared without regard to case, and every
operation by name acts on the first occurrence, because that is the one a reader of the header
believes. A list of pairs keeps order and duplicates; a map would lose both, and with them the text.

`set` puts the whole parameter in place of the old one, so the spelling of the name changes too.
-/

namespace SipProxy

structure Param where
  name : String
  value : Option String
deriving DecidableEq, Repr

/-- Parameters in the order in which they are written. -/
abbrev Params := List Param

namespace Param

/-- A parameter with a value. -/
def of (name value : String) : Param := ⟨name, some value⟩

/-- A parameter without a value. -/
def flag (name : String) : Param := ⟨name, none⟩

def isFlag (p : Param) : Bool := p.value.isNone

def isNamed (p : Param) (name : String) : Bool := Text.sameIgnoringCase p.name name

def text (p : Param) : String :=
  match p.value with
  | some value => p.name ++ "=" ++ value
  | none => p.name

end Param

namespace Params

/-- The first parameter of that name. -/
def named? (ps : Params) (name : String) : Option Param := ps.find? (·.isNamed name)

/-- The value of the first parameter of that name; a flag has none. -/
def value? (ps : Params) (name : String) : Option String := (ps.named? name).bind Param.value

def has (ps : Params) (name : String) : Bool := ps.any (·.isNamed name)

/-- Puts `p` in the place of the first parameter of its name. -/
def replace? (p : Param) : Params → Option Params
  | [] => none
  | q :: ps => if q.isNamed p.name then some (p :: ps) else (replace? p ps).map (q :: ·)

/-- Puts `p` in the place of its namesake, or behind the others. -/
def set (ps : Params) (p : Param) : Params := (replace? p ps).getD (ps ++ [p])

/-- Puts `p` in the place of its namesake, or in front of the others. -/
def setInFront (ps : Params) (p : Param) : Params := (replace? p ps).getD (p :: ps)

/-- Takes out the first parameter of that name. -/
def remove (name : String) : Params → Option (Param × Params)
  | [] => none
  | q :: ps =>
    if q.isNamed name then some (q, ps) else (remove name ps).map fun r => (r.1, q :: r.2)

/-- Every parameter behind a semicolon. -/
def text (ps : Params) : String := String.join (ps.map fun p => ";" ++ p.text)

end Params

/-! ## Reading -/

namespace Lexeme

open Reader

/-- A parameter value: a quoted string as written, or a run of unquoted octets. -/
def paramValue : Reader Octets := fun s =>
  match quotedRaw s with
  | some r => some r
  | none => run1 isParamOctet s

/-- A name with or without a value. An equals sign that no value follows is not taken. -/
def param : Reader Param := fun s =>
  match token s with
  | some (name, s) =>
    let value := optional (after equal paramValue) s
    some (⟨Utf8.decode name, value.1.map Utf8.decode⟩, value.2)
  | none => none

/-- Parameters, each behind a semicolon, as many as there are. -/
def params (s : Octets) : Params × Octets := many (after semi param) s

end Lexeme

end SipProxy
