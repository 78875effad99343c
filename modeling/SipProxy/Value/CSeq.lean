import SipProxy.Grammar.Lexeme
import SipProxy.SipError
import SipProxy.Text.Blank
import SipProxy.Text.Decimal

/-!
# CSeq

The sequence number of a request with its method.
-/

namespace SipProxy

structure CSeq where
  number : UInt32
  method : String
deriving DecidableEq, Repr

namespace CSeq

def text (c : CSeq) : String := toString c.number.toNat ++ " " ++ c.method

/-- Digits, at least one space or tab, a token. -/
def parts : Reader (Octets × Octets) := fun s =>
  match Lexeme.digits s with
  | some (number, s) =>
    (Reader.after Lexeme.spaces1 Lexeme.token s).map fun r => ((number, r.1), r.2)
  | none => none

def parse (value : String) : Except SipError CSeq :=
  let invalid (reason : String) : Except SipError CSeq :=
    .error (.invalidHeader "CSeq" s!"{reason} in '{value}'")
  match parts (Utf8.encode (Text.trim value)) with
  | some ((number, method), []) =>
    match Decimal.word32? (Utf8.decode number) with
    | some number => .ok ⟨number, Utf8.decode method⟩
    | none => invalid "sequence number out of range"
  | some _ => invalid "trailing text"
  | none => invalid "expected '<number> <method>'"

end CSeq

end SipProxy
