import SipProxy.SipError
import SipProxy.Text.Blank
import SipProxy.Text.Decimal

/-!
# Max-Forwards

How many more proxies may forward a request. Every proxy takes one off and refuses a request that
has none left, so a routing loop ends.
-/

namespace SipProxy

structure Hops where
  left : UInt32
deriving DecidableEq, Repr

namespace Hops

def isExhausted (h : Hops) : Bool := h.left == 0

/-- One hop fewer; none stays none. -/
def decrement (h : Hops) : Hops := if h.left = 0 then h else ⟨h.left - 1⟩

def text (h : Hops) : String := toString h.left.toNat

def parse (value : String) : Except SipError Hops :=
  let digits := (Text.trim value).toList
  match Decimal.ofDigitsBelow? UInt32.size digits with
  | some n => .ok ⟨UInt32.ofNat n⟩
  | none =>
    let reason := if Decimal.isNumber digits then "is out of range" else "is not a number"
    .error (.invalidHeader "Max-Forwards" s!"'{value}' {reason}")

theorem toNat_decrement (h : Hops) : h.decrement.left.toNat = h.left.toNat - 1 := by
  unfold decrement
  split
  · simp_all
  · rename_i hne
    have : 1 ≤ h.left := by
      rcases Nat.eq_zero_or_pos h.left.toNat with h0 | h0
      · exact absurd (UInt32.toNat_inj.1 (by simpa using h0)) hne
      · exact UInt32.le_iff_toNat_le.2 h0
    simp [UInt32.toNat_sub_of_le _ _ this]

end Hops

end SipProxy
