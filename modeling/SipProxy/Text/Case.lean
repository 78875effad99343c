/-!
# Letter case

SIP compares header names, parameter names, schemes, transports and hosts without regard to letter
case, and means ASCII letters only: `É` and `é` are different hosts. `String.toLower` is that
mapping, so two texts are the same exactly when their lower-case forms are equal.
-/

namespace SipProxy.Text

/-- Are the texts equal but for the case of ASCII letters? -/
def sameIgnoringCase (a b : String) : Bool := a.toLower == b.toLower

theorem sameIgnoringCase_iff {a b : String} :
    sameIgnoringCase a b = true ↔ a.toLower = b.toLower := by
  simp [sameIgnoringCase]

@[simp] theorem sameIgnoringCase_self (a : String) : sameIgnoringCase a a = true := by
  simp [sameIgnoringCase]

theorem sameIgnoringCase_comm (a b : String) : sameIgnoringCase a b = sameIgnoringCase b a := by
  simp [sameIgnoringCase, Bool.beq_comm]

end SipProxy.Text
