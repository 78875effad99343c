/-!
# Decimal numbers

Numbers are written in the fewest digits (`toString`) and read in one of two ways. A header that
must hold a number holds digits alone; a port or a status code may also carry a plus sign in front,
and leading zeros are allowed in both. Neither reader wraps: a number too large for its field is
refused, so the bound is an argument.
-/

namespace SipProxy.Decimal

/-- Is the text a non-empty run of digits? -/
def isNumber (cs : List Char) : Bool := !cs.isEmpty && cs.all Char.isDigit

/-- The number that a non-empty run of digits spells. -/
def ofDigits? (cs : List Char) : Option Nat :=
  if isNumber cs then some (Nat.ofDigitChars 10 cs 0) else none

/-- The number that digits spell behind the digits of `n`, unless it reaches the bound. -/
def continueBelow? (bound : Nat) : List Char → Nat → Option Nat
  | [], n => if n < bound then some n else none
  | c :: cs, n =>
    if n < bound then continueBelow? bound cs (10 * n + (c.toNat - '0'.toNat)) else none

/-- The number below `bound` that a non-empty run of digits spells. Counting stops at the bound, so
however many digits there are, no number is formed that is much longer. -/
def ofDigitsBelow? (bound : Nat) (cs : List Char) : Option Nat :=
  if isNumber cs then continueBelow? bound cs 0 else none

/-- Drops one plus sign in front. -/
def dropPlus : List Char → List Char
  | '+' :: cs => cs
  | cs => cs

/-- The number below `bound` that the text spells, a plus sign in front allowed. -/
def below? (bound : Nat) (s : String) : Option Nat := ofDigitsBelow? bound (dropPlus s.toList)

/-- A number of sixteen bits, such as a port. -/
def word16? (s : String) : Option UInt16 := (below? UInt16.size s).map UInt16.ofNat

/-- A number of thirty-two bits, such as a sequence number. -/
def word32? (s : String) : Option UInt32 := (below? UInt32.size s).map UInt32.ofNat

theorem ofDigits?_toDigits (n : Nat) : ofDigits? (Nat.toDigits 10 n) = some n := by
  have h₁ : (Nat.toDigits 10 n).all Char.isDigit = true := by
    simpa using fun c hc => Nat.isDigit_of_mem_toDigits (by decide) (by decide) hc
  have h₂ : Nat.toDigits 10 n ≠ [] := Nat.toDigits_ne_nil
  simp [ofDigits?, isNumber, h₁, h₂, Nat.ofDigitChars_toDigits]

theorem le_ofDigitChars (cs : List Char) (n : Nat) : n ≤ Nat.ofDigitChars 10 cs n := by
  induction cs generalizing n with
  | nil => simp
  | cons c cs ih =>
    rw [Nat.ofDigitChars_cons]
    exact Nat.le_trans (by omega) (ih _)

theorem continueBelow?_eq (bound : Nat) (cs : List Char) (n : Nat) :
    continueBelow? bound cs n = (some (Nat.ofDigitChars 10 cs n)).filter (· < bound) := by
  induction cs generalizing n with
  | nil => simp [continueBelow?, Option.filter]
  | cons c cs ih =>
    by_cases h : n < bound
    · simp [continueBelow?, h, ih, Nat.ofDigitChars_cons]
    · have := le_ofDigitChars (c :: cs) n
      simp [continueBelow?, Option.filter, h, Nat.not_lt.2 (Nat.le_trans (Nat.not_lt.1 h) this)]

/-- Stopping at the bound is the same as reading everything and comparing then. -/
theorem ofDigitsBelow?_eq (bound : Nat) (cs : List Char) :
    ofDigitsBelow? bound cs = (ofDigits? cs).filter (· < bound) := by
  unfold ofDigitsBelow? ofDigits?
  split
  · exact continueBelow?_eq bound cs 0
  · rfl

end SipProxy.Decimal
