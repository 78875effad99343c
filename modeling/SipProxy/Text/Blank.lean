/-!
# White space in text

Header values, header names, configuration entries and next hops are trimmed before they are read,
and a request line is cut at white space. White space here is Unicode's `White_Space` property, not
the six ASCII characters: a value that ends in a no-break space is trimmed like any other.
-/

namespace SipProxy.Text

/-- Has the character the property `White_Space`? -/
def isBlank (c : Char) : Bool :=
  (0x9 ≤ c.toNat && c.toNat ≤ 0xD) || c.toNat == 0x20 || c.toNat == 0x85 || c.toNat == 0xA0
    || c.toNat == 0x1680 || (0x2000 ≤ c.toNat && c.toNat ≤ 0x200A) || c.toNat == 0x2028
    || c.toNat == 0x2029 || c.toNat == 0x202F || c.toNat == 0x205F || c.toNat == 0x3000

/-- Drops white space in front. -/
def trimStartChars (cs : List Char) : List Char := cs.dropWhile isBlank

/-- Drops white space behind. -/
def trimEndChars (cs : List Char) : List Char := (cs.reverse.dropWhile isBlank).reverse

/-- Drops white space at both ends. -/
def trimChars (cs : List Char) : List Char := trimEndChars (trimStartChars cs)

/-- The text without white space at its ends. -/
def trim (s : String) : String := String.ofList (trimChars s.toList)

/-- The text without white space behind. -/
def trimEnd (s : String) : String := String.ofList (trimEndChars s.toList)

/-- The runs of characters between white space. -/
def words (s : String) : List String :=
  ((s.toList.splitOnP isBlank).filter fun word => !word.isEmpty).map String.ofList

/-- Is some character of the text white space? -/
def hasBlank (s : String) : Bool := s.toList.any isBlank

end SipProxy.Text
