/-!
# Octets and text

A SIP message is framed and read octet by octet, while everything the proxy keeps of it is text.
`encode` and `decode` are the two crossings. `decode` never fails: octets that spell no character
are replaced, one U+FFFD for the longest run that still could have become one (Unicode 16, §3.9,
"substitution of maximal subparts"). The alternative, refusing such input, would drop messages
whose only fault is a stray octet in a header nobody reads.

`decode` is cut into one character at a time by `takeChar`, so that a law about it is a law about
one character followed by a list induction.
-/

namespace SipProxy

/-- A run of octets as it stands on the wire. -/
abbrev Octets := List UInt8

namespace Utf8

/-- The octets that spell a text. -/
def encode (s : String) : Octets := s.toList.flatMap String.utf8EncodeChar

/-- Stands for octets that spell no character. -/
def replacement : Char := '\uFFFD'

/-- Is this an octet that continues a character? -/
def isTail (b : UInt8) : Bool := 0x80 ≤ b && b ≤ 0xBF

/-- May `b` follow `a`, where `a` begins a character of three octets or of four? The narrower
ranges shut out overlong spellings, surrogates and values above U+10FFFF. -/
def isSecond (a b : UInt8) : Bool :=
  if a = 0xE0 then 0xA0 ≤ b && b ≤ 0xBF
  else if a = 0xED then 0x80 ≤ b && b ≤ 0x9F
  else if a = 0xF0 then 0x90 ≤ b && b ≤ 0xBF
  else if a = 0xF4 then 0x80 ≤ b && b ≤ 0x8F
  else isTail b

/-- The six payload bits of a continuing octet, below the bits `high` read so far. -/
def extend (high : Nat) (b : UInt8) : Nat := high * 64 + (b.toNat - 0x80)

/-- The character that begins with octet `a`, and what follows it in `s`. -/
def takeChar (a : UInt8) (s : Octets) : Char × Octets :=
  if a < 0x80 then (Char.ofNat a.toNat, s)
  else if 0xC2 ≤ a && a ≤ 0xDF then
    match s with
    | b :: s₁ =>
      if isTail b then (Char.ofNat (extend (a.toNat - 0xC0) b), s₁) else (replacement, s)
    | [] => (replacement, s)
  else if 0xE0 ≤ a && a ≤ 0xEF then
    match s with
    | b :: s₁ =>
      if isSecond a b then
        match s₁ with
        | c :: s₂ =>
          if isTail c then (Char.ofNat (extend (extend (a.toNat - 0xE0) b) c), s₂)
          else (replacement, s₁)
        | [] => (replacement, s₁)
      else (replacement, s)
    | [] => (replacement, s)
  else if 0xF0 ≤ a && a ≤ 0xF4 then
    match s with
    | b :: s₁ =>
      if isSecond a b then
        match s₁ with
        | c :: s₂ =>
          if isTail c then
            match s₂ with
            | d :: s₃ =>
              if isTail d then
                (Char.ofNat (extend (extend (extend (a.toNat - 0xF0) b) c) d), s₃)
              else (replacement, s₂)
            | [] => (replacement, s₂)
          else (replacement, s₁)
        | [] => (replacement, s₁)
      else (replacement, s)
    | [] => (replacement, s)
  else (replacement, s)

/-- A character takes its own octets and never gives any back. -/
theorem length_takeChar_le (a : UInt8) (s : Octets) : (takeChar a s).2.length ≤ s.length := by
  unfold takeChar
  repeat' split
  all_goals simp_all <;> omega

/-- The characters of `s` in reverse, on top of those in `seen`. The accumulator keeps the stack
flat on bodies of any size. -/
def decodeOnto (seen : List Char) : Octets → List Char
  | [] => seen
  | a :: s => decodeOnto ((takeChar a s).1 :: seen) (takeChar a s).2
termination_by s => s.length
decreasing_by exact Nat.lt_succ_of_le (length_takeChar_le a s)

/-- The characters a run of octets spells. -/
def chars (s : Octets) : List Char := (decodeOnto [] s).reverse

/-- The text a run of octets spells, with U+FFFD for what spells nothing. -/
def decode (s : Octets) : String := String.ofList (chars s)

theorem decodeOnto_eq (seen : List Char) (s : Octets) :
    decodeOnto seen s = (chars s).reverse ++ seen := by
  suffices h : ∀ (n : Nat) (s : Octets) (seen : List Char), s.length ≤ n →
      decodeOnto seen s = decodeOnto [] s ++ seen by
    simpa [chars] using h s.length s seen (Nat.le_refl _)
  intro n
  induction n with
  | zero =>
    intro s seen hs
    have : s = [] := by simpa using hs
    simp [this, decodeOnto]
  | succ n ih =>
    intro s seen hs
    cases s with
    | nil => simp [decodeOnto]
    | cons a s =>
      have hle := length_takeChar_le a s
      have hs' : s.length ≤ n := by simpa using hs
      rw [decodeOnto, decodeOnto, ih _ _ (by omega), ih _ [_] (by omega)]
      simp

@[simp] theorem chars_nil : chars [] = [] := by simp [chars, decodeOnto]

/-- One character at a time: the equation every law about `decode` starts from. -/
theorem chars_cons (a : UInt8) (s : Octets) :
    chars (a :: s) = (takeChar a s).1 :: chars (takeChar a s).2 := by
  conv => lhs; rw [chars, decodeOnto, decodeOnto_eq]
  simp

end Utf8

end SipProxy
