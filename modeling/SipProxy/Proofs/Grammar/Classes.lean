import SipProxy.Grammar.Lexeme
import SipProxy.Message.Framing

/-!
# Classes of octets

The grammar tells octets apart by classes, and the proofs about it need to know of many pairs of
them that they have nothing in common. Most classes end at a few ASCII characters, so it is enough
to ask whether those are in the other class (`isOneOf_eq_false_of`), and few facts are left for
which all octets are gone through (`forall_octet`).
-/

namespace SipProxy.Lexeme

open Reader

variable {p q r : UInt8 → Bool} {cs ds : List Char} {b : UInt8}

theorem forall_octet {P : UInt8 → Prop} (h : ∀ n < 256, P (UInt8.ofNat n)) (b : UInt8) : P b := by
  have hb := h b.toNat b.toNat_lt
  rwa [UInt8.ofNat_toNat] at hb

/-! ## Disjoint classes -/

theorem isOneOf_iff : isOneOf cs b = true ↔ ∃ c ∈ cs, ascii c = b := by
  simp [isOneOf]

theorem isOneOf_nil (b : UInt8) : isOneOf [] b = false := rfl

theorem isOneOf_cons (c : Char) (cs : List Char) (b : UInt8) :
    isOneOf (c :: cs) b = (b == ascii c || isOneOf cs b) := by
  rw [isOneOf, List.any_cons, BEq.comm]
  rfl

theorem isOneOf_mono (hs : ∀ c ∈ cs, c ∈ ds) (h : isOneOf cs b = true) : isOneOf ds b = true := by
  obtain ⟨c, hc, rfl⟩ := isOneOf_iff.1 h
  exact isOneOf_iff.2 ⟨c, hs c hc, rfl⟩

/-- A class that has none of these characters has no octet of theirs. -/
theorem isOneOf_eq_false_of (hcs : cs.any (fun c => p (ascii c)) = false) :
    ∀ b, p b = true → isOneOf cs b = false := by
  intro b hb
  rw [← Bool.not_eq_true]
  intro h
  obtain ⟨c, hc, rfl⟩ := isOneOf_iff.1 h
  exact List.any_eq_false.1 hcs c hc hb

theorem ne_ascii_of {c : Char} (hc : p (ascii c) = false) : ∀ b, p b = true → b ≠ ascii c := by
  rintro b hb rfl
  rw [hc] at hb
  cases hb

theorem isSpace_iff : isSpace b = true ↔ b = 0x20 ∨ b = 0x09 := by
  simp [isSpace]

theorem isSpace_eq (b : UInt8) : isSpace b = isOneOf [' ', '\t'] b := by
  rw [isOneOf_cons, isOneOf_cons, isOneOf_nil, Bool.or_false]
  rfl

theorem isAsciiBlank_eq (b : UInt8) :
    isAsciiBlank b = isOneOf [' ', '\t', '\n', '\x0c', '\r'] b := by
  simp only [isAsciiBlank, isSpace, Bool.or_assoc, isOneOf_cons, isOneOf_nil, Bool.or_false]
  rfl

theorem isInside_eq (b : UInt8) : Line.isInside b = !isOneOf ['\r', '\n'] b := by
  rw [isOneOf_cons, isOneOf_cons, isOneOf_nil, Bool.or_false, Bool.not_or]
  rfl

theorem isSpace_eq_false_of (hcs : [' ', '\t'].any (fun c => p (ascii c)) = false) :
    ∀ b, p b = true → isSpace b = false := by
  intro b hb
  rw [isSpace_eq]
  exact isOneOf_eq_false_of hcs b hb

theorem isSpace_eq_false_of_isTokenOctet : ∀ b, isTokenOctet b = true → isSpace b = false :=
  isSpace_eq_false_of (by decide)

theorem isInside_of (hcs : ['\r', '\n'].any (fun c => p (ascii c)) = false) :
    ∀ b, p b = true → Line.isInside b = true := by
  intro b hb
  rw [isInside_eq, isOneOf_eq_false_of hcs b hb]
  rfl

/-- Letters and digits with some marks are among letters and digits with more marks. -/
theorem isAlnum_or_mono (hs : ∀ c ∈ cs, c ∈ ds) (h : (isAlnum b || isOneOf cs b) = true) :
    (isAlnum b || isOneOf ds b) = true := by
  rw [Bool.or_eq_true_iff] at h ⊢
  exact h.imp_right (isOneOf_mono hs)

/-- What is in neither of two classes is in the class of all others. -/
theorem not_or_of (hq : ∀ b, p b = true → q b = false) (hr : ∀ b, p b = true → r b = false) :
    ∀ b, p b = true → (!(q b || r b)) = true := by
  intro b hb
  simp [hq b hb, hr b hb]

/-! ## ASCII -/

/-- Are all octets of the class ASCII? -/
def IsAscii (p : UInt8 → Bool) : Prop := ∀ b, p b = true → b.toNat < 0x80

theorem isAscii_isOneOf (hcs : cs.all (fun c => c.toNat < 0x80) = true) : IsAscii (isOneOf cs) := by
  intro b hb
  obtain ⟨c, hc, rfl⟩ := isOneOf_iff.1 hb
  have hlt : c.toNat < 0x80 := of_decide_eq_true (List.all_eq_true.1 hcs c hc)
  show c.toNat % 256 < 0x80
  omega

/-- Does the class lack no octets but ASCII ones? -/
def LacksAscii (p : UInt8 → Bool) : Prop := ∀ b, p b = false → b.toNat < 0x80

theorem IsAscii.not (hp : IsAscii p) : LacksAscii fun b => !p b := by
  intro b hb
  rw [Bool.not_eq_false'] at hb
  exact hp b hb

theorem LacksAscii.and (hp : LacksAscii p) (hq : LacksAscii q) :
    LacksAscii fun b => p b && q b := by
  intro b hb
  rcases Bool.and_eq_false_iff.1 hb with hb | hb
  · exact hp b hb
  · exact hq b hb

theorem IsAscii.or (hp : IsAscii p) (hq : IsAscii q) : IsAscii fun b => p b || q b := by
  intro b hb
  rcases Bool.or_eq_true_iff.1 hb with hb | hb
  · exact hp b hb
  · exact hq b hb

theorem isAscii_beq {x : UInt8} (hx : x.toNat < 0x80) : IsAscii fun b => b == x := by
  intro b hb
  rw [beq_iff_eq.1 hb]
  exact hx

theorem isAscii_isDigit : IsAscii isDigit := by
  intro b hb
  simp only [isDigit, Bool.and_eq_true, decide_eq_true_eq, UInt8.le_iff_toNat_le,
    UInt8.reduceToNat] at hb
  omega

theorem isAscii_isAlpha : IsAscii isAlpha := by
  intro b hb
  simp only [isAlpha, Bool.or_eq_true, Bool.and_eq_true, decide_eq_true_eq, UInt8.le_iff_toNat_le,
    UInt8.reduceToNat] at hb
  omega

theorem isAscii_isAlnum : IsAscii isAlnum := isAscii_isAlpha.or isAscii_isDigit

theorem isAscii_isHexDigit : IsAscii isHexDigit := by
  intro b hb
  simp only [isHexDigit, isDigit, Bool.or_eq_true, Bool.and_eq_true, decide_eq_true_eq,
    UInt8.le_iff_toNat_le, UInt8.reduceToNat] at hb
  omega

theorem isAscii_isSpace : IsAscii isSpace := by
  intro b hb
  rcases isSpace_iff.1 hb with rfl | rfl <;> decide

theorem isAscii_isAsciiBlank : IsAscii isAsciiBlank := by
  intro b hb
  rw [isAsciiBlank_eq] at hb
  exact isAscii_isOneOf (by decide) b hb

theorem isAscii_isBreak : IsAscii isBreak := isAscii_isOneOf (by decide)

theorem isAscii_isTokenOctet : IsAscii isTokenOctet :=
  isAscii_isAlnum.or (isAscii_isOneOf (by decide))

/-! ## Ink -/

/-- An octet that is a character, and no white space. -/
def IsInk (b : UInt8) : Prop := b.toNat < 0x80 ∧ Text.isBlank (Char.ofNat b.toNat) = false

instance (b : UInt8) : Decidable (IsInk b) :=
  inferInstanceAs (Decidable (b.toNat < 0x80 ∧ Text.isBlank (Char.ofNat b.toNat) = false))

/-- The white space among ASCII characters. -/
def blanks : List Char := [' ', '\t', '\n', '\x0b', '\x0c', '\r']

theorem isBlank_of_ascii (hb : b.toNat < 0x80) :
    Text.isBlank (Char.ofNat b.toNat) = isOneOf blanks b := by
  have hall : ∀ n < 0x80, Text.isBlank (Char.ofNat n) = isOneOf blanks (UInt8.ofNat n) := by
    decide +kernel
  have h := hall b.toNat hb
  rwa [UInt8.ofNat_toNat] at h

theorem isInk_of (hp : IsAscii p) (hcs : blanks.any (fun c => p (ascii c)) = false) :
    ∀ b, p b = true → IsInk b := by
  intro b hb
  refine ⟨hp b hb, ?_⟩
  rw [isBlank_of_ascii (hp b hb)]
  exact isOneOf_eq_false_of hcs b hb

theorem isInk_of_isTokenOctet : ∀ b, isTokenOctet b = true → IsInk b :=
  isInk_of isAscii_isTokenOctet (by decide)

theorem isInk_of_isAlpha : ∀ b, isAlpha b = true → IsInk b := isInk_of isAscii_isAlpha (by decide)

theorem isInk_of_isDigit : ∀ b, isDigit b = true → IsInk b := isInk_of isAscii_isDigit (by decide)

theorem isBlank_of_isSpace (h : isSpace b = true) :
    b.toNat < 0x80 ∧ Text.isBlank (Char.ofNat b.toNat) = true := by
  rcases isSpace_iff.1 h with rfl | rfl <;> decide

/-! ## Cuts -/

/-- Runs of the class end at ASCII octets, on the inner side or on the outer. -/
def CutsText (p : UInt8 → Bool) : Prop := IsAscii p ∨ LacksAscii p

theorem cutsText_isTokenOctet : CutsText isTokenOctet := .inl isAscii_isTokenOctet

theorem cutsText_isDigit : CutsText isDigit := .inl isAscii_isDigit

theorem cutsText_isSpace : CutsText isSpace := .inl isAscii_isSpace

theorem cutsText_isParamOctet : CutsText isParamOctet :=
  .inr (isAscii_isBreak.or (isAscii_isOneOf (by decide))).not

end SipProxy.Lexeme
