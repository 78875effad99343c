import SipProxy.Text.Blank
import SipProxy.Text.Decimal

/-!
# Numbers as text

A number is written in digits alone and in the fewest of them, so it is read back by either reader
as long as it fits (`word16?_toString`, `word32?_toString`, `ofDigitsBelow?_toString`), and `n`
digits spell a number below `10 ^ n`.
-/

namespace SipProxy.Decimal

/-! ## Written numbers -/

theorem toList_toString (n : Nat) : (toString n).toList = Nat.toDigits 10 n := by
  rw [Nat.toString_eq_ofList_toDigits, String.toList_ofList]

theorem isDigit_of_mem_toString {n : Nat} {c : Char} (h : c ∈ (toString n).toList) :
    c.isDigit = true := by
  rw [toList_toString] at h
  exact Nat.isDigit_of_mem_toDigits (by decide) (by decide) h

theorem not_isBlank_of_isDigit {c : Char} (h : c.isDigit = true) : Text.isBlank c = false := by
  simp only [Char.isDigit, Bool.and_eq_true, decide_eq_true_eq, UInt32.le_iff_toNat_le] at h
  have hv : c.toNat = c.val.toNat := rfl
  have h₁ : 48 ≤ c.toNat := h.1
  have h₂ : c.toNat ≤ 57 := h.2
  unfold Text.isBlank
  simp only [Bool.or_eq_false_iff, Bool.and_eq_false_iff, decide_eq_false_iff_not,
    beq_eq_false_iff_ne]
  omega

theorem length_toString_eq_three {n : Nat} : (toString n).length = 3 ↔ 100 ≤ n ∧ n < 1000 := by
  have hlen : (toString n).length = (Nat.toDigits 10 n).length := by
    rw [← String.length_toList, toList_toString]
  have h₂ := @Nat.length_toDigits_le_iff 10 n 2 (by decide) (by decide)
  have h₃ := @Nat.length_toDigits_le_iff 10 n 3 (by decide) (by decide)
  rw [hlen]
  omega

theorem dropPlus_of_digits {cs : List Char} (h : ∀ c ∈ cs, c.isDigit = true) :
    dropPlus cs = cs := by
  unfold dropPlus
  split
  · exact absurd (h '+' List.mem_cons_self) (by decide)
  · rfl

theorem ofDigitsBelow?_toString {n bound : Nat} (h : n < bound) :
    ofDigitsBelow? bound (toString n).toList = some n := by
  rw [ofDigitsBelow?_eq, toList_toString, ofDigits?_toDigits, Option.filter_some]
  simp only [h, decide_true, if_true]

theorem word16?_toString (n : UInt16) : word16? (toString n.toNat) = some n := by
  have hb : below? UInt16.size (toString n.toNat) = some n.toNat := by
    rw [below?, dropPlus_of_digits fun c hc => isDigit_of_mem_toString hc]
    exact ofDigitsBelow?_toString n.toNat_lt
  rw [word16?, hb, Option.map_some, UInt16.ofNat_toNat]

theorem word32?_toString (n : UInt32) : word32? (toString n.toNat) = some n := by
  have hb : below? UInt32.size (toString n.toNat) = some n.toNat := by
    rw [below?, dropPlus_of_digits fun c hc => isDigit_of_mem_toString hc]
    exact ofDigitsBelow?_toString n.toNat_lt
  rw [word32?, hb, Option.map_some, UInt32.ofNat_toNat]

/-! ## Read numbers -/

theorem ofDigitsBelow?_eq_some {bound n : Nat} {cs : List Char} :
    ofDigitsBelow? bound cs = some n ↔ ofDigits? cs = some n ∧ n < bound := by
  rw [ofDigitsBelow?_eq, Option.filter_eq_some_iff]
  simp

/-- A run of digits is read as the number that it spells, if that is a number of sixteen bits. -/
theorem word16?_eq_some_iff {s : String} {n : UInt16} (hne : s ≠ "")
    (h : ∀ c ∈ s.toList, c.isDigit = true) :
    word16? s = some n ↔ Nat.ofDigitChars 10 s.toList 0 = n.toNat := by
  have hdigits : ofDigits? s.toList = some (Nat.ofDigitChars 10 s.toList 0) := by
    have hlist : s.toList ≠ [] := fun hnil => hne (String.toList_eq_nil_iff.1 hnil)
    rw [ofDigits?, if_pos (by simpa [isNumber, hlist] using h)]
  rw [word16?, below?, dropPlus_of_digits h, Option.map_eq_some_iff]
  constructor
  · rintro ⟨k, hk, rfl⟩
    obtain ⟨hread, hlt⟩ := ofDigitsBelow?_eq_some.1 hk
    rw [hdigits, Option.some.injEq] at hread
    rw [hread, UInt16.toNat_ofNat_of_lt' hlt]
  · intro hn
    rw [hn] at hdigits
    exact ⟨n.toNat, ofDigitsBelow?_eq_some.2 ⟨hdigits, n.toNat_lt⟩, UInt16.ofNat_toNat⟩

theorem toNat_sub_lt_of_isDigit {c : Char} (h : c.isDigit = true) :
    c.toNat - '0'.toNat < 10 := by
  have hc : c.val.toNat ≤ 57 := by
    simp only [Char.isDigit, Bool.and_eq_true, decide_eq_true_eq] at h
    exact UInt32.le_iff_toNat_le.1 h.2
  show c.val.toNat - 48 < 10
  omega

theorem ofDigitChars_lt {cs : List Char} (h : ∀ c ∈ cs, c.isDigit = true) (n : Nat) :
    Nat.ofDigitChars 10 cs n < (n + 1) * Nat.pow 10 cs.length := by
  induction cs generalizing n with
  | nil =>
    show n < (n + 1) * 1
    omega
  | cons c cs ih =>
    have hc := toNat_sub_lt_of_isDigit (h c List.mem_cons_self)
    have hcs := ih (fun d hd => h d (List.mem_cons_of_mem c hd)) (10 * n + (c.toNat - '0'.toNat))
    rw [Nat.ofDigitChars_cons]
    -- a digit is less than ten, so `10 * n` and the digit stay below `10 * (n + 1)`
    show _ < (n + 1) * (Nat.pow 10 cs.length * 10)
    rw [← Nat.mul_assoc, Nat.mul_right_comm]
    refine Nat.lt_of_lt_of_le hcs (Nat.mul_le_mul_right _ ?_)
    omega

theorem ofDigits?_lt {n : Nat} {cs : List Char} (h : ofDigits? cs = some n) :
    n < Nat.pow 10 cs.length := by
  unfold ofDigits? at h
  split at h
  · rename_i hnum
    rw [isNumber, Bool.and_eq_true, List.all_eq_true] at hnum
    have hlt := ofDigitChars_lt hnum.2 0
    rw [Option.some.injEq] at h
    omega
  · cases h

theorem length_dropPlus_le (cs : List Char) : (dropPlus cs).length ≤ cs.length := by
  unfold dropPlus
  split
  · exact Nat.le_succ _
  · exact Nat.le_refl _

theorem word16?_lt {s : String} {n : UInt16} (h : word16? s = some n) :
    n.toNat < Nat.pow 10 s.length := by
  obtain ⟨k, hk, rfl⟩ := Option.map_eq_some_iff.1 h
  obtain ⟨hd, hlt⟩ := ofDigitsBelow?_eq_some.1 hk
  rw [UInt16.toNat_ofNat_of_lt' hlt, ← String.length_toList]
  exact Nat.lt_of_lt_of_le (ofDigits?_lt hd)
    (Nat.pow_le_pow_right (by decide) (length_dropPlus_le _))

end SipProxy.Decimal
