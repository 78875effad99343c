import SipProxy.Text.Utf8

/-!
# Text on the wire

Text that is written is read back as it was (`decode_encode`), whatever octets follow each of its
characters. The other direction does not hold, since stray octets are replaced, but both crossings
leave ASCII alone: an ASCII octet spells the character of its number and is never part of another
one (`mem_of_mem_encode`, `exists_mem_of_mem_decode`). So separators can be looked for on either
side. Octets that are read and written again keep their ASCII octets, and between them octets above
ASCII stay such octets, though not the same ones (`encode_decode_ascii`,
`exists_encode_decode_above`).
-/

namespace SipProxy.Utf8

/-! ## Writing a character -/

section EncodeChar

variable {c : Char}

theorem encodeChar_of_one (h : c.toNat < 0x80) :
    String.utf8EncodeChar c = [UInt8.ofNat c.toNat] := by
  have hv : c.val.toNat = c.toNat := rfl
  simp only [String.utf8EncodeChar, hv]
  rw [if_pos (by omega)]

theorem encodeChar_of_two (h : 0x80 ≤ c.toNat) (h' : c.toNat < 0x800) :
    String.utf8EncodeChar c =
      [UInt8.ofNat (c.toNat / 64 + 0xC0), UInt8.ofNat (c.toNat % 64 + 0x80)] := by
  have hv : c.val.toNat = c.toNat := rfl
  simp only [String.utf8EncodeChar, hv]
  rw [if_neg (by omega), if_pos (by omega), Nat.mod_eq_of_lt (a := c.toNat / 64) (by omega)]

theorem encodeChar_of_three (h : 0x800 ≤ c.toNat) (h' : c.toNat < 0x10000) :
    String.utf8EncodeChar c =
      [UInt8.ofNat (c.toNat / 4096 + 0xE0), UInt8.ofNat (c.toNat / 64 % 64 + 0x80),
        UInt8.ofNat (c.toNat % 64 + 0x80)] := by
  have hv : c.val.toNat = c.toNat := rfl
  simp only [String.utf8EncodeChar, hv]
  rw [if_neg (by omega), if_neg (by omega), if_pos (by omega),
    Nat.mod_eq_of_lt (a := c.toNat / 4096) (by omega)]

/-- A character has no more than twenty-one bits. -/
theorem toNat_lt (c : Char) : c.toNat < 0x110000 := by
  have h : c.toNat.isValidChar := c.valid
  unfold Nat.isValidChar at h
  omega

theorem encodeChar_of_four (h : 0x10000 ≤ c.toNat) :
    String.utf8EncodeChar c =
      [UInt8.ofNat (c.toNat / 262144 + 0xF0), UInt8.ofNat (c.toNat / 4096 % 64 + 0x80),
        UInt8.ofNat (c.toNat / 64 % 64 + 0x80), UInt8.ofNat (c.toNat % 64 + 0x80)] := by
  have hv : c.val.toNat = c.toNat := rfl
  have hlt := toNat_lt c
  simp only [String.utf8EncodeChar, hv]
  rw [if_neg (by omega), if_neg (by omega), if_neg (by omega),
    Nat.mod_eq_of_lt (a := c.toNat / 262144) (by omega)]

end EncodeChar

/-! ## Reading a character -/

theorem isTail_iff {b : UInt8} : isTail b = true ↔ 0x80 ≤ b.toNat ∧ b.toNat ≤ 0xBF := by
  simp [isTail, UInt8.le_iff_toNat_le]

/-- The narrower ranges, in numbers. -/
theorem isSecond_iff {a b : UInt8} :
    isSecond a b = true ↔
      0x80 ≤ b.toNat ∧ b.toNat ≤ 0xBF ∧ (a.toNat = 0xE0 → 0xA0 ≤ b.toNat) ∧
        (a.toNat = 0xED → b.toNat ≤ 0x9F) ∧ (a.toNat = 0xF0 → 0x90 ≤ b.toNat) ∧
        (a.toNat = 0xF4 → b.toNat ≤ 0x8F) := by
  have heq : ∀ n : UInt8, a = n ↔ a.toNat = n.toNat := fun n => UInt8.toNat_inj.symm
  unfold isSecond
  simp only [heq, isTail, UInt8.le_iff_toNat_le, UInt8.reduceToNat]
  repeat' split
  all_goals
    simp only [Bool.and_eq_true, decide_eq_true_eq]
    omega

theorem takeChar_of_one {a : UInt8} (h : a.toNat < 0x80) (s : Octets) :
    takeChar a s = (Char.ofNat a.toNat, s) := by
  unfold takeChar
  rw [if_pos (UInt8.lt_iff_toNat_lt.2 h)]

theorem takeChar_of_two {a b : UInt8} (ha : 0xC2 ≤ a.toNat ∧ a.toNat ≤ 0xDF)
    (hb : isTail b = true) (s : Octets) :
    takeChar a (b :: s) = (Char.ofNat (extend (a.toNat - 0xC0) b), s) := by
  unfold takeChar
  simp only [UInt8.lt_iff_toNat_lt, UInt8.le_iff_toNat_le, UInt8.reduceToNat, Bool.and_eq_true,
    decide_eq_true_eq]
  rw [if_neg (by omega), if_pos ha, if_pos hb]

theorem takeChar_of_three {a b c : UInt8} (ha : 0xE0 ≤ a.toNat ∧ a.toNat ≤ 0xEF)
    (hb : isSecond a b = true) (hc : isTail c = true) (s : Octets) :
    takeChar a (b :: c :: s) = (Char.ofNat (extend (extend (a.toNat - 0xE0) b) c), s) := by
  unfold takeChar
  simp only [UInt8.lt_iff_toNat_lt, UInt8.le_iff_toNat_le, UInt8.reduceToNat, Bool.and_eq_true,
    decide_eq_true_eq]
  rw [if_neg (by omega), if_neg (by omega), if_pos ha, if_pos hb, if_pos hc]

theorem takeChar_of_four {a b c d : UInt8} (ha : 0xF0 ≤ a.toNat ∧ a.toNat ≤ 0xF4)
    (hb : isSecond a b = true) (hc : isTail c = true) (hd : isTail d = true) (s : Octets) :
    takeChar a (b :: c :: d :: s) =
      (Char.ofNat (extend (extend (extend (a.toNat - 0xF0) b) c) d), s) := by
  unfold takeChar
  simp only [UInt8.lt_iff_toNat_lt, UInt8.le_iff_toNat_le, UInt8.reduceToNat, Bool.and_eq_true,
    decide_eq_true_eq]
  rw [if_neg (by omega), if_neg (by omega), if_neg (by omega), if_pos ha, if_pos hb, if_pos hc,
    if_pos hd]

theorem exists_octet {n : Nat} (h : n < 256) : ∃ b : UInt8, UInt8.ofNat n = b ∧ b.toNat = n :=
  ⟨_, rfl, UInt8.toNat_ofNat_of_lt h⟩

/-- A character that was written is read, whatever follows. -/
theorem exists_takeChar_encodeChar (c : Char) (s : Octets) :
    ∃ a t, String.utf8EncodeChar c ++ s = a :: t ∧ takeChar a t = (c, s) := by
  have hlt := toNat_lt c
  have hvalid : c.toNat.isValidChar := c.valid
  unfold Nat.isValidChar at hvalid
  -- one case for each number of octets; only the second octet needs the narrower ranges
  by_cases h₁ : c.toNat < 0x80
  · obtain ⟨a, ea, ha⟩ := @exists_octet c.toNat (by omega)
    rw [encodeChar_of_one h₁, ea]
    refine ⟨a, s, rfl, ?_⟩
    rw [takeChar_of_one (by omega), ha, Char.ofNat_toNat]
  by_cases h₂ : c.toNat < 0x800
  · obtain ⟨a, ea, ha⟩ := @exists_octet (c.toNat / 64 + 0xC0) (by omega)
    obtain ⟨b, eb, hb⟩ := @exists_octet (c.toNat % 64 + 0x80) (by omega)
    have hn : extend (a.toNat - 0xC0) b = c.toNat := by
      unfold extend
      omega
    rw [encodeChar_of_two (by omega) h₂, ea, eb]
    refine ⟨a, b :: s, rfl, ?_⟩
    rw [takeChar_of_two (by omega) (isTail_iff.2 (by omega)), hn, Char.ofNat_toNat]
  by_cases h₃ : c.toNat < 0x10000
  · obtain ⟨a, ea, ha⟩ := @exists_octet (c.toNat / 4096 + 0xE0) (by omega)
    obtain ⟨b, eb, hb⟩ := @exists_octet (c.toNat / 64 % 64 + 0x80) (by omega)
    obtain ⟨d, ed, hd⟩ := @exists_octet (c.toNat % 64 + 0x80) (by omega)
    have hn : extend (extend (a.toNat - 0xE0) b) d = c.toNat := by
      unfold extend
      omega
    have hsecond : isSecond a b = true := by
      rw [isSecond_iff]
      omega
    rw [encodeChar_of_three (by omega) h₃, ea, eb, ed]
    refine ⟨a, b :: d :: s, rfl, ?_⟩
    rw [takeChar_of_three (by omega) hsecond (isTail_iff.2 (by omega)), hn, Char.ofNat_toNat]
  · obtain ⟨a, ea, ha⟩ := @exists_octet (c.toNat / 262144 + 0xF0) (by omega)
    obtain ⟨b, eb, hb⟩ := @exists_octet (c.toNat / 4096 % 64 + 0x80) (by omega)
    obtain ⟨d, ed, hd⟩ := @exists_octet (c.toNat / 64 % 64 + 0x80) (by omega)
    obtain ⟨e, ee, he⟩ := @exists_octet (c.toNat % 64 + 0x80) (by omega)
    have hn : extend (extend (extend (a.toNat - 0xF0) b) d) e = c.toNat := by
      unfold extend
      omega
    have hsecond : isSecond a b = true := by
      rw [isSecond_iff]
      omega
    rw [encodeChar_of_four (by omega), ea, eb, ed, ee]
    refine ⟨a, b :: d :: e :: s, rfl, ?_⟩
    rw [takeChar_of_four (by omega) hsecond (isTail_iff.2 (by omega)) (isTail_iff.2 (by omega)),
      hn, Char.ofNat_toNat]

/-! ## Text -/

theorem encode_append (s t : String) : encode (s ++ t) = encode s ++ encode t := by
  simp [encode]

theorem encode_append_mark {mark : String} {b : UInt8} (hm : encode mark = [b]) (s t : String) :
    encode (s ++ mark ++ t) = encode s ++ b :: encode t := by
  rw [encode_append, encode_append, hm, List.append_assoc, List.singleton_append]

theorem chars_flatMap_encodeChar (cs : List Char) :
    chars (cs.flatMap String.utf8EncodeChar) = cs := by
  induction cs with
  | nil => exact chars_nil
  | cons c cs ih =>
    obtain ⟨a, t, hs, ht⟩ := exists_takeChar_encodeChar c (cs.flatMap String.utf8EncodeChar)
    rw [List.flatMap_cons, hs, chars_cons, ht, ih]

/-- Text that is written is read back as it was. -/
theorem decode_encode (s : String) : decode (encode s) = s := by
  rw [decode, encode, chars_flatMap_encodeChar, String.ofList_toList]

/-! ## ASCII -/

theorem toNat_eq_of_mem_encodeChar {c : Char} {b : UInt8} (hb : b.toNat < 0x80)
    (h : b ∈ String.utf8EncodeChar c) : c.toNat = b.toNat := by
  have hlt := toNat_lt c
  have hout : ∀ n : Nat, b = UInt8.ofNat n → n < 256 → b.toNat = n := by
    rintro n rfl hn
    exact UInt8.toNat_ofNat_of_lt hn
  by_cases h₁ : c.toNat < 0x80
  · rw [encodeChar_of_one h₁, List.mem_singleton] at h
    exact (hout _ h (by omega)).symm
  -- every octet of a longer character is above ASCII
  · exfalso
    by_cases h₂ : c.toNat < 0x800
    · rw [encodeChar_of_two (by omega) h₂] at h
      simp only [List.mem_cons, List.not_mem_nil, or_false] at h
      rcases h with h | h <;>
        · have := hout _ h (by omega)
          omega
    by_cases h₃ : c.toNat < 0x10000
    · rw [encodeChar_of_three (by omega) h₃] at h
      simp only [List.mem_cons, List.not_mem_nil, or_false] at h
      rcases h with h | h | h <;>
        · have := hout _ h (by omega)
          omega
    · rw [encodeChar_of_four (by omega)] at h
      simp only [List.mem_cons, List.not_mem_nil, or_false] at h
      rcases h with h | h | h | h <;>
        · have := hout _ h (by omega)
          omega

/-- An ASCII octet of a character is that character. -/
theorem ofNat_eq_of_mem_encodeChar {c : Char} {b : UInt8} (hb : b.toNat < 0x80)
    (h : b ∈ String.utf8EncodeChar c) : Char.ofNat b.toNat = c := by
  rw [← toNat_eq_of_mem_encodeChar hb h, Char.ofNat_toNat]

/-- An ASCII octet of written text is one of its characters. -/
theorem mem_of_mem_encode {s : String} {c : Char} {b : UInt8} (hc : b.toNat = c.toNat)
    (hb : c.toNat < 0x80) (h : b ∈ encode s) : c ∈ s.toList := by
  obtain ⟨d, hd, hbd⟩ := List.mem_flatMap.1 h
  rwa [← Char.ofNat_toNat c, ← hc, ofNat_eq_of_mem_encodeChar (by omega) hbd]

theorem mem_encode {s : String} {b : UInt8} :
    b ∈ encode s ↔ ∃ c ∈ s.toList, b ∈ String.utf8EncodeChar c :=
  List.mem_flatMap

theorem toNat_ofNat {n : Nat} (h : n < 0xD800 ∨ 0xDFFF < n ∧ n < 0x110000) :
    (Char.ofNat n).toNat = n := by
  rw [Char.ofNat, dif_pos h]
  rfl

/-- What is not one octet is above ASCII, stray octets included. -/
theorem le_toNat_takeChar {a : UInt8} (ha : 0x80 ≤ a.toNat) (s : Octets) :
    0x80 ≤ (takeChar a s).1.toNat := by
  have hrep : 0x80 ≤ replacement.toNat := by
    rw [replacement]
    decide
  unfold takeChar
  simp only [UInt8.lt_iff_toNat_lt, UInt8.le_iff_toNat_le, UInt8.reduceToNat, Bool.and_eq_true,
    decide_eq_true_eq, isTail_iff, isSecond_iff]
  unfold extend
  generalize replacement = r at hrep ⊢
  repeat' split
  -- the first goal is the octet of an ASCII character, the others are read or replaced
  · omega
  all_goals first
    | rw [toNat_ofNat] <;> omega
    | exact hrep

/-- Behind its first octet a character takes none but octets above ASCII. -/
theorem exists_takeChar_tail (a : UInt8) (s : Octets) :
    ∃ tail, s = tail ++ (takeChar a s).2 ∧ ∀ b ∈ tail, 0x80 ≤ b.toNat := by
  unfold takeChar
  repeat' split
  -- a character takes up to three octets behind its first
  all_goals
    simp only [isSecond_iff, isTail_iff] at *
    first
      | exact ⟨[], rfl, by simp⟩
      | exact ⟨[_], rfl, by simp; omega⟩
      | exact ⟨[_, _], rfl, by simp; omega⟩
      | exact ⟨[_, _, _], rfl, by simp; omega⟩

theorem exists_mem_of_mem_chars {s : Octets} {c : Char} (hc : c.toNat < 0x80) (h : c ∈ chars s) :
    ∃ b ∈ s, b.toNat = c.toNat := by
  -- a character takes one octet or more, so the induction is on the length
  induction hn : s.length using Nat.strongRecOn generalizing s with
  | ind n ih =>
    cases s with
    | nil => simp at h
    | cons a s =>
      rw [chars_cons, List.mem_cons] at h
      rcases h with rfl | h
      · by_cases ha : a.toNat < 0x80
        · refine ⟨a, List.mem_cons_self, ?_⟩
          rw [takeChar_of_one ha, toNat_ofNat (by omega)]
        · have := le_toNat_takeChar (Nat.le_of_not_lt ha) s
          omega
      · have hle := length_takeChar_le a s
        rw [List.length_cons] at hn
        obtain ⟨b, hb, hbc⟩ := ih _ (by omega) h rfl
        obtain ⟨tail, hsplit, -⟩ := exists_takeChar_tail a s
        refine ⟨b, List.mem_cons_of_mem a ?_, hbc⟩
        rw [hsplit]
        exact List.mem_append_right tail hb

/-- An ASCII character of read octets is one of them. -/
theorem exists_mem_of_mem_decode {s : Octets} {c : Char} (hc : c.toNat < 0x80)
    (h : c ∈ (decode s).toList) : ∃ b ∈ s, b.toNat = c.toNat := by
  rw [decode, String.toList_ofList] at h
  exact exists_mem_of_mem_chars hc h

/-! ## Octets that are read and written again -/

theorem decode_eq_empty {s : Octets} (h : decode s = "") : s = [] := by
  cases s with
  | nil => rfl
  | cons a s =>
    have hlist := congrArg String.toList h
    rw [decode, String.toList_ofList, chars_cons] at hlist
    cases hlist

theorem encode_decode_cons (a : UInt8) (s : Octets) :
    encode (decode (a :: s)) =
      String.utf8EncodeChar (takeChar a s).1 ++ encode (decode (takeChar a s).2) := by
  rw [decode, chars_cons, encode, String.toList_ofList, List.flatMap_cons, encode, decode,
    String.toList_ofList]

/-- An ASCII octet stays as it is. -/
theorem encode_decode_ascii {b : UInt8} (hb : b.toNat < 0x80) (s : Octets) :
    encode (decode (b :: s)) = b :: encode (decode s) := by
  have hchar : (Char.ofNat b.toNat).toNat = b.toNat := toNat_ofNat (by omega)
  rw [encode_decode_cons, takeChar_of_one hb]
  show String.utf8EncodeChar (Char.ofNat b.toNat) ++ encode (decode s) = _
  rw [encodeChar_of_one (by omega), hchar, UInt8.ofNat_toNat]
  rfl

/-- An octet above ASCII, with some more of them behind it, becomes one or more others. -/
theorem exists_encode_decode_above {a : UInt8} (ha : 0x80 ≤ a.toNat) (s : Octets) :
    ∃ tail rest b written, s = tail ++ rest ∧
      encode (decode (a :: s)) = b :: (written ++ encode (decode rest)) ∧
      (∀ x ∈ tail, 0x80 ≤ x.toNat) ∧ ∀ x ∈ b :: written, 0x80 ≤ x.toNat := by
  obtain ⟨tail, hsplit, htail⟩ := exists_takeChar_tail a s
  obtain ⟨b, written, hchar⟩ :=
    List.exists_cons_of_ne_nil (String.utf8EncodeChar_ne_nil (c := (takeChar a s).1))
  refine ⟨tail, _, b, written, hsplit, ?_, htail, ?_⟩
  · rw [encode_decode_cons, hchar, List.cons_append]
  · intro x hx
    rw [← hchar] at hx
    refine Nat.le_of_not_lt fun hlt => ?_
    have heq := toNat_eq_of_mem_encodeChar hlt hx
    have hle := le_toNat_takeChar ha s
    omega

/-- An ASCII octet that is written was read. -/
theorem mem_of_mem_encode_decode {s : Octets} {b : UInt8} (hb : b.toNat < 0x80)
    (h : b ∈ encode (decode s)) : b ∈ s := by
  have hchar : (Char.ofNat b.toNat).toNat = b.toNat := toNat_ofNat (by omega)
  have hmem : Char.ofNat b.toNat ∈ (decode s).toList :=
    mem_of_mem_encode hchar.symm (by omega) h
  obtain ⟨x, hx, heq⟩ := exists_mem_of_mem_decode (by omega) hmem
  rw [hchar] at heq
  rwa [← UInt8.toNat_inj.1 heq]

end SipProxy.Utf8
