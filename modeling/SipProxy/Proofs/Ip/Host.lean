import SipProxy.Ip.Host
import SipProxy.Proofs.Text.Decimal

/-!
# Addresses as hosts

The text of an address is made of digits, dots and colons (`IpAddress.isTextChar_of_mem_text`). It
has no brackets of its own, for IPv4 as for IPv6, so it is the same host with and without the
brackets that a message may put around it (`Host.unbracket_text`).
-/

namespace SipProxy

/-! ## The characters of an address -/

/-- Characters that the text of an address is made of. -/
def IpAddress.isTextChar (c : Char) : Bool :=
  c.isDigit || ('a' ≤ c && c ≤ 'f') || c == '.' || c == ':'

theorem Ipv4.isDigit_or_dot_of_mem_text {ip : Ipv4} {c : Char} (h : c ∈ ip.text.toList) :
    c.isDigit = true ∨ c = '.' := by
  have hdot : c ∈ (toString ".").toList → c = '.' := fun hc => List.mem_singleton.1 hc
  have hdigit : ∀ {n : Nat}, c ∈ (toString n).toList → c.isDigit = true :=
    fun hc => Decimal.isDigit_of_mem_toString hc
  unfold Ipv4.text at h
  simp only [String.toList_append, List.mem_append] at h
  rcases h with (((((h | h) | h) | h) | h) | h) | h
  · exact .inl (hdigit h)
  · exact .inr (hdot h)
  · exact .inl (hdigit h)
  · exact .inr (hdot h)
  · exact .inl (hdigit h)
  · exact .inr (hdot h)
  · exact .inl (hdigit h)

theorem Ipv4.isTextChar_of_mem_text {ip : Ipv4} {c : Char} (h : c ∈ ip.text.toList) :
    IpAddress.isTextChar c = true := by
  unfold IpAddress.isTextChar
  rcases isDigit_or_dot_of_mem_text h with h | rfl
  · simp [h]
  · rfl

namespace Ipv6

theorem exists_digitChar_of_mem_toDigits {n : Nat} {c : Char} (h : c ∈ Nat.toDigits 16 n) :
    ∃ d, d < 16 ∧ c = d.digitChar := by
  induction n using Nat.strongRecOn with
  | ind n ih =>
    rw [Nat.toDigits_eq_if (by decide)] at h
    split at h
    · rename_i hlt
      exact ⟨n, hlt, List.mem_singleton.1 h⟩
    · rcases List.mem_append.1 h with h | h
      · exact ih _ (by omega) h
      · exact ⟨n % 16, Nat.mod_lt _ (by decide), List.mem_singleton.1 h⟩

theorem isTextChar_of_mem_groupText {g : UInt16} {c : Char} (h : c ∈ groupText g) :
    IpAddress.isTextChar c = true := by
  have hdigit : ∀ d < 16, IpAddress.isTextChar d.digitChar = true := by decide
  obtain ⟨d, hd, rfl⟩ := exists_digitChar_of_mem_toDigits h
  exact hdigit d hd

theorem isTextChar_of_mem_groupsText {gs : List UInt16} {c : Char} (h : c ∈ groupsText gs) :
    IpAddress.isTextChar c = true := by
  unfold groupsText at h
  induction gs with
  | nil => cases h
  | cons g gs ih =>
    cases gs with
    | nil =>
      rw [List.map_singleton, List.intercalate_singleton] at h
      exact isTextChar_of_mem_groupText h
    | cons g' gs =>
      rw [List.map_cons, List.intercalate_cons_of_ne_nil (by simp)] at h
      rcases List.mem_append.1 h with h | h
      · rcases List.mem_append.1 h with h | h
        · exact isTextChar_of_mem_groupText h
        · rw [List.mem_singleton.1 h]
          rfl
      · exact ih h

theorem isTextChar_of_mem_text {ip : Ipv6} {c : Char} (h : c ∈ ip.text.toList) :
    IpAddress.isTextChar c = true := by
  unfold Ipv6.text at h
  -- with an IPv4 address at the end, with a gap, or with all groups
  cases hm : ip.mapped? with
  | some quad =>
    rw [hm] at h
    have hfront : ∀ c ∈ "::ffff:".toList, IpAddress.isTextChar c = true :=
      List.all_eq_true.1 (by decide)
    simp only [String.toList_append] at h
    rcases List.mem_append.1 h with h | h
    · exact hfront c h
    · exact Ipv4.isTextChar_of_mem_text h
  | none =>
    rw [hm] at h
    simp only at h
    split at h
    · have hgap : ∀ c ∈ [':', ':'], IpAddress.isTextChar c = true :=
        List.all_eq_true.1 (by decide)
      rw [String.toList_ofList] at h
      rcases List.mem_append.1 h with h | h
      · rcases List.mem_append.1 h with h | h
        · exact isTextChar_of_mem_groupsText h
        · exact hgap c h
      · exact isTextChar_of_mem_groupsText h
    · rw [String.toList_ofList] at h
      exact isTextChar_of_mem_groupsText h

end Ipv6

theorem IpAddress.isTextChar_of_mem_text {ip : IpAddress} {c : Char} (h : c ∈ ip.text.toList) :
    isTextChar c = true := by
  cases ip with
  | v4 ip => exact Ipv4.isTextChar_of_mem_text h
  | v6 ip => exact Ipv6.isTextChar_of_mem_text h

/-! ## Brackets -/

/-- An address is a host without brackets. -/
theorem Host.unbracket_text (ip : IpAddress) : Host.unbracket ip.text = ip.text := by
  unfold Host.unbracket
  split
  · rename_i rest hrest
    have hbracket : IpAddress.isTextChar '[' = true :=
      IpAddress.isTextChar_of_mem_text (by rw [hrest]; exact List.mem_cons_self)
    exact absurd hbracket (by decide)
  · rfl

end SipProxy
