import SipProxy.Proofs.Uri.Spelling
import SipProxy.Value.CSeq
import SipProxy.Value.Hops

/-!
# Numbers that are written and read again

A sequence number comes back with its method, and so does the number of hops that a request has
left. That number is all that a Max-Forwards line holds, so it comes back whatever it was.
-/

namespace SipProxy

open Lexeme Reader Utf8

variable {t : String} {c : CSeq} {n : Hops}

/-! ## Sequence numbers -/

/-- A sequence number whose method is read as it is written. -/
def CSeq.IsWritable (c : CSeq) : Prop := IsRun isTokenOctet c.method

namespace CSeq

theorem parts_eq_some {s rest number method : Octets} :
    parts s = some ((number, method), rest) ↔
      ∃ s', digits s = some (number, s') ∧ after spaces1 token s' = some (method, rest) := by
  unfold parts
  cases digits s with
  | none => simp
  | some r =>
    obtain ⟨number', s'⟩ := r
    simp only [Option.map_eq_some_iff]
    constructor
    · rintro ⟨r, hr, heq⟩
      cases heq
      exact ⟨s', rfl, hr⟩
    · rintro ⟨s'', heq, hmethod⟩
      cases heq
      exact ⟨_, hmethod, rfl⟩

theorem parse_eq_ok :
    parse t = .ok c ↔
      ∃ number method, parts (encode (Text.trim t)) = some ((number, method), []) ∧
        Decimal.word32? (decode number) = some c.number ∧ c.method = decode method := by
  unfold parse
  simp only
  constructor
  · intro h
    split at h
    · rename_i number method hread
      split at h
      · rename_i n hn
        cases h
        exact ⟨number, method, hread, hn, rfl⟩
      · cases h
    · cases h
    · cases h
  · rintro ⟨number, method, hread, hn, hmethod⟩
    rw [hread]
    simp only [hn, ← hmethod]

theorem IsWritable.isLine (h : c.IsWritable) : Text.IsLine c.text := by
  have hmethod : Text.IsLine c.method := IsRun.isLine h isInside_of_isTokenOctet
  exact (Text.IsLine.of_digits.append .space).append hmethod

/-- A sequence number is read back from the line it makes. -/
theorem parse_text (h : c.IsWritable) (ht : Text.trim t = Text.trim c.text) : parse t = .ok c := by
  have hmethod : IsRun isTokenOctet c.method := h
  have hnumber := isRun_toString c.number.toNat
  have htext : encode c.text = encode (toString c.number.toNat) ++ 0x20 :: encode c.method :=
    encode_append_mark (by decide) _ _
  have htrim : Text.trim c.text = c.text := by
    obtain ⟨b, w, hw⟩ := List.exists_cons_of_ne_nil (encode_ne_nil hnumber.1)
    refine Text.trim_eq_self (head_of_isInk (by rw [htext, hw]; rfl) (isInk_of_isDigit b ?_)) ?_
    · exact hnumber.2 b (by rw [hw]; exact List.mem_cons_self)
    · exact (Text.trimEnd_append_iff _ hmethod.1).2 (hmethod.trimEnd isInk_of_isTokenOctet)
  refine parse_eq_ok.2 ⟨encode (toString c.number.toNat), encode c.method, ?_, ?_, ?_⟩
  · have hstops := hmethod.stops isSpace_eq_false_of_isTokenOctet []
    have hread := hmethod.run1 (stops_nil isTokenOctet)
    rw [List.append_nil] at hstops hread
    rw [ht, htrim, htext]
    exact parts_eq_some.2 ⟨_, hnumber.run1 (stops_cons.2 (by decide)),
      after_eq_some.2 ⟨_, spaces1_space hstops, hread⟩⟩
  · rw [decode_encode]
    exact Decimal.word32?_toString c.number
  · rw [decode_encode]

/-- What was read can be written. -/
theorem isWritable_of_parse (h : parse t = .ok c) : c.IsWritable := by
  obtain ⟨number, method, hread, -, hmethod⟩ := parse_eq_ok.1 h
  obtain ⟨s', hnumber, hafter⟩ := parts_eq_some.1 hread
  obtain ⟨s'', hspace, htoken⟩ := after_eq_some.1 hafter
  obtain ⟨w, hrun⟩ := spaces1_eq_some.1 hspace
  obtain ⟨-, -, -, -, hs'⟩ := run1_spec (isText_encode _) cutsText_isDigit hnumber
  obtain ⟨-, -, -, -, hs''⟩ := run1_spec hs' cutsText_isSpace hrun
  obtain ⟨-, -, hclass, -, -⟩ := run1_spec hs'' cutsText_isTokenOctet htoken
  unfold IsWritable
  rw [hmethod]
  exact hclass

end CSeq

/-! ## Hops -/

namespace Hops

theorem trim_text (n : Hops) : Text.trim n.text = n.text := by
  refine Text.trim_of_hasBlank (Text.hasBlank_eq_false.2 fun c hc => ?_)
  exact Decimal.not_isBlank_of_isDigit (Decimal.isDigit_of_mem_toString hc)

/-- The number of hops is read back from the line it makes. -/
theorem parse_text (ht : Text.trim t = Text.trim n.text) : parse t = .ok n := by
  have hread : Decimal.ofDigitsBelow? UInt32.size (Text.trim t).toList = some n.left.toNat := by
    rw [ht, n.trim_text]
    exact Decimal.ofDigitsBelow?_toString n.left.toNat_lt
  unfold parse
  simp only [hread, UInt32.ofNat_toNat]

end Hops

end SipProxy
