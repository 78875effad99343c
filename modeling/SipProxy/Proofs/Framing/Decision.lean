import SipProxy.Proofs.Framing.Head
import SipProxy.Proofs.Outcome

/-!
# Framing decides once

Of octets in front of a stream, framing says that they are a frame, that they are none and will be
none, or that it cannot tell yet. What it says of a frame or a fault it says again of every
continuation, and of every shorter beginning of a frame it says that it cannot tell
(`frameLengthWithin_decides_once`). So no way of cutting a stream makes two frames of one.

A frame is refused for its length alone where its head and its body together exceed the limit. The
sum is that of the numbers: one that a machine word cannot hold exceeds every limit that one can.
-/

namespace SipProxy

variable {limit n : Nat} {s head body : Octets} {headers : Headers}

/-- The beginning of a frame is incomplete. -/
theorem frameLengthWithin_take {k : Nat} (h : frameLengthWithin limit s = .ok (some n))
    (hk : k < n) : frameLengthWithin limit (s.take k) = .ok none := by
  refine Classical.byContradiction fun hne => ?_
  have hsame := frameLengthWithin_append (s.drop k) hne
  rw [List.take_append_drop, h] at hsame
  have hle := le_of_frameLengthWithin hsame.symm
  have := List.length_take_le k s
  omega

/-- What is refused behind a head that announces a length is refused for that length. -/
theorem frameLengthWithin_eq_error_iff {length : Nat} (h : IsHead headers head)
    (hc : headers.contentLength = .ok length) :
    (∃ e, frameLengthWithin limit (head ++ body) = .error e) ↔ limit < head.length + length := by
  rw [frameLengthWithin_of_isHead h, hc]
  by_cases hlim : head.length + length ≤ limit
  · simp [hlim]
  · simp [hlim, Nat.lt_of_not_le hlim]

/-- Two lengths whose sum fits a machine word add up to it as machine words. -/
theorem toNat_ofNat_add_ofNat {a b : Nat} (h : a + b ≤ maxLength) :
    (UInt64.ofNat a + UInt64.ofNat b).toNat = a + b := by
  rw [maxLength] at h
  rw [UInt64.toNat_add, UInt64.toNat_ofNat', UInt64.toNat_ofNat']
  omega

/-- What framing says of octets is said for good. A frame is not empty, is there in full and within
the limit, is the same frame whatever follows, and all that begins it is incomplete. A fault is the
same fault whatever follows. Behind a head that announces a length, there is a fault if and only if
the head and the body exceed the limit; in particular there is one where the two, taken as machine
words, do not add up to what they are together. -/
theorem frameLengthWithin_decides_once (limit : Nat) (s x : Octets) :
    (∀ n, frameLengthWithin limit s = .ok (some n) →
      (1 ≤ n ∧ n ≤ min s.length limit) ∧ frameLengthWithin limit (s ++ x) = .ok (some n) ∧
        ∀ p, p <+: s.take n → p ≠ s.take n → frameLengthWithin limit p = .ok none) ∧
    (∀ e, frameLengthWithin limit s = .error e → frameLengthWithin limit (s ++ x) = .error e) ∧
    ∀ headers head body length, IsHead headers head → headers.contentLength = .ok length →
      s = head ++ body →
        ((∃ e, frameLengthWithin limit s = .error e) ↔ limit < head.length + length) ∧
        (limit ≤ maxLength →
          (UInt64.ofNat head.length + UInt64.ofNat length).toNat ≠ head.length + length →
            ∃ e, frameLengthWithin limit s = .error e) := by
  refine ⟨?_, ?_, ?_⟩
  · intro n hn
    have hle := le_of_frameLengthWithin hn
    obtain ⟨_, _, _, _, _, _, _, _, hlim⟩ := frameLengthWithin_eq_some_iff.1 hn
    refine ⟨⟨pos_of_frameLengthWithin hn, Nat.le_min.2 ⟨hle, hlim⟩⟩, ?_, ?_⟩
    · rw [frameLengthWithin_append x (by simp [hn]), hn]
    · intro p hp hne
      -- a proper beginning of the frame is shorter than it, and begins the octets too
      have hlt : p.length < n := by
        apply Nat.lt_of_le_of_ne
        · exact Nat.le_trans hp.length_le (List.length_take_le n s)
        · intro hlen
          exact hne (hp.eq_of_length (by rw [hlen, List.length_take_of_le hle]))
      have hps := List.prefix_iff_eq_take.1 (hp.trans (List.take_prefix n s))
      rw [hps]
      exact frameLengthWithin_take hn hlt
  · intro e he
    rw [frameLengthWithin_append x (by simp [he]), he]
  · rintro headers head body length hhead hc rfl
    have hiff : (∃ e, frameLengthWithin limit (head ++ body) = .error e) ↔
        limit < head.length + length := frameLengthWithin_eq_error_iff hhead hc
    refine ⟨hiff, fun hlim hwrap => hiff.2 ?_⟩
    apply Nat.lt_of_not_le
    intro hle
    exact hwrap (toNat_ofNat_add_ofNat (Nat.le_trans hle hlim))

/-- A frame with an octet behind it and cut inside its first line ending, and a head that announces
as much as a machine word can hold, so that with its body it would add up to less than itself. -/
theorem frameLengthWithin_decides_once_of_wrapping :
    (frameLengthWithin 20 (Utf8.encode "A b S\r\nl: 3\n\nabcd" ++ [0x0D]) = .ok (some 16) ∧
      frameLengthWithin 20 (Utf8.encode "A b S\r") = .ok none) ∧
    (UInt64.ofNat 26 + UInt64.ofNat maxLength).toNat = 25 ∧
      ∃ e, frameLengthWithin maxLength
        (Utf8.encode "A\nl:18446744073709551615\n\n") = .error e := by
  have hframe : frameLengthWithin 20 (Utf8.encode "A b S\r\nl: 3\n\nabcd") = .ok (some 16) := by
    decide +kernel
  have hlines : HeaderBlock.IsLines [.ofText "l" "18446744073709551615"]
      (Utf8.encode "l:18446744073709551615\n" ++ []) := by
    have hended : Line.IsEnded (Utf8.encode "l:18446744073709551615")
        (Utf8.encode "l:18446744073709551615\n") := by
      refine ⟨?_, .inl ?_⟩
      all_goals decide +kernel
    refine .line hended ?_ ?_ .none
    all_goals decide +kernel
  have hhead : IsHead [.ofText "l" "18446744073709551615"]
      (Utf8.encode "A\nl:18446744073709551615\n\n") := by
    refine ⟨Utf8.encode "A", Utf8.encode "A\n", _, [0x0A], ⟨?_, .inl ?_⟩, hlines, ⟨?_, .inl ?_⟩, ?_⟩
    all_goals decide +kernel
  obtain ⟨-, hmore, hless⟩ :=
    (frameLengthWithin_decides_once 20 (Utf8.encode "A b S\r\nl: 3\n\nabcd") [0x0D]).1 16 hframe
  obtain ⟨-, hrefused⟩ :=
    (frameLengthWithin_decides_once maxLength (Utf8.encode "A\nl:18446744073709551615\n\n") []).2.2
      _ _ [] maxLength hhead (by decide +kernel) (List.append_nil _).symm
  have hsum : (UInt64.ofNat 26 + UInt64.ofNat maxLength).toNat = 25 := by decide
  refine ⟨⟨hmore, hless _ ?_ ?_⟩, hsum, hrefused (Nat.le_refl _) ?_⟩
  all_goals decide +kernel

end SipProxy
