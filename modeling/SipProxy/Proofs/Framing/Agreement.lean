import SipProxy.Proofs.Framing.Head
import SipProxy.Proofs.Message.Wire

/-!
# Framing and reading cut at the same octet

A stream is cut by one reader and the pieces are read by another. Both have to see a message end at
the same octet, else what one takes for the end of a body the other takes for the start of a message
(`frameLength_agrees`). Both look for the same head, so behind it all is a matter of lengths. What
framing does not look at is the start line, and that alone can be wrong with a frame
(`Message.parse_of_isHead`).
-/

namespace SipProxy

/-! ## Start lines -/

/-- A start line that is refused is refused as one. -/
theorem StartLine.parse_eq_error {line : String} {e : SipError}
    (h : StartLine.parse line = .error e) : ∃ text, e = .malformedFirstLine text := by
  unfold StartLine.parse at h
  split at h
  · unfold StatusLine.parse at h
    split at h
    · split at h
      · split at h
        · cases h
        · cases h
          exact ⟨_, rfl⟩
      · cases h
        exact ⟨_, rfl⟩
    · cases h
      exact ⟨_, rfl⟩
  · unfold RequestLine.parse at h
    split at h
    · cases h
    · cases h
      exact ⟨_, rfl⟩

/-! ## Messages -/

variable {s head : Octets} {headers : Headers} {length : Nat}

namespace Message

/-- Behind a head it is up to the start line and to the length of the rest whether there is a
message, and what stands behind the body does not matter. -/
theorem parse_of_isHead (h : IsHead headers head) (hc : headers.contentLength = .ok length) :
    ∃ first, ∀ body : Octets,
      Message.parse (head ++ body) =
        if length ≤ body.length then
          (StartLine.parse first).map fun start => ⟨start, headers, body.take length⟩
        else (StartLine.parse first).bind fun _ => .error (.truncatedBody length body.length) := by
  obtain ⟨first, block, hread⟩ := h.reads
  refine ⟨Utf8.decode first, fun body => ?_⟩
  unfold Message.parse
  simp only [(hread body).1, (hread body).2, hc]
  cases StartLine.parse (Utf8.decode first) with
  | error e => split <;> rfl
  | ok start =>
    show (if body.length < length then _ else _) = _
    by_cases hlt : body.length < length
    · rw [if_pos hlt, if_neg (Nat.not_le_of_lt hlt)]
      rfl
    · rw [if_neg hlt, if_pos (Nat.le_of_not_lt hlt)]
      rfl

/-- A message that was read is a head and the body that it announces, in front of anything. -/
theorem isHead_of_parse {m : Message} (h : Message.parse s = .ok m) :
    ∃ head rest, IsHead m.headers head ∧ m.headers.contentLength = .ok m.body.length ∧
      s = head ++ (m.body ++ rest) := by
  obtain ⟨first, rest, body, length, hl, -, hb, hc, hbody⟩ := parts_of_parse h
  obtain ⟨head, hhead, rfl⟩ := isHead_iff_read.2 ⟨first, rest, hl, hb⟩
  obtain ⟨first', hparse⟩ := parse_of_isHead hhead hc
  have hlength : length ≤ body.length := by
    refine Decidable.byContradiction fun hlt => ?_
    rw [hparse body, if_neg hlt] at h
    cases hfirst : StartLine.parse first' <;> rw [hfirst] at h <;> cases h
  refine ⟨head, body.drop length, hhead, ?_, ?_⟩
  · rw [hc, hbody, List.length_take_of_le hlength]
  · rw [hbody, List.take_append_drop]

end Message

/-- Where framing finds a frame, the octets from there on do not matter to the reader: it reads the
frame alone as it reads all, and finds a message whose body ends with the frame, or a start line at
fault and nothing else. And where the reader finds a message, framing finds a frame that ends with
its body, of any length that a machine word can hold, as any buffer has. -/
theorem frameLength_agrees (s : Octets) :
    (∀ n, frameLength s = .ok (some n) →
      Message.parse (s.take n) = Message.parse s ∧
        ((∃ m head, Message.parse s = .ok m ∧ IsHead m.headers head ∧ s.take n = head ++ m.body) ∨
          ∃ text, Message.parse s = .error (.malformedFirstLine text))) ∧
    ∀ m, Message.parse s = .ok m →
      ∃ head rest, IsHead m.headers head ∧ s = head ++ (m.body ++ rest) ∧
        (head.length + m.body.length ≤ maxLength →
          frameLength s = .ok (some (head.length + m.body.length))) := by
  constructor
  · intro n hn
    obtain ⟨headers, head, body, rest, hhead, hc, rfl, rfl, -⟩ := frameLengthWithin_eq_some_iff.1 hn
    have htake : (head ++ (body ++ rest)).take (head.length + body.length) = head ++ body := by
      rw [← List.append_assoc, ← List.length_append, List.take_left]
    obtain ⟨first, hparse⟩ := Message.parse_of_isHead hhead hc
    have hall : Message.parse (head ++ (body ++ rest)) =
        (StartLine.parse first).map fun start => ⟨start, headers, body⟩ := by
      rw [hparse, if_pos (by simp), List.take_left]
    have hframe : Message.parse (head ++ body) =
        (StartLine.parse first).map fun start => ⟨start, headers, body⟩ := by
      rw [hparse, if_pos (Nat.le_refl _), List.take_length]
    rw [htake, hall, hframe]
    refine ⟨rfl, ?_⟩
    cases hfirst : StartLine.parse first with
    | ok start => exact .inl ⟨⟨start, headers, body⟩, head, rfl, hhead, rfl⟩
    | error e =>
      obtain ⟨text, rfl⟩ := StartLine.parse_eq_error hfirst
      exact .inr ⟨text, rfl⟩
  · intro m hm
    obtain ⟨head, rest, hhead, hc, rfl⟩ := Message.isHead_of_parse hm
    refine ⟨head, rest, hhead, rfl, fun hfits => ?_⟩
    exact frameLengthWithin_eq_some_iff.2 ⟨_, head, m.body, rest, hhead, hc, rfl, rfl, hfits⟩

/-- A message that tells its length twice, with what could be the beginning of another behind it. -/
theorem frameLength_agrees_of_two_lengths :
    frameLength (Utf8.encode "A b S\r\nl: 2\nContent-Length: 9\r\n\nabA b S\nl") = .ok (some 34) ∧
      Message.parse (Utf8.encode "A b S\r\nl: 2\nContent-Length: 9\r\n\nab") =
        .ok ⟨.request ⟨"A", "b", "S"⟩, [.ofText "l" "2", .ofText "Content-Length" "9"],
          Utf8.encode "ab"⟩ := by
  have hread : Message.parse (Utf8.encode "A b S\r\nl: 2\nContent-Length: 9\r\n\nabA b S\nl") =
      .ok ⟨.request ⟨"A", "b", "S"⟩, [.ofText "l" "2", .ofText "Content-Length" "9"],
        Utf8.encode "ab"⟩ := by
    decide +kernel
  have hframe : frameLength (Utf8.encode "A b S\r\nl: 2\nContent-Length: 9\r\n\nabA b S\nl") =
      .ok (some 34) := by
    decide +kernel
  obtain ⟨hsame, -⟩ := (frameLength_agrees _).1 34 hframe
  have htake : (Utf8.encode "A b S\r\nl: 2\nContent-Length: 9\r\n\nabA b S\nl").take 34 =
      Utf8.encode "A b S\r\nl: 2\nContent-Length: 9\r\n\nab" := by
    decide +kernel
  rw [htake, hread] at hsame
  exact ⟨hframe, hsame⟩

end SipProxy
