import SipProxy.Proofs.Message.Wire

/-!
# Messages that are composed

A message that the proxy or a caller puts together was never read, so nothing says that its fields
hold what a reader would have found in them. `StartLine.IsWritable` is what a start line has to keep
to, as `Header.IsWritable` is for a header line; of the body nothing is asked but that a machine
word counts it. Such a message is read back from what it is sent as, whatever lengths it was given
and whether its values are text or were changed (`Message.parse_wire_of_isWritable`).
-/

namespace SipProxy

/-- The fields are words, and the method does not begin like a version. -/
structure RequestLine.IsWritable (line : RequestLine) : Prop extends line.OfWords where
  not_status : isStatusText line.method = false

/-- The version is told from a method and ends at the first space, the code takes three digits, and
the reason is what is left of a line after trimming. -/
structure StatusLine.IsWritable (line : StatusLine) : Prop where
  status : isStatusText line.version = true
  version_space : ' ' ∉ line.version.toList
  version_line : Text.IsLine line.version
  code : 100 ≤ line.code.toNat ∧ line.code.toNat ≤ 999
  reason_trim : Text.trim line.reason = line.reason
  reason_line : Text.IsLine line.reason

namespace StartLine

/-- A start line that is read from the line it writes, by the reader of its own kind. -/
def IsWritable : StartLine → Prop
  | .request line => line.IsWritable
  | .response line => line.IsWritable

variable {start : StartLine}

theorem IsWritable.isLine (hs : start.IsWritable) : Text.IsLine start.text := by
  cases start with
  | request line => exact RequestLine.OfWords.isLine_text hs.toOfWords
  | response line => exact StatusLine.isLine_text_of_fields hs.version_line hs.reason_line

theorem IsWritable.parse_text (hs : start.IsWritable) :
    StartLine.parse start.text = .ok start := by
  refine parse_eq_ok.2 ?_
  cases start with
  | request line =>
    refine .inr ⟨?_, line, RequestLine.OfWords.parse_text hs.toOfWords, rfl⟩
    rw [isStatusText_request]
    exact hs.not_status
  | response line =>
    have hcode : line.code.toNat < 1000 := Nat.lt_succ_of_le hs.code.2
    refine .inl ⟨?_, line, ?_, rfl⟩
    · rw [isStatusText_response]
      exact hs.status
    · exact StatusLine.parse_text_of_code hs.version_space ⟨hs.code.1, hcode⟩ hs.reason_trim

end StartLine

namespace Message

/-- A message whose lines can be written is read back from what it is sent as: with its start line
and its body, and with its header lines as text in their order, but for the lines that tell a
length, in whose place the length of the body stands last. -/
theorem parse_wire_of_isWritable {m : Message} (hs : m.start.IsWritable)
    (hh : ∀ h ∈ m.headers, h.IsWritable) (hb : m.body.length ≤ maxLength) :
    Message.parse m.wire =
      .ok ⟨m.start,
        ((m.headers.filter fun h => !h.is .contentLength).map fun h =>
          .ofText h.name h.valueText) ++ [.ofText "Content-Length" (toString m.body.length)],
        m.body⟩ := by
  rw [parse_wire hs.isLine hh hb, hs.parse_text, sentHeaders, List.map_append]
  rfl

/-- A response without a reason, with two lengths that its body does not have, a value that was
read and a body that looks like the end of a header block. -/
theorem parse_wire_of_stale_lengths :
    let m : Message := ⟨.response ⟨"SIP/2.0", 999, ""⟩,
      [.ofText "l" "7", .ofValue .maxForwards ⟨70⟩, .ofText "CONTENT-length" "none",
        .ofText "Subject" ""],
      [0x0D, 0x0A, 0x0D, 0x0A, 0xFF]⟩
    (m.start.IsWritable ∧ (∀ h ∈ m.headers, h.IsWritable) ∧ m.body.length ≤ maxLength) ∧
      Message.parse m.wire =
        .ok ⟨.response ⟨"SIP/2.0", 999, ""⟩,
          [.ofText "Max-Forwards" "70", .ofText "Subject" "", .ofText "Content-Length" "5"],
          [0x0D, 0x0A, 0x0D, 0x0A, 0xFF]⟩ := by
  intro m
  have hs : m.start.IsWritable := by
    refine ⟨?_, ?_, ⟨?_, ?_⟩, ?_, ?_, ?_, ?_⟩
    all_goals decide +kernel
  have hh : ∀ h ∈ m.headers, h.IsWritable := by
    intro h hmem
    simp only [m, List.mem_cons, List.not_mem_nil, or_false] at hmem
    rcases hmem with rfl | rfl | rfl | rfl
    all_goals
      refine ⟨?_, ?_, ?_, ?_, ?_, ?_⟩
      all_goals decide +kernel
  have hb : m.body.length ≤ maxLength := by decide
  refine ⟨⟨hs, hh, hb⟩, (parse_wire_of_isWritable hs hh hb).trans ?_⟩
  decide +kernel

end Message

end SipProxy
