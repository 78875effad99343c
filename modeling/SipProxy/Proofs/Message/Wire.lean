import SipProxy.Proofs.Message.StartLine
import SipProxy.Proofs.Outcome

/-!
# Messages that are written and read again

A message is written line by line and read again line by line, so what decides whether it comes back
is whether each of its lines does. Header lines always do once they have been read; what comes back
of the whole is then up to the start line alone (`Message.parse_wire`).
-/

namespace SipProxy

/-! ## Messages -/

theorem Headers.contentLength_le {hs : Headers} {n : Nat} (h : hs.contentLength = .ok n) :
    n ≤ maxLength := by
  unfold Headers.contentLength at h
  split at h
  · split at h
    · rename_i hlen
      cases h
      exact Nat.le_of_lt_succ (Decimal.ofDigitsBelow?_eq_some.1 hlen).2
    · cases h
  · cases h

namespace Message

variable {s : Octets} {m : Message}

/-- What was read of a message, part by part. -/
theorem parts_of_parse (h : Message.parse s = .ok m) :
    ∃ first rest body length, Line.read s = some (first, rest) ∧
      StartLine.parse (Utf8.decode first) = .ok m.start ∧
        HeaderBlock.read rest = .ended m.headers body ∧
          m.headers.contentLength = .ok length ∧ m.body = body.take length := by
  unfold Message.parse at h
  split at h
  · cases h
  · rename_i first rest hl
    obtain ⟨start, hs, h⟩ := Outcome.bind_eq_ok.1 h
    split at h
    · cases h
    · cases h
    · rename_i headers body hb
      obtain ⟨length, hlen, h⟩ := Outcome.bind_eq_ok.1 h
      split at h
      · cases h
      · cases h
        exact ⟨first, rest, body, length, hl, hs, hb, hlen, rfl⟩

/-- The header lines of the message as it is sent: its own without any length, then the length. -/
def sentHeaders (m : Message) : Headers :=
  m.writtenHeaders ++ [.ofText "Content-Length" (toString m.body.length)]

theorem headText_eq (m : Message) :
    m.headText = m.start.text ++ "\r\n" ++ Headers.block m.sentHeaders := by
  apply String.toList_inj.1
  simp [headText, Headers.block, sentHeaders, Header.text, Header.ofText, Header.valueText,
    Slot.text]

/-- The header that tells the length of a body can be read. -/
theorem isWritable_length (n : Nat) :
    (Header.ofText "Content-Length" (toString n)).IsWritable where
  name_ne := show "Content-Length" ≠ "" by decide
  name_blank := show Text.hasBlank "Content-Length" = false by decide
  name_colon := show ':' ∉ "Content-Length".toList by decide
  value_trim := by
    refine Text.trim_of_hasBlank (Text.hasBlank_eq_false.2 fun c hc => ?_)
    exact Decimal.not_isBlank_of_isDigit (Decimal.isDigit_of_mem_toString hc)
  value_line := .of_digits

theorem isLegible_sentHeaders (hw : ∀ h ∈ m.headers, h.IsLegible) :
    ∀ h ∈ m.sentHeaders, h.IsLegible := by
  intro h hh
  rcases List.mem_append.1 hh with hh | hh
  · exact hw h (List.mem_filter.1 hh).1
  · rw [List.mem_singleton.1 hh]
    exact (isWritable_length _).isLegible

/-- The length that is read from the lines of a sent message is that of its body. -/
theorem contentLength_sentHeaders (hlen : m.body.length ≤ maxLength) :
    Headers.contentLength (m.sentHeaders.map Header.received) = .ok m.body.length := by
  have hnone : ∀ h ∈ m.writtenHeaders, (!h.is .contentLength) = true := by
    intro h hh
    exact (List.mem_filter.1 hh).2
  have hfirst : Headers.named? .contentLength (m.sentHeaders.map Header.received) =
      some (.ofText "Content-Length" (toString m.body.length)) := by
    have hself := (isWritable_length m.body.length).received
    have hname : HeaderName.isWrittenAs .contentLength "Content-Length" = true := by
      decide +kernel
    -- no line before the last tells a length
    rw [Headers.named?, sentHeaders, List.map_append, List.find?_append, List.find?_eq_none.2]
    · rw [Option.none_or, List.map_singleton, hself]
      exact List.find?_cons_of_pos hname
    · intro h hh
      obtain ⟨h', hh', rfl⟩ := List.mem_map.1 hh
      have := hnone h' hh'
      rw [Bool.not_eq_true'] at this
      exact Bool.not_eq_true _ ▸ this
  have hread : Headers.length? (toString m.body.length) = some m.body.length :=
    Decimal.ofDigitsBelow?_toString (Nat.lt_succ_of_le hlen)
  unfold Headers.contentLength
  rw [hfirst]
  simp only [Header.valueText, Header.ofText, Slot.text, hread]

/-- What is sent begins with the start line, and the header block follows. -/
theorem read_wire (hs : Text.IsLine m.start.text) :
    Line.read m.wire =
      some (Utf8.encode m.start.text, Utf8.encode m.sentHeaders.block ++ m.body) := by
  rw [wire, headText_eq, Utf8.encode_append, List.append_assoc]
  exact hs.read_encode _

/-- A message whose lines are legible is read back with its values as text, unless its start line is
not what it was. -/
theorem parse_wire_of_isLegible (hs : Text.IsLine m.start.text)
    (hw : ∀ h ∈ m.headers, h.IsLegible) (hlen : m.body.length ≤ maxLength) :
    Message.parse m.wire =
      (StartLine.parse m.start.text).map fun start =>
        ⟨start, m.sentHeaders.map Header.received, m.body⟩ := by
  unfold Message.parse
  simp only [read_wire hs, Utf8.decode_encode, HeaderBlock.read_block (isLegible_sentHeaders hw),
    contentLength_sentHeaders hlen]
  cases StartLine.parse m.start.text with
  | error e => rfl
  | ok start =>
    show (if m.body.length < m.body.length then _ else _) = _
    rw [if_neg (Nat.lt_irrefl _), List.take_length]
    rfl

/-- A message whose lines are readable is read back, unless its start line is not what it was. -/
theorem parse_wire {m : Message} (hs : Text.IsLine m.start.text)
    (hw : ∀ h ∈ m.headers, h.IsWritable) (hlen : m.body.length ≤ maxLength) :
    Message.parse m.wire =
      (StartLine.parse m.start.text).map fun start =>
        ⟨start, m.sentHeaders.map fun h => .ofText h.name h.valueText, m.body⟩ := by
  have hsent : ∀ h ∈ m.sentHeaders, h.received = .ofText h.name h.valueText := by
    intro h hh
    rcases List.mem_append.1 hh with hh | hh
    · exact (hw h (List.mem_filter.1 hh).1).received
    · rw [List.mem_singleton.1 hh]
      exact (isWritable_length _).received
  rw [parse_wire_of_isLegible hs (fun h hh => (hw h hh).isLegible) hlen, List.map_congr_left hsent]

/-- A message that was read is sent as one that is read back: with its start line and its body, and
with its header lines in their order and the length of the body behind them, which no other line
tells. Only a start line that is not stable is read back as another one or refused. -/
theorem parse_wire_eq_ok_iff (h : Message.parse s = .ok m) :
    Message.parse m.wire =
        .ok ⟨m.start,
          (m.headers.filter fun x => !x.is .contentLength) ++
            [.ofText "Content-Length" (toString m.body.length)],
          m.body⟩ ↔
      m.start.IsStable := by
  obtain ⟨first, rest, body, length, hl, hs, hb, hc, hbody⟩ := parts_of_parse h
  have hfirst : Text.IsLine m.start.text :=
    StartLine.isLine_text (.decode (Line.read_eq_some.1 hl).1) hs
  have hlen : m.body.length ≤ maxLength := by
    rw [hbody]
    exact Nat.le_trans (List.length_take_le _ _) (Headers.contentLength_le hc)
  -- every line is text as yet, so reading it back gives the line itself
  have hsame : (m.sentHeaders.map fun h => Header.ofText h.name h.valueText) = m.sentHeaders := by
    rw [sentHeaders, List.map_append, List.map_singleton]
    congr 1
    refine (List.map_congr_left fun x hx => ?_).trans (List.map_id _)
    exact (HeaderBlock.of_mem_read hb (List.mem_filter.1 hx).1).2.symm
  rw [← StartLine.parse_text_iff hs,
    parse_wire hfirst (fun x hx => (HeaderBlock.of_mem_read hb hx).1) hlen, hsame,
    Outcome.map_eq_ok]
  constructor
  · rintro ⟨start, hstart, heq⟩
    rw [hstart, (Message.mk.inj heq).1]
  · intro hstart
    exact ⟨m.start, hstart, rfl⟩

/-- A response with a bare line feed and the length in compact form comes back. -/
theorem parse_wire_of_compact_length :
    Message.parse (Utf8.encode "SIP/2.0 200 OK\nl: 2\r\nA:b \r\n\r\nxyz") =
        .ok ⟨.response ⟨"SIP/2.0", 200, "OK"⟩, [.ofText "l" "2", .ofText "A" "b"],
          Utf8.encode "xy"⟩ ∧
      Message.parse (Message.wire ⟨.response ⟨"SIP/2.0", 200, "OK"⟩,
          [.ofText "l" "2", .ofText "A" "b"], Utf8.encode "xy"⟩) =
        .ok ⟨.response ⟨"SIP/2.0", 200, "OK"⟩, [.ofText "A" "b", .ofText "Content-Length" "2"],
          Utf8.encode "xy"⟩ := by
  have h : Message.parse (Utf8.encode "SIP/2.0 200 OK\nl: 2\r\nA:b \r\n\r\nxyz") =
      .ok ⟨.response ⟨"SIP/2.0", 200, "OK"⟩, [.ofText "l" "2", .ofText "A" "b"],
        Utf8.encode "xy"⟩ := by
    decide +kernel
  refine ⟨h, ((parse_wire_eq_ok_iff h).2 (by decide)).trans ?_⟩
  decide +kernel

/-- A code that was read from two digits is refused when it is written with them, and a request
whose method begins like a version comes back as a response. -/
theorem exists_parse_wire_ne :
    (∃ m, Message.parse (Utf8.encode "SIP/2.0 +12 OK\r\nl: 0\r\n\r\n") = .ok m ∧
        Message.parse m.wire =
          .error (.malformedFirstLine "invalid status code in 'SIP/2.0 12 OK'")) ∧
      ∃ m, Message.parse (Utf8.encode " SIP/2.0 200 OK\r\nl: 0\r\n\r\n") = .ok m ∧
        m.start = .request ⟨"SIP/2.0", "200", "OK"⟩ ∧
        (Message.parse m.wire).map Message.start = .ok (.response ⟨"SIP/2.0", 200, "OK"⟩) := by
  refine ⟨⟨⟨.response ⟨"SIP/2.0", 12, "OK"⟩, [.ofText "l" "0"], []⟩, ?_, ?_⟩,
    ⟨.request ⟨"SIP/2.0", "200", "OK"⟩, [.ofText "l" "0"], []⟩, ?_, rfl, ?_⟩
  all_goals decide +kernel

end Message

end SipProxy
