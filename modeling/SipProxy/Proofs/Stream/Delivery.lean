import SipProxy.Proofs.Grammar.Lexeme
import SipProxy.Proofs.Message.Composed
import SipProxy.Proofs.Stream.Cuts

/-!
# Streams lose and invent nothing

What was sent on a stream is what is delivered of it: message by message, in order, with any fillers
around them and whatever the bodies hold (`Listener.receiveAll_sent`). One message in front of a
stream is one frame of the length it was sent with (`Message.frameLengthWithin_wire`), because its
own length is the only one it tells, and no filler is part of it, because it begins with its start
line. So a pass over the stream takes it off and goes on behind it (`StreamReader.drain_wire`), and
the rest is an induction on the messages.
-/

namespace SipProxy

open StreamReader

namespace StartLine

variable {start : StartLine}

theorem text_ne_empty (start : StartLine) : start.text ≠ "" := by
  intro h
  have hspace : ' ' ∈ start.text.toList := by
    cases start with
    | request line => simp [text]
    | response line => simp [text]
  rw [h] at hspace
  cases hspace

end StartLine

namespace Message

variable {m : Message}

/-- A message that can be sent on a stream: its lines can be written, and it is not too long. -/
structure IsStreamable (m : Message) : Prop where
  start : m.start.IsWritable
  headers : ∀ h ∈ m.headers, h.IsWritable
  length : m.wire.length ≤ maxMessage

theorem length_body_le_wire (m : Message) : m.body.length ≤ m.wire.length := by
  rw [wire, List.length_append]
  omega

theorem IsStreamable.length_body (hm : m.IsStreamable) : m.body.length ≤ maxLength := by
  have hmax : maxMessage ≤ maxLength := by decide
  exact Nat.le_trans (Nat.le_trans m.length_body_le_wire hm.length) hmax

/-- The message is read, though some of its lines may be read as text that were values. -/
theorem IsStreamable.exists_parse_wire (hm : m.IsStreamable) :
    ∃ m', Message.parse m.wire = .ok m' := by
  rw [parse_wire hm.start.isLine hm.headers hm.length_body, hm.start.parse_text]
  exact ⟨_, rfl⟩

/-- The message is one frame, as long as it is. -/
theorem frameLengthWithin_wire (hm : m.IsStreamable) :
    frameLengthWithin maxMessage m.wire = .ok (some m.wire.length) := by
  have hlegible : ∀ h ∈ m.headers, h.IsLegible := by
    intro h hh
    exact (hm.headers h hh).isLegible
  have hread := read_wire (m := m) hm.start.isLine
  have hblock := HeaderBlock.read_block (isLegible_sentHeaders hlegible) m.body
  refine frameLengthWithin_eq_some.2 ⟨_, _, _, _, _, hread, hblock,
    contentLength_sentHeaders hm.length_body, ?_, hm.length, Nat.le_refl _⟩
  have hle := m.length_body_le_wire
  omega

/-- What is sent begins with no filler. -/
theorem dropWhile_wire_append (hm : m.IsStreamable) (rest : Octets) :
    (m.wire ++ rest).dropWhile isFiller = m.wire ++ rest := by
  obtain ⟨b, s, hs⟩ := List.exists_cons_of_ne_nil
    (Lexeme.encode_ne_nil m.start.text_ne_empty)
  have hinside : Line.isInside b = true := by
    apply hm.start.isLine.isInside_of_mem_encode
    rw [hs]
    exact List.mem_cons_self
  have hfiller : isFiller b = false := by
    unfold Line.isInside at hinside
    unfold isFiller
    simp only [Bool.and_eq_true, bne_iff_ne, ne_eq] at hinside
    simp only [Bool.or_eq_false_iff, beq_eq_false_iff_ne, ne_eq]
    exact hinside
  rw [wire, headText_eq, Utf8.encode_append, Utf8.encode_append, hs]
  simp only [List.cons_append, List.dropWhile_cons, hfiller]
  rfl

end Message

namespace StreamReader

variable {m : Message} {gap : Octets}

/-- Fillers alone are dropped, and the reader waits. -/
theorem drain_fillers (hgap : ∀ b ∈ gap, isFiller b = true) : drain gap = ([], start) := by
  have hnil : gap.dropWhile isFiller = [] := by
    rw [← List.append_nil gap, List.dropWhile_append_of_pos hgap]
    rfl
  have hdrain : drain gap = drain [] := drain_congr hnil
  rw [hdrain, drain_nil]

/-- A message behind fillers is taken off, and what follows it is read as if it stood alone. -/
theorem drain_wire (hgap : ∀ b ∈ gap, isFiller b = true) (hm : m.IsStreamable) (rest : Octets) :
    drain (gap ++ (m.wire ++ rest)) = (m.wire :: (drain rest).1, (drain rest).2) := by
  have hdrop : (gap ++ (m.wire ++ rest)).dropWhile isFiller = m.wire ++ rest := by
    rw [List.dropWhile_append_of_pos hgap]
    exact m.dropWhile_wire_append hm rest
  have hframe : frameLengthWithin maxMessage (m.wire ++ rest) = .ok (some m.wire.length) := by
    have hwire := Message.frameLengthWithin_wire hm
    rw [frameLengthWithin_append rest (by rw [hwire]; simp), hwire]
  rw [drain_of_frame (hdrop ▸ hframe), hdrop, List.take_left, List.drop_left]

/-- Messages one after another, with fillers before, between and behind them, are taken off one
after another. -/
theorem drain_sent {sent : List (Message × Octets)} (hsent : ∀ x ∈ sent, x.1.IsStreamable)
    (hgaps : ∀ x ∈ sent, ∀ b ∈ x.2, isFiller b = true) (hgap : ∀ b ∈ gap, isFiller b = true) :
    drain (gap ++ sent.flatMap fun x => x.1.wire ++ x.2) = (sent.map fun x => x.1.wire, start) := by
  induction sent generalizing gap with
  | nil =>
    rw [List.flatMap_nil, List.append_nil]
    exact drain_fillers hgap
  | cons x sent ih =>
    have hrest := ih (fun y hy => hsent y (List.mem_cons_of_mem x hy))
      (fun y hy => hgaps y (List.mem_cons_of_mem x hy)) (hgaps x List.mem_cons_self)
    rw [List.flatMap_cons, List.append_assoc, drain_wire hgap (hsent x List.mem_cons_self), hrest]
    rfl

end StreamReader

namespace Listener

variable {l : Listener} {peer : Endpoint}

/-- What is taken off is delivered as it is read. -/
theorem deliver_wire {m m' : Message} (hl : l.notesSource = false)
    (hm : Message.parse m.wire = .ok m') : l.deliver peer m.wire = some ⟨m', peer, l.point⟩ := by
  unfold deliver Delivery.ofOctets
  rw [hm, hl]
  rfl

theorem filterMap_deliver_wire {ms : List Message} (peer : Endpoint) (hl : l.notesSource = false)
    (hms : ∀ m ∈ ms, m.IsStreamable) :
    ∃ received : List Message,
      (ms.map fun m => Message.parse m.wire) = received.map .ok ∧
      (ms.map Message.wire).filterMap (l.deliver peer) =
        received.map fun m => ⟨m, peer, l.point⟩ := by
  induction ms with
  | nil => exact ⟨[], rfl, rfl⟩
  | cons m ms ih =>
    obtain ⟨received, hparse, hdeliver⟩ := ih fun x hx => hms x (List.mem_cons_of_mem m hx)
    obtain ⟨m', hm'⟩ := (hms m List.mem_cons_self).exists_parse_wire
    refine ⟨m' :: received, ?_, ?_⟩
    · rw [List.map_cons, List.map_cons, hparse, hm']
    · rw [List.map_cons, List.filterMap_cons_some (deliver_wire hl hm'), hdeliver]
      rfl

/-- Whatever messages are sent on a stream, with any carriage returns and line feeds before,
between and behind them, and however the stream is cut: a listener that does not note sources
delivers one message for each, in order, which is what is read of that message by itself, and it
delivers nothing else. Its reader is left as it was before the first. -/
theorem receiveAll_sent {before : Octets} {sent : List (Message × Octets)} {pieces : List Octets}
    (hl : l.notesSource = false) (hsent : ∀ x ∈ sent, x.1.IsStreamable)
    (hbefore : ∀ b ∈ before, isFiller b = true)
    (hgaps : ∀ x ∈ sent, ∀ b ∈ x.2, isFiller b = true)
    (hpieces : pieces.flatten = before ++ sent.flatMap fun x => x.1.wire ++ x.2) :
    ∃ received : List Message,
      (sent.map fun x => Message.parse x.1.wire) = received.map .ok ∧
      (l.accept peer).receiveAll peer pieces = (received.map fun m => ⟨m, peer, l.point⟩) ∧
      feedAll pieces start = (sent.map fun x => x.1.wire, start) := by
  have hfed : feedAll pieces start = (sent.map fun x => x.1.wire, start) := by
    rw [feedAll_eq_drain, hpieces]
    exact drain_sent hsent hgaps hbefore
  have hall : ∀ m ∈ sent.map Prod.fst, m.IsStreamable := by
    intro m hm
    obtain ⟨x, hx, rfl⟩ := List.mem_map.1 hm
    exact hsent x hx
  obtain ⟨received, hparse, hdeliver⟩ := filterMap_deliver_wire peer hl hall
  rw [List.map_map] at hparse hdeliver
  refine ⟨received, hparse, ?_, hfed⟩
  rw [receiveAll_accept, StreamReader.frames, hfed]
  exact hdeliver

/-- A request whose body begins like the end of a header block and goes on like another length, and
a response without a body right behind it, cut inside line endings. -/
theorem receiveAll_sent_of_misleading_body :
    ((Listener.of ⟨.tcp, .v4 ⟨10, 0, 0, 9⟩ 5060⟩ false).accept (.v4 ⟨10, 0, 0, 1⟩ 4000)).receiveAll
        (.v4 ⟨10, 0, 0, 1⟩ 4000)
        [Utf8.encode "\r\nA b S\r", Utf8.encode "\nContent-Length: 5\r\n\r\n\r\nl:1SIP/2.0 200 \r",
          Utf8.encode "\nContent-Length: 0\r\n\r\n\n"] =
      [⟨⟨.request ⟨"A", "b", "S"⟩, [.ofText "Content-Length" "5"], Utf8.encode "\r\nl:1"⟩,
          .v4 ⟨10, 0, 0, 1⟩ 4000, ⟨.tcp, .v4 ⟨10, 0, 0, 9⟩ 5060⟩⟩,
        ⟨⟨.response ⟨"SIP/2.0", 200, ""⟩, [.ofText "Content-Length" "0"], []⟩,
          .v4 ⟨10, 0, 0, 1⟩ 4000, ⟨.tcp, .v4 ⟨10, 0, 0, 9⟩ 5060⟩⟩] := by
  have hrequest : Message.IsStreamable
      ⟨.request ⟨"A", "b", "S"⟩, [.ofText "l" "9"], Utf8.encode "\r\nl:1"⟩ := by
    refine ⟨⟨⟨?_, ?_, ?_⟩, ?_⟩, ?_, ?_⟩
    case refine_5 =>
      intro h hh
      rw [List.mem_singleton.1 hh]
      refine ⟨?_, ?_, ?_, ?_, ?_, ?_⟩
      all_goals decide +kernel
    all_goals decide +kernel
  have hresponse : Message.IsStreamable ⟨.response ⟨"SIP/2.0", 200, ""⟩, [], []⟩ := by
    refine ⟨⟨?_, ?_, ⟨?_, ?_⟩, ?_, ?_, ⟨?_, ?_⟩⟩, ?_, ?_⟩
    case refine_9 =>
      intro h hh
      cases hh
    all_goals decide +kernel
  obtain ⟨received, hparse, hreceive, -⟩ := @receiveAll_sent
    (Listener.of ⟨.tcp, .v4 ⟨10, 0, 0, 9⟩ 5060⟩ false) (.v4 ⟨10, 0, 0, 1⟩ 4000) [0x0D, 0x0A]
    [(⟨.request ⟨"A", "b", "S"⟩, [.ofText "l" "9"], Utf8.encode "\r\nl:1"⟩, []),
      (⟨.response ⟨"SIP/2.0", 200, ""⟩, [], []⟩, [0x0A])]
    [Utf8.encode "\r\nA b S\r", Utf8.encode "\nContent-Length: 5\r\n\r\n\r\nl:1SIP/2.0 200 \r",
      Utf8.encode "\nContent-Length: 0\r\n\r\n\n"] rfl
    (by simpa using ⟨hrequest, hresponse⟩) (by simp [isFiller]) (by simp [isFiller])
    (by decide +kernel)
  have hread : [Message.parse (Message.wire ⟨.request ⟨"A", "b", "S"⟩, [.ofText "l" "9"],
          Utf8.encode "\r\nl:1"⟩),
        Message.parse (Message.wire ⟨.response ⟨"SIP/2.0", 200, ""⟩, [], []⟩)] =
      [.ok ⟨.request ⟨"A", "b", "S"⟩, [.ofText "Content-Length" "5"], Utf8.encode "\r\nl:1"⟩,
        .ok ⟨.response ⟨"SIP/2.0", 200, ""⟩, [.ofText "Content-Length" "0"], []⟩] := by
    decide +kernel
  have hmap : received.map Except.ok = [⟨.request ⟨"A", "b", "S"⟩,
        [.ofText "Content-Length" "5"], Utf8.encode "\r\nl:1"⟩,
      ⟨.response ⟨"SIP/2.0", 200, ""⟩, [.ofText "Content-Length" "0"], []⟩].map
        (Except.ok (ε := SipError)) := hparse.symm.trans hread
  rw [hreceive, (List.map_inj_right fun _ _ => Except.ok.inj).1 hmap]
  rfl

end Listener

end SipProxy
