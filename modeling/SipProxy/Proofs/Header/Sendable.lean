import SipProxy.Proofs.Header.Lines
import SipProxy.Proofs.Value.Number
import SipProxy.Proofs.Value.Party
import SipProxy.Proofs.Value.Route
import SipProxy.Proofs.Value.ViaLine

/-!
# Header lines that are sent and read again

A header line holds the text it was received with, or a value that was read of it or put into it.
Both are sent as one line that is read back under the same name, and a question about its value gets
the answer that the line itself would give, but for spaces around display names
(`Header.read_received`). Every line that was received is of this kind, and stays so while its value
is read.
-/

namespace SipProxy

variable {t : String}

namespace HeaderKind

variable {k : HeaderKind} {v : k.Value}

/-- Values that are read as they are written, but for spaces around display names. -/
def IsWritable : (k : HeaderKind) → k.Value → Prop
  | via, entries => Via.IsWritable entries
  | route, entries => Route.IsWritable entries
  | recordRoute, entries => Route.IsWritable entries
  | toParty, party => Party.IsWritable party
  | fromParty, party => Party.IsWritable party
  | cSeq, value => CSeq.IsWritable value
  | maxForwards, _ => True

/-- The value that is read of one that is written. -/
def settled : (k : HeaderKind) → k.Value → k.Value
  | via, entries => entries
  | route, entries => entries.map RouteEntry.settled
  | recordRoute, entries => entries.map RouteEntry.settled
  | toParty, party => Party.settled party
  | fromParty, party => Party.settled party
  | cSeq, value => value
  | maxForwards, hops => hops

/-- A value is read back from the line it makes. -/
theorem parse_text (h : k.IsWritable v) (ht : Text.trim t = Text.trim (k.wrap v).text) :
    k.parse t = .ok (k.settled v) := by
  cases k with
  | via => exact @Via.parse_text t v h ht
  | route => exact @Route.parse_text "Route" t v (Route.IsWritable.isLegible h) ht
  | recordRoute => exact @Route.parse_text "Record-Route" t v (Route.IsWritable.isLegible h) ht
  | toParty => exact @Party.parse_text "To" t v (Party.IsWritable.isLegible h) ht
  | fromParty => exact @Party.parse_text "From" t v (Party.IsWritable.isLegible h) ht
  | cSeq => exact @CSeq.parse_text t v h ht
  | maxForwards => exact @Hops.parse_text t v ht

/-- What is read of a line can be written. -/
theorem isWritable_of_parse (hl : Text.IsLine t) (h : k.parse t = .ok v) : k.IsWritable v := by
  cases k with
  | via => exact @Via.isWritable_of_parse t v hl h
  | route => exact @Route.isWritable_of_parse "Route" t v hl h
  | recordRoute => exact @Route.isWritable_of_parse "Record-Route" t v hl h
  | toParty => exact @Party.isWritable_of_parse "To" t v hl h
  | fromParty => exact @Party.isWritable_of_parse "From" t v hl h
  | cSeq => exact @CSeq.isWritable_of_parse t v h
  | maxForwards => trivial

theorem IsWritable.isLine (h : k.IsWritable v) : Text.IsLine (k.wrap v).text := by
  cases k with
  | via => exact Via.IsWritable.isLine h
  | route => exact Route.IsWritable.isLine h
  | recordRoute => exact Route.IsWritable.isLine h
  | toParty => exact Party.IsWritable.isLine h
  | fromParty => exact Party.IsWritable.isLine h
  | cSeq => exact CSeq.IsWritable.isLine h
  | maxForwards => exact .of_digits

end HeaderKind

/-! ## Header lines -/

/-- A header line that is read back from what it writes: its name is one word without a colon, and
it holds the text of a line, trimmed, or a value of its own kind that can be written. -/
structure Header.IsSendable (h : Header) : Prop where
  name_ne : h.name ≠ ""
  name_blank : Text.hasBlank h.name = false
  name_colon : ':' ∉ h.name.toList
  raw : ∀ t, h.slot = .raw t → Text.trim t = t ∧ Text.IsLine t
  typed : ∀ value, h.slot = .typed value →
    ∃ k v, value = HeaderKind.wrap k v ∧ h.is k.name = true ∧ k.IsWritable v

namespace Header

variable {h : Header} {k : HeaderKind} {v : k.Value}

theorem IsSendable.isLegible (hs : h.IsSendable) : h.IsLegible where
  name_ne := hs.name_ne
  name_blank := hs.name_blank
  name_colon := hs.name_colon
  value_line := by
    unfold valueText
    cases hslot : h.slot with
    | raw t => exact (hs.raw t hslot).2
    | typed value =>
      obtain ⟨k, v, rfl, -, hv⟩ := hs.typed value hslot
      exact hv.isLine

/-- A header that holds a text is sendable if it can be read from the line it writes. -/
theorem IsWritable.isSendable {name t : String} (hw : (ofText name t).IsWritable) :
    (ofText name t).IsSendable where
  name_ne := hw.name_ne
  name_blank := hw.name_blank
  name_colon := hw.name_colon
  raw t ht := by
    cases ht
    exact ⟨hw.value_trim, hw.value_line⟩
  typed value hv := by
    cases hv

/-- What is read of a sendable line can be written on it. -/
theorem IsSendable.isWritable_of_read (hs : h.IsSendable) (hk : h.is k.name = true)
    (hr : h.read k = .ok v) : k.IsWritable v := by
  unfold read at hr
  cases hslot : h.slot with
  | raw t =>
    rw [hslot] at hr
    exact HeaderKind.isWritable_of_parse (hs.raw t hslot).2 hr
  | typed value =>
    obtain ⟨j, w, rfl, hj, hw⟩ := hs.typed value hslot
    obtain rfl := kind_unique hj hk
    rw [hslot] at hr
    simp only [HeaderKind.unwrap?_wrap] at hr
    cases hr
    exact hw

theorem IsSendable.put (hs : h.IsSendable) (hk : h.is k.name = true) (hv : k.IsWritable v) :
    (h.put k v).IsSendable where
  name_ne := hs.name_ne
  name_blank := hs.name_blank
  name_colon := hs.name_colon
  raw t ht := by
    cases ht
  typed value hvalue := by
    cases hvalue
    exact ⟨k, v, rfl, hk, hv⟩

theorem IsSendable.memoise (hs : h.IsSendable) (hk : h.is k.name = true) :
    (h.memoise k).2.IsSendable := by
  cases hr : h.read k with
  | ok v =>
    rw [memoise_of_ok hr]
    exact hs.put hk (hs.isWritable_of_read hk hr)
  | error e =>
    rw [memoise_of_error hr]
    exact hs

theorem isSendable_ofValue (hv : k.IsWritable v) : (ofValue k v).IsSendable where
  name_ne := by
    show k.name.text ≠ ""
    cases k <;> decide
  name_blank := by
    show Text.hasBlank k.name.text = false
    cases k <;> decide
  name_colon := by
    show ':' ∉ k.name.text.toList
    cases k <;> decide
  raw t ht := by
    cases ht
  typed value hvalue := by
    cases hvalue
    exact ⟨k, v, rfl, is_ofValue k v, hv⟩

/-- The line that is received is read as the line that was sent, with display names settled if it
was written from a value. -/
theorem read_received (hs : h.IsSendable) (hk : h.is k.name = true) :
    h.received.read k = h.read k ∨ h.received.read k = (h.read k).map k.settled := by
  show k.parse (Text.trim h.valueText) = _ ∨ k.parse (Text.trim h.valueText) = _
  unfold valueText read
  cases hslot : h.slot with
  | raw t =>
    left
    show k.parse (Text.trim t) = k.parse t
    rw [(hs.raw t hslot).1]
  | typed value =>
    right
    obtain ⟨j, w, rfl, hj, hw⟩ := hs.typed value hslot
    obtain rfl := kind_unique hj hk
    simp only [HeaderKind.unwrap?_wrap]
    exact HeaderKind.parse_text hw (Text.trim_trim _)

/-- Whatever does not depend on display names is read of the line that is received as of the line
that was sent. -/
theorem map_read_received {α : Type} {view : k.Value → α} (hs : h.IsSendable)
    (hk : h.is k.name = true) (hview : ∀ v, view (k.settled v) = view v) :
    (h.received.read k).map view = (h.read k).map view := by
  rcases read_received hs hk with hr | hr
  · rw [hr]
  · rw [hr]
    cases h.read k with
    | error e => rfl
    | ok v => exact congrArg Except.ok (hview v)

theorem read_received_eq (hs : h.IsSendable) (hk : h.is k.name = true)
    (hself : ∀ v, k.settled v = v) : h.received.read k = h.read k := by
  have hread : (h.received.read k).map id = (h.read k).map id := map_read_received hs hk hself
  rwa [Except.map_id] at hread

end Header

end SipProxy
