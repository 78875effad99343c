import SipProxy.Proofs.Header.Sendable
import SipProxy.Proofs.Message.Edit
import SipProxy.Proofs.Message.Wire

/-!
# Messages that are sent and read again

A message all of whose lines are sendable arrives with the same lines in the same order, but for
those that tell the length of the body (`Message.received`). So whatever is asked of the lines of a
kind has the same answer on both sides, as far as it does not depend on display names
(`Message.reads_received`). Every message that was received is of this kind
(`Message.isSendable_of_parse`), and no operation on its headers changes that, whether it succeeds
or not, as long as what it writes can be read.
-/

namespace SipProxy

open Headers

/-- A message whose first line and header lines are read back from what they write. -/
structure Message.IsSendable (m : Message) : Prop where
  start : Text.IsLine m.start.text
  headers : ∀ h ∈ m.headers, h.IsSendable
  length : m.body.length ≤ maxLength

namespace Message

variable {s : Octets} {k : HeaderKind} {m m' : Message}

/-- What was received is sendable. -/
theorem isSendable_of_parse (h : Message.parse s = .ok m) : m.IsSendable := by
  obtain ⟨first, rest, body, length, hfirst, hstart, hblock, hlength, hbody⟩ := parts_of_parse h
  constructor
  · exact StartLine.isLine_text (.decode (Line.read_eq_some.1 hfirst).1) hstart
  · intro x hx
    obtain ⟨hw, heq⟩ := HeaderBlock.of_mem_read hblock hx
    rw [heq] at hw ⊢
    exact hw.isSendable
  · rw [hbody]
    exact Nat.le_trans (List.length_take_le _ _) (Headers.contentLength_le hlength)

/-! ## Edits -/

namespace IsSendable

theorem replaceFirst {f : Header → Headers} (hm : m.IsSendable)
    (hf : ∀ h, h.IsSendable → h.is k.name = true → ∀ x ∈ f h, x.IsSendable) :
    IsSendable { m with headers := replaceFirst k f m.headers } where
  start := hm.start
  length := hm.length
  headers := by
    intro x hx
    simp only [Headers.replaceFirst] at hx
    cases hc : cut k.name m.headers with
    | none =>
      rw [hc] at hx
      exact hm.headers x hx
    | some r =>
      obtain ⟨before, h, after⟩ := r
      obtain ⟨hsplit, hk, -⟩ := cut_eq_some.1 hc
      have hall := hm.headers
      rw [hsplit] at hall
      rw [hc] at hx
      rcases List.mem_append.1 hx with hx | hx
      · rcases List.mem_append.1 hx with hx | hx
        · exact hall x (List.mem_append_left _ hx)
        · exact hf h (hall h (by simp)) hk x hx
      · exact hall x (List.mem_append_right _ (List.mem_cons_of_mem h hx))

theorem insertAt {h : Header} (hm : m.IsSendable) (hh : h.IsSendable) (n : Nat) :
    IsSendable { m with headers := m.headers.insertAt n h } where
  start := hm.start
  length := hm.length
  headers := by
    intro x hx
    simp only [Headers.insertAt] at hx
    rcases List.mem_append.1 hx with hx | hx
    · exact hm.headers x (List.mem_of_mem_take hx)
    · rcases List.mem_cons.1 hx with rfl | hx
      · exact hh
      · exact hm.headers x (List.mem_of_mem_drop hx)

theorem typed (hm : m.IsSendable) (k : HeaderKind) : (m.typed k).2.IsSendable := by
  rw [typed_snd]
  refine hm.replaceFirst fun h hh hk x hx => ?_
  rw [List.mem_singleton.1 hx]
  exact hh.memoise hk

theorem modify {f : k.Value → k.Value} (hm : m.IsSendable)
    (hf : ∀ v, k.IsWritable v → k.IsWritable (f v)) : (m.modify k f).2.IsSendable := by
  rw [modify_snd]
  refine hm.replaceFirst fun h hh hk x hx => ?_
  rw [List.mem_singleton.1 hx]
  cases hr : h.read k with
  | ok v =>
    rw [revised_of_ok hr]
    exact hh.put hk (hf v (hh.isWritable_of_read hk hr))
  | error e =>
    rw [revised, hr]
    exact hh

theorem pop {α : Type} {view : k.Value → List α} {make : List α → k.Value} (hm : m.IsSendable)
    (hmake : ∀ v entry next entries, k.IsWritable v → view v = entry :: next :: entries →
      k.IsWritable (make (next :: entries))) : (m.pop k view make).2.IsSendable := by
  rw [pop_snd]
  refine hm.replaceFirst fun h hh hk x hx => ?_
  unfold leftover at hx
  cases hr : h.read k with
  | error e =>
    rw [hr] at hx
    rw [List.mem_singleton.1 hx]
    exact hh
  | ok v =>
    have hv := hh.isWritable_of_read hk hr
    rw [hr] at hx
    simp only at hx
    split at hx
    · rw [List.mem_singleton.1 hx]
      exact hh.put hk hv
    · cases hx
    · rename_i entry entries hne hentries
      rw [List.mem_singleton.1 hx]
      cases entries with
      | nil => exact absurd rfl hne
      | cons next entries => exact hh.put hk (hmake v entry next entries hv hentries)

theorem popRoute (hm : m.IsSendable) : m.popRoute.2.IsSendable := by
  refine hm.pop fun v entry next entries hv heq => ?_
  have hlist : Route.IsWritable (entry :: next :: entries) := by
    rw [← heq]
    exact hv
  exact hlist.tail (List.cons_ne_nil next entries) fun e _ => e.isIndented_text.ne_empty

theorem pushVia {entry : ViaEntry} (hm : m.IsSendable) (he : Via.IsWritable [entry]) :
    (m.pushVia entry).IsSendable :=
  hm.insertAt (Header.isSendable_ofValue (k := .via) he) _

theorem pushRecordRoute {entry : RouteEntry} (hm : m.IsSendable) (he : Route.IsWritable [entry]) :
    (m.pushRecordRoute entry).IsSendable :=
  hm.insertAt (Header.isSendable_ofValue (k := .recordRoute) he) _

theorem viaEntries (hm : m.IsSendable) : m.viaEntries.2.IsSendable where
  start := hm.start
  length := hm.length
  headers := by
    show ∀ x ∈ (Headers.viaEntries m.headers).2, x.IsSendable
    have hall := hm.headers
    generalize m.headers = hs at hall
    induction hs with
    | nil =>
      intro x hx
      cases hx
    | cons h hs ih =>
      have hh := hall h List.mem_cons_self
      have htail := ih fun x hx => hall x (List.mem_cons_of_mem h hx)
      unfold Headers.viaEntries
      split
      · rename_i hk
        have hread := hh.memoise (k := .via) hk
        split
        · rename_i heq
          rw [heq] at hread
          intro x hx
          rcases List.mem_cons.1 hx with rfl | hx
          · exact hread
          · exact htail x hx
        · rename_i heq
          rw [heq] at hread
          intro x hx
          rcases List.mem_cons.1 hx with rfl | hx
          · exact hread
          · exact hall x (List.mem_cons_of_mem h hx)
      · intro x hx
        rcases List.mem_cons.1 hx with rfl | hx
        · exact hh
        · exact htail x hx

end IsSendable

/-! ## Arrival -/

/-- What is read of a sendable message, unless its start line is not what it was. -/
def received (m : Message) : Message := ⟨m.start, m.sentHeaders.map Header.received, m.body⟩

theorem parse_wire_of_isSendable (hm : m.IsSendable) :
    Message.parse m.wire =
      (StartLine.parse m.start.text).map fun start => { m.received with start := start } :=
  parse_wire_of_isLegible hm.start (fun h hh => (hm.headers h hh).isLegible) hm.length

theorem is_contentLength_of_kind {h : Header} (hk : h.is k.name = true) :
    h.is .contentLength = false := by
  have hname := Header.is_name_iff.1 hk
  unfold Header.is HeaderName.isWrittenAs
  rw [hname]
  cases k <;> rfl

/-- The lines of a kind arrive one by one. -/
theorem linesOf_received (k : HeaderKind) (m : Message) :
    linesOf k m.received.headers = (linesOf k m.headers).map Header.received := by
  have hlength : Header.is (.ofText "Content-Length" (toString m.body.length)) k.name = false := by
    rw [← Bool.not_eq_true, Header.is_name_iff]
    show HeaderName.ofText "Content-Length" ≠ k.name
    cases k <;> decide +kernel
  have hwritten : linesOf k m.writtenHeaders = linesOf k m.headers := by
    unfold linesOf writtenHeaders
    rw [List.filter_filter]
    refine List.filter_congr fun h _ => ?_
    cases hk : h.is k.name with
    | false => rfl
    | true => simp [is_contentLength_of_kind hk]
  have hsent : linesOf k m.sentHeaders = linesOf k m.headers := by
    have hnone : linesOf k [.ofText "Content-Length" (toString m.body.length)] = [] := by
      refine linesOf_eq_nil fun x hx => ?_
      rw [List.mem_singleton.1 hx]
      exact hlength
    rw [sentHeaders, linesOf_append, hwritten, hnone, List.append_nil]
  rw [← hsent]
  show (m.sentHeaders.map Header.received).filter _ = _
  rw [List.filter_map]
  rfl

/-- The lines of a kind are read as they were before they were sent. -/
theorem reads_received {α : Type} {view : k.Value → α} (hm : m.IsSendable)
    (hview : ∀ v, view (k.settled v) = view v) :
    (linesOf k m.received.headers).map (fun h => (h.read k).map view) =
      (linesOf k m.headers).map fun h => (h.read k).map view := by
  rw [linesOf_received, List.map_map]
  refine List.map_congr_left fun h hh => ?_
  obtain ⟨hmem, hk⟩ := List.mem_filter.1 hh
  exact Header.map_read_received (hm.headers h hmem) hk hview

/-- So is the first line of a kind. -/
theorem typed_received {α : Type} {view : k.Value → α} (hm : m.IsSendable)
    (hview : ∀ v, view (k.settled v) = view v) :
    (m.received.typed k).1.map (Option.map view) = (m.typed k).1.map (Option.map view) := by
  have hsome : ∀ x : Except SipError k.Value,
      (x.map some).map (Option.map view) = (x.map view).map some := by
    intro x
    cases x <;> rfl
  rw [typed_fst, typed_fst, linesOf_received]
  cases hl : linesOf k m.headers with
  | nil => rfl
  | cons h rest =>
    have hh : h ∈ linesOf k m.headers := by
      rw [hl]
      exact List.mem_cons_self
    obtain ⟨hmem, hk⟩ := List.mem_filter.1 hh
    simp only [List.map_cons, hsome]
    rw [Header.map_read_received (hm.headers h hmem) hk hview]

/-- A first line whose value holds no display names arrives as it was. -/
theorem typed_received_eq (hm : m.IsSendable) (hself : ∀ v, k.settled v = v) :
    (m.received.typed k).1 = (m.typed k).1 := by
  have hread : (m.received.typed k).1.map (Option.map id) = (m.typed k).1.map (Option.map id) :=
    typed_received hm hself
  rwa [Option.map_id, Except.map_id] at hread

/-- Values that hold no display names arrive as they were. -/
theorem reads_received_eq (hm : m.IsSendable) (hself : ∀ v, k.settled v = v) :
    (linesOf k m.received.headers).map (·.read k) = (linesOf k m.headers).map (·.read k) := by
  rw [linesOf_received, List.map_map]
  refine List.map_congr_left fun h hh => ?_
  obtain ⟨hmem, hk⟩ := List.mem_filter.1 hh
  exact Header.read_received_eq (hm.headers h hmem) hk hself

theorem viaEntries_received (hm : m.IsSendable) : m.received.viaEntries.1 = m.viaEntries.1 := by
  rw [viaEntries_fst, viaEntries_fst]
  exact entriesOf_congr (reads_received_eq hm fun _ => rfl)

/-- As many lines arrive as were sent, apart from those that tell the length of the body. -/
theorem length_received (m : Message) :
    m.received.writtenHeaders.length = m.writtenHeaders.length := by
  have hlength : Header.is (.ofText "Content-Length" (toString m.body.length)) .contentLength =
      true := by
    show HeaderName.isWrittenAs .contentLength "Content-Length" = true
    decide +kernel
  have hsent : m.sentHeaders.filter (fun h => !h.is .contentLength) = m.writtenHeaders := by
    unfold sentHeaders writtenHeaders
    have hnone : ¬(!Header.is (.ofText "Content-Length" (toString m.body.length))
        .contentLength) = true := by
      rw [hlength]
      exact Bool.false_ne_true
    have hlast : List.filter (fun h : Header => !h.is .contentLength)
        [.ofText "Content-Length" (toString m.body.length)] = [] :=
      List.filter_cons_of_neg hnone
    rw [List.filter_append, List.filter_filter, hlast, List.append_nil]
    simp only [Bool.and_self]
  show ((m.sentHeaders.map Header.received).filter _).length = _
  rw [List.filter_map, List.length_map, ← hsent]
  rfl

end Message

end SipProxy
