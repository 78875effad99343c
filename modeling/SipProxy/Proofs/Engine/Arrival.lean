import SipProxy.Proofs.Engine.Own
import SipProxy.Proofs.Engine.Rewrite
import SipProxy.Proofs.Message.Sendable

/-!
# What arrives of a message that was forwarded

The engine decides on values that it read, and the next hop sees the text that they make. It reads
the same values of it (`Engine.arrives_of_process`): every stage leaves a message of which each line
can be read again (`Engine.isSendable_of_process`), the entries that the proxy adds among them.
-/

namespace SipProxy

open Headers Message

variable {s : Octets} {k : HeaderKind} {m m' sent : Message} {point : ListeningPoint}

/-! ## Stages -/

namespace Message.IsSendable

theorem popVia (hm : m.IsSendable) : m.popVia.2.IsSendable := by
  refine hm.pop fun v entry next entries hv heq => ?_
  have hlist : Via.IsWritable (entry :: next :: entries) := by
    rw [← heq]
    exact hv
  exact hlist.tail (List.cons_ne_nil next entries) fun v hv => hv.isLegible.text_ne_empty

theorem dropOwnRoute (hm : m.IsSendable) (h : m.dropOwnRoute point = .ok m') : m'.IsSendable := by
  have htop : m.topRoute.2.IsSendable := hm.typed .route
  unfold Message.dropOwnRoute at h
  generalize m.topRoute = r at h htop
  obtain ⟨top, m₁⟩ := r
  cases top with
  | error e => cases h
  | ok entry =>
    simp only at h
    split at h
    · have hpop := IsSendable.popRoute htop
      generalize m₁.popRoute = r at h hpop
      obtain ⟨popped, m₂⟩ := r
      cases popped with
      | error e => cases h
      | ok x =>
        cases h
        exact hpop
    · cases h
      exact htop

theorem spendHop (hm : m.IsSendable) (h : m.spendHop = .ok m') : m'.IsSendable := by
  have hread := hm.typed .maxForwards
  unfold Message.spendHop at h
  generalize m.typed .maxForwards = r at h hread
  obtain ⟨value, m₁⟩ := r
  cases value with
  | error e => cases h
  | ok hops =>
    cases hops with
    | none =>
      cases h
      exact hread
    | some hops =>
      simp only at h
      split at h
      · cases h
      · cases h
        exact IsSendable.modify (k := .maxForwards) hread fun _ _ => trivial

theorem nextHop {routes : StaticRoutes} {hop : Hop} (hm : m.IsSendable)
    (h : m.nextHop routes = .ok (hop, m')) : m'.IsSendable := by
  unfold Message.nextHop at h
  split at h
  · have hpop := hm.popRoute
    unfold followRoute at h
    generalize m.popRoute = r at h hpop
    obtain ⟨top, m₁⟩ := r
    cases top with
    | error e => cases h
    | ok entry =>
      simp only at h
      split at h
      · obtain ⟨hop', -, heq⟩ := Outcome.map_eq_ok.1 h
        cases heq
        exact hpop
      · cases h
  · have hread := hm.typed .toParty
    unfold followTo at h
    generalize m.typed .toParty = r at h hread
    obtain ⟨party, m₁⟩ := r
    cases party with
    | error e => cases h
    | ok party =>
      simp only at h
      split at h
      · split at h
        · cases h
          exact hread
        · cases h
      · cases h

theorem stayOnPath (hm : m.IsSendable) (h : m.stayOnPath point = .ok m') : m'.IsSendable := by
  have hread : (m.branchSeed point).2.IsSendable := by
    rw [branchSeed_snd]
    exact hm.typed .via
  unfold Message.stayOnPath at h
  split at h
  · cases h
  · generalize m.branchSeed point = r at h hread
    obtain ⟨seed, m₁⟩ := r
    cases seed with
    | error e => cases h
    | ok seed =>
      cases h
      exact (hread.pushVia (point.isWritable_via seed)).pushRecordRoute
        point.isWritable_recordRoute

theorem returnHop {hop : Hop} (hm : m.IsSendable) (h : m.returnHop = .ok (hop, m')) :
    m'.IsSendable := by
  have hpop := hm.popVia
  unfold Message.returnHop at h
  generalize m.popVia = r at h hpop
  obtain ⟨top, m₁⟩ := r
  cases top with
  | error e => cases h
  | ok top =>
    have hread : m₁.topVia.2.IsSendable := IsSendable.typed hpop .via
    simp only at h
    generalize m₁.topVia = r at h hread
    obtain ⟨next, m₂⟩ := r
    cases next with
    | error e => cases h
    | ok next =>
      cases next with
      | none => cases h
      | some v =>
        obtain ⟨hop', -, heq⟩ := Outcome.map_eq_ok.1 h
        cases heq
        exact hread

end Message.IsSendable

namespace Engine

variable {e : Engine} {learned learned' : LearnedRoutes} {source : Endpoint} {f : Forward}

theorem Joins.isSendable {path : Option ListeningPoint} (hm : m.IsSendable)
    (h : Joins path m m') : m'.IsSendable := by
  cases path with
  | some point => exact hm.stayOnPath h
  | none =>
    cases h
    exact hm

/-- Every line of a message that is forwarded can be read again if every line of it could be. -/
theorem isSendable_of_process (hm : m.IsSendable)
    (h : e.process source point m learned = (.ok f, learned')) : f.message.IsSendable := by
  obtain ⟨entries, m₁, -, hdrop, hrest⟩ := stages_of_process h
  have hm₁ := hm.viaEntries.dropOwnRoute hdrop
  split at hrest
  · obtain ⟨m₂, m₃, hspend, hnext, hjoin⟩ := stages_of_forwardRequest hrest
    have hm₂ := hm₁.spendHop hspend
    rcases hnext with ⟨-, rfl⟩ | ⟨hop, m', -, hnext⟩
    · exact hjoin.isSendable hm₂
    · exact hjoin.isSendable (hm₂.nextHop hnext)
  · obtain ⟨hop, m', rfl, hreturn⟩ := hrest
    exact hm₁.returnHop hreturn

end Engine

/-! ## Arrival -/

/-- What was sent is read as what was received: with every value the proxy works with, and as many
lines. A Route line or a To line that cannot be read cannot be read on either side. -/
structure Arrives (path : Option ListeningPoint) (sent received : Message) : Prop where
  start : received.start = sent.start
  body : received.body = sent.body
  /-- All Via entries, with all their fields. -/
  via : ∃ entries, sent.viaEntries.1 = .ok entries ∧ received.viaEntries.1 = .ok entries
  /-- Line by line the Route entries, but for their display names. -/
  route : (linesOf .route received.headers).map (fun h =>
      (h.read .route).map fun es => es.map fun e => (e.address.uri, e.params)) =
    (linesOf .route sent.headers).map fun h =>
      (h.read .route).map fun es => es.map fun e => (e.address.uri, e.params)
  /-- The Record-Route entry of the proxy, if it is on the path. -/
  recordRoute : ∀ own ∈ path, (sent.typed .recordRoute).1 = .ok (some [own.recordRoute]) ∧
    (received.typed .recordRoute).1 = .ok (some [own.recordRoute])
  maxForwards : (received.typed .maxForwards).1 = (sent.typed .maxForwards).1
  /-- To, but for its display name. -/
  toParty : (received.typed .toParty).1.map (Option.map fun p => (p.uri, p.params)) =
    (sent.typed .toParty).1.map (Option.map fun p => (p.uri, p.params))
  /-- No line is lost and none is new, apart from those that tell the length of the body. -/
  lines : (received.headers.filter fun h => !h.is .contentLength).length =
    (sent.headers.filter fun h => !h.is .contentLength).length

/-- A sendable message arrives, whatever the path of it. -/
theorem Message.IsSendable.arrives {path : Option ListeningPoint} (hsent : sent.IsSendable)
    (hvia : ∃ entries, sent.viaEntries.1 = .ok entries)
    (hown : ∀ own ∈ path, ∃ lines,
      linesOf .recordRoute sent.headers = .ofValue .recordRoute [own.recordRoute] :: lines) :
    Arrives path sent sent.received where
  start := rfl
  body := rfl
  via := by
    obtain ⟨entries, hentries⟩ := hvia
    exact ⟨entries, hentries, (viaEntries_received hsent).trans hentries⟩
  route := by
    refine @reads_received .route sent _ (fun es => es.map fun e => (e.address.uri, e.params))
      hsent fun es => ?_
    show (es.map RouteEntry.settled).map _ = es.map _
    rw [List.map_map]
    rfl
  recordRoute := by
    intro own hmem
    obtain ⟨lines, hlines⟩ := hown own hmem
    have hown' : (Header.ofValue .recordRoute [own.recordRoute]) ∈
        linesOf .recordRoute sent.headers := by
      rw [hlines]
      exact List.mem_cons_self
    have hread := Header.read_ofValue .recordRoute [own.recordRoute]
    have hback : (Header.ofValue .recordRoute [own.recordRoute]).received.read .recordRoute =
        .ok [own.recordRoute] := by
      obtain ⟨hmem, hk⟩ := List.mem_filter.1 hown'
      rcases Header.read_received (hsent.headers _ hmem) hk with h | h
      · rw [h, hread]
      · rw [h, hread]
        exact congrArg (fun e => Except.ok [e]) own.settled_recordRoute
    constructor
    · rw [typed_fst, hlines]
      simp only [hread]
      rfl
    · rw [typed_fst, linesOf_received, hlines]
      simp only [List.map_cons, hback]
      rfl
  maxForwards := typed_received_eq hsent fun _ => rfl
  toParty := by
    refine @typed_received .toParty sent _ (fun p => (p.uri, p.params)) hsent fun p => ?_
    show (p.address.settled.uri, p.params) = (p.address.uri, p.params)
    rw [PartyAddress.uri_settled]
  lines := length_received sent

namespace Engine

variable {e : Engine} {learned learned' : LearnedRoutes} {source : Endpoint} {f : Forward}

/-- A sendable request that is forwarded arrives, if its start line is read as it is written. -/
theorem arrives_of_process (hm : m.IsSendable) (hreq : m.isRequest = true)
    (hstart : StartLine.parse m.start.text = .ok m.start)
    (h : e.process source point m learned = (.ok f, learned')) :
    Message.parse f.message.wire = .ok f.message.received ∧
      Arrives (f.path? e point learned') f.message f.message.received := by
  have hsent := isSendable_of_process hm h
  have hrewrite := requestRewrite_of_process hreq h
  constructor
  · rw [← hrewrite.start] at hstart
    rw [parse_wire_of_isSendable hsent, hstart]
    rfl
  · obtain ⟨entries, branch, -, hvia⟩ := hrewrite.via
    refine hsent.arrives ⟨_, hvia⟩ fun own hown => ⟨linesOf .recordRoute m.headers, ?_⟩
    rw [hrewrite.recordRoute, Option.mem_def.1 hown]
    rfl

/-- The next hop reads what the engine decided: a request that was received and is forwarded can be
read of what is sent, and with all that the proxy works with. -/
theorem process_arrives {line : RequestLine} (hparse : Message.parse s = .ok m)
    (hline : m.start = .request line) (hmethod : isStatusText line.method = false)
    (h : e.process source point m learned = (.ok f, learned')) :
    ∃ received, Message.parse f.message.wire = .ok received ∧ received.isRequest = true ∧
      Arrives (f.path? e point learned') f.message received := by
  have hreq : m.isRequest = true := by
    rw [Message.isRequest, hline]
  have hstart : StartLine.parse m.start.text = .ok m.start := by
    obtain ⟨first, rest, body, length, -, hfirst, -⟩ := parts_of_parse hparse
    refine (StartLine.parse_text_iff hfirst).2 ?_
    rw [hline]
    exact hmethod
  obtain ⟨hback, harrives⟩ := arrives_of_process (isSendable_of_parse hparse) hreq hstart h
  refine ⟨f.message.received, hback, ?_, harrives⟩
  rw [Message.isRequest, harrives.start, (requestRewrite_of_process hreq h).start, hline]

/-- A request with a quoted parameter and display names, that leaves through a listening point over
TCP at an IPv6 address. -/
theorem process_arrives_of_quoted :
    ∃ m f learned' received,
      Message.parse (Utf8.encode
          ("INVITE sip:b SIP/2.0\r\nv: SIP/2.0/UDP a ;x=\"1, 2\"\r\nRoute: "
            ++ "<sip:10.0.0.3>,\"A, B\" <sip:c;lr>;y\r\nt: Bob  <sip:b>\r\nl:0\r\n\r\n")) = .ok m ∧
      process ⟨[], Table.empty, true⟩ (.v4 ⟨10, 0, 0, 1⟩ 5060)
          ⟨.tcp, .v6 ⟨[0x2001, 0xdb8, 0, 0, 0, 0, 0, 1], rfl⟩ 5070 0⟩ m Table.empty =
        (.ok f, learned') ∧
      Message.parse f.message.wire = .ok received ∧
      Arrives (some ⟨.tcp, .v6 ⟨[0x2001, 0xdb8, 0, 0, 0, 0, 0, 1], rfl⟩ 5070 0⟩)
        f.message received := by
  have hparse : Message.parse (Utf8.encode
      ("INVITE sip:b SIP/2.0\r\nv: SIP/2.0/UDP a ;x=\"1, 2\"\r\nRoute: "
        ++ "<sip:10.0.0.3>,\"A, B\" <sip:c;lr>;y\r\nt: Bob  <sip:b>\r\nl:0\r\n\r\n")) =
      .ok ⟨.request ⟨"INVITE", "sip:b", "SIP/2.0"⟩,
        [.ofText "v" "SIP/2.0/UDP a ;x=\"1, 2\"",
          .ofText "Route" "<sip:10.0.0.3>,\"A, B\" <sip:c;lr>;y", .ofText "t" "Bob  <sip:b>",
          .ofText "l" "0"], []⟩ := by
    decide +kernel
  have hpath : ∀ {r}, process ⟨[], Table.empty, true⟩ (.v4 ⟨10, 0, 0, 1⟩ 5060)
        ⟨.tcp, .v6 ⟨[0x2001, 0xdb8, 0, 0, 0, 0, 0, 1], rfl⟩ 5070 0⟩
        ⟨.request ⟨"INVITE", "sip:b", "SIP/2.0"⟩,
          [.ofText "v" "SIP/2.0/UDP a ;x=\"1, 2\"",
            .ofText "Route" "<sip:10.0.0.3>,\"A, B\" <sip:c;lr>;y", .ofText "t" "Bob  <sip:b>",
            .ofText "l" "0"], []⟩ Table.empty = r →
      r.1.map (fun f => f.path? ⟨[], Table.empty, true⟩
          ⟨.tcp, .v6 ⟨[0x2001, 0xdb8, 0, 0, 0, 0, 0, 1], rfl⟩ 5070 0⟩ r.2) =
        .ok (some ⟨.tcp, .v6 ⟨[0x2001, 0xdb8, 0, 0, 0, 0, 0, 1], rfl⟩ 5070 0⟩) := by
    rintro _ rfl
    decide +kernel
  generalize hr : process _ _ _ (.mk _ _ _) _ = r at hpath
  obtain ⟨outcome, learned'⟩ := r
  have hf := hpath rfl
  cases outcome with
  | error e => cases hf
  | ok f =>
    obtain ⟨received, hback, -, harrives⟩ := process_arrives hparse rfl (by decide +kernel) hr
    simp only [Except.map, Except.ok.injEq] at hf
    rw [hf] at harrives
    exact ⟨_, f, learned', received, hparse, hr, hback, harrives⟩

end Engine

end SipProxy
