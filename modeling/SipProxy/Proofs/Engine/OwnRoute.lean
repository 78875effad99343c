import SipProxy.Proofs.Engine.Own
import SipProxy.Proofs.Engine.Stages
import SipProxy.Proofs.Message.Sendable

/-!
# The proxy knows its own entries

The Record-Route entry of a listening point comes back in the Route line of a later request, or as
its request URI, as the text that the proxy once wrote. The listening point takes that text for
itself, and no URI of another host or port (`ListeningPoint.Recognizes`): the address is read back
from its text in either family, and the port is not left to the default, as long as it is not 0,
which a URI cannot name.
-/

namespace SipProxy

open Headers Lexeme Message Reader Utf8

variable {point : ListeningPoint} {m m' : Message} {top : RouteEntry}

/-! ## Entries that are written alike -/

/-- Entries that are written alike have the same URI. -/
theorem RouteEntry.uri_eq_of_text_eq {d e : RouteEntry} (hd : d.IsWritable) (he : e.IsWritable)
    (htext : d.text = e.text) : d.address.uri = e.address.uri := by
  have hparts : d.parts = e.parts := by
    obtain ⟨_, hread, -⟩ := routeEntry_text he.isLegible (follows_nil _)
    obtain ⟨_, hread', -⟩ := routeEntry_text hd.isLegible (follows_nil _)
    rw [← htext, hread'] at hread
    exact (Prod.mk.inj (Option.some.inj hread)).1
  have huri : d.address.uri.text = e.address.uri.text := by
    have hdecode := congrArg (fun parts => decode parts.1.2) hparts
    simpa only [RouteEntry.parts, decode_encode] using hdecode
  have hread := Uri.parse_text he.address.uri
  rw [← huri, Uri.parse_text hd.address.uri] at hread
  exact Except.ok.inj hread

namespace ListeningPoint

/-- A listening point with a port is at the URI of its own entry. -/
theorem isAtUri_routeUri (hport : point.address.port ≠ 0) :
    point.isAtUri point.routeUri = true := by
  have hresolved : point.routeUri.resolvedPort = point.address.port := if_pos hport
  have hip : Host.ip? point.routeUri.host = some point.address.ip := Host.ip?_ofIp point.address.ip
  rw [isAtUri, isAt, hresolved, hip]
  simp

/-- A line that begins with the entry of a listening point is read with that entry on top. -/
theorem parse_recordRoute {header t r : String} {es : List RouteEntry}
    (ht : Text.trim t = point.recordRoute.text ++ r) (hr : EndsEntry (spaces (encode r)))
    (h : Route.parse header t = .ok es) : ∃ rest, es = point.recordRoute :: rest := by
  have hwritable := point.isWritable_recordRoute.all _ List.mem_cons_self
  have hfirst : routeEntry (encode (point.recordRoute.text ++ r)) =
      some (point.recordRoute.parts, spaces (encode r)) := by
    have hread := bracketed_text hwritable.address.isLegible (encode r)
    have hparams : params (spaces (encode r)) = ([], spaces (encode r)) :=
      Params.SpelledBy.nil.params (hr.follows (by decide))
    have htext : point.recordRoute.text = point.recordRoute.address.text := by
      rw [recordRoute_eq]
      exact String.append_empty
    rw [encode_append, htext]
    exact routeEntry_eq_some.2 ⟨_, hread, hparams⟩
  obtain ⟨parts, hread, hmake⟩ := Route.parse_eq_ok.1 h
  rw [ht] at hread
  obtain ⟨first, s', rest, hentry, -, rfl⟩ := (sepBy1_eq_some consumes_comma_routeEntry).1 hread
  rw [hfirst] at hentry
  cases hentry
  obtain ⟨e, es', he, -, rfl⟩ := Outcome.mapM_cons_eq_ok.1 hmake
  rw [RouteEntry.ofParts_parts hwritable.isLegible, settled_recordRoute] at he
  cases he
  exact ⟨es', rfl⟩

end ListeningPoint

/-! ## Route entries of the proxy -/

namespace Message

theorem topRoute_eq_ok (h : m.topRoute.1 = .ok (some top)) :
    ∃ line rest lines, linesOf .route m.headers = line :: lines ∧
      line.read .route = .ok (top :: rest) := by
  have hfst : m.topRoute.1 = (m.typed .route).1.map fun v => v.bind List.head? := rfl
  rw [hfst, typed_fst] at h
  cases hl : linesOf .route m.headers with
  | nil =>
    rw [hl] at h
    cases h
  | cons line lines =>
    rw [hl] at h
    obtain ⟨v, hv, htop⟩ := Outcome.map_eq_ok.1 h
    obtain ⟨es, hes, rfl⟩ := Outcome.map_eq_ok.1 hv
    obtain ⟨rest, rfl⟩ : ∃ rest, es = top :: rest := List.head?_eq_some_iff.1 htop
    exact ⟨line, rest, lines, rfl, hes⟩

/-- What is known of the entries of each line stays as it is while the topmost is looked at. -/
theorem reads_topRoute (m : Message) :
    (linesOf .route m.topRoute.2.headers).map (·.read .route) =
      (linesOf .route m.headers).map (·.read .route) := by
  rw [topRoute_snd, linesOf_typed]
  cases linesOf .route m.headers with
  | nil => rfl
  | cons line lines => simp

/-- The topmost entry is taken off if it leads to the listening point, and no other is. -/
theorem dropOwnRoute_of_own {line : Header} {rest : List RouteEntry} {lines : Headers}
    (hlines : linesOf .route m.headers = line :: lines)
    (hread : line.read .route = .ok (top :: rest)) (hown : top.sip?.any point.isAtUri = true) :
    ∃ m', m.dropOwnRoute point = .ok m' ∧ Keeps [.route] m m' ∧
      linesOf .route m'.headers = (if rest = [] then [] else [line.put .route rest]) ++ lines := by
  have hkeep : Keeps [.route] m m.topRoute.2 := typed_keeps .route m
  have htop : m.topRoute.1 = .ok (some top) := by
    show (m.typed .route).1.map _ = _
    rw [typed_fst, hlines]
    simp only [hread]
    rfl
  have hlines₁ : linesOf .route m.topRoute.2.headers = line.put .route (top :: rest) :: lines := by
    rw [topRoute_snd, linesOf_typed, hlines]
    simp only [Header.memoise_of_ok hread]
  unfold dropOwnRoute
  generalize m.topRoute = r at hkeep htop hlines₁
  obtain ⟨value, m₁⟩ := r
  simp only at hkeep htop hlines₁
  subst htop
  have hpop : m₁.popRoute.1 = .ok top :=
    pop_eq_ok.2 ⟨_, lines, top :: rest, rest, hlines₁, Header.read_put, rfl⟩
  have hpopped : linesOf .route m₁.popRoute.2.headers =
      (if rest = [] then [] else [line.put .route rest]) ++ lines := by
    have hleft : leftover .route id id (line.put .route (top :: rest)) =
        if rest = [] then [] else [line.put .route rest] := by
      unfold leftover
      rw [Header.read_put]
      cases rest <;> rfl
    rw [popRoute, linesOf_pop, hlines₁, ← hleft]
  refine ⟨m₁.popRoute.2, ?_, hkeep.trans (popRoute_keeps m₁), hpopped⟩
  simp only [Option.bind_some, hown, if_true]
  generalize m₁.popRoute = r at hpop
  obtain ⟨popped, m₂⟩ := r
  simp only at hpop
  subst hpop
  rfl

/-- Nothing is taken off if the topmost entry does not lead to the listening point. -/
theorem dropOwnRoute_of_not_own (htop : m.topRoute.1 = .ok (some top))
    (hown : top.sip?.any point.isAtUri = false) : m.dropOwnRoute point = .ok m.topRoute.2 := by
  unfold dropOwnRoute
  generalize m.topRoute = r at htop
  obtain ⟨value, m₁⟩ := r
  simp only at htop
  subst htop
  simp only [Option.bind_some, hown, Bool.false_eq_true, if_false]

end Message

/-! ## Recognition -/

/-- A listening point takes an entry for its own, and no entry that leads elsewhere. -/
structure ListeningPoint.Recognizes (point : ListeningPoint) (own : RouteEntry) : Prop where
  /-- A Route line that begins with the text of the entry, alone or in front of others, is read with
  the entry on top. -/
  read : ∀ {t r : String} {es : List RouteEntry}, Text.trim t = own.text ++ r →
    EndsEntry (spaces (encode r)) → Route.parse "Route" t = .ok es → ∃ rest, es = own :: rest
  /-- A topmost Route entry of this text is taken off a message that was received, be it after its
  Via lines were read, and every other Route entry and every other line is left. -/
  drop : ∀ {s : Octets} {m m₁ : Message} {top : RouteEntry}, Message.parse s = .ok m →
    Keeps [.via] m m₁ → m₁.topRoute.1 = .ok (some top) → top.text = own.text →
      ∃ m' line rest lines, m₁.dropOwnRoute point = .ok m' ∧ Keeps [.route] m₁ m' ∧
        linesOf .route m₁.headers = line :: lines ∧ line.read .route = .ok (top :: rest) ∧
        linesOf .route m'.headers = (if rest = [] then [] else [line.put .route rest]) ++ lines
  /-- A request to the URI of the entry is for this proxy, whatever its names are. -/
  own : ∀ {m : Message} (names : List String), m.requestUri? = some own.address.uri.text →
    m.isFor names point = true
  /-- No entry is taken off behind which there is another host or port. -/
  keep : ∀ {m : Message} {top : RouteEntry}, m.topRoute.1 = .ok (some top) →
    (∀ u ∈ top.sip?, Host.ip? u.host ≠ some point.address.ip ∨
      u.resolvedPort ≠ point.address.port) →
      ∃ m', m.dropOwnRoute point = .ok m' ∧ Keeps [.route] m m' ∧
        (linesOf .route m'.headers).map (·.read .route) =
          (linesOf .route m.headers).map (·.read .route)

namespace Message

/-- The entry that the proxy puts on a request leads back to it. -/
theorem recognizes_of_stayOnPath (hport : point.address.port ≠ 0)
    (h : m.stayOnPath point = .ok m') :
    linesOf .recordRoute m'.headers =
        .ofValue .recordRoute [point.recordRoute] :: linesOf .recordRoute m.headers ∧
      point.Recognizes point.recordRoute := by
  obtain ⟨-, -, hline⟩ := stayOnPath_eq_ok h
  have hat := ListeningPoint.isAtUri_routeUri hport
  have hown := point.isWritable_recordRoute.all _ List.mem_cons_self
  refine ⟨hline, ?_, ?_, ?_, ?_⟩
  · intro t r es ht hr hparse
    exact ListeningPoint.parse_recordRoute ht hr hparse
  · intro s q q₁ top hparse hkeep htop htext
    obtain ⟨line, rest, lines, hlines, hread⟩ := topRoute_eq_ok htop
    have hwritable : top.IsWritable := by
      have hmem : line ∈ linesOf .route q.headers := by
        rw [← hkeep.linesOf_eq (by decide), hlines]
        exact List.mem_cons_self
      obtain ⟨hmem, hk⟩ := List.mem_filter.1 hmem
      have hlist : Route.IsWritable (top :: rest) :=
        ((isSendable_of_parse hparse).headers line hmem).isWritable_of_read hk hread
      exact hlist.all top List.mem_cons_self
    have huri := RouteEntry.uri_eq_of_text_eq hwritable hown htext
    have hown : top.sip?.any point.isAtUri = true := by
      rw [RouteEntry.sip?, NameAddress.sip?, huri, point.uri_recordRoute]
      exact hat
    obtain ⟨q₂, hdrop, hkeep₂, hlines₂⟩ := dropOwnRoute_of_own hlines hread hown
    exact ⟨q₂, line, rest, lines, hdrop, hkeep₂, hlines, hread, hlines₂⟩
  · intro q names huri
    have hparse := Uri.parse_text hown.address.uri
    unfold isFor
    rw [huri]
    simp only [hparse]
    rw [point.uri_recordRoute]
    simp only [hat, Bool.true_or, Bool.or_true]
  · intro q top htop hnot
    refine ⟨q.topRoute.2, dropOwnRoute_of_not_own htop ?_, typed_keeps .route q, reads_topRoute q⟩
    cases hsip : top.sip? with
    | none => rfl
    | some u =>
      rcases hnot u hsip with hne | hne
      · simp [ListeningPoint.isAtUri, ListeningPoint.isAt, hne]
      · simp [ListeningPoint.isAtUri, ListeningPoint.isAt, hne]

/-- A request that stays on the path of TLS at an IPv6 address, and a later one that brings the text
of the entry back in front of another. -/
theorem recognizes_of_stayOnPath_tls :
    ∃ m' q q',
      stayOnPath ⟨.tls, .v6 ⟨[0x2001, 0xdb8, 0, 0, 0, 0, 0, 1], rfl⟩ 5070 0⟩
        (request "INVITE" "sip:b") = .ok m' ∧
      (linesOf .recordRoute m'.headers).map (·.valueText) =
        ["<sip:[2001:db8::1]:5070;transport=tls;lr>"] ∧
      Message.parse (encode ("BYE sip:b SIP/2.0\r\nl: 0\r\nRoute: "
        ++ "<sip:[2001:db8::1]:5070;transport=tls;lr> ,<sip:c>\r\n\r\n")) = .ok q ∧
      dropOwnRoute ⟨.tls, .v6 ⟨[0x2001, 0xdb8, 0, 0, 0, 0, 0, 1], rfl⟩ 5070 0⟩ q = .ok q' ∧
      (linesOf .route q'.headers).map (·.valueText) = ["<sip:c>"] := by
  have hparse : Message.parse (encode ("BYE sip:b SIP/2.0\r\nl: 0\r\nRoute: "
      ++ "<sip:[2001:db8::1]:5070;transport=tls;lr> ,<sip:c>\r\n\r\n")) =
      .ok ⟨.request ⟨"BYE", "sip:b", "SIP/2.0"⟩, [.ofText "l" "0",
        .ofText "Route" "<sip:[2001:db8::1]:5070;transport=tls;lr> ,<sip:c>"], []⟩ := by
    decide +kernel
  have hread : (Header.ofText "Route" "<sip:[2001:db8::1]:5070;transport=tls;lr> ,<sip:c>").read
      .route = .ok [ListeningPoint.recordRoute
        ⟨.tls, .v6 ⟨[0x2001, 0xdb8, 0, 0, 0, 0, 0, 1], rfl⟩ 5070 0⟩,
        .ofAddress (.ofUri (.sip (.ofHost "c")))] := by
    decide +kernel
  have htop : (topRoute ⟨.request ⟨"BYE", "sip:b", "SIP/2.0"⟩, [.ofText "l" "0",
        .ofText "Route" "<sip:[2001:db8::1]:5070;transport=tls;lr> ,<sip:c>"], []⟩).1 =
      .ok (some (ListeningPoint.recordRoute
        ⟨.tls, .v6 ⟨[0x2001, 0xdb8, 0, 0, 0, 0, 0, 1], rfl⟩ 5070 0⟩)) := by
    decide +kernel
  cases hstay : stayOnPath ⟨.tls, .v6 ⟨[0x2001, 0xdb8, 0, 0, 0, 0, 0, 1], rfl⟩ 5070 0⟩
      (request "INVITE" "sip:b") with
  | error e => cases hstay
  | ok m' =>
    obtain ⟨hline, hrecognizes⟩ := recognizes_of_stayOnPath (by decide) hstay
    obtain ⟨q', line, rest, lines, hdrop, -, hlines, hline', hleft⟩ :=
      hrecognizes.drop hparse (.refl _ _) htop rfl
    have hlist : linesOf .route [.ofText "l" "0",
        .ofText "Route" "<sip:[2001:db8::1]:5070;transport=tls;lr> ,<sip:c>"] =
        [.ofText "Route" "<sip:[2001:db8::1]:5070;transport=tls;lr> ,<sip:c>"] := by
      decide +kernel
    cases hlist.symm.trans hlines
    obtain rfl := (List.cons.inj (Except.ok.inj (hline'.symm.trans hread))).2
    refine ⟨m', _, q', rfl, ?_, hparse, hdrop, ?_⟩
    · rw [hline]
      decide +kernel
    · rw [hleft]
      decide +kernel

end Message

end SipProxy
