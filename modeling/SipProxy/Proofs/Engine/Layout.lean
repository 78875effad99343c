import SipProxy.Engine.Forward
import SipProxy.Proofs.Engine.Rewrite
import SipProxy.Proofs.Message.Layout

/-!
# Decisions do not depend on the layout

A message is decided on by what it says. How its Via and Route entries are grouped into lines, where
those lines stand and how header names are spelled have no part in it (`Engine.process_of_relaid`):
two messages that differ in this alone are refused for faults of one kind, or sent to the same
place, and they leave as two messages that again differ in this alone.

One law for each stage says that it agrees on two such messages (`Outcome.Agree`), and the stages
are put together as they are in the engine.
-/

namespace SipProxy

open Headers Outcome

/-- Faults of the same kind, maybe in other words. -/
def ProxyError.Alike (e e' : ProxyError) : Prop := e'.name = e.name

theorem SipError.Alike.parse {e e' : SipError} (h : e.Alike e') :
    ProxyError.Alike (.parse e) (.parse e') :=
  congrArg ("Parse." ++ ·) h

/-- Two messages on their way to one hop that differ in their layout. -/
def Message.RelaidTo (r r' : Hop × Message) : Prop := r'.1 = r.1 ∧ r.2.Relaid r'.2

/-- The same decision on two messages that differ in their layout. -/
inductive Forward.Relaid : Forward → Forward → Prop where
  | toBackend {m m' : Message} (h : m.Relaid m') : Relaid (.toBackend m) (.toBackend m')
  | relay {m m' : Message} (hop : Hop) (h : m.Relaid m') : Relaid (.relay hop m) (.relay hop m')

/-- Two decisions are the same, on messages that go out saying the same. -/
structure Forward.SaysSame (f f' : Forward) : Prop where
  /-- To a backend or to the same hop, and the messages differ in their layout alone. -/
  relaid : f.Relaid f'
  /-- The branch of the proxy's own entry is one of the parameters of it. -/
  via : f'.message.viaEntries.1 = f.message.viaEntries.1
  route : f'.message.routeEntries = f.message.routeEntries
  recordRoute : (linesOf .recordRoute f'.message.headers).map Header.slot =
    (linesOf .recordRoute f.message.headers).map Header.slot
  maxForwards : (linesOf .maxForwards f'.message.headers).map Header.slot =
    (linesOf .maxForwards f.message.headers).map Header.slot

namespace Message

variable {m m' : Message} {point : ListeningPoint}

/-- Of messages that were read, only what they say has to be compared. -/
theorem relaid_of_parse {text text' : Octets} {vs : List ViaEntry} {rs : List RouteEntry}
    (h : Message.parse text = .ok m) (h' : Message.parse text' = .ok m')
    (hstart : m'.start = m.start) (hbody : m'.body = m.body)
    (hvia : m.viaEntries.1 = .ok vs) (hvia' : m'.viaEntries.1 = .ok vs)
    (hroute : m.routeEntries = .ok rs) (hroute' : m'.routeEntries = .ok rs)
    (hrest : m.headers.rest.Alike m'.headers.rest) : m.Relaid m' where
  start := hstart
  body := hbody
  via := ⟨vs, ⟨(viaEntries_fst m).symm.trans hvia, (isFilled_of_parse h).via⟩,
    ⟨(viaEntries_fst m').symm.trans hvia', (isFilled_of_parse h').via⟩⟩
  route := ⟨rs, ⟨hroute, (isFilled_of_parse h).route⟩, ⟨hroute', (isFilled_of_parse h').route⟩⟩
  rest := hrest

namespace Relaid

theorem routeEntries_eq (h : Relaid m m') : m'.routeEntries = m.routeEntries := by
  obtain ⟨entries, hr, hr'⟩ := h.route
  exact hr'.entries.trans hr.entries.symm

/-! ## Stages -/

theorem learnFrom (h : Relaid m m') (source : Endpoint) (point : ListeningPoint)
    (learned : LearnedRoutes) :
    ∃ n n' learned', learned.learnFrom source point m = (.ok n, learned') ∧
      learned.learnFrom source point m' = (.ok n', learned') ∧ Relaid n n' := by
  obtain ⟨entries, hv, hv'⟩ := h.via
  exact ⟨_, _, _, learnFrom_of_ok ((viaEntries_fst m).trans hv.entries) source point learned,
    learnFrom_of_ok ((viaEntries_fst m').trans hv'.entries) source point learned, h.viaEntries⟩

theorem dropOwnRoute (h : Relaid m m') (point : ListeningPoint) :
    Agree SipError.Alike Relaid (m.dropOwnRoute point) (m'.dropOwnRoute point) := by
  obtain ⟨top, n, n', htop, htop', hseen⟩ := h.topRoute
  unfold Message.dropOwnRoute
  simp only [htop, htop']
  split
  · obtain ⟨popped, n, n', hpop, hpop', hpopped⟩ := hseen.popRoute
    rw [hpop, hpop']
    cases popped with
    | ok entry => exact .ok hpopped
    | error e => exact .error rfl
  · exact .ok hseen

theorem spendHop (h : Relaid m m') : Agree ProxyError.Alike Relaid m.spendHop m'.spendHop := by
  obtain ⟨v, v', n, n', htyped, htyped', hread, hseen⟩ :=
    h.typed (k := .maxForwards) (by decide) (by decide)
  unfold Message.spendHop
  rw [htyped, htyped']
  cases hread with
  | error he => exact .error he.parse
  | @ok hops hops' heq =>
    subst heq
    cases hops with
    | none => exact .ok hseen
    | some hops =>
      simp only
      split
      · exact .error rfl
      · exact .ok (hseen.modify (by decide) (by decide) _)

theorem isFor_eq (h : Relaid m m') (names : List String) (point : ListeningPoint) :
    m'.isFor names point = m.isFor names point := by
  unfold isFor
  rw [h.requestUri?_eq]

theorem followRoute (h : Relaid m m') :
    Agree ProxyError.Alike RelaidTo m.followRoute m'.followRoute := by
  obtain ⟨popped, n, n', hpop, hpop', hpopped⟩ := h.popRoute
  unfold Message.followRoute
  rw [hpop, hpop']
  cases popped with
  | error e => exact .error rfl
  | ok entry =>
    simp only
    cases entry.sip? with
    | none => exact .error rfl
    | some u =>
      simp only
      cases u.hop with
      | error e => exact .error rfl
      | ok hop => exact .ok ⟨rfl, hpopped⟩

theorem followTo (h : Relaid m m') (routes : StaticRoutes) :
    Agree ProxyError.Alike RelaidTo (m.followTo routes) (m'.followTo routes) := by
  obtain ⟨v, v', n, n', htyped, htyped', hread, hseen⟩ :=
    h.typed (k := .toParty) (by decide) (by decide)
  unfold Message.followTo
  rw [htyped, htyped']
  cases hread with
  | error he => exact .error he.parse
  | @ok party party' heq =>
    subst heq
    simp only
    cases party.bind Party.host? with
    | none => exact .error rfl
    | some host =>
      simp only
      cases routes.find host with
      | error e => exact .error rfl
      | ok hop => exact .ok ⟨rfl, hseen⟩

theorem nextHop (h : Relaid m m') (routes : StaticRoutes) :
    Agree ProxyError.Alike RelaidTo (m.nextHop routes) (m'.nextHop routes) := by
  have hnamed := h.named?_route
  unfold Message.nextHop
  cases hr : named? .route m.headers with
  | none =>
    rw [hnamed.2 hr]
    exact h.followTo routes
  | some line =>
    cases hr' : named? .route m'.headers with
    | none =>
      rw [hnamed.1 hr'] at hr
      cases hr
    | some line' => exact h.followRoute

/-- The branch is computed from the same seed. -/
theorem branchSeed (h : Relaid m m') (point : ListeningPoint) :
    ∃ seed n n', m.branchSeed point = (.ok seed, n) ∧ m'.branchSeed point = (.ok seed, n') ∧
      Relaid n n' := by
  obtain ⟨top, n, n', htop, htop', hseen⟩ := h.topVia
  have hidentity : n'.identityText = n.identityText := by
    unfold identityText
    rw [hseen.headerText?_eq (by simp) (by decide) (by decide),
      hseen.headerText?_eq (by simp) (by decide) (by decide), hseen.requestUri?_eq]
  refine ⟨(top.bind ViaEntry.branch?).getD n.identityText ++ "|" ++ point.text, n, n', ?_, ?_,
    hseen⟩
  · simp only [Message.branchSeed, htop]
  · simp only [Message.branchSeed, htop', hidentity]

theorem stayOnPath (h : Relaid m m') (point : ListeningPoint) :
    Agree ProxyError.Alike Relaid (m.stayOnPath point) (m'.stayOnPath point) := by
  obtain ⟨seed, n, n', hseed, hseed', hseen⟩ := h.branchSeed point
  unfold Message.stayOnPath
  rw [hseed, hseed']
  split
  · exact .error rfl
  · exact .ok ((hseen.pushVia _).pushRecordRoute _)

theorem returnHop (h : Relaid m m') :
    Agree ProxyError.Alike RelaidTo m.returnHop m'.returnHop := by
  obtain ⟨popped, n, n', hpop, hpop', hpopped⟩ := h.popVia
  unfold Message.returnHop
  rw [hpop, hpop']
  cases popped with
  | error e => exact .error rfl
  | ok entry =>
    obtain ⟨top, n, n', htop, htop', hseen⟩ := hpopped.topVia
    simp only [htop, htop']
    cases top with
    | none => exact .error rfl
    | some v =>
      simp only
      cases v.responseHop with
      | error e => exact .error rfl
      | ok hop => exact .ok ⟨rfl, hseen⟩

end Relaid

end Message

theorem Forward.Relaid.of_relay {hop : Hop} {m : Message} {f' : Forward}
    (h : Forward.Relaid (.relay hop m) f') : ∃ m', f' = .relay hop m' := by
  cases h with
  | relay _ _ => exact ⟨_, rfl⟩

theorem Forward.Relaid.saysSame {f f' : Forward} (h : f.Relaid f') :
    f.SaysSame f' := by
  have hm : f.message.Relaid f'.message := by
    cases h with
    | toBackend hm => exact hm
    | relay _ hm => exact hm
  exact ⟨h, hm.viaEntries_eq, hm.routeEntries_eq,
    (hm.linesOf (by decide) (by decide)).slots_eq, (hm.linesOf (by decide) (by decide)).slots_eq⟩

namespace Engine

variable {m m' : Message}

theorem forwardRequest_agree (h : m.Relaid m') (e : Engine) (point : ListeningPoint)
    (learned : LearnedRoutes) :
    Agree ProxyError.Alike Forward.Relaid (e.forwardRequest point learned m)
      (e.forwardRequest point learned m') := by
  unfold forwardRequest
  refine h.spendHop.bind fun m₁ m₁' h₁ => ?_
  rw [h₁.isFor_eq]
  split
  · exact (h₁.stayOnPath point).bind fun _ _ h₂ => .ok (.toBackend h₂)
  · refine (h₁.nextHop e.routes).bind fun r r' hr => ?_
    obtain ⟨hop, m₂⟩ := r
    obtain ⟨hop', m₂'⟩ := r'
    obtain ⟨rfl, h₂⟩ := hr
    simp only
    cases e.pathPoint? point hop' learned with
    | some path => exact (h₂.stayOnPath path).bind fun _ _ h₃ => .ok (.relay hop' h₃)
    | none => exact .ok (.relay hop' h₂)

theorem forward_agree (h : m.Relaid m') (e : Engine) (point : ListeningPoint)
    (learned : LearnedRoutes) :
    Agree ProxyError.Alike Forward.Relaid (e.forward point learned m)
      (e.forward point learned m') := by
  have hdrop := h.dropOwnRoute point
  unfold forward
  generalize m.dropOwnRoute point = r at hdrop ⊢
  generalize m'.dropOwnRoute point = r' at hdrop ⊢
  cases hdrop with
  | error he => exact .error he.parse
  | ok h₁ =>
    simp only
    rw [h₁.isRequest_eq]
    split
    · exact forwardRequest_agree h₁ e point learned
    · refine h₁.returnHop.map fun r r' hr => ?_
      obtain ⟨hhop, h₂⟩ := hr
      rw [hhop]
      exact .relay r.1 h₂

/-- Layout does not change decisions. Two messages that say the same in another layout are both
refused, for faults of one kind, or both go to a backend or to the same hop, and what goes out says
the same: the Via entries, that of the proxy and its branch included, the Route entries, and the
Record-Route and Max-Forwards lines. The same is learned of both, whatever comes of them. -/
theorem process_of_relaid (h : m.Relaid m') (e : Engine) (source : Endpoint)
    (point : ListeningPoint) (learned : LearnedRoutes) :
    Agree ProxyError.Alike Forward.SaysSame (e.process source point m learned).1
        (e.process source point m' learned).1 ∧
      (e.process source point m' learned).2 = (e.process source point m learned).2 := by
  obtain ⟨n, n', learned', hlearn, hlearn', hn⟩ := h.learnFrom source point learned
  have hforward := forward_agree hn e point learned'
  unfold process
  rw [hlearn, hlearn']
  exact ⟨hforward.mono fun _ _ hf => hf.saysSame, rfl⟩

/-- Two Via entries and two Route entries, on one line each and on two lines each, with other lines
in between. Both requests go to the first host of the route, with the second left on the route and
the same entry of the proxy put on top of the Via entries. -/
theorem process_of_relaid_of_regrouped :
    ∃ m m' n n',
      Message.parse (Utf8.encode ("BYE b SIP/2.0\r\nVia: SIP/2.0/UDP a, SIP/2.0/UDP c\r\n" ++
          "Route: <sip:r>, <sip:s>\r\nFrom: <sip:d>\r\nl: 0\r\n\r\n")) = .ok m ∧
      Message.parse (Utf8.encode ("BYE b SIP/2.0\r\nRoute: <sip:r>\r\nv: SIP/2.0/UDP a\r\n" ++
          "f: <sip:d>\r\nVIA: SIP/2.0/UDP c\r\nroute: <sip:s>\r\nL: 0\r\n\r\n")) = .ok m' ∧
      (process ⟨[], Table.empty, true⟩ (.v4 ⟨10, 0, 0, 1⟩ 4000) ⟨.udp, .v4 ⟨10, 0, 0, 9⟩ 5060⟩ m
        Table.empty).1 = .ok (.relay ⟨.udp, "r", 5060⟩ n) ∧
      (process ⟨[], Table.empty, true⟩ (.v4 ⟨10, 0, 0, 1⟩ 4000) ⟨.udp, .v4 ⟨10, 0, 0, 9⟩ 5060⟩ m'
        Table.empty).1 = .ok (.relay ⟨.udp, "r", 5060⟩ n') ∧
      n'.viaEntries.1 = .ok [ListeningPoint.via ⟨.udp, .v4 ⟨10, 0, 0, 9⟩ 5060⟩
        "z9hG4bKa36a889e1dc351dd81bf91581863191a", .of "UDP" "a" 0, .of "UDP" "c" 0] ∧
      n'.routeEntries = .ok [.ofAddress (.ofUri (.sip ⟨.sip, none, none, "s", 0, [], []⟩))] := by
  have hparse : Message.parse (Utf8.encode
      ("BYE b SIP/2.0\r\nVia: SIP/2.0/UDP a, SIP/2.0/UDP c\r\n" ++
        "Route: <sip:r>, <sip:s>\r\nFrom: <sip:d>\r\nl: 0\r\n\r\n")) =
      .ok ⟨.request ⟨"BYE", "b", "SIP/2.0"⟩,
        [.ofText "Via" "SIP/2.0/UDP a, SIP/2.0/UDP c", .ofText "Route" "<sip:r>, <sip:s>",
          .ofText "From" "<sip:d>", .ofText "l" "0"], []⟩ := by
    decide +kernel
  have hparse' : Message.parse (Utf8.encode
      ("BYE b SIP/2.0\r\nRoute: <sip:r>\r\nv: SIP/2.0/UDP a\r\n" ++
        "f: <sip:d>\r\nVIA: SIP/2.0/UDP c\r\nroute: <sip:s>\r\nL: 0\r\n\r\n")) =
      .ok ⟨.request ⟨"BYE", "b", "SIP/2.0"⟩,
        [.ofText "Route" "<sip:r>", .ofText "v" "SIP/2.0/UDP a", .ofText "f" "<sip:d>",
          .ofText "VIA" "SIP/2.0/UDP c", .ofText "route" "<sip:s>", .ofText "L" "0"], []⟩ := by
    decide +kernel
  have hrest : Headers.rest [.ofText "Via" "SIP/2.0/UDP a, SIP/2.0/UDP c",
      .ofText "Route" "<sip:r>, <sip:s>", .ofText "From" "<sip:d>", .ofText "l" "0"] =
        [.ofText "From" "<sip:d>", .ofText "l" "0"] := by
    decide +kernel
  have hrest' : Headers.rest [.ofText "Route" "<sip:r>", .ofText "v" "SIP/2.0/UDP a",
      .ofText "f" "<sip:d>", .ofText "VIA" "SIP/2.0/UDP c", .ofText "route" "<sip:s>",
      .ofText "L" "0"] = [.ofText "f" "<sip:d>", .ofText "L" "0"] := by
    decide +kernel
  have hrelaid := @Message.relaid_of_parse _ _ _ _ [.of "UDP" "a" 0, .of "UDP" "c" 0]
    [.ofAddress (.ofUri (.sip ⟨.sip, none, none, "r", 0, [], []⟩)),
      .ofAddress (.ofUri (.sip ⟨.sip, none, none, "s", 0, [], []⟩))]
    hparse hparse' rfl rfl (by decide +kernel) (by decide +kernel) (by decide +kernel)
    (by decide +kernel) (by
      rw [hrest, hrest']
      exact .cons ⟨.inr ⟨.fromParty, by decide +kernel, by decide +kernel⟩, rfl⟩
        (.cons ⟨.inl (by decide +kernel), rfl⟩ .nil))
  have hrun : (process ⟨[], Table.empty, true⟩ (.v4 ⟨10, 0, 0, 1⟩ 4000)
      ⟨.udp, .v4 ⟨10, 0, 0, 9⟩ 5060⟩ ⟨.request ⟨"BYE", "b", "SIP/2.0"⟩,
        [.ofText "Via" "SIP/2.0/UDP a, SIP/2.0/UDP c", .ofText "Route" "<sip:r>, <sip:s>",
          .ofText "From" "<sip:d>", .ofText "l" "0"], []⟩ Table.empty).1 =
            .ok (.relay ⟨.udp, "r", 5060⟩ ⟨.request ⟨"BYE", "b", "SIP/2.0"⟩,
              [.ofValue .via [ListeningPoint.via ⟨.udp, .v4 ⟨10, 0, 0, 9⟩ 5060⟩
                  "z9hG4bKa36a889e1dc351dd81bf91581863191a"],
                ⟨"Via", .typed (.via [.of "UDP" "a" 0, .of "UDP" "c" 0])⟩,
                ⟨"Route", .typed (.route
                  [.ofAddress (.ofUri (.sip ⟨.sip, none, none, "s", 0, [], []⟩))])⟩,
                .ofValue .recordRoute
                  [ListeningPoint.recordRoute ⟨.udp, .v4 ⟨10, 0, 0, 9⟩ 5060⟩],
                .ofText "From" "<sip:d>", .ofText "l" "0"], []⟩) := by
    decide +kernel
  obtain ⟨hagree, -⟩ := process_of_relaid hrelaid ⟨[], Table.empty, true⟩
    (.v4 ⟨10, 0, 0, 1⟩ 4000) ⟨.udp, .v4 ⟨10, 0, 0, 9⟩ 5060⟩ Table.empty
  rw [hrun] at hagree
  obtain ⟨f', hrun', hsame⟩ := hagree.of_ok
  obtain ⟨n', rfl⟩ := hsame.relaid.of_relay
  exact ⟨_, _, _, n', hparse, hparse', hrun, hrun', hsame.via.trans (by decide +kernel),
    hsame.route.trans (by decide +kernel)⟩

end Engine

end SipProxy
