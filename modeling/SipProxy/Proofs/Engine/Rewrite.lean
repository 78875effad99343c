import SipProxy.Proofs.Engine.Stages

/-!
# What forwarding does to a message

The whole of it, for every message that is forwarded: `RequestRewrite` and `ResponseRewrite` list
what becomes of each part, and `Engine.process_rewrites` says that forwarding does that and no more.
The stages work one after another on one list of lines; each leaves alone what the others work on
(`Message.Keeps`), so what they do adds up part by part.
-/

namespace SipProxy

open Headers Message

/-- The message that goes out. -/
def Forward.message : Forward → Message
  | .toBackend m => m
  | .relay _ m => m

/-- The listening point that the proxy puts on the path of a request, if it puts one. -/
def Forward.path? (e : Engine) (point : ListeningPoint) (learned : LearnedRoutes) :
    Forward → Option ListeningPoint
  | .toBackend _ => some point
  | .relay hop _ => e.pathPoint? point hop learned

/-- Does the proxy belong on the path of a request? It does if the request is for a backend, or goes
to a host that was learned, or came to the default route. -/
def Forward.WantsPath (e : Engine) (learned : LearnedRoutes) : Forward → Prop
  | .toBackend _ => True
  | .relay hop _ => (learned.seenAt? hop.host).isSome = true ∨ e.defaultRoute = true

/-- The header lines that forwarding has no business with. -/
def Headers.others (hs : Headers) : Headers :=
  hs.filter fun h => !(h.is .via || h.is .route || h.is .recordRoute || h.is .maxForwards)

/-- What becomes of a request. -/
structure RequestRewrite (path : Option ListeningPoint) (m : Message) (f : Forward) : Prop where
  start : f.message.start = m.start
  body : f.message.body = m.body
  /-- Lines of other headers are as they were, but To may be written from its value if the request
  is relayed. -/
  others : others f.message.headers = others m.headers ∨
    (∃ hop m', f = .relay hop m') ∧
      Reread .toParty (Headers.others m.headers) (Headers.others f.message.headers)
  /-- The Via entries have one of the proxy in front, if it is on the path. -/
  via : ∃ entries branch, m.viaEntries.1 = .ok entries ∧
    f.message.viaEntries.1 = .ok (path.toList.map (·.via branch) ++ entries)
  /-- The Record-Route lines have one of the proxy in front, if it is on the path. -/
  recordRoute : linesOf .recordRoute f.message.headers =
    path.toList.map (fun point => .ofValue .recordRoute [point.recordRoute]) ++
      linesOf .recordRoute m.headers
  /-- The Route entries lack no more than the first two. -/
  route : ∃ dropped, dropped.length ≤ 2 ∧
    m.routeEntries = f.message.routeEntries.map (dropped ++ ·)
  maxForwards :
    OneHopLess (linesOf .maxForwards m.headers) (linesOf .maxForwards f.message.headers)

/-- What becomes of a response. -/
structure ResponseRewrite (m m' : Message) : Prop where
  start : m'.start = m.start
  body : m'.body = m.body
  /-- Lines of other headers than Via and Route are as they were. -/
  others : m'.headers.filter (fun h => !(h.is .via || h.is .route)) =
    m.headers.filter fun h => !(h.is .via || h.is .route)
  /-- The topmost Via entry is gone. -/
  via : ∃ top entries, m.viaEntries.1 = .ok (top :: entries) ∧ m'.viaEntries.1 = .ok entries
  /-- The Route entries lack no more than the first. -/
  route : ∃ dropped, dropped.length ≤ 1 ∧ m.routeEntries = m'.routeEntries.map (dropped ++ ·)

namespace Engine

variable {e : Engine} {point : ListeningPoint} {learned : LearnedRoutes} {m m' : Message}
  {f : Forward}

/-! ## Kinds that forwarding changes -/

/-- The kinds of lines that are no business of other headers. -/
def changedKinds : List HeaderKind := [.via, .route, .recordRoute, .maxForwards]

theorem others_eq_false {k : HeaderKind} (hk : k ∈ changedKinds) {h : Header}
    (hh : h.is k.name = true) :
    (!(h.is .via || h.is .route || h.is .recordRoute || h.is .maxForwards)) = false := by
  simp only [changedKinds, List.mem_cons, List.not_mem_nil, or_false] at hk
  rcases hk with rfl | rfl | rfl | rfl
  all_goals
    simp only [HeaderKind.name] at hh
    simp [hh]

theorem others_eq_true {h : Header} (hh : h.is .toParty = true) :
    (!(h.is .via || h.is .route || h.is .recordRoute || h.is .maxForwards)) = true := by
  have hout : ∀ k : HeaderKind, k ≠ .toParty → h.is k.name = false := by
    intro k hk
    rw [← Bool.not_eq_true]
    intro hhk
    exact hk (Header.kind_unique (k := .toParty) hhk hh)
  have h₁ := hout .via (by decide)
  have h₂ := hout .route (by decide)
  have h₃ := hout .recordRoute (by decide)
  have h₄ := hout .maxForwards (by decide)
  simp only [HeaderKind.name] at h₁ h₂ h₃ h₄
  simp [h₁, h₂, h₃, h₄]

theorem others_eq {kinds : List HeaderKind} (h : Keeps kinds m m')
    (hs : ∀ k ∈ kinds, k ∈ changedKinds) : others m'.headers = others m.headers :=
  h.lines _ fun k hk _ hh => others_eq_false (hs k hk) hh

/-! ## Requests -/

/-- The step onto the path, for a listening point or for none. -/
def Joins (path : Option ListeningPoint) (m m' : Message) : Prop :=
  match path with
  | some point => m.stayOnPath point = .ok m'
  | none => m' = m

theorem Joins.spec {path : Option ListeningPoint} (h : Joins path m m') :
    Keeps [.via, .recordRoute] m m' ∧
      (∃ branch, m'.viaEntries.1 = m.viaEntries.1.map (path.toList.map (·.via branch) ++ ·)) ∧
      linesOf .recordRoute m'.headers =
        path.toList.map (fun point => .ofValue .recordRoute [point.recordRoute]) ++
          linesOf .recordRoute m.headers := by
  cases path with
  | some point =>
    obtain ⟨hkeep, ⟨seed, -, hvia⟩, hrecord⟩ := stayOnPath_eq_ok h
    exact ⟨hkeep, ⟨Branch.ofSeed seed, hvia⟩, hrecord⟩
  | none =>
    cases h
    exact ⟨.refl _ m, ⟨"", (map_nil_append _).symm⟩, rfl⟩

/-- The stages of a request, in their order. -/
theorem stages_of_forwardRequest (h : e.forwardRequest point learned m = .ok f) :
    ∃ m₁ m₂, m.spendHop = .ok m₁ ∧
      ((∃ m', f = .toBackend m') ∧ m₂ = m₁ ∨
        ∃ hop m', f = .relay hop m' ∧ m₁.nextHop e.routes = .ok (hop, m₂)) ∧
      Joins (f.path? e point learned) m₂ f.message := by
  unfold forwardRequest at h
  obtain ⟨m₁, hspend, h⟩ := Outcome.bind_eq_ok.1 h
  split at h
  -- for a backend
  · obtain ⟨m', hstay, h⟩ := Outcome.bind_eq_ok.1 h
    cases h
    exact ⟨m₁, m₁, hspend, .inl ⟨⟨m', rfl⟩, rfl⟩, hstay⟩
  -- for the next hop, with the proxy on the path or without
  · obtain ⟨⟨hop, m₂⟩, hnext, h⟩ := Outcome.bind_eq_ok.1 h
    simp only at h
    split at h
    · rename_i path hpath
      obtain ⟨m', hstay, h⟩ := Outcome.bind_eq_ok.1 h
      cases h
      refine ⟨m₁, m₂, hspend, .inr ⟨hop, m', rfl, hnext⟩, ?_⟩
      rw [Forward.path?, hpath]
      exact hstay
    · rename_i hpath
      cases h
      refine ⟨m₁, m₂, hspend, .inr ⟨hop, m₂, rfl, hnext⟩, ?_⟩
      rw [Forward.path?, hpath]
      rfl

/-- A request behind the stages that all messages pass, `m₀` as it came. -/
theorem requestRewrite_of_forwardRequest {m₀ : Message} {dropped : List RouteEntry}
    {entries : List ViaEntry} (hkeep : Keeps [.via, .route] m₀ m)
    (hvia₀ : m₀.viaEntries.1 = .ok entries) (hvia : m.viaEntries.1 = .ok entries)
    (hroute : m₀.routeEntries = m.routeEntries.map (dropped ++ ·)) (hlen : dropped.length ≤ 1)
    (h : e.forwardRequest point learned m = .ok f) :
    RequestRewrite (f.path? e point learned) m₀ f := by
  obtain ⟨m₁, m₂, hspend, hnext, hjoin⟩ := stages_of_forwardRequest h
  obtain ⟨hkeep₁, hhop⟩ := spendHop_eq_ok hspend
  obtain ⟨hkeep₃, ⟨branch, hvia₃⟩, hrecord⟩ := hjoin.spec
  -- what lies between them is nothing for a backend, and a step along the route otherwise
  obtain ⟨hkeep₂, hothers₂, dropped₂, hlen₂, hroute₂⟩ :
      Keeps [.route, .toParty] m₁ m₂ ∧
        (others m₂.headers = others m₁.headers ∨ (∃ hop m', f = .relay hop m') ∧
          Reread .toParty (Headers.others m₁.headers) (Headers.others m₂.headers)) ∧
        ∃ dropped, dropped.length ≤ 1 ∧ m₁.routeEntries = m₂.routeEntries.map (dropped ++ ·) := by
    rcases hnext with ⟨-, rfl⟩ | ⟨hop, m', hf, hnext⟩
    · exact ⟨.refl _ _, .inl rfl, [], Nat.zero_le 1, (map_nil_append _).symm⟩
    · obtain ⟨hkeep, hchange, hdrop⟩ := nextHop_eq_ok hnext
      refine ⟨hkeep, ?_, hdrop⟩
      rcases hchange with hroute | hread
      · exact .inl (others_eq hroute (by decide))
      · exact .inr ⟨⟨hop, m', hf⟩, hread.filter fun _ => others_eq_true⟩
  have hothers₁ : others m₁.headers = others m₀.headers :=
    (others_eq hkeep₁ (by decide)).trans (others_eq hkeep (by decide))
  have hothers₃ : others f.message.headers = others m₂.headers := others_eq hkeep₃ (by decide)
  refine ⟨?_, ?_, ?_, ⟨entries, branch, hvia₀, ?_⟩, ?_, ⟨dropped ++ dropped₂, ?_, ?_⟩, ?_⟩
  · rw [hkeep₃.start, hkeep₂.start, hkeep₁.start, hkeep.start]
  · rw [hkeep₃.body, hkeep₂.body, hkeep₁.body, hkeep.body]
  · rw [hothers₃, ← hothers₁]
    exact hothers₂
  · rw [hvia₃, hkeep₂.viaEntries_eq (by decide), hkeep₁.viaEntries_eq (by decide), hvia]
    rfl
  · rw [hrecord, hkeep₂.linesOf_eq (by decide), hkeep₁.linesOf_eq (by decide),
      hkeep.linesOf_eq (by decide)]
  · rw [List.length_append]
    omega
  · rw [hroute, ← hkeep₁.routeEntries_eq (by decide), hroute₂,
      ← hkeep₃.routeEntries_eq (by decide), map_append_append]
  · rw [hkeep₃.linesOf_eq (by decide), hkeep₂.linesOf_eq (by decide),
      ← hkeep.linesOf_eq (k := .maxForwards) (by decide)]
    exact hhop

/-! ## All messages -/

/-- The stages that all messages pass before they are told apart. -/
theorem stages_of_process {source : Endpoint} {learned' : LearnedRoutes}
    (h : e.process source point m learned = (.ok f, learned')) :
    ∃ entries m₁, m.viaEntries.1 = .ok entries ∧ m.viaEntries.2.dropOwnRoute point = .ok m₁ ∧
      if m₁.isRequest then e.forwardRequest point learned' m₁ = .ok f
      else ∃ hop m', f = .relay hop m' ∧ m₁.returnHop = .ok (hop, m') := by
  unfold process at h
  split at h
  · rename_i m₀ learned₀ hlearn
    obtain ⟨rfl, entries, hentries⟩ := learnFrom_eq_ok hlearn
    obtain ⟨hforward, rfl⟩ := Prod.mk.inj h
    unfold forward at hforward
    split at hforward
    · cases hforward
    · rename_i m₁ hdrop
      refine ⟨entries, m₁, hentries, hdrop, ?_⟩
      split
      · rename_i hreq
        rw [if_pos hreq] at hforward
        exact hforward
      · rename_i hreq
        rw [if_neg hreq] at hforward
        obtain ⟨⟨hop, m'⟩, hreturn, hf⟩ := Outcome.map_eq_ok.1 hforward
        exact ⟨hop, m', hf.symm, hreturn⟩
  · cases h

/-- What the stages before the kinds of messages are told apart leave of a message. -/
theorem shared_of_process {source : Endpoint} {learned' : LearnedRoutes}
    (h : e.process source point m learned = (.ok f, learned')) :
    ∃ entries dropped m₁, Keeps [.via, .route] m m₁ ∧ m.viaEntries.1 = .ok entries ∧
      m₁.viaEntries.1 = .ok entries ∧ m.routeEntries = m₁.routeEntries.map (dropped ++ ·) ∧
        dropped.length ≤ 1 ∧
          if m.isRequest then e.forwardRequest point learned' m₁ = .ok f
          else ∃ hop m', f = .relay hop m' ∧ m₁.returnHop = .ok (hop, m') := by
  obtain ⟨entries, m₁, hentries, hdrop, hrest⟩ := stages_of_process h
  have hlearn := viaEntries_keeps m
  obtain ⟨hkeep, dropped, hlen, hroute⟩ := dropOwnRoute_eq_ok hdrop
  have hkeep₁ : Keeps [.via, .route] m m₁ := (hlearn.mono (by simp)).trans (hkeep.mono (by simp))
  refine ⟨entries, dropped, m₁, hkeep₁, hentries, ?_, ?_, hlen, ?_⟩
  · rw [hkeep.viaEntries_eq (by decide), viaEntries_viaEntries, hentries]
  · rw [← hroute, hlearn.routeEntries_eq (by decide)]
  · rw [← hkeep₁.isRequest_eq]
    exact hrest

theorem requestRewrite_of_process {source : Endpoint} {learned' : LearnedRoutes}
    (hm : m.isRequest = true) (h : e.process source point m learned = (.ok f, learned')) :
    RequestRewrite (f.path? e point learned') m f := by
  obtain ⟨entries, dropped, m₁, hkeep, hvia, hvia₁, hroute, hlen, hrest⟩ := shared_of_process h
  rw [if_pos hm] at hrest
  exact requestRewrite_of_forwardRequest hkeep hvia hvia₁ hroute hlen hrest

theorem responseRewrite_of_process {source : Endpoint} {learned' : LearnedRoutes}
    (hm : m.isRequest = false) (h : e.process source point m learned = (.ok f, learned')) :
    ∃ hop m', f = .relay hop m' ∧ ResponseRewrite m m' := by
  obtain ⟨entries, dropped, m₁, hkeep, hvia, hvia₁, hroute, hlen, hrest⟩ := shared_of_process h
  rw [if_neg (by simp [hm])] at hrest
  obtain ⟨hop, m', hf, hreturn⟩ := hrest
  obtain ⟨hkeep₁, top, htop⟩ := returnHop_eq_ok hreturn
  rw [hvia₁] at htop
  obtain ⟨rest, hrest, rfl⟩ := Outcome.map_eq_ok.1 htop.symm
  refine ⟨hop, m', hf, ?_, ?_, ?_, ⟨top, rest, hvia, hrest⟩, dropped, hlen, ?_⟩
  · rw [hkeep₁.start, hkeep.start]
  · rw [hkeep₁.body, hkeep.body]
  · refine (hkeep.trans (hkeep₁.mono (by simp))).lines _ fun k hk x hx => ?_
    simp only [List.mem_cons, List.not_mem_nil, or_false] at hk
    rcases hk with rfl | rfl
    all_goals
      simp only [HeaderKind.name] at hx
      simp [hx]
  · rw [hroute, hkeep₁.routeEntries_eq (by decide)]

theorem path?_isSome (f : Forward) :
    (f.path? e point learned).isSome = true ↔ f.WantsPath e learned := by
  cases f with
  | toBackend m => simp [Forward.path?, Forward.WantsPath]
  | relay hop m =>
    simp only [Forward.path?, Forward.WantsPath, pathPoint?, Option.isSome_or, Bool.or_eq_true]
    cases e.defaultRoute <;> simp

/-- Forwarding changes what it has to change and nothing else, be it a request or a response, and it
puts the proxy on the path of a request exactly where the proxy belongs on it. -/
theorem process_rewrites {source : Endpoint} {learned' : LearnedRoutes}
    (h : e.process source point m learned = (.ok f, learned')) :
    (m.isRequest = true →
        RequestRewrite (f.path? e point learned') m f ∧
          ((f.path? e point learned').isSome = true ↔ f.WantsPath e learned')) ∧
      (m.isRequest = false → ∃ hop m', f = .relay hop m' ∧ ResponseRewrite m m') := by
  constructor
  · intro hm
    exact ⟨requestRewrite_of_process hm h, path?_isSome f⟩
  · intro hm
    exact responseRewrite_of_process hm h

/-- A request with one Route entry goes where the entry says, to a host that nobody knows of, and
so with its own Via entry alone. -/
theorem process_rewrites_of_route :
    ∃ m f learned', process ⟨[], Table.empty, false⟩ (.v4 ⟨10, 0, 0, 1⟩ 5060)
        ⟨.udp, .v4 ⟨10, 0, 0, 9⟩ 5060⟩ m Table.empty = (.ok f, learned') ∧
      m.headers = [.ofText "v" "SIP/2.0/UDP a", .ofText "Route" "<sip:1.2.3.4>",
        .ofText "Max-Forwards" "70"] ∧
      f.message.headers = [⟨"v", .typed (.via [.of "UDP" "a" 0])⟩,
        ⟨"Max-Forwards", .typed (.maxForwards ⟨69⟩)⟩] ∧
      RequestRewrite none m f := by
  have h : (process ⟨[], Table.empty, false⟩ (.v4 ⟨10, 0, 0, 1⟩ 5060)
      ⟨.udp, .v4 ⟨10, 0, 0, 9⟩ 5060⟩
      ⟨.request ⟨"INVITE", "sip:bob@b", "SIP/2.0"⟩,
        [.ofText "v" "SIP/2.0/UDP a", .ofText "Route" "<sip:1.2.3.4>",
          .ofText "Max-Forwards" "70"], []⟩
      Table.empty).1 =
        .ok (.relay ⟨.udp, "1.2.3.4", 5060⟩
          ⟨.request ⟨"INVITE", "sip:bob@b", "SIP/2.0"⟩,
            [⟨"v", .typed (.via [.of "UDP" "a" 0])⟩,
              ⟨"Max-Forwards", .typed (.maxForwards ⟨69⟩)⟩], []⟩) := by
    decide +kernel
  have hoff : ∀ {path m f}, path = none → RequestRewrite path m f → RequestRewrite none m f := by
    rintro _ m f rfl hrewrite
    exact hrewrite
  refine ⟨_, _, _, Prod.ext h rfl, rfl, rfl, ?_⟩
  exact hoff (by decide +kernel) ((process_rewrites (Prod.ext h rfl)).1 rfl).1

end Engine

end SipProxy
