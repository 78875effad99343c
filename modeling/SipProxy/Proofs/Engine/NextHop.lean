import SipProxy.Proofs.Engine.Learning
import SipProxy.Proofs.Engine.Rewrite
import SipProxy.Proofs.Engine.Way

/-!
# Where a request goes that is not the proxy's own

It goes its way, or to the static route of the host in To if it has none, and no other entry of it
is touched (`Engine.process_follows`). What else can stop the request has nothing to do with its way
(`Engine.IsPassable`).

Everything up to the choice of the hop is done without the table of learned routes
(`Engine.chosenHop`). The table is asked afterwards, and only whether the proxy stays on the path
(`Engine.process_of_elsewhere`).
-/

namespace SipProxy

open Headers Message

/-! ## Requests that nothing else stops -/

namespace Message

variable {m : Message} {point : ListeningPoint}

theorem exists_spendHop {hops : Option Hops} (h : (m.typed .maxForwards).1 = .ok hops)
    (hleft : ∀ n ∈ hops, n.isExhausted = false) : ∃ m', m.spendHop = .ok m' := by
  unfold spendHop
  generalize m.typed .maxForwards = r at h
  obtain ⟨value, m₁⟩ := r
  simp only at h
  subst h
  cases hops with
  | none => exact ⟨m₁, rfl⟩
  | some n => exact ⟨_, if_neg (by simp [hleft n rfl])⟩

theorem exists_stayOnPath {entries : List ViaEntry} (hvia : m.viaEntries.1 = .ok entries)
    (haddress : point.address.ip.isUnspecified = false) :
    ∃ m', m.stayOnPath point = .ok m' := by
  have htop : ∃ top, m.topVia.1 = .ok top := by
    show ∃ top, (m.typed .via).1.map _ = _
    rw [viaEntries_fst] at hvia
    rw [typed_fst]
    cases hlines : linesOf .via m.headers with
    | nil => exact ⟨none, rfl⟩
    | cons line lines =>
      rw [hlines] at hvia
      obtain ⟨v, -, hread, -, -⟩ := entriesOf_cons_eq_ok hvia
      simp only [hread]
      exact ⟨_, rfl⟩
  obtain ⟨top, htop⟩ := htop
  unfold stayOnPath branchSeed
  rw [show m.topVia = (.ok top, m.topVia.2) from Prod.ext htop rfl]
  exact ⟨_, if_neg (by simp [haddress])⟩

end Message

/-! ## The engine -/

namespace Engine

variable {e : Engine} {source : Endpoint} {point : ListeningPoint} {m m' : Message}
  {learned learned' : LearnedRoutes} {f : Forward} {hop : Hop} {R : List RouteEntry}

/-- The hop of a request that is not the proxy's own, and the request as it leaves for it. -/
def chosenHop (e : Engine) (point : ListeningPoint) (m : Message) :
    Except ProxyError (Hop × Message) :=
  match m.viaEntries.1 with
  | .error fault => .error (.parse fault)
  | .ok _ =>
    match m.viaEntries.2.dropOwnRoute point with
    | .error fault => .error (.parse fault)
    | .ok m => m.spendHop >>= Message.nextHop e.routes

/-- Sends a request to its hop, with the proxy on the path if it belongs there. -/
def sendTo (e : Engine) (point : ListeningPoint) (learned : LearnedRoutes) (hop : Hop)
    (m : Message) : Except ProxyError Forward :=
  match e.pathPoint? point hop learned with
  | some path => (m.stayOnPath path).map (.relay hop)
  | none => .ok (.relay hop m)

theorem chosenHop_eq_ok : e.chosenHop point m = .ok (hop, m') ↔
    ∃ entries m₁ m₂, m.viaEntries.1 = .ok entries ∧ m.viaEntries.2.dropOwnRoute point = .ok m₁ ∧
      m₁.spendHop = .ok m₂ ∧ m₂.nextHop e.routes = .ok (hop, m') := by
  unfold chosenHop
  constructor
  · intro h
    split at h
    · cases h
    · rename_i entries hvia
      split at h
      · cases h
      · rename_i m₁ hdrop
        obtain ⟨m₂, hspend, hnext⟩ := Outcome.bind_eq_ok.1 h
        exact ⟨entries, m₁, m₂, hvia, hdrop, hspend, hnext⟩
  · rintro ⟨entries, m₁, m₂, hvia, hdrop, hspend, hnext⟩
    simp only [hvia, hdrop]
    exact Outcome.bind_eq_ok.2 ⟨m₂, hspend, hnext⟩

theorem sendTo_eq_ok (h : e.sendTo point learned hop m = .ok f) :
    ∃ sent, f = .relay hop sent ∧ Joins (e.pathPoint? point hop learned) m sent := by
  unfold sendTo at h
  split at h
  · rename_i path hpath
    obtain ⟨sent, hstay, rfl⟩ := Outcome.map_eq_ok.1 h
    rw [hpath]
    exact ⟨sent, rfl, hstay⟩
  · rename_i hpath
    cases h
    rw [hpath]
    exact ⟨m, rfl, rfl⟩

theorem forwardRequest_of_elsewhere (hown : m.isFor e.names point = false) :
    e.forwardRequest point learned m =
      (m.spendHop >>= Message.nextHop e.routes) >>= fun r => e.sendTo point learned r.1 r.2 := by
  unfold forwardRequest
  cases hspend : m.spendHop with
  | error fault => rfl
  | ok m₁ =>
    have hown₁ : m₁.isFor e.names point = false :=
      ((spendHop_eq_ok hspend).1.isFor_eq e.names).trans hown
    show (if m₁.isFor e.names point = true then _ else _) = _
    rw [if_neg (by simp [hown₁])]
    show _ = (m₁.nextHop e.routes >>= _)
    refine bind_congr fun r => ?_
    obtain ⟨hop, m₂⟩ := r
    simp only [sendTo]
    cases e.pathPoint? point hop learned with
    | some path => cases m₂.stayOnPath path <;> rfl
    | none => rfl

/-- A request that has come through the stages of all messages is forwarded with what was learned
from it. -/
theorem process_of_request {entries : List ViaEntry} {m₁ : Message} (e : Engine) (source : Endpoint)
    (learned : LearnedRoutes) (hreq : m.isRequest = true) (hvia : m.viaEntries.1 = .ok entries)
    (hdrop : m.viaEntries.2.dropOwnRoute point = .ok m₁) :
    (e.process source point m learned).1 =
      e.forwardRequest point (e.process source point m learned).2 m₁ := by
  have hreq₁ : m₁.isRequest = true := by
    rw [(dropOwnRoute_eq_ok hdrop).1.isRequest_eq, (viaEntries_keeps m).isRequest_eq, hreq]
  rw [process_snd]
  unfold process
  rw [learnFrom_of_ok hvia]
  simp only [forward, hdrop, hreq₁, if_true]

/-- A request that is not the proxy's own has its hop chosen, and is sent to it with what was
learned until then. -/
theorem process_of_elsewhere (e : Engine) (source : Endpoint) (learned : LearnedRoutes)
    (hreq : m.isRequest = true) (hown : m.isFor e.names point = false) :
    (e.process source point m learned).1 = e.chosenHop point m >>= fun r =>
      e.sendTo point (e.process source point m learned).2 r.1 r.2 := by
  cases hvia : m.viaEntries.1 with
  | error fault =>
    unfold process chosenHop LearnedRoutes.learnFrom
    rw [show m.viaEntries = (.error fault, m.viaEntries.2) from Prod.ext hvia rfl]
    rfl
  | ok entries =>
    cases hdrop : m.viaEntries.2.dropOwnRoute point with
    | error fault =>
      unfold process chosenHop
      rw [learnFrom_of_ok hvia, hvia]
      simp only [forward, hdrop]
      rfl
    | ok m₁ =>
      have hkeep : Keeps [.via, .route] m m₁ :=
        ((viaEntries_keeps m).mono (by simp)).trans ((dropOwnRoute_eq_ok hdrop).1.mono (by simp))
      rw [process_of_request e source learned hreq hvia hdrop,
        forwardRequest_of_elsewhere ((hkeep.isFor_eq e.names).trans hown), chosenHop, hvia]
      simp only [hdrop]

/-- A request whose hop is chosen has come to the choice with its way ahead. -/
theorem way_of_chosenHop (hroute : m.routeEntries = .ok R)
    (h : e.chosenHop point m = .ok (hop, m')) :
    ∃ entries m₁ m₂, m.viaEntries.1 = .ok entries ∧ m.viaEntries.2.dropOwnRoute point = .ok m₁ ∧
      m₁.spendHop = .ok m₂ ∧ m₂.nextHop e.routes = .ok (hop, m') ∧
      Keeps [.via, .route, .maxForwards] m m₂ ∧ m₂.routeEntries = .ok (point.wayFrom R) := by
  obtain ⟨entries, m₁, m₂, hvia, hdrop, hspend, hnext⟩ := chosenHop_eq_ok.1 h
  have hkeep := viaEntries_keeps m
  obtain ⟨hkeep₁, -⟩ := dropOwnRoute_eq_ok hdrop
  obtain ⟨hkeep₂, -⟩ := spendHop_eq_ok hspend
  refine ⟨entries, m₁, m₂, hvia, hdrop, hspend, hnext, ?_, ?_⟩
  · exact (hkeep.mono (by simp)).trans ((hkeep₁.mono (by simp)).trans (hkeep₂.mono (by simp)))
  · rcases routeEntries_of_dropOwnRoute ((hkeep.routeEntries_eq (by decide)).trans hroute) hdrop
      with hway | hhollow
    · exact (hkeep₂.routeEntries_eq (by decide)).trans hway
    · have hhollow₂ : m₂.IsHollow := by
        unfold IsHollow
        rw [hkeep₂.linesOf_eq (by decide)]
        exact hhollow
      exact absurd hnext (nextHop_of_hollow hhollow₂)

theorem follows_of_chosenHop (hroute : m.routeEntries = .ok R)
    (h : e.chosenHop point m = .ok (hop, m')) :
    m.Follows e.routes (point.wayFrom R) hop m' := by
  obtain ⟨_, _, m₂, -, -, -, hnext, hkeep, hway⟩ := way_of_chosenHop hroute h
  exact (follows_of_nextHop hway hnext).of_keeps hkeep (by decide) (.refl [] m') (by decide)

/-- With a way ahead, the hop is the same in front of any table of static routes. -/
theorem chosenHop_congr (hroute : m.routeEntries = .ok R) (hway : point.wayFrom R ≠ [])
    (h : e.chosenHop point m = .ok (hop, m')) (routes : StaticRoutes) :
    { e with routes }.chosenHop point m = .ok (hop, m') := by
  obtain ⟨entries, m₁, m₂, hvia, hdrop, hspend, hnext, -, hway₂⟩ := way_of_chosenHop hroute h
  refine chosenHop_eq_ok.2 ⟨entries, m₁, m₂, hvia, hdrop, hspend, ?_⟩
  rw [← hnext]
  exact nextHop_congr hway₂ hway routes e.routes

theorem follows_of_process (hreq : m.isRequest = true) (hown : m.isFor e.names point = false)
    (hroute : m.routeEntries = .ok R)
    (h : e.process source point m learned = (.ok f, learned')) :
    ∃ hop sent, f = .relay hop sent ∧ m.Follows e.routes (point.wayFrom R) hop sent ∧
      (point.wayFrom R ≠ [] → ∀ routes,
        { e with routes }.process source point m learned = (.ok f, learned')) := by
  have hfst := process_of_elsewhere e source learned hreq hown
  rw [h, eq_comm, Outcome.bind_eq_ok] at hfst
  obtain ⟨⟨hop, m'⟩, hchosen, hsend⟩ := hfst
  obtain ⟨sent, rfl, hjoin⟩ := sendTo_eq_ok hsend
  refine ⟨hop, sent, rfl, ?_, ?_⟩
  · obtain ⟨hkeep, -⟩ := hjoin.spec
    exact (follows_of_chosenHop hroute hchosen).of_keeps (.refl [] m) (by decide) hkeep (by decide)
  · intro hway routes
    have hsnd : ({ e with routes }.process source point m learned).2 = learned' := by
      rw [process_snd, ← process_snd e, h]
    have hfst := process_of_elsewhere { e with routes } source learned hreq hown
    refine Prod.ext ?_ hsnd
    rw [hfst, hsnd, chosenHop_congr hroute hway hchosen]
    exact hsend

/-- Nothing but its way can keep the proxy from forwarding the request: its Via lines can be read,
no Route line is without entries, it has a hop left, and no listening point that stays on a path is
at a wildcard address. -/
structure IsPassable (e : Engine) (point : ListeningPoint) (learned : LearnedRoutes) (m : Message) :
    Prop where
  via : ∃ entries, m.viaEntries.1 = .ok entries
  route : Filled .route id m.headers
  hops : ∃ hops, (m.typed .maxForwards).1 = .ok hops ∧ ∀ n ∈ hops, n.isExhausted = false
  path : ∀ hop own, e.pathPoint? point hop learned = some own →
    own.address.ip.isUnspecified = false

theorem exists_sendTo {entries : List ViaEntry} (hvia : m.viaEntries.1 = .ok entries)
    (hpath : ∀ own, e.pathPoint? point hop learned = some own →
      own.address.ip.isUnspecified = false) :
    ∃ f, e.sendTo point learned hop m = .ok f := by
  unfold sendTo
  cases hown : e.pathPoint? point hop learned with
  | none => exact ⟨_, rfl⟩
  | some own =>
    obtain ⟨sent, hsent⟩ := exists_stayOnPath hvia (hpath own hown)
    exact ⟨.relay hop sent, by simp only [hsent, Except.map]⟩

theorem exists_of_passable (hreq : m.isRequest = true) (hown : m.isFor e.names point = false)
    (hroute : m.routeEntries = .ok R)
    (hpass : e.IsPassable point (e.process source point m learned).2 m)
    (hway : ¬ m.Strands e.routes (point.wayFrom R)) :
    ∃ f, (e.process source point m learned).1 = .ok f := by
  obtain ⟨entries, hvia⟩ := hpass.via
  obtain ⟨hops, hread, hleft⟩ := hpass.hops
  have hkeep := viaEntries_keeps m
  have hlist : m.Lists .route id R := ⟨hroute, hpass.route⟩
  obtain ⟨m₁, hdrop, hlist₁⟩ : ∃ m₁, m.viaEntries.2.dropOwnRoute point = .ok m₁ ∧
      m₁.Lists .route id (point.wayFrom R) :=
    (hkeep.lists (by decide) hlist).dropOwnRoute
  have hkeep₁ : Keeps [.via, .route] m m₁ :=
    (hkeep.mono (by simp)).trans ((dropOwnRoute_eq_ok hdrop).1.mono (by simp))
  have hread₁ : (m₁.typed .maxForwards).1 = .ok hops := by
    rw [← hread, typed_fst, typed_fst, hkeep₁.linesOf_eq (by decide)]
  obtain ⟨m₂, hspend⟩ := exists_spendHop hread₁ hleft
  obtain ⟨hkeep₂, -⟩ := spendHop_eq_ok hspend
  have hway₂ : ¬ m₂.Strands e.routes (point.wayFrom R) := by
    intro hstrands
    refine hway (hstrands.congr ?_)
    rw [hkeep₂.toHost?_eq (by decide), hkeep₁.toHost?_eq (by decide)]
  obtain ⟨hop, m₃, hnext⟩ := exists_nextHop (hkeep₂.lists (by decide) hlist₁) hway₂
  have hvia₃ : m₃.viaEntries.1 = .ok entries := by
    rw [(nextHop_eq_ok hnext).1.viaEntries_eq (by decide), hkeep₂.viaEntries_eq (by decide),
      (dropOwnRoute_eq_ok hdrop).1.viaEntries_eq (by decide), viaEntries_viaEntries, hvia]
  obtain ⟨f, hsend⟩ := exists_sendTo hvia₃ (hpass.path hop)
  have hchosen : e.chosenHop point m = .ok (hop, m₃) :=
    chosenHop_eq_ok.2 ⟨entries, m₁, m₂, hvia, hdrop, hspend, hnext⟩
  exact ⟨f, (process_of_elsewhere e source learned hreq hown).trans
    (Outcome.bind_eq_ok.2 ⟨(hop, m₃), hchosen, hsend⟩)⟩

/-- A request that is not the proxy's own follows its Route entries, and without any that lies
ahead it follows To; with a way ahead the table of static routes may be any. If the way or To leads
nowhere, the request is not forwarded, and if they do not, it is, unless something else stops it. -/
theorem process_follows (e : Engine) (source : Endpoint) (point : ListeningPoint) (m : Message)
    (learned : LearnedRoutes) (R : List RouteEntry) (hreq : m.isRequest = true)
    (hown : m.isFor e.names point = false) (hroute : m.routeEntries = .ok R) :
    (∀ f learned', e.process source point m learned = (.ok f, learned') →
        ∃ hop sent, f = .relay hop sent ∧ m.Follows e.routes (point.wayFrom R) hop sent ∧
          (point.wayFrom R ≠ [] → ∀ routes,
            { e with routes }.process source point m learned = (.ok f, learned'))) ∧
      (m.Strands e.routes (point.wayFrom R) →
        ∃ fault, (e.process source point m learned).1 = .error fault) ∧
      (e.IsPassable point (e.process source point m learned).2 m →
        ¬ m.Strands e.routes (point.wayFrom R) →
          ∃ f, (e.process source point m learned).1 = .ok f) := by
  refine ⟨?_, ?_, exists_of_passable hreq hown hroute⟩
  · intro f learned' h
    exact follows_of_process hreq hown hroute h
  · intro hstrands
    cases h : (e.process source point m learned).1 with
    | error fault => exact ⟨fault, rfl⟩
    | ok f =>
      obtain ⟨_, _, -, hfollows, -⟩ := follows_of_process hreq hown hroute (Prod.ext h rfl)
      exact absurd hstrands hfollows.not_strands

/-- The entry that a request has come to has a line of its own, and the two ahead are in the next
line: it goes to the first of them, over TLS, whatever the table says. With a telephone number in
its place it goes nowhere. -/
theorem process_follows_of_two_lines :
    (∃ f learned', (∀ routes, process ⟨[], routes, false⟩ (.v4 ⟨10, 0, 0, 1⟩ 5060)
        ⟨.udp, .v4 ⟨10, 0, 0, 9⟩ 5060⟩
        ⟨.request ⟨"BYE", "sip:b", "SIP/2.0"⟩, [.ofText "Route" "<sip:10.0.0.9;lr>",
          .ofText "Route" "<sips:[2001:db8::1]>, <sip:c>"], []⟩ Table.empty = (.ok f, learned')) ∧
        ∃ sent, f = .relay ⟨.tls, "2001:db8::1", 5061⟩ sent ∧
          sent.routeEntries = .ok [.ofAddress (.ofUri (.sip (.ofHost "c")))]) ∧
      ∃ fault, (process ⟨[], Table.empty, false⟩ (.v4 ⟨10, 0, 0, 1⟩ 5060)
        ⟨.udp, .v4 ⟨10, 0, 0, 9⟩ 5060⟩
        ⟨.request ⟨"BYE", "sip:b", "SIP/2.0"⟩, [.ofText "Route" "<sip:10.0.0.9;lr>",
          .ofText "Route" "<tel:123>, <sip:c>"], []⟩ Table.empty).1 = .error fault := by
  let point : ListeningPoint := ⟨.udp, .v4 ⟨10, 0, 0, 9⟩ 5060⟩
  let own : RouteEntry := .loose (.ofHost "10.0.0.9")
  let next : RouteEntry :=
    .ofAddress (.ofUri (.sip ⟨.sips, none, none, "[2001:db8::1]", 0, [], []⟩))
  let number : RouteEntry := .ofAddress (.ofUri (.absolute ⟨"tel", "123"⟩))
  let last : RouteEntry := .ofAddress (.ofUri (.sip (.ofHost "c")))
  let m : Message := ⟨.request ⟨"BYE", "sip:b", "SIP/2.0"⟩, [.ofText "Route" "<sip:10.0.0.9;lr>",
    .ofText "Route" "<sips:[2001:db8::1]>, <sip:c>"], []⟩
  have hway : point.wayFrom [own, next, last] = [next, last] := by decide +kernel
  have hnumber : point.wayFrom [own, number, last] = [number, last] := by decide +kernel
  have hfilled : Filled .route id m.headers := by
    intro x hx v hv hnil
    have hread : x.read .route = Route.parse "Route" x.valueText := by
      rcases List.mem_cons.1 (List.mem_filter.1 hx).1 with rfl | hmem
      · rfl
      · rw [List.mem_singleton.1 hmem]
        rfl
    exact Route.parse_ne_nil "Route" x.valueText (hread.symm.trans (hnil ▸ hv))
  have hpath : ∀ hop path, pathPoint? ⟨[], Table.empty, false⟩ point hop
      (process ⟨[], Table.empty, false⟩ (.v4 ⟨10, 0, 0, 1⟩ 5060) point m Table.empty).2 =
        some path → path.address.ip.isUnspecified = false := by
    intro hop path hpath
    have hvia : m.viaEntries.1 = .ok [] := by decide +kernel
    rw [process_snd, learnFrom_of_ok hvia, pathPoint?, List.foldl_nil,
      LearnedRoutes.seenAt?_learn] at hpath
    split at hpath
    · cases hpath
      rfl
    · cases hpath
  have hforward : ¬ m.Strands Table.empty [next, last] := by
    intro hstrands
    cases hstrands with
    | foreign hsip => cases hsip
    | unknown hsip hname _ =>
      cases hsip
      cases hname
  constructor
  · obtain ⟨hfollow, -, hpassable⟩ := process_follows ⟨[], Table.empty, false⟩
      (.v4 ⟨10, 0, 0, 1⟩ 5060) point m Table.empty [own, next, last] rfl
      (by decide +kernel) (by decide +kernel)
    rw [hway] at hfollow hpassable
    obtain ⟨f, hf⟩ := hpassable
      ⟨⟨[], by decide +kernel⟩, hfilled, ⟨none, by decide +kernel⟩, hpath⟩ hforward
    obtain ⟨⟨p, host, port⟩, sent, rfl, hfollows, htable⟩ := hfollow f _ (Prod.ext hf rfl)
    cases hfollows with
    | route hsip hhop hrest =>
      cases hsip
      obtain ⟨hhost, hport, hprotocol⟩ := hhop
      obtain rfl : p = .tls := by
        cases hprotocol with
        | named hname _ => cases hname
        | secure _ _ => rfl
        | plain _ hscheme => cases hscheme
      obtain rfl : host = "2001:db8::1" := hhost.trans (by decide +kernel)
      obtain rfl : port = 5061 := hport
      exact ⟨_, _, htable (by decide), sent, rfl, hrest⟩
  · refine (process_follows ⟨[], Table.empty, false⟩ (.v4 ⟨10, 0, 0, 1⟩ 5060) point _ Table.empty
      [own, number, last] rfl (by decide +kernel) (by decide +kernel)).2.1 ?_
    rw [hnumber]
    exact .foreign rfl

end Engine

end SipProxy
