import SipProxy.Proofs.Engine.OwnRoute
import SipProxy.Proofs.Message.Lists

/-!
# The way of a request

The Route entries of a request are one list, written on any number of lines. The first of them is
left out if it is where the request has come to, and what is left is the way ahead
(`ListeningPoint.wayFrom`). The request goes to the first entry of its way and loses it; without a
way it goes where the table of static routes sends the host in To (`Message.follows_of_nextHop`).
How the entries are grouped into lines has no part in it.

What is looked at are lines, though, and only the first of them. A first line without entries would
stop the request (`Message.nextHop_of_hollow`), so a request that goes on has gone by its list of
entries. If no line is without entries, nothing but the way itself can stop it here
(`Message.exists_nextHop`).
-/

namespace SipProxy

open Headers Message

/-! ## The way that Route entries name -/

/-- The entry has the address and the port of the listening point. -/
def ListeningPoint.IsNamedBy (point : ListeningPoint) (entry : RouteEntry) : Prop :=
  ∃ u, entry.sip? = some u ∧ Host.ip? u.host = some point.address.ip ∧
    u.resolvedPort = point.address.port

theorem ListeningPoint.isNamedBy_iff {point : ListeningPoint} {entry : RouteEntry} :
    entry.sip?.any point.isAtUri = true ↔ point.IsNamedBy entry := by
  simp only [IsNamedBy, Option.any_eq_true, isAtUri, isAt, Bool.and_eq_true, beq_iff_eq]
  exact exists_congr fun u => and_congr_right fun _ => and_comm

theorem ListeningPoint.not_isNamedBy_iff {point : ListeningPoint} {entry : RouteEntry} :
    entry.sip?.any point.isAtUri = false ↔ ¬ point.IsNamedBy entry := by
  rw [← Bool.not_eq_true, isNamedBy_iff]

instance ListeningPoint.decidableIsNamedBy (point : ListeningPoint) (entry : RouteEntry) :
    Decidable (point.IsNamedBy entry) :=
  decidable_of_iff _ isNamedBy_iff

/-- The Route entries that are still ahead of a request that has come to the listening point. -/
def ListeningPoint.wayFrom (point : ListeningPoint) : List RouteEntry → List RouteEntry
  | [] => []
  | top :: rest => if point.IsNamedBy top then rest else top :: rest

/-- The protocol to reach a URI with: the one that is named, or else the one of the scheme. -/
inductive SipUri.Speaks (u : SipUri) : Protocol → Prop where
  | named {name : String} {p : Protocol} (hname : u.transport? = some name)
      (hp : Protocol.ofText? name = some p) : Speaks u p
  | secure (hname : u.transport? = none) (hscheme : u.scheme = .sips) : Speaks u .tls
  | plain (hname : u.transport? = none) (hscheme : u.scheme = .sip) : Speaks u .udp

/-- The hop is where a URI leads. -/
structure Hop.Reaches (hop : Hop) (u : SipUri) : Prop where
  host : hop.host = Host.unbracket u.host
  port : hop.port = u.resolvedPort
  protocol : u.Speaks hop.protocol

theorem SipUri.speaks_of_protocol {u : SipUri} {p : Protocol} (h : u.protocol = .ok p) :
    u.Speaks p := by
  unfold protocol at h
  split at h
  · rename_i name hname
    unfold Protocol.parse at h
    split at h
    · rename_i hp
      cases h
      exact .named hname hp
    · cases h
  · rename_i hname
    split at h
    · rename_i hscheme
      cases h
      exact .secure hname hscheme
    · rename_i hscheme
      cases h
      exact .plain hname hscheme

/-- A URI that names a protocol speaks no other. -/
theorem SipUri.Speaks.ofText? {u : SipUri} {p : Protocol} {name : String} (h : u.Speaks p)
    (hname : u.transport? = some name) : Protocol.ofText? name = some p := by
  cases h with
  | named hname' hp =>
    cases hname'.symm.trans hname
    exact hp
  | secure hnone _ => cases hnone.symm.trans hname
  | plain hnone _ => cases hnone.symm.trans hname

theorem SipUri.exists_hop {u : SipUri}
    (h : ∀ name, u.transport? = some name → Protocol.ofText? name ≠ none) :
    ∃ hop, u.hop = .ok hop := by
  suffices hprotocol : ∃ p, u.protocol = .ok p by
    obtain ⟨p, hp⟩ := hprotocol
    exact ⟨Hop.of p u.host u.resolvedPort, Outcome.map_eq_ok.2 ⟨p, hp, rfl⟩⟩
  unfold protocol
  cases hname : u.transport? with
  | some name =>
    obtain ⟨p, hp⟩ := Option.ne_none_iff_exists'.1 (h name hname)
    exact ⟨p, by simp only [Protocol.parse, hp]⟩
  | none =>
    cases u.scheme with
    | sip => exact ⟨.udp, rfl⟩
    | sips => exact ⟨.tls, rfl⟩

theorem SipUri.reaches_of_hop {u : SipUri} {hop : Hop} (h : u.hop = .ok hop) : hop.Reaches u := by
  obtain ⟨p, hp, rfl⟩ := Outcome.map_eq_ok.1 h
  exact ⟨rfl, rfl, speaks_of_protocol hp⟩

namespace Message

variable {routes : StaticRoutes} {point : ListeningPoint} {m m' : Message} {hop : Hop}
  {way R : List RouteEntry}

/-- The host of the party that a request is for. -/
def toHost? (m : Message) : Option String :=
  match (m.typed .toParty).1 with
  | .ok (some party) => party.host?
  | _ => none

/-- Header lines do not say whose a request is. -/
theorem Keeps.isFor_eq {kinds : List HeaderKind} (h : Keeps kinds m m') (names : List String) :
    m'.isFor names point = m.isFor names point := by
  unfold isFor requestUri?
  rw [h.start]

theorem Keeps.toHost?_eq {kinds : List HeaderKind} (h : Keeps kinds m m')
    (hk : HeaderKind.toParty ∉ kinds) : m'.toHost? = m.toHost? := by
  unfold toHost?
  rw [typed_fst, typed_fst, h.linesOf_eq hk]

/-- The hop of a request and what is sent there: the way has the hop, and is one entry shorter
behind it, or there is no way and the hop is the static one of the host in To. -/
inductive Follows (routes : StaticRoutes) (m : Message) : List RouteEntry → Hop → Message → Prop
  | route {top : RouteEntry} {rest : List RouteEntry} {u : SipUri} {hop : Hop} {sent : Message}
      (hsip : top.sip? = some u) (hhop : hop.Reaches u) (hrest : sent.routeEntries = .ok rest) :
      Follows routes m (top :: rest) hop sent
  | static {host : String} {hop : Hop} {sent : Message} (hto : m.toHost? = some host)
      (hfind : routes.find host = .ok hop) (hrest : linesOf .route sent.headers = []) :
      Follows routes m [] hop sent

/-- There is no hop for a request with such a way: it begins with a URI of another scheme or of a
protocol that is not known, or there is no way and no host in To, or no static route for it. -/
inductive Strands (routes : StaticRoutes) (m : Message) : List RouteEntry → Prop
  | foreign {top : RouteEntry} {rest : List RouteEntry} (hsip : top.sip? = none) :
      Strands routes m (top :: rest)
  | unknown {top : RouteEntry} {rest : List RouteEntry} {u : SipUri} {name : String}
      (hsip : top.sip? = some u) (hname : u.transport? = some name)
      (hp : Protocol.ofText? name = none) : Strands routes m (top :: rest)
  | hostless (hto : m.toHost? = none) : Strands routes m []
  | unlisted {host : String} (hto : m.toHost? = some host)
      (hfind : ∀ hop, routes.find host ≠ .ok hop) : Strands routes m []

theorem Follows.not_strands (h : Follows routes m way hop m') : ¬ Strands routes m way := by
  intro hstrands
  cases h with
  | route hsip hhop _ =>
    cases hstrands with
    | foreign hnone => cases hnone.symm.trans hsip
    | unknown hsip' hname hp =>
      cases hsip.symm.trans hsip'
      cases hp.symm.trans (hhop.protocol.ofText? hname)
  | static hto hfind _ =>
    cases hstrands with
    | hostless hnone => cases hnone.symm.trans hto
    | unlisted hto' hnone =>
      cases hto.symm.trans hto'
      exact hnone hop hfind

theorem Strands.congr (hto : m'.toHost? = m.toHost?) (h : Strands routes m' way) :
    Strands routes m way := by
  cases h with
  | foreign hsip => exact .foreign hsip
  | unknown hsip hname hp => exact .unknown hsip hname hp
  | hostless hnone => exact .hostless (hto.symm.trans hnone)
  | unlisted hhost hfind => exact .unlisted (hto.symm.trans hhost) hfind

/-- Nothing that happens to a request on its way to its hop or from there changes what it follows,
as long as To is not changed before and Route is not changed behind. -/
theorem Follows.of_keeps {m₀ sent : Message} {before after : List HeaderKind}
    (hbefore : Keeps before m₀ m) (hto : HeaderKind.toParty ∉ before) (hafter : Keeps after m' sent)
    (hroute : HeaderKind.route ∉ after) (h : Follows routes m way hop m') :
    Follows routes m₀ way hop sent := by
  cases h with
  | route hsip hhop hrest =>
    exact .route hsip hhop ((hafter.routeEntries_eq hroute).trans hrest)
  | static hhost hfind hrest =>
    exact .static ((hbefore.toHost?_eq hto).symm.trans hhost) hfind
      ((hafter.linesOf_eq hroute).trans hrest)

/-! ## Lines -/

theorem named?_route (hs : Headers) : named? .route hs = (linesOf .route hs).head? :=
  (List.head?_filter ..).symm

theorem topRoute_of_line {line : Header} {lines : Headers} {entries : List RouteEntry}
    (hlines : linesOf .route m.headers = line :: lines) (hread : line.read .route = .ok entries) :
    m.topRoute.1 = .ok entries.head? := by
  show (m.typed .route).1.map _ = _
  rw [typed_fst, hlines]
  simp only [hread]
  rfl

/-- The first Route line has no entry. -/
def IsHollow (m : Message) : Prop :=
  ∃ line lines, linesOf .route m.headers = line :: lines ∧ line.read .route = .ok []

/-- A request whose first Route line has no entry goes nowhere. -/
theorem nextHop_of_hollow (hm : m.IsHollow) : m.nextHop routes ≠ .ok (hop, m') := by
  obtain ⟨line, lines, hlines, hread⟩ := hm
  have hpop : ∀ entry, m.popRoute.1 ≠ .ok entry := by
    intro entry h
    obtain ⟨line', lines', v, entries, hlines', hread', hv⟩ := pop_eq_ok.1 h
    cases hlines.symm.trans hlines'
    cases hread.symm.trans hread'
    cases hv
  unfold nextHop
  rw [named?_route, hlines]
  show m.followRoute ≠ _
  unfold followRoute
  generalize m.popRoute = r at hpop
  obtain ⟨popped, m₁⟩ := r
  cases popped with
  | ok entry => exact absurd rfl (hpop entry)
  | error e => exact nofun

/-- A request that has dropped the entry that it has come to has its way ahead, unless it was left
with a line without an entry. -/
theorem routeEntries_of_dropOwnRoute (hroute : m.routeEntries = .ok R)
    (h : m.dropOwnRoute point = .ok m') :
    m'.routeEntries = .ok (point.wayFrom R) ∨ m'.IsHollow := by
  rw [routeEntries] at hroute
  cases hlines : linesOf .route m.headers with
  | nil =>
    rw [hlines] at hroute
    cases hroute
    obtain ⟨-, dropped, -, hentries⟩ := dropOwnRoute_eq_ok h
    rw [routeEntries, hlines] at hentries
    obtain ⟨left, hleft, heq⟩ := Outcome.map_eq_ok.1 hentries.symm
    rw [hleft, (List.append_eq_nil_iff.1 heq).2]
    exact .inl rfl
  | cons line lines =>
    rw [hlines] at hroute
    obtain ⟨v, below, hread, hbelow, rfl⟩ := entriesOf_cons_eq_ok hroute
    cases v with
    | nil =>
      -- there is no topmost entry that the proxy could know for its own
      have htop : m.topRoute = (.ok none, (m.typed .route).2) :=
        Prod.ext (topRoute_of_line hlines hread) rfl
      rw [dropOwnRoute, htop] at h
      cases h
      refine .inr ⟨(line.memoise .route).2, lines, ?_, Header.read_memoise.trans hread⟩
      rw [linesOf_typed, hlines]
    | cons top rest =>
      refine .inl ?_
      by_cases hown : point.IsNamedBy top
      · obtain ⟨m₁, hdrop, -, hleft⟩ :=
          dropOwnRoute_of_own hlines hread (ListeningPoint.isNamedBy_iff.2 hown)
        cases hdrop.symm.trans h
        rw [routeEntries, hleft]
        show _ = Except.ok (if point.IsNamedBy top then rest ++ below else _)
        rw [if_pos hown]
        cases rest with
        | nil => exact hbelow
        | cons next rest =>
          rw [if_neg (List.cons_ne_nil next rest), List.singleton_append,
            entriesOf_cons Header.read_put, hbelow]
          rfl
      · have hnot := ListeningPoint.not_isNamedBy_iff.2 hown
        cases (dropOwnRoute_of_not_own (topRoute_of_line hlines hread) hnot).symm.trans h
        rw [topRoute_snd, routeEntries_typed, routeEntries, hlines, hroute]
        exact congrArg Except.ok (if_neg hown).symm

/-- Lines that can be read and have entries do not stop a request here. -/
theorem Lists.dropOwnRoute (h : m.Lists .route id R) :
    ∃ m', m.dropOwnRoute point = .ok m' ∧ m'.Lists .route id (point.wayFrom R) := by
  have htop : m.topRoute = (.ok R.head?, m.topRoute.2) := Prod.ext h.head_typed rfl
  have hread : m.topRoute.2.Lists .route id R := h.typed
  cases R with
  | nil =>
    refine ⟨m.topRoute.2, ?_, hread⟩
    unfold Message.dropOwnRoute
    rw [htop]
    rfl
  | cons top rest =>
    by_cases hown : point.IsNamedBy top
    · obtain ⟨hpop, hrest⟩ := hread.pop_cons fun _ => rfl
      refine ⟨m.topRoute.2.popRoute.2, ?_, ?_⟩
      · unfold Message.dropOwnRoute
        rw [htop]
        show (if top.sip?.any point.isAtUri = true then _ else _) = _
        rw [if_pos (ListeningPoint.isNamedBy_iff.2 hown),
          show m.topRoute.2.popRoute = (.ok top, m.topRoute.2.popRoute.2) from Prod.ext hpop rfl]
      · rw [ListeningPoint.wayFrom, if_pos hown]
        exact hrest
    · refine ⟨m.topRoute.2, ?_, ?_⟩
      · exact dropOwnRoute_of_not_own (congrArg Prod.fst htop)
          (ListeningPoint.not_isNamedBy_iff.2 hown)
      · rw [ListeningPoint.wayFrom, if_neg hown]
        exact hread

theorem follows_of_followRoute (hroute : m.routeEntries = .ok way)
    (h : m.followRoute = .ok (hop, m')) : Follows routes m way hop m' := by
  have hdrop := @routeEntries_popRoute m
  unfold followRoute at h
  generalize m.popRoute = r at h hdrop
  obtain ⟨popped, m₁⟩ := r
  cases popped with
  | error e => cases h
  | ok top =>
    simp only at h
    split at h
    · rename_i u hsip
      obtain ⟨hop', hhop, heq⟩ := Outcome.map_eq_ok.1 h
      cases heq
      obtain ⟨rest, hrest, rfl⟩ := Outcome.map_eq_ok.1 ((hdrop rfl).symm.trans hroute)
      exact .route hsip (SipUri.reaches_of_hop hhop) hrest
    · cases h

theorem follows_of_followTo (hlines : linesOf .route m.headers = [])
    (h : m.followTo routes = .ok (hop, m')) : Follows routes m [] hop m' := by
  obtain ⟨hkeep, -⟩ := followTo_eq_ok h
  have hhost : ∀ party, (m.typed .toParty).1 = .ok party → m.toHost? = party.bind Party.host? := by
    intro party hparty
    rw [toHost?, hparty]
    cases party <;> rfl
  unfold followTo at h
  generalize m.typed .toParty = r at h hhost
  obtain ⟨party, m₁⟩ := r
  cases party with
  | error e => cases h
  | ok party =>
    simp only at h
    split at h
    · rename_i host hto
      split at h
      · rename_i found hfind
        cases h
        exact .static ((hhost party rfl).trans hto) hfind
          ((hkeep.linesOf_eq (by decide)).trans hlines)
      · cases h
    · cases h

/-- The hop is the one of the way, and the table is for a request without any. -/
theorem follows_of_nextHop (hroute : m.routeEntries = .ok way)
    (h : m.nextHop routes = .ok (hop, m')) : Follows routes m way hop m' := by
  unfold nextHop at h
  rw [named?_route] at h
  cases hlines : linesOf .route m.headers with
  | nil =>
    rw [routeEntries, hlines] at hroute
    cases hroute
    rw [hlines] at h
    exact follows_of_followTo hlines h
  | cons line lines =>
    rw [hlines] at h
    exact follows_of_followRoute hroute h

/-- With its way ahead, a request is stopped by nothing else. -/
theorem exists_nextHop (h : m.Lists .route id way) (hway : ¬ Strands routes m way) :
    ∃ hop m', m.nextHop routes = .ok (hop, m') := by
  unfold nextHop
  rw [named?_route]
  cases way with
  | nil =>
    rw [h.linesOf_eq_nil]
    show ∃ hop m', m.followTo routes = _
    cases hto : m.toHost? with
    | none => exact absurd (.hostless hto) hway
    | some host =>
      cases hfind : routes.find host with
      | error fault => exact absurd (.unlisted hto (by simp [hfind])) hway
      | ok hop =>
        refine ⟨hop, (m.typed .toParty).2, ?_⟩
        unfold toHost? at hto
        unfold followTo
        generalize m.typed .toParty = r at hto
        obtain ⟨party, m₁⟩ := r
        rcases party with fault | _ | party
        · cases hto
        · cases hto
        · have hhost : (some party).bind Party.host? = some host := hto
          simp only [hhost, hfind]
  | cons top rest =>
    obtain ⟨line, lines, _, _, _, hlines, -⟩ := h.exists_line
    rw [hlines]
    show ∃ hop m', m.followRoute = _
    have hpop : m.popRoute.1 = .ok top := (h.pop_cons fun _ => rfl).1
    cases hsip : top.sip? with
    | none => exact absurd (.foreign hsip) hway
    | some u =>
      obtain ⟨hop, hhop⟩ := SipUri.exists_hop fun name hname hp =>
        hway (.unknown hsip hname hp)
      refine ⟨hop, m.popRoute.2, ?_⟩
      unfold followRoute
      rw [show m.popRoute = (.ok top, m.popRoute.2) from Prod.ext hpop rfl]
      simp only [hsip, hhop]
      rfl

/-- The table has no part in it if there is a way. -/
theorem nextHop_congr {way : List RouteEntry} (hroute : m.routeEntries = .ok way) (hway : way ≠ [])
    (routes routes' : StaticRoutes) : m.nextHop routes = m.nextHop routes' := by
  unfold nextHop
  rw [named?_route]
  cases hlines : linesOf .route m.headers with
  | nil =>
    rw [routeEntries, hlines] at hroute
    cases hroute
    exact absurd rfl hway
  | cons line lines => rfl

end Message

end SipProxy
