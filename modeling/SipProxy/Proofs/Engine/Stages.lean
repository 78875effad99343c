import SipProxy.Engine.Forward
import SipProxy.Proofs.Message.Edit

/-!
# What each stage of forwarding does to a message

A message that is forwarded passes through a fixed order of stages, and each of them may give up.
One law for each says what the message looks like behind it, if there is a message behind it: which
kinds of lines it kept, and what became of the entries or lines of the others. Whoever follows a
message through the engine needs nothing else of the stages.
-/

namespace SipProxy

open Headers

namespace Headers

variable {k : HeaderKind} {hs hs' : Headers} {p : Header → Bool}

/-- The lines are the same, but the first of the kind is written from the value it is read as. -/
def Reread (k : HeaderKind) (hs hs' : Headers) : Prop :=
  ∃ before h after v, hs = before ++ h :: after ∧ (∀ x ∈ before, x.is k.name = false) ∧
    h.is k.name = true ∧ h.read k = .ok v ∧ hs' = before ++ h.put k v :: after

theorem Reread.filter (h : Reread k hs hs') (hp : ∀ x : Header, x.is k.name = true → p x = true) :
    Reread k (hs.filter p) (hs'.filter p) := by
  obtain ⟨before, x, after, v, rfl, hb, hx, hv, rfl⟩ := h
  refine ⟨before.filter p, x, after.filter p, v, ?_, ?_, hx, hv, ?_⟩
  · rw [List.filter_append, List.filter_cons_of_pos (hp x hx)]
  · intro y hy
    exact hb y (List.mem_filter.1 hy).1
  · rw [List.filter_append, List.filter_cons_of_pos (hp _ (Header.put_is.trans hx))]

end Headers

namespace Message

variable {m m' : Message} {point : ListeningPoint}

/-- The Route entries, the topmost first, or what is wrong with the first line of them that cannot
be read. -/
def routeEntries (m : Message) : Except SipError (List RouteEntry) :=
  entriesOf .route id (linesOf .route m.headers)

theorem Keeps.viaEntries_eq {kinds : List HeaderKind} (h : Keeps kinds m m')
    (hk : HeaderKind.via ∉ kinds) : m'.viaEntries.1 = m.viaEntries.1 := by
  rw [viaEntries_fst, viaEntries_fst, h.linesOf_eq hk]

theorem Keeps.routeEntries_eq {kinds : List HeaderKind} (h : Keeps kinds m m')
    (hk : HeaderKind.route ∉ kinds) : m'.routeEntries = m.routeEntries := by
  rw [routeEntries, routeEntries, h.linesOf_eq hk]

/-! ## Learning -/

theorem learnFrom_eq_ok {source : Endpoint} {learned learned' : LearnedRoutes}
    (h : learned.learnFrom source point m = (.ok m', learned')) :
    m' = m.viaEntries.2 ∧ ∃ entries, m.viaEntries.1 = .ok entries := by
  unfold LearnedRoutes.learnFrom at h
  simp only at h
  split at h
  · rename_i entries m₁ hv
    cases h
    exact ⟨by rw [hv], entries, by rw [hv]⟩
  · cases h

theorem learnFrom_of_ok {entries : List ViaEntry} (h : m.viaEntries.1 = .ok entries)
    (source : Endpoint) (point : ListeningPoint) (learned : LearnedRoutes) :
    learned.learnFrom source point m =
      (.ok m.viaEntries.2, entries.foldl (fun l v => l.learn (Host.unbracket v.host) point)
        (learned.learn source.ip.text point)) := by
  unfold LearnedRoutes.learnFrom
  rw [show m.viaEntries = (.ok entries, m.viaEntries.2) from Prod.ext h rfl]

/-! ## Routes -/

theorem popRoute_keeps (m : Message) : Keeps [.route] m m.popRoute.2 := pop_keeps m

/-- A Route entry that is taken off was the first. -/
theorem routeEntries_popRoute {entry : RouteEntry} (h : m.popRoute.1 = .ok entry) :
    m.routeEntries = m.popRoute.2.routeEntries.map ([entry] ++ ·) :=
  entriesOf_pop (fun _ => rfl) h

theorem topRoute_snd (m : Message) : m.topRoute.2 = (m.typed .route).2 := rfl

theorem routeEntries_typed (m : Message) : (m.typed .route).2.routeEntries = m.routeEntries :=
  @entriesOf_typed .route RouteEntry id m

theorem map_nil_append {α : Type} (x : Except SipError (List α)) : x.map ([] ++ ·) = x := by
  cases x <;> rfl

theorem map_append_append {α : Type} (xs ys : List α) (x : Except SipError (List α)) :
    (x.map (ys ++ ·)).map (xs ++ ·) = x.map (xs ++ ys ++ ·) := by
  cases x with
  | error e => rfl
  | ok zs => simp [Except.map]

/-- No more than the topmost Route entry goes when the proxy drops its own. -/
theorem dropOwnRoute_eq_ok (h : m.dropOwnRoute point = .ok m') :
    Keeps [.route] m m' ∧
      ∃ dropped, dropped.length ≤ 1 ∧ m.routeEntries = m'.routeEntries.map (dropped ++ ·) := by
  have hkeep := typed_keeps .route m
  have hentries := routeEntries_typed m
  rw [← topRoute_snd] at hkeep hentries
  unfold dropOwnRoute at h
  generalize m.topRoute = r at h hkeep hentries
  obtain ⟨top, m₁⟩ := r
  cases top with
  | error e => cases h
  | ok entry =>
    simp only at h hkeep hentries
    split at h
    -- the topmost entry is the proxy's own
    · have hpop := popRoute_keeps m₁
      cases hp : m₁.popRoute with
      | mk r m₂ =>
        rw [hp] at h hpop
        cases r with
        | error e => cases h
        | ok dropped =>
          cases h
          have hdrop := @routeEntries_popRoute m₁ dropped (by rw [hp])
          rw [hp, hentries] at hdrop
          exact ⟨hkeep.trans hpop, [dropped], Nat.le_refl 1, hdrop⟩
    · cases h
      exact ⟨hkeep, [], Nat.zero_le 1, by rw [map_nil_append, hentries]⟩

/-! ## Hops -/

/-- The first of these lines, if there is one, says one hop less, and the others are the same. -/
def OneHopLess : (lines lines' : Headers) → Prop
  | [], lines' => lines' = []
  | h :: rest, lines' =>
    ∃ hops hops' : Hops, h.read .maxForwards = .ok hops ∧
      lines' = h.put .maxForwards hops' :: rest ∧ hops'.left.toNat + 1 = hops.left.toNat

theorem spendHop_eq_ok (h : m.spendHop = .ok m') :
    Keeps [.maxForwards] m m' ∧
      OneHopLess (linesOf .maxForwards m.headers) (linesOf .maxForwards m'.headers) := by
  have hkeep := typed_keeps .maxForwards m
  have hfst := typed_fst .maxForwards m
  have hlines := linesOf_typed .maxForwards m
  unfold spendHop at h
  generalize m.typed .maxForwards = r at h hkeep hfst hlines
  obtain ⟨value, m₁⟩ := r
  simp only at hkeep hfst hlines
  cases hl : linesOf .maxForwards m.headers with
  | nil =>
    simp only [hl] at hfst hlines
    subst hfst
    cases h
    exact ⟨hkeep, hlines⟩
  | cons line rest =>
    simp only [hl] at hfst hlines
    cases hr : line.read .maxForwards with
    | error e =>
      rw [hr] at hfst
      subst hfst
      cases h
    | ok hops =>
      rw [hr] at hfst
      subst hfst
      simp only [Except.map] at h
      split at h
      · cases h
      · rename_i hleft
        cases h
        refine ⟨hkeep.trans (modify_keeps .maxForwards Hops.decrement m₁), hops, hops.decrement,
          hr, ?_, ?_⟩
        · rw [linesOf_modify, hlines]
          simp only [Header.memoise_of_ok hr, revised_of_ok Header.read_put, Header.put_put]
        -- a message without hops left was refused above
        · have hpos : hops.left.toNat ≠ 0 := by
            intro hz
            exact hleft (beq_iff_eq.2 (UInt32.toNat_inj.1 hz))
          rw [Hops.toNat_decrement]
          omega

/-! ## The next hop -/

theorem followRoute_eq_ok {hop : Hop} (h : m.followRoute = .ok (hop, m')) :
    Keeps [.route] m m' ∧ ∃ entry, m.routeEntries = m'.routeEntries.map ([entry] ++ ·) := by
  have hpop := popRoute_keeps m
  have hdrop := @routeEntries_popRoute m
  unfold followRoute at h
  generalize m.popRoute = r at h hpop hdrop
  obtain ⟨top, m₁⟩ := r
  cases top with
  | error e => cases h
  | ok entry =>
    simp only at h
    split at h
    · obtain ⟨_, -, heq⟩ := Outcome.map_eq_ok.1 h
      cases heq
      exact ⟨hpop, entry, hdrop rfl⟩
    · cases h

/-- A request that follows its To header has that header read, and nothing else happens to it. -/
theorem followTo_eq_ok {routes : StaticRoutes} {hop : Hop} (h : m.followTo routes = .ok (hop, m')) :
    Keeps [.toParty] m m' ∧ Reread .toParty m.headers m'.headers := by
  have hkeep := typed_keeps .toParty m
  have hfst := typed_fst .toParty m
  have hsnd := typed_snd .toParty m
  unfold followTo at h
  generalize m.typed .toParty = r at h hkeep hfst hsnd
  obtain ⟨party, m₁⟩ := r
  cases party with
  | error e => cases h
  | ok party =>
    simp only at h hkeep hfst hsnd
    split at h
    · rename_i host hhost
      split at h
      · cases h
        refine ⟨hkeep, ?_⟩
        -- there is a To line, since a host was read from it
        cases hc : cut HeaderKind.toParty.name m.headers with
        | none =>
          rw [linesOf_of_cut_eq_none hc] at hfst
          cases hfst
          cases hhost
        | some r =>
          obtain ⟨before, line, after⟩ := r
          obtain ⟨hm, hline, hbefore⟩ := cut_eq_some.1 hc
          rw [linesOf_of_cut hc] at hfst
          obtain ⟨v, hv, -⟩ := Outcome.map_eq_ok.1 hfst.symm
          refine ⟨before, line, after, v, hm, hbefore, hline, hv, ?_⟩
          rw [hsnd]
          simp only [replaceFirst, hc, Header.memoise_of_ok hv, List.append_assoc]
          rfl
      · cases h
    · cases h

/-- The way on costs no more than the topmost Route entry, or leads to To being read. -/
theorem nextHop_eq_ok {routes : StaticRoutes} {hop : Hop} (h : m.nextHop routes = .ok (hop, m')) :
    Keeps [.route, .toParty] m m' ∧
      (Keeps [.route] m m' ∨ Reread .toParty m.headers m'.headers) ∧
      ∃ dropped, dropped.length ≤ 1 ∧ m.routeEntries = m'.routeEntries.map (dropped ++ ·) := by
  unfold nextHop at h
  split at h
  · obtain ⟨hkeep, entry, hdrop⟩ := followRoute_eq_ok h
    exact ⟨hkeep.mono (by simp), .inl hkeep, [entry], Nat.le_refl 1, hdrop⟩
  · obtain ⟨hkeep, hread⟩ := followTo_eq_ok h
    refine ⟨hkeep.mono (by simp), .inr hread, [], Nat.zero_le 1, ?_⟩
    rw [map_nil_append, hkeep.routeEntries_eq (by decide)]

/-! ## The path -/

theorem viaEntries_topVia (m : Message) : m.topVia.2.viaEntries.1 = m.viaEntries.1 := by
  rw [viaEntries_fst, viaEntries_fst]
  exact @entriesOf_typed .via ViaEntry id m

theorem topVia_keeps (m : Message) : Keeps [.via] m m.topVia.2 := typed_keeps .via m

theorem branchSeed_snd (point : ListeningPoint) (m : Message) :
    (m.branchSeed point).2 = m.topVia.2 := by
  unfold branchSeed
  split
  · rename_i ht
    exact (congrArg Prod.snd ht).symm
  · rename_i ht
    exact (congrArg Prod.snd ht).symm

/-- A request that the proxy stays on the path of has an entry of it in front of its Via entries,
with the branch of its seed, and a line of it in front of its Record-Route lines. -/
theorem stayOnPath_eq_ok (h : m.stayOnPath point = .ok m') :
    Keeps [.via, .recordRoute] m m' ∧
      (∃ seed, (m.branchSeed point).1 = .ok seed ∧
        m'.viaEntries.1 = m.viaEntries.1.map (point.via (Branch.ofSeed seed) :: ·)) ∧
      linesOf .recordRoute m'.headers =
        .ofValue .recordRoute [point.recordRoute] :: linesOf .recordRoute m.headers := by
  have hkeep := topVia_keeps m
  have hvia := viaEntries_topVia m
  rw [← branchSeed_snd point] at hkeep hvia
  unfold stayOnPath at h
  split at h
  · cases h
  · generalize m.branchSeed point = r at h hkeep hvia
    obtain ⟨seed, m₁⟩ := r
    cases seed with
    | error e => cases h
    | ok seed =>
      simp only [Except.ok.injEq] at h hkeep hvia
      subst h
      have hpush := pushVia_keeps (point.via (Branch.ofSeed seed)) m₁
      have hrecord := pushRecordRoute_keeps point.recordRoute
        (m₁.pushVia (point.via (Branch.ofSeed seed)))
      refine ⟨?_, ⟨seed, rfl, ?_⟩, ?_⟩
      · have hk : Keeps [.via, .recordRoute] m m₁ := hkeep.mono (by simp)
        exact (hk.trans (hpush.mono (by simp))).trans (hrecord.mono (by simp))
      · rw [hrecord.viaEntries_eq (by decide), viaEntries_fst, entriesOf_pushVia,
          ← viaEntries_fst, hvia]
      · rw [linesOf_pushRecordRoute, hpush.linesOf_eq (by decide), hkeep.linesOf_eq (by decide)]

/-! ## Responses -/

theorem popVia_keeps (m : Message) : Keeps [.via] m m.popVia.2 := pop_keeps m

theorem viaEntries_popVia {entry : ViaEntry} (h : m.popVia.1 = .ok entry) :
    m.viaEntries.1 = m.popVia.2.viaEntries.1.map (entry :: ·) := by
  rw [viaEntries_fst, viaEntries_fst]
  exact entriesOf_pop (fun _ => rfl) h

/-- A response loses its topmost Via entry and goes where the next one wants it. -/
theorem returnHop_eq_ok {hop : Hop} (h : m.returnHop = .ok (hop, m')) :
    Keeps [.via] m m' ∧ ∃ top, m.viaEntries.1 = m'.viaEntries.1.map (top :: ·) := by
  have hkeep := popVia_keeps m
  have hpop := @viaEntries_popVia m
  unfold returnHop at h
  generalize m.popVia = r at h hkeep hpop
  obtain ⟨top, m₁⟩ := r
  cases top with
  | error e => cases h
  | ok top =>
    have hkeep' := topVia_keeps m₁
    have hsame := viaEntries_topVia m₁
    simp only at h hkeep hpop
    generalize m₁.topVia = r at h hkeep' hsame
    obtain ⟨next, m₂⟩ := r
    rcases next with e | next | next
    · cases h
    · cases h
    · obtain ⟨_, -, heq⟩ := Outcome.map_eq_ok.1 h
      cases heq
      exact ⟨hkeep.trans hkeep', top, by rw [hpop rfl, hsame]⟩

end Message

end SipProxy
