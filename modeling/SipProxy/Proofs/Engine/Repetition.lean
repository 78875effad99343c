import SipProxy.Proofs.Engine.NextHop
import SipProxy.Proofs.Header.Alike

/-!
# A request that comes again

A client that gets no answer sends its request again, and whoever is next has to know it for the
same (`Engine.Call.repeats`). Two things could tell the two apart. Learned routes could, since they
change with every message; but of all of them a request is shown one, the one for the host that it
is sent to. And the branch of the entry that the proxy puts on it could; but a branch is made of a
seed, and a seed of what the sender of the request repeats. No stage before changes any of that
(`Message.branchSeed_of_keeps`), and a seed begins with the branch that the request came with, so
requests that came with different branches have different seeds.
-/

namespace SipProxy

open Headers Message

namespace Message

variable {kinds : List HeaderKind} {m m' : Message} {point : ListeningPoint}

/-- The branch of the topmost Via entry. -/
def topBranch? (m : Message) : Option String :=
  match m.topVia.1 with
  | .ok entry => entry.bind ViaEntry.branch?
  | .error _ => none

/-- The requests came with the same branch, or they came without and agree in Call-ID, CSeq and
request URI. A text that is missing counts as empty. -/
structure SameTransaction (m m' : Message) : Prop where
  branch : m'.topBranch? = m.topBranch?
  callId : m.topBranch? = none →
    (m'.headerText? .callId).getD "" = (m.headerText? .callId).getD ""
  cSeq : m.topBranch? = none → (m'.headerText? .cSeq).getD "" = (m.headerText? .cSeq).getD ""
  uri : m.topBranch? = none → m'.requestUri? = m.requestUri?

/-! ## What no stage changes -/

theorem headerText?_eq (m : Message) (name : HeaderName) :
    m.headerText? name = (m.headers.filter (·.is name)).head?.map Header.valueText := by
  rw [List.head?_filter]
  rfl

/-- The text of a header is the same if lines of other names change. -/
theorem Keeps.headerText?_eq (h : Keeps kinds m m') {name : HeaderName}
    (hn : ∀ text, name ≠ .other text) (hk : ∀ k ∈ kinds, k.name ≠ name) :
    m'.headerText? name = m.headerText? name := by
  rw [Message.headerText?_eq, Message.headerText?_eq, h.lines]
  intro k hmem x hx
  rw [← Bool.not_eq_true]
  intro hname
  exact hk k hmem ((Header.is_name_iff.1 hx).symm.trans ((Header.is_iff hn).1 hname))

theorem Keeps.identityText_eq (h : Keeps kinds m m') (hk : HeaderKind.cSeq ∉ kinds) :
    m'.identityText = m.identityText := by
  have hcallId : m'.headerText? .callId = m.headerText? .callId := by
    refine h.headerText?_eq (by simp) fun k _ => ?_
    cases k <;> simp [HeaderKind.name]
  have hcSeq : m'.headerText? .cSeq = m.headerText? .cSeq := by
    refine h.headerText?_eq (by simp) fun k hmem hname => ?_
    exact hk (HeaderKind.name_injective (j := k) (k := .cSeq) hname ▸ hmem)
  have huri : m'.requestUri? = m.requestUri? := by
    rw [requestUri?, requestUri?, h.start]
  rw [identityText, identityText, hcallId, hcSeq, huri]

/-- The topmost Via entry is told by what the Via lines are read as. -/
theorem topVia_congr (h : (linesOf .via m'.headers).map (·.read .via) =
    (linesOf .via m.headers).map (·.read .via)) : m'.topVia.1 = m.topVia.1 := by
  show (m'.typed .via).1.map _ = (m.typed .via).1.map _
  rw [typed_fst, typed_fst]
  cases hl : linesOf .via m.headers with
  | nil =>
    rw [hl, List.map_nil, List.map_eq_nil_iff] at h
    rw [h]
  | cons line lines =>
    rw [hl] at h
    obtain ⟨line', lines', hl', hread, -⟩ := List.map_eq_cons_iff.1 h
    rw [hl']
    simp only [hread]

/-- The seed of a request, which only reads it. -/
theorem branchSeed_fst (point : ListeningPoint) (m : Message) :
    (m.branchSeed point).1 = m.topVia.1.map fun entry =>
      (entry.bind ViaEntry.branch?).getD m.identityText ++ "|" ++ point.text := by
  have hidentity := (topVia_keeps m).identityText_eq (by decide)
  unfold branchSeed
  generalize m.topVia = r at hidentity
  obtain ⟨top, m₁⟩ := r
  cases top with
  | error e => rfl
  | ok entry => simp only [hidentity, Except.map]

/-- The seed is the same behind stages that leave CSeq alone and read the Via lines at most. -/
theorem branchSeed_of_keeps (h : Keeps kinds m m') (hk : HeaderKind.cSeq ∉ kinds)
    (hvia : (linesOf .via m'.headers).map (·.read .via) =
      (linesOf .via m.headers).map (·.read .via)) :
    (m'.branchSeed point).1 = (m.branchSeed point).1 := by
  rw [branchSeed_fst, branchSeed_fst, topVia_congr hvia, h.identityText_eq hk]

/-! ## Seeds -/

/-- A seed is what tells the transaction, and the listening point behind it. -/
theorem seed_of_branchSeed {seed : String} (h : (m.branchSeed point).1 = .ok seed) :
    seed = m.topBranch?.getD m.identityText ++ "|" ++ point.text := by
  rw [branchSeed_fst] at h
  obtain ⟨entry, htop, rfl⟩ := Outcome.map_eq_ok.1 h
  rw [topBranch?, htop]

/-- Requests of one transaction have the same seed. -/
theorem SameTransaction.seed_eq {seed seed' : String} (h : SameTransaction m m')
    (hseed : (m.branchSeed point).1 = .ok seed) (hseed' : (m'.branchSeed point).1 = .ok seed') :
    seed' = seed := by
  rw [seed_of_branchSeed hseed, seed_of_branchSeed hseed', h.branch]
  cases hb : m.topBranch? with
  | some b => rfl
  | none =>
    rw [Option.getD_none, Option.getD_none, identityText, identityText, h.callId hb, h.cSeq hb,
      h.uri hb]

/-- A seed tells the branch that the request came with. -/
theorem branch_eq_of_seed {seed b b' : String} (hseed : (m.branchSeed point).1 = .ok seed)
    (hseed' : (m'.branchSeed point).1 = .ok seed) (hb : m.topBranch? = some b)
    (hb' : m'.topBranch? = some b') : b = b' := by
  have h := (seed_of_branchSeed hseed).symm.trans (seed_of_branchSeed hseed')
  rwa [hb, hb', Option.getD_some, Option.getD_some, String.append_left_inj,
    String.append_left_inj] at h

end Message

namespace Engine

variable {e : Engine} {source : Endpoint} {point own : ListeningPoint} {m : Message}
  {learned learned' learned₂ : LearnedRoutes} {f : Forward}

/-! ## Two states of the table -/

theorem pathPoint?_congr {hop : Hop} (h : learned₂.seenAt? hop.host = learned.seenAt? hop.host) :
    e.pathPoint? point hop learned₂ = e.pathPoint? point hop learned := by
  rw [pathPoint?, pathPoint?, h]

/-- Of what was learned, a request that is forwarded was shown what the host is that it goes to. -/
theorem forwardRequest_congr (h : e.forwardRequest point learned m = .ok f)
    (hseen : ∀ hop sent, f = .relay hop sent →
      learned₂.seenAt? hop.host = learned.seenAt? hop.host) :
    e.forwardRequest point learned₂ m = .ok f := by
  unfold forwardRequest at h ⊢
  obtain ⟨m₁, hspend, h⟩ := Outcome.bind_eq_ok.1 h
  refine Outcome.bind_eq_ok.2 ⟨m₁, hspend, ?_⟩
  split at h
  · rename_i hown
    rw [if_pos hown]
    exact h
  · rename_i hown
    rw [if_neg hown]
    obtain ⟨⟨hop, m₂⟩, hnext, h⟩ := Outcome.bind_eq_ok.1 h
    refine Outcome.bind_eq_ok.2 ⟨(hop, m₂), hnext, ?_⟩
    simp only at h ⊢
    -- with the proxy on the path or without, the request goes to this hop
    obtain ⟨sent, rfl⟩ : ∃ sent, f = .relay hop sent := by
      split at h
      · obtain ⟨sent, -, h⟩ := Outcome.bind_eq_ok.1 h
        cases h
        exact ⟨sent, rfl⟩
      · cases h
        exact ⟨m₂, rfl⟩
    rw [pathPoint?_congr (hseen hop sent rfl)]
    exact h

/-! ## The branch -/

/-- What is forwarded of a request has its Via entries, and an entry of the listening point on top
with the branch of the request's seed. -/
def Primed (own : ListeningPoint) (m : Message) (f : Forward) (seed : String) : Prop :=
  (m.branchSeed own).1 = .ok seed ∧ ∃ entries, m.viaEntries.1 = .ok entries ∧
    f.message.viaEntries.1 = .ok (own.via (Branch.ofSeed seed) :: entries)

theorem primed_of_process (hreq : m.isRequest = true)
    (h : e.process source point m learned = (.ok f, learned'))
    (hpath : f.path? e point learned' = some own) : ∃ seed, Primed own m f seed := by
  obtain ⟨entries, m₁, hvia, hdrop, hrest⟩ := stages_of_process h
  have hread := viaEntries_keeps m
  obtain ⟨hkeep₁, -⟩ := dropOwnRoute_eq_ok hdrop
  rw [if_pos (hkeep₁.isRequest_eq.trans (hread.isRequest_eq.trans hreq))] at hrest
  obtain ⟨m₂, m₃, hspend, hnext, hjoin⟩ := stages_of_forwardRequest hrest
  obtain ⟨hkeep₂, -⟩ := spendHop_eq_ok hspend
  have hkeep₃ : Keeps [.route, .toParty] m₂ m₃ := by
    rcases hnext with ⟨-, rfl⟩ | ⟨hop, m', -, hnext⟩
    · exact .refl _ _
    · exact (nextHop_eq_ok hnext).1
  have hkeep : Keeps [.route, .toParty, .maxForwards] m.viaEntries.2 m₃ :=
    (hkeep₁.mono (by simp)).trans ((hkeep₂.mono (by simp)).trans (hkeep₃.mono (by simp)))
  rw [hpath] at hjoin
  obtain ⟨-, ⟨seed, hseed, hpushed⟩, -⟩ := stayOnPath_eq_ok hjoin
  refine ⟨seed, ?_, entries, hvia, ?_⟩
  · rw [← hseed, branchSeed_of_keeps hkeep (by decide) (by rw [hkeep.linesOf_eq (by decide)]),
      branchSeed_of_keeps hread (by decide) (reads_viaEntries m.headers)]
  · rw [hpushed, hkeep.viaEntries_eq (by decide), viaEntries_viaEntries, hvia]
    rfl

namespace Call

/-- The request of the call is forwarded and leaves through a listening point. -/
def Leaves (c : Call) (own : ListeningPoint) (f : Forward) : Prop :=
  ∃ learned learned', c.process learned = (.ok f, learned') ∧
    f.path? c.engine c.point learned' = some own

/-- A request that is forwarded is forwarded as the same message whenever the host that it goes to
is known from the same place, whatever else is known. If it leaves with a branch, then another
request that leaves through the same listening point, whoever forwards it, has the same branch if it
is of the same transaction, and its branch is made of another seed if it came with another. -/
theorem repeats (c : Call) (hreq : c.message.isRequest = true) :
    (∀ learned learned₂ f learned', c.process learned = (.ok f, learned') →
        (∀ hop sent, f = .relay hop sent →
          (c.process learned₂).2.seenAt? hop.host = learned'.seenAt? hop.host) →
        (c.process learned₂).1 = .ok f) ∧
      ∀ own f, c.Leaves own f → ∀ (c' : Call) f', c'.message.isRequest = true → c'.Leaves own f' →
        ∃ seed seed', Primed own c.message f seed ∧ Primed own c'.message f' seed' ∧
          (c.message.SameTransaction c'.message → seed' = seed) ∧
          ∀ b b', c.message.topBranch? = some b → c'.message.topBranch? = some b' → b ≠ b' →
            seed ≠ seed' := by
  constructor
  · intro learned learned₂ f learned' h hseen
    obtain ⟨entries, m₁, hvia, hdrop, hrest⟩ := stages_of_process h
    rw [if_pos ((dropOwnRoute_eq_ok hdrop).1.isRequest_eq.trans
      ((viaEntries_keeps c.message).isRequest_eq.trans hreq))] at hrest
    exact (process_of_request c.engine c.source learned₂ hreq hvia hdrop).trans
      (forwardRequest_congr hrest hseen)
  · rintro own f ⟨_, _, h, hpath⟩ c' f' hreq' ⟨_, _, h', hpath'⟩
    obtain ⟨seed, hprimed⟩ := primed_of_process hreq h hpath
    obtain ⟨seed', hprimed'⟩ := primed_of_process hreq' h' hpath'
    refine ⟨seed, seed', hprimed, hprimed', fun hsame => hsame.seed_eq hprimed.1 hprimed'.1, ?_⟩
    rintro b b' hb hb' hne rfl
    exact hne (branch_eq_of_seed hprimed.1 hprimed'.1 hb hb')

/-- A copy of a request comes when another host is known, and goes out the same. A request of the
same branch that goes elsewhere gets the same branch. -/
theorem repeats_of_second_copy :
    ∃ (c c' : Call) (other : ListeningPoint) (f f' : Forward) (seed : String),
      c.message.headers =
        [.ofText "Via" "SIP/2.0/UDP a;branch=x", .ofText "Route" "<sip:c>"] ∧
      c'.message.headers = [.ofText "Subject" "again", .ofText "v" "SIP/2.0/TCP b;branch=x",
        .ofText "Route" "<sip:d>"] ∧
      (c.process Table.empty).1 = .ok f ∧
      (c.process (LearnedRoutes.learn "z" other Table.empty)).1 = .ok f ∧
      Primed c.point c.message f seed ∧ Primed c.point c'.message f' seed := by
  let point : ListeningPoint := ⟨.udp, .v4 ⟨10, 0, 0, 9⟩ 5060⟩
  let other : ListeningPoint := ⟨.tcp, .v4 ⟨10, 0, 0, 8⟩ 5060⟩
  let c : Call := ⟨⟨[], Table.empty, true⟩, .v4 ⟨10, 0, 0, 1⟩ 5060, point,
    ⟨.request ⟨"BYE", "sip:b", "SIP/2.0"⟩,
      [.ofText "Via" "SIP/2.0/UDP a;branch=x", .ofText "Route" "<sip:c>"], []⟩⟩
  let c' : Call := ⟨⟨[], Table.empty, true⟩, .v4 ⟨10, 0, 0, 2⟩ 5060, point,
    ⟨.request ⟨"INFO", "sip:e", "SIP/2.0"⟩, [.ofText "Subject" "again",
      .ofText "v" "SIP/2.0/TCP b;branch=x", .ofText "Route" "<sip:d>"], [1]⟩⟩
  let f : Forward := .relay ⟨.udp, "c", 5060⟩ ⟨.request ⟨"BYE", "sip:b", "SIP/2.0"⟩,
    [.ofValue .via [point.via (Branch.ofSeed "x|UDP/10.0.0.9:5060")],
      ⟨"Via", .typed (.via [⟨"SIP", "2.0", "UDP", "a", 0, [.of "branch" "x"]⟩])⟩,
      .ofValue .recordRoute [point.recordRoute]], []⟩
  let f' : Forward := .relay ⟨.udp, "d", 5060⟩ ⟨.request ⟨"INFO", "sip:e", "SIP/2.0"⟩,
    [.ofText "Subject" "again",
      .ofValue .via [point.via (Branch.ofSeed "x|UDP/10.0.0.9:5060")],
      ⟨"v", .typed (.via [⟨"SIP", "2.0", "TCP", "b", 0, [.of "branch" "x"]⟩])⟩,
      .ofValue .recordRoute [point.recordRoute]], [1]⟩
  have h : (c.process Table.empty).1 = .ok f := by decide +kernel
  have h' : (c'.process Table.empty).1 = .ok f' := by decide +kernel
  have hseen : ∀ hop sent, f = .relay hop sent →
      (c.process (LearnedRoutes.learn "z" other Table.empty)).2.seenAt? hop.host =
        (c.process Table.empty).2.seenAt? hop.host := by
    intro hop sent hf
    obtain ⟨rfl, -⟩ := Forward.relay.inj hf
    decide +kernel
  obtain ⟨hagain, hbranch⟩ := repeats c rfl
  have hcopy := hagain Table.empty _ f _ (Prod.ext h rfl) hseen
  have hleaves : c.Leaves point f := ⟨Table.empty, _, Prod.ext h rfl, by decide +kernel⟩
  have hleaves' : c'.Leaves point f' := ⟨Table.empty, _, Prod.ext h' rfl, by decide +kernel⟩
  obtain ⟨seed, seed', hprimed, hprimed', hsame, -⟩ := hbranch point f hleaves c' f' rfl hleaves'
  have hbranch : c.message.topBranch? = some "x" := by decide +kernel
  have hseed : seed' = seed :=
    hsame ⟨by decide +kernel, by simp [hbranch], by simp [hbranch], by simp [hbranch]⟩
  exact ⟨c, c', other, f, f', seed, rfl, rfl, h, hcopy, hprimed, hseed ▸ hprimed'⟩

end Call

end Engine

end SipProxy
