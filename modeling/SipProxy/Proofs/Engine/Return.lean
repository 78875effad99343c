import SipProxy.Proofs.Engine.Rewrite
import SipProxy.Proofs.Ip.Host
import SipProxy.Proofs.Message.Stacks

/-!
# The way back

A response finds its way by the Via entries of its request alone, so the proxy that forwarded a
request gets the response to the place the request came from (`Engine.process_returns`): the entry
below its own is the one that the listener wrote the source into, and taking the own one off leaves
the entries that the request had come with.

Nothing the proxy remembers has a part in it. Any engine, listening point and table of learned
routes will do, as long as the Via entries are the same.
-/

namespace SipProxy

open Headers

namespace Message

variable {m : Message} {top next : ViaEntry} {rest : List ViaEntry}

/-! ## Lines with entries -/

/-- No Via line is without entries. Text never says that a line is, so this holds of every message
that was read. -/
def ViaFilled (m : Message) : Prop :=
  ∀ h ∈ linesOf .via m.headers, h.read .via ≠ .ok []

instance (m : Message) : Decidable m.ViaFilled :=
  inferInstanceAs (Decidable (∀ h ∈ linesOf .via m.headers, h.read .via ≠ .ok []))

theorem viaFilled_iff : m.ViaFilled ↔ Filled .via id m.headers :=
  ⟨fun h x hx _ hv hnil => h x hx (hnil ▸ hv), fun h x hx hnil => h x hx _ hnil rfl⟩

theorem viaFilled_of_parse {s : Octets} (h : Message.parse s = .ok m) : m.ViaFilled :=
  viaFilled_iff.2 (isFilled_of_parse h).via

theorem viaFilled_viaEntries (h : m.ViaFilled) : m.viaEntries.2.ViaFilled :=
  viaFilled_iff.2 (filled_viaEntries (viaFilled_iff.1 h))

theorem viaFilled_popVia (hf : m.ViaFilled) : m.popVia.2.ViaFilled :=
  viaFilled_iff.2 (filled_pop (fun _ => rfl) (viaFilled_iff.1 hf))

theorem lists_of_viaEntries {entries : List ViaEntry} (hf : m.ViaFilled)
    (h : m.viaEntries.1 = .ok entries) : m.Lists .via id entries :=
  ⟨(viaEntries_fst m).symm.trans h, viaFilled_iff.1 hf⟩

/-- The topmost entry that is seen is the first of all. -/
theorem topVia_of_viaEntries (hf : m.ViaFilled) (h : m.viaEntries.1 = .ok (top :: rest)) :
    m.topVia.1 = .ok (some top) :=
  (lists_of_viaEntries hf h).head_typed

theorem popVia_of_viaEntries (hf : m.ViaFilled) (h : m.viaEntries.1 = .ok (top :: rest)) :
    m.popVia.1 = .ok top ∧ m.popVia.2.viaEntries.1 = .ok rest := by
  obtain ⟨hpop, hrest⟩ : m.popVia.1 = .ok top ∧ m.popVia.2.Lists .via id rest :=
    (lists_of_viaEntries hf h).pop_cons fun _ => rfl
  exact ⟨hpop, (viaEntries_fst _).trans hrest.entries⟩

/-- A response with two entries goes where the second wants it, without the first. -/
theorem returnHop_of_viaEntries (hf : m.ViaFilled)
    (h : m.viaEntries.1 = .ok (top :: next :: rest)) :
    ∃ m', m.returnHop = next.responseHop.map (fun hop => (hop, m')) ∧
      m'.viaEntries.1 = .ok (next :: rest) := by
  obtain ⟨hpop, hrest⟩ := popVia_of_viaEntries hf h
  have hnext := topVia_of_viaEntries (viaFilled_popVia hf) hrest
  have hsame := viaEntries_topVia m.popVia.2
  refine ⟨m.popVia.2.topVia.2, ?_, by rw [hsame, hrest]⟩
  unfold returnHop
  generalize m.popVia = r at hpop hnext ⊢
  obtain ⟨popped, m₁⟩ := r
  simp only at hpop hnext ⊢
  subst hpop
  simp only
  generalize m₁.topVia = r at hnext ⊢
  obtain ⟨seen, m₂⟩ := r
  simp only at hnext
  subst hnext
  rfl

/-! ## Requests with their source -/

/-- The topmost entry of a request notes the source, and the others are as they were. -/
theorem noteSource_of_viaEntries (source : Endpoint) (hreq : m.isRequest = true)
    (hf : m.ViaFilled) (h : m.viaEntries.1 = .ok (top :: rest)) :
    (m.noteSource source).1 = .ok () ∧ (m.noteSource source).2.isRequest = true ∧
      (m.noteSource source).2.viaEntries.1 = .ok (top.noteSource source :: rest) := by
  obtain ⟨hnoted, hlists⟩ := (lists_of_viaEntries hf h).noteSource source
  rw [if_pos hreq] at hlists
  exact ⟨hnoted, (noteSource_keeps source m).isRequest_eq.trans hreq,
    (viaEntries_fst _).trans hlists.entries⟩

end Message

/-! ## Hops -/

/-- The port that stands for a transport is that of its protocol. -/
theorem portFor_of_ofText? {s : String} {p : Protocol} (h : Protocol.ofText? s = some p) :
    portFor (some s) = if p = .tls then 5061 else 5060 := by
  have hlower : "tls".toLower = "tls" := by decide +kernel
  unfold portFor Text.sameIgnoringCase
  simp only [hlower]
  unfold Protocol.ofText? at h
  split at h
  · rename_i hs
    cases h
    rw [hs]
    decide
  · rename_i hs
    cases h
    rw [hs]
    decide
  · rename_i hs
    cases h
    rw [hs]
    decide
  · cases h

/-- A response goes to the source that the topmost entry of the request noted. -/
theorem ViaEntry.responseHop_noteSource {v : ViaEntry} {p : Protocol} (source : Endpoint)
    (h : Protocol.ofText? v.transport = some p) :
    (v.noteSource source).responseHop =
      .ok ⟨p, source.ip.text,
        match v.returnPort with
        | .asked => source.port
        | .known port => port
        | .absent => if v.port ≠ 0 then v.port else if p = .tls then 5061 else 5060⟩ := by
  have hresolved : v.resolvedPort =
      if v.port ≠ 0 then v.port else if p = .tls then 5061 else 5060 := by
    rw [resolvedPort, portFor_of_ofText? h]
  unfold responseHop Protocol.parse
  rw [noteSource_transport, h, responseHost_noteSource, responsePort_noteSource, hresolved]
  cases v.returnPort with
  | absent => simp only [Except.map, Hop.of, Host.unbracket_text]
  | asked => simp only [Except.map, Hop.of, Host.unbracket_text]
  | known port => simp only [Except.map, Hop.of, Host.unbracket_text]

namespace Engine

open Message

variable {e : Engine} {point : ListeningPoint} {learned learned' : LearnedRoutes}
  {source : Endpoint} {q r : Message} {f : Forward} {top next v : ViaEntry}
  {rest vs : List ViaEntry} {p : Protocol}

/-! ## Responses -/

theorem dropOwnRoute_of_no_route {m : Message} (h : named? .route m.headers = none) :
    m.dropOwnRoute point = .ok m := by
  have hcut : cut HeaderKind.route.name m.headers = none := by
    rw [cut_eq_none]
    intro x hx
    rw [← Bool.not_eq_true]
    exact List.find?_eq_none.1 h x hx
  have htyped : m.typed .route = (.ok none, m) := by
    unfold typed
    rw [hcut]
  unfold dropOwnRoute topRoute
  rw [htyped]
  rfl

theorem named?_route_of_keeps {m m' : Message} (hk : Keeps [.via] m m')
    (h : named? .route m.headers = none) : named? .route m'.headers = none := by
  rw [named?, List.find?_eq_none] at h ⊢
  have hlines : linesOf .route m'.headers = linesOf .route m.headers := hk.linesOf_eq (by decide)
  intro x hx hroute
  have hmem : x ∈ linesOf .route m.headers := by
    rw [← hlines]
    exact List.mem_filter.2 ⟨hx, hroute⟩
  exact h x (List.mem_filter.1 hmem).1 hroute

/-- A response without a Route header is passed on as its first two Via entries say. -/
theorem process_of_response {hop : Hop} (e : Engine) (source : Endpoint) (point : ListeningPoint)
    (learned : LearnedRoutes) (hr : r.isResponse = true) (hf : r.ViaFilled)
    (hroute : named? .route r.headers = none)
    (hvia : r.viaEntries.1 = .ok (top :: next :: rest)) (hhop : next.responseHop = .ok hop) :
    ∃ m', (e.process source point r learned).1 = .ok (.relay hop m') ∧
      m'.viaEntries.1 = .ok (next :: rest) := by
  have hreq : r.viaEntries.2.isRequest = false := by
    have hresponse : (!r.isRequest) = true := hr
    rw [(viaEntries_keeps r).isRequest_eq]
    simpa using hresponse
  have hdrop := @dropOwnRoute_of_no_route point _
    (named?_route_of_keeps (viaEntries_keeps r) hroute)
  obtain ⟨m', hreturn, hrest⟩ := returnHop_of_viaEntries (viaFilled_viaEntries hf)
    ((viaEntries_viaEntries r).trans hvia)
  refine ⟨m', ?_, hrest⟩
  rw [hhop] at hreturn
  unfold process LearnedRoutes.learnFrom
  generalize r.viaEntries = read at hvia hreq hdrop hreturn
  obtain ⟨entries, m₁⟩ := read
  simp only at hvia hreq hdrop hreturn
  subst hvia
  simp only [forward, hdrop, hreq, hreturn]
  rfl

/-- A response comes back to where its request came from. Let a request be annotated with its source
and forwarded by a proxy that stays on its path. Then whichever engine gets a response with the Via
entries of the forwarded request sends it to the address of the source, over the protocol that the
sender of the request named and to the port it wants, with the Via entries that the request had.
Both messages may be any that were read (`viaFilled_of_parse`). -/
theorem process_returns (e' : Engine) (source' : Endpoint) (point' : ListeningPoint)
    (learned₂ : LearnedRoutes) (hq : q.isRequest = true) (hqf : q.ViaFilled)
    (hqv : q.viaEntries.1 = .ok (v :: vs)) (hp : Protocol.ofText? v.transport = some p)
    (hf : e.process source point (q.noteSource source).2 learned = (.ok f, learned'))
    (hpath : (∃ m, f = .toBackend m) ∨
      f.message.viaEntries.1 ≠ (q.noteSource source).2.viaEntries.1)
    (hr : r.isResponse = true) (hrf : r.ViaFilled) (hroute : named? .route r.headers = none)
    (hrv : r.viaEntries.1 = f.message.viaEntries.1) :
    (q.noteSource source).1 = .ok () ∧
      ∃ m', (e'.process source' point' r learned₂).1 =
          .ok (.relay ⟨p, source.ip.text,
            match v.returnPort with
            | .asked => source.port
            | .known port => port
            | .absent => if v.port ≠ 0 then v.port else if p = .tls then 5061 else 5060⟩ m') ∧
        m'.viaEntries.1 = (q.noteSource source).2.viaEntries.1 := by
  obtain ⟨hnoted, hreq, hvia⟩ := noteSource_of_viaEntries source hq hqf hqv
  refine ⟨hnoted, ?_⟩
  obtain ⟨entries, branch, hentries, hout⟩ := (requestRewrite_of_process hreq hf).via
  obtain rfl : v.noteSource source :: vs = entries := by
    rw [hvia] at hentries
    cases hentries
    rfl
  -- the proxy's own entry is on top, since it stays on the path
  obtain ⟨own, hown⟩ : ∃ own, (f.path? e point learned').toList.map (·.via branch) = [own] := by
    cases hpt : f.path? e point learned' with
    | some path => exact ⟨path.via branch, rfl⟩
    | none =>
      rcases hpath with ⟨m, rfl⟩ | hne
      · cases hpt
      · rw [hpt] at hout
        exact absurd (hout.trans hvia.symm) hne
  rw [hown] at hout
  obtain ⟨m', hprocess, hback⟩ := process_of_response e' source' point' learned₂ hr hrf hroute
    (hrv.trans hout) (ViaEntry.responseHop_noteSource source hp)
  exact ⟨m', hprocess, hback.trans hvia.symm⟩

/-- A request over TCP that asked for the port it came from, as the proxy sent it to a backend, and
the answer of the backend. -/
theorem process_returns_to_asked_port :
    ∃ m', (process ⟨[], Table.empty, false⟩ (.v4 ⟨10, 0, 0, 2⟩ 5060)
          ⟨.udp, .v4 ⟨10, 0, 0, 9⟩ 5060⟩
          ⟨.response ⟨"SIP/2.0", 200, "OK"⟩,
            [.ofText "v" ("SIP/2.0/UDP 10.0.0.9:5060;branch=z9hG4bK00042700de4459e1a1b92348a4f921b2"
              ++ ", SIP/2.0/tcp a:7;rport=4000;received=10.0.0.1")], []⟩ Table.empty).1 =
        .ok (.relay ⟨.tcp, "10.0.0.1", 4000⟩ m') ∧
      m'.viaEntries.1 =
        .ok [⟨"SIP", "2.0", "tcp", "a", 7, [.of "rport" "4000", .of "received" "10.0.0.1"]⟩] := by
  have hqv : (viaEntries ⟨.request ⟨"INVITE", "sip:b", "SIP/2.0"⟩,
        [.ofText "v" "SIP/2.0/tcp a:7;rport"], []⟩).1 =
      .ok [⟨"SIP", "2.0", "tcp", "a", 7, [.flag "rport"]⟩] := by
    decide +kernel
  have hsent : (process ⟨["sip:b"], Table.empty, false⟩ (.v4 ⟨10, 0, 0, 1⟩ 4000)
        ⟨.udp, .v4 ⟨10, 0, 0, 9⟩ 5060⟩
        (noteSource (.v4 ⟨10, 0, 0, 1⟩ 4000) ⟨.request ⟨"INVITE", "sip:b", "SIP/2.0"⟩,
          [.ofText "v" "SIP/2.0/tcp a:7;rport"], []⟩).2 Table.empty).1 =
      .ok (.toBackend ⟨.request ⟨"INVITE", "sip:b", "SIP/2.0"⟩,
        [.ofValue .via [ListeningPoint.via ⟨.udp, .v4 ⟨10, 0, 0, 9⟩ 5060⟩
            "z9hG4bK00042700de4459e1a1b92348a4f921b2"],
          ⟨"v", .typed (.via [⟨"SIP", "2.0", "tcp", "a", 7,
            [.of "rport" "4000", .of "received" "10.0.0.1"]⟩])⟩,
          .ofValue .recordRoute [ListeningPoint.recordRoute ⟨.udp, .v4 ⟨10, 0, 0, 9⟩ 5060⟩]],
        []⟩) := by
    decide +kernel
  obtain ⟨-, m', hm', hvia⟩ := process_returns ⟨[], Table.empty, false⟩ (.v4 ⟨10, 0, 0, 2⟩ 5060)
    ⟨.udp, .v4 ⟨10, 0, 0, 9⟩ 5060⟩ Table.empty rfl (by decide +kernel) hqv
    (show _ = some .tcp by decide +kernel) (Prod.ext hsent rfl) (.inl ⟨_, rfl⟩) rfl
    (by decide +kernel) (by decide +kernel)
    (show (viaEntries ⟨.response ⟨"SIP/2.0", 200, "OK"⟩,
        [.ofText "v" ("SIP/2.0/UDP 10.0.0.9:5060;branch=z9hG4bK00042700de4459e1a1b92348a4f921b2"
          ++ ", SIP/2.0/tcp a:7;rport=4000;received=10.0.0.1")], []⟩).1 = _ by decide +kernel)
  refine ⟨m', hm'.trans ?_, hvia.trans (by decide +kernel)⟩
  -- the hop is the same, but the kernel has to evaluate the text of the address for that
  have hto : ∀ {hop}, hop = ⟨.tcp, "10.0.0.1", 4000⟩ →
      (.ok (.relay hop m') : Except ProxyError Forward) =
        .ok (.relay ⟨.tcp, "10.0.0.1", 4000⟩ m') := by
    rintro _ rfl
    rfl
  exact hto (by decide +kernel)

end Engine

end SipProxy
