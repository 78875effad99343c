import SipProxy.Proofs.Header.Alike
import SipProxy.Proofs.Message.Stacks

/-!
# Messages in another layout

Two messages that say the same can be laid out differently: the same Via entries on fewer or more
lines, the Route entries likewise, at other places among the other lines, and names spelled in
another way (`Message.Relaid`). Each operation that the proxy uses answers alike on two such
messages and leaves two such messages behind.

For the operations on Via and Route lines this is what it means that several lines are one list
(`Message.Lists`). For the others it takes that a line is found by its name, and that a Via or Route
line in between does not matter.
-/

namespace SipProxy

open Headers

namespace Headers

theorem seen_of_is {name : HeaderName} (hn : ∀ text, name ≠ .other text) (hvia : name ≠ .via)
    (hroute : name ≠ .route) (x : Header) (hx : x.is name = true) :
    (!(x.is .via || x.is .route)) = true := by
  have hname := (Header.is_iff hn).1 hx
  have hout : ∀ {other : HeaderName}, (∀ text, other ≠ .other text) → name ≠ other →
      x.is other = false := by
    intro other ho hne
    rw [← Bool.not_eq_true]
    intro hother
    exact hne (hname.symm.trans ((Header.is_iff ho).1 hother))
  rw [hout (by simp) hvia, hout (by simp) hroute]
  rfl

theorem seen_of_is_kind {k : HeaderKind} (hvia : k ≠ .via) (hroute : k ≠ .route) (x : Header)
    (hx : x.is k.name = true) : (!(x.is .via || x.is .route)) = true := by
  refine seen_of_is ?_ ?_ ?_ x hx
  · cases k <;> simp [HeaderKind.name]
  · exact fun h => hvia (HeaderKind.name_injective h)
  · exact fun h => hroute (HeaderKind.name_injective h)

/-- Changing the first line of another kind than Via and Route is done to the rest. -/
theorem rest_replaceFirst {k : HeaderKind} {f : Header → Headers} (hvia : k ≠ .via)
    (hroute : k ≠ .route) (hf : ∀ x, x.is k.name = true → ∀ y ∈ f x, y.is k.name = true)
    (hs : Headers) : (replaceFirst k f hs).rest = replaceFirst k f hs.rest :=
  filter_replaceFirst_of_seen (seen_of_is_kind hvia hroute) hf hs

/-- A new Record-Route line finds its place in the rest. -/
theorem rest_insertAt_recordRoute (entry : RouteEntry) (hs : Headers) :
    (insertAt hs.recordRoutePosition (.ofValue .recordRoute [entry]) hs).rest =
      insertAt hs.rest.recordRoutePosition (.ofValue .recordRoute [entry]) hs.rest := by
  refine filter_insertAt_recordRoutePosition ?_ ?_ hs
  · exact seen_of_is_kind (k := .recordRoute) (by decide) (by decide) _ (Header.is_ofValue _ _)
  · intro k hk x hx
    refine seen_of_is_kind ?_ ?_ x hx
    · rintro rfl
      simp at hk
    · rintro rfl
      simp at hk

end Headers

namespace Message

/-- The messages say the same in another layout. All Via and Route lines can be read and none is
without entries; the entries are the same, in whatever groups; and the other lines are alike. -/
structure Relaid (m m' : Message) : Prop where
  start : m'.start = m.start
  body : m'.body = m.body
  via : ∃ entries, m.Lists .via id entries ∧ m'.Lists .via id entries
  route : ∃ entries, m.Lists .route id entries ∧ m'.Lists .route id entries
  rest : m.headers.rest.Alike m'.headers.rest

variable {m m' n n' : Message} {k : HeaderKind}

theorem revised_alike (f : k.Value → k.Value) {x x' : Header} (hx : x.Alike x') :
    (revised k f x).Alike (revised k f x') := by
  have hread := hx.read k
  unfold revised
  generalize x.read k = r at hread ⊢
  generalize x'.read k = r' at hread ⊢
  cases hread with
  | ok hv =>
    subst hv
    exact hx.put k _
  | error _ => exact hx

namespace Relaid

/-! ## What does not depend on the layout -/

theorem isRequest_eq (h : Relaid m m') : m'.isRequest = m.isRequest := by
  rw [isRequest, isRequest, h.start]

theorem requestUri?_eq (h : Relaid m m') : m'.requestUri? = m.requestUri? := by
  rw [requestUri?, requestUri?, h.start]

theorem headerText?_eq (h : Relaid m m') {name : HeaderName} (hn : ∀ text, name ≠ .other text)
    (hvia : name ≠ .via) (hroute : name ≠ .route) :
    m'.headerText? name = m.headerText? name := by
  have hseen := seen_of_is hn hvia hroute
  unfold headerText?
  rw [← named?_filter hseen m.headers, ← named?_filter hseen m'.headers]
  exact h.rest.named? name

theorem viaEntries_eq (h : Relaid m m') : m'.viaEntries.1 = m.viaEntries.1 := by
  obtain ⟨entries, hv, hv'⟩ := h.via
  rw [viaEntries_fst, viaEntries_fst, hv.entries, hv'.entries]

theorem linesOf (h : Relaid m m') (hvia : k ≠ .via) (hroute : k ≠ .route) :
    (linesOf k m.headers).Alike (Headers.linesOf k m'.headers) := by
  have hseen := seen_of_is_kind hvia hroute
  rw [← linesOf_filter hseen m.headers, ← linesOf_filter hseen m'.headers]
  exact h.rest.linesOf k

theorem named?_route (h : Relaid m m') :
    named? .route m'.headers = none ↔ named? .route m.headers = none := by
  obtain ⟨entries, hr, hr'⟩ := h.route
  exact hr'.named?_eq_none_iff.trans hr.named?_eq_none_iff.symm

/-! ## Via -/

theorem of_via {vs : List ViaEntry} (h : Relaid m m') (hk : Keeps [.via] m n)
    (hk' : Keeps [.via] m' n') (hv : n.Lists .via id vs) (hv' : n'.Lists .via id vs) :
    Relaid n n' where
  start := by rw [hk'.start, hk.start, h.start]
  body := by rw [hk'.body, hk.body, h.body]
  via := ⟨vs, hv, hv'⟩
  route := by
    obtain ⟨entries, hr, hr'⟩ := h.route
    exact ⟨entries, hk.lists (by decide) hr, hk'.lists (by decide) hr'⟩
  rest := by
    rw [hk.rest_eq (by simp), hk'.rest_eq (by simp)]
    exact h.rest

theorem viaEntries (h : Relaid m m') : Relaid m.viaEntries.2 m'.viaEntries.2 := by
  obtain ⟨entries, hv, hv'⟩ := h.via
  exact h.of_via (viaEntries_keeps m) (viaEntries_keeps m') hv.viaEntries hv'.viaEntries

theorem topVia (h : Relaid m m') :
    ∃ top n n', m.topVia = (.ok top, n) ∧ m'.topVia = (.ok top, n') ∧ Relaid n n' := by
  obtain ⟨entries, hv, hv'⟩ := h.via
  exact ⟨entries.head?, _, _, Prod.ext hv.head_typed rfl, Prod.ext hv'.head_typed rfl,
    h.of_via (typed_keeps .via m) (typed_keeps .via m') hv.typed hv'.typed⟩

theorem popVia (h : Relaid m m') :
    ∃ popped n n', m.popVia = (popped, n) ∧ m'.popVia = (popped, n') ∧ Relaid n n' := by
  obtain ⟨entries, hv, hv'⟩ := h.via
  obtain ⟨hpop, hrest⟩ : m.popVia.1 = _ ∧ m.popVia.2.Lists .via id entries.tail :=
    hv.pop fun _ => rfl
  obtain ⟨hpop', hrest'⟩ : m'.popVia.1 = _ ∧ m'.popVia.2.Lists .via id entries.tail :=
    hv'.pop fun _ => rfl
  exact ⟨_, _, _, Prod.ext hpop rfl, Prod.ext hpop' rfl,
    h.of_via (pop_keeps m) (pop_keeps m') hrest hrest'⟩

theorem pushVia (h : Relaid m m') (entry : ViaEntry) :
    Relaid (m.pushVia entry) (m'.pushVia entry) := by
  obtain ⟨entries, hv, hv'⟩ := h.via
  exact h.of_via (pushVia_keeps entry m) (pushVia_keeps entry m') (hv.pushVia entry)
    (hv'.pushVia entry)

/-! ## Route -/

theorem of_route {rs : List RouteEntry} (h : Relaid m m') (hk : Keeps [.route] m n)
    (hk' : Keeps [.route] m' n') (hr : n.Lists .route id rs) (hr' : n'.Lists .route id rs) :
    Relaid n n' where
  start := by rw [hk'.start, hk.start, h.start]
  body := by rw [hk'.body, hk.body, h.body]
  via := by
    obtain ⟨entries, hv, hv'⟩ := h.via
    exact ⟨entries, hk.lists (by decide) hv, hk'.lists (by decide) hv'⟩
  route := ⟨rs, hr, hr'⟩
  rest := by
    rw [hk.rest_eq (by simp), hk'.rest_eq (by simp)]
    exact h.rest

theorem topRoute (h : Relaid m m') :
    ∃ top n n', m.topRoute = (.ok top, n) ∧ m'.topRoute = (.ok top, n') ∧ Relaid n n' := by
  obtain ⟨entries, hr, hr'⟩ := h.route
  exact ⟨entries.head?, _, _, Prod.ext hr.head_typed rfl, Prod.ext hr'.head_typed rfl,
    h.of_route (typed_keeps .route m) (typed_keeps .route m') hr.typed hr'.typed⟩

theorem popRoute (h : Relaid m m') :
    ∃ popped n n', m.popRoute = (popped, n) ∧ m'.popRoute = (popped, n') ∧ Relaid n n' := by
  obtain ⟨entries, hr, hr'⟩ := h.route
  obtain ⟨hpop, hrest⟩ : m.popRoute.1 = _ ∧ m.popRoute.2.Lists .route id entries.tail :=
    hr.pop fun _ => rfl
  obtain ⟨hpop', hrest'⟩ : m'.popRoute.1 = _ ∧ m'.popRoute.2.Lists .route id entries.tail :=
    hr'.pop fun _ => rfl
  exact ⟨_, _, _, Prod.ext hpop rfl, Prod.ext hpop' rfl,
    h.of_route (pop_keeps m) (pop_keeps m') hrest hrest'⟩

/-! ## Other lines -/

theorem of_rest (h : Relaid m m') (hk : Keeps [k] m n) (hk' : Keeps [k] m' n') (hvia : k ≠ .via)
    (hroute : k ≠ .route) (hrest : n.headers.rest.Alike n'.headers.rest) : Relaid n n' where
  start := by rw [hk'.start, hk.start, h.start]
  body := by rw [hk'.body, hk.body, h.body]
  via := by
    obtain ⟨entries, hv, hv'⟩ := h.via
    have hother : HeaderKind.via ∉ [k] := by simpa using hvia.symm
    exact ⟨entries, hk.lists hother hv, hk'.lists hother hv'⟩
  route := by
    obtain ⟨entries, hr, hr'⟩ := h.route
    have hother : HeaderKind.route ∉ [k] := by simpa using hroute.symm
    exact ⟨entries, hk.lists hother hr, hk'.lists hother hr'⟩
  rest := hrest

theorem typed (h : Relaid m m') (hvia : k ≠ .via) (hroute : k ≠ .route) :
    ∃ v v' n n', m.typed k = (v, n) ∧ m'.typed k = (v', n') ∧
      Outcome.Agree SipError.Alike Eq v v' ∧ Relaid n n' := by
  refine ⟨(m.typed k).1, (m'.typed k).1, (m.typed k).2, (m'.typed k).2, rfl, rfl, ?_, ?_⟩
  · have hlines := h.linesOf hvia hroute
    rw [typed_fst, typed_fst]
    generalize Headers.linesOf k m.headers = lines at hlines ⊢
    generalize Headers.linesOf k m'.headers = lines' at hlines ⊢
    cases hlines with
    | nil => exact .ok rfl
    | cons hline _ => exact (hline.read k).map fun v v' hv => congrArg some hv
  · refine h.of_rest (typed_keeps k m) (typed_keeps k m') hvia hroute ?_
    rw [typed_snd, typed_snd]
    simp only
    rw [rest_replaceFirst hvia hroute fun _ => memoise_is_of_mem,
      rest_replaceFirst hvia hroute fun _ => memoise_is_of_mem]
    exact h.rest.replaceFirst fun x x' hx => .cons (hx.memoise k) .nil

theorem modify (h : Relaid m m') (hvia : k ≠ .via) (hroute : k ≠ .route) (f : k.Value → k.Value) :
    Relaid (m.modify k f).2 (m'.modify k f).2 := by
  refine h.of_rest (modify_keeps k f m) (modify_keeps k f m') hvia hroute ?_
  rw [modify_snd, modify_snd]
  simp only
  rw [rest_replaceFirst hvia hroute fun _ => revised_is_of_mem,
    rest_replaceFirst hvia hroute fun _ => revised_is_of_mem]
  exact h.rest.replaceFirst fun x x' hx => .cons (revised_alike f hx) .nil

theorem pushRecordRoute (h : Relaid m m') (entry : RouteEntry) :
    Relaid (m.pushRecordRoute entry) (m'.pushRecordRoute entry) := by
  refine h.of_rest (pushRecordRoute_keeps entry m) (pushRecordRoute_keeps entry m') (by decide)
    (by decide) ?_
  unfold Message.pushRecordRoute
  simp only
  rw [rest_insertAt_recordRoute, rest_insertAt_recordRoute, h.rest.recordRoutePosition_eq]
  exact h.rest.insertAt _ _

end Relaid

end Message

end SipProxy
