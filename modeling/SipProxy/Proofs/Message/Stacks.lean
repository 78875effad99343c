import SipProxy.Proofs.Message.Lists
import SipProxy.Proofs.Value.Route
import SipProxy.Proofs.Value.Via

/-!
# Via, Route and Record-Route as stacks

A message that was read is changed by the operations on its Via, Route and Record-Route lines, in
any order (`Message.Edit`). As long as the Via and Route lines can be read, the message answers as
three stacks do, whatever lines the entries stand on (`Message.edited_answers_as_stacks`).

One edit answers and changes the message as the stacks say (`Edit.apply_isStacked`), and a run of
edits follows by induction. It rests on lines with entries (`Headers.Filled`), which every message
has that was read, and which every edit keeps, one that fails at an unreadable line included.
-/

namespace SipProxy.Message

open Headers

/-- What can be done to the Via, Route and Record-Route lines of a message. -/
inductive Edit where
  | pushVia (entry : ViaEntry)
  | popVia
  | topVia
  | viaEntries
  | noteSource (source : Endpoint)
  | topRoute
  | popRoute
  | pushRecordRoute (entry : RouteEntry)

/-- The entries of the Via lines and of the Route lines, the topmost first, and the Record-Route
lines. -/
structure Stacks where
  via : List ViaEntry
  route : List RouteEntry
  recordRoute : Headers

namespace Edit

/-- The kind of lines that the edit is about. -/
def kind : Edit → HeaderKind
  | pushVia _ => .via
  | popVia => .via
  | topVia => .via
  | viaEntries => .via
  | noteSource _ => .via
  | topRoute => .route
  | popRoute => .route
  | pushRecordRoute _ => .recordRoute

/-- What the edit answers if it succeeds. -/
abbrev Answer : Edit → Type
  | pushVia _ => Unit
  | popVia => ViaEntry
  | topVia => Option ViaEntry
  | viaEntries => List ViaEntry
  | noteSource _ => Unit
  | topRoute => Option RouteEntry
  | popRoute => RouteEntry
  | pushRecordRoute _ => Unit

/-- The edit of a message. -/
def apply : (e : Edit) → Message → Except SipError e.Answer × Message
  | pushVia entry, m => (.ok (), m.pushVia entry)
  | popVia, m => m.popVia
  | topVia, m => m.topVia
  | viaEntries, m => m.viaEntries
  | noteSource source, m => m.noteSource source
  | topRoute, m => m.topRoute
  | popRoute, m => m.popRoute
  | pushRecordRoute entry, m => (.ok (), m.pushRecordRoute entry)

/-- The edit as one of stacks. Only a request notes where it came from. -/
def applyTo (request : Bool) : (e : Edit) → Stacks → Except SipError e.Answer × Stacks
  | pushVia entry, s => (.ok (), { s with via := entry :: s.via })
  | popVia, s =>
    match s.via with
    | [] => (.error (.noEntry "Via"), s)
    | entry :: entries => (.ok entry, { s with via := entries })
  | topVia, s => (.ok s.via.head?, s)
  | viaEntries, s => (.ok s.via, s)
  | noteSource source, s =>
    (.ok (), { s with via := if request then s.via.modifyHead (·.noteSource source) else s.via })
  | topRoute, s => (.ok s.route.head?, s)
  | popRoute, s =>
    match s.route with
    | [] => (.error (.noEntry "Route"), s)
    | entry :: entries => (.ok entry, { s with route := entries })
  | pushRecordRoute entry, s =>
    (.ok (), { s with recordRoute := .ofValue .recordRoute [entry] :: s.recordRoute })

end Edit

/-- A message after edits. -/
def edited (edits : List Edit) (m : Message) : Message := edits.foldl (fun m e => (e.apply m).2) m

/-- Stacks after edits. -/
def Stacks.edited (request : Bool) (edits : List Edit) (s : Stacks) : Stacks :=
  edits.foldl (fun s e => (e.applyTo request s).2) s

/-- The Via and Route lines can be read, and with the Record-Route lines they are these stacks. -/
structure IsStacked (s : Stacks) (m : Message) : Prop where
  via : entriesOf .via id (linesOf .via m.headers) = .ok s.via
  route : entriesOf .route id (linesOf .route m.headers) = .ok s.route
  recordRoute : linesOf .recordRoute m.headers = s.recordRoute

/-- No Via line and no Route line is without entries. -/
structure IsFilled (m : Message) : Prop where
  via : Filled .via id m.headers
  route : Filled .route id m.headers

variable {m m' : Message} {s : Stacks}

/-! ## Reading and changing -/

theorem isFilled_of_parse {text : Octets} (h : Message.parse text = .ok m) : m.IsFilled where
  via := filled_of_parse (fun value _ hv hnil => Via.parse_ne_nil value (hnil ▸ hv)) h
  route := filled_of_parse (fun value _ hv hnil => Route.parse_ne_nil "Route" value (hnil ▸ hv)) h

/-- An entry comes off as it was put on, and leaves no trace. -/
theorem popVia_pushVia (entry : ViaEntry) (m : Message) :
    (m.pushVia entry).popVia = (.ok entry, m) := by
  have hcut : cut HeaderKind.via.name (m.pushVia entry).headers =
      some (m.headers.take m.headers.viaPosition, .ofValue .via [entry],
        m.headers.drop m.headers.viaPosition) :=
    cut_eq_some.2 ⟨rfl, Header.is_ofValue .via [entry],
      is_eq_false_of_mem_take_viaPosition m.headers⟩
  unfold popVia pop
  rw [hcut]
  simp only [Header.memoise_of_ok (Header.read_ofValue .via [entry]), id,
    List.take_append_drop]
  rfl

theorem filled_pushVia (entry : ViaEntry) (h : Filled .via id m.headers) :
    Filled .via id (m.pushVia entry).headers := by
  refine filled_of_linesOf_eq_cons ?_ (linesOf_pushVia entry m) h
  intro v hv
  rw [Header.read_ofValue] at hv
  cases hv
  exact List.cons_ne_nil entry []

theorem Lists.pushVia {es : List ViaEntry} (entry : ViaEntry) (h : m.Lists .via id es) :
    (m.pushVia entry).Lists .via id (entry :: es) :=
  ⟨by rw [entriesOf_pushVia, h.entries]; rfl, filled_pushVia entry h.filled⟩

theorem filled_viaEntries (h : Filled .via id m.headers) : Filled .via id m.viaEntries.2.headers :=
  h.of_reads (reads_viaEntries m.headers)

theorem Lists.viaEntries {es : List ViaEntry} (h : m.Lists .via id es) :
    m.viaEntries.2.Lists .via id es :=
  ⟨by rw [← viaEntries_fst, viaEntries_viaEntries, viaEntries_fst, h.entries],
    filled_viaEntries h.filled⟩

theorem modifyTopVia_eq (f : ViaEntry → ViaEntry) (m : Message) :
    m.modifyTopVia f =
      ((m.modify .via (List.modifyHead f)).1.map fun v => v.bind List.head?,
        (m.modify .via (List.modifyHead f)).2) :=
  congrArg (fun g : List ViaEntry → List ViaEntry =>
    ((m.modify .via g).1.map fun v => v.bind List.head?, (m.modify .via g).2))
    (funext fun entries => by cases entries <;> rfl)

theorem noteSource_keeps (source : Endpoint) (m : Message) :
    Keeps [.via] m (m.noteSource source).2 := by
  unfold noteSource
  split
  · exact modify_keeps .via _ m
  · exact .refl [.via] m

theorem filled_noteSource (source : Endpoint) (h : Filled .via id m.headers) :
    Filled .via id (m.noteSource source).2.headers := by
  unfold noteSource
  split
  · rw [modifyTopVia_eq]
    exact filled_modify (fun entries hne => by simpa using hne) h
  · exact h

theorem Lists.noteSource {es : List ViaEntry} (source : Endpoint) (h : m.Lists .via id es) :
    (m.noteSource source).1 = .ok () ∧
      (m.noteSource source).2.Lists .via id
        (if m.isRequest then es.modifyHead (·.noteSource source) else es) := by
  unfold Message.noteSource
  split
  · obtain ⟨⟨v, hv⟩, hlists⟩ :=
      h.modifyHead (fun entries => (rfl : id (List.modifyHead (·.noteSource source) entries) = _))
    rw [modifyTopVia_eq, hv]
    exact ⟨rfl, hlists⟩
  · exact ⟨rfl, h⟩

namespace Edit

/-! ## One edit -/

/-- An edit keeps every line of another kind than its own. -/
theorem keeps (e : Edit) (m : Message) : Keeps [e.kind] m (e.apply m).2 := by
  cases e with
  | pushVia entry => exact pushVia_keeps entry m
  | popVia => exact pop_keeps m
  | topVia => exact typed_keeps .via m
  | viaEntries => exact viaEntries_keeps m
  | noteSource source => exact noteSource_keeps source m
  | topRoute => exact typed_keeps .route m
  | popRoute => exact pop_keeps m
  | pushRecordRoute entry => exact pushRecordRoute_keeps entry m

/-- An edit leaves no line without entries. -/
theorem isFilled_apply (e : Edit) (h : m.IsFilled) : (e.apply m).2.IsFilled := by
  obtain ⟨hvia, hroute⟩ := h
  cases e with
  | pushVia entry =>
    exact ⟨filled_pushVia entry hvia, (pushVia_keeps entry m).filled (by decide) hroute⟩
  | popVia =>
    exact ⟨filled_pop (fun _ => rfl) hvia, (pop_keeps m).filled (by decide) hroute⟩
  | topVia => exact ⟨filled_typed hvia, (typed_keeps .via m).filled (by decide) hroute⟩
  | viaEntries => exact ⟨filled_viaEntries hvia, (viaEntries_keeps m).filled (by decide) hroute⟩
  | noteSource source =>
    exact ⟨filled_noteSource source hvia,
      (noteSource_keeps source m).filled (by decide) hroute⟩
  | topRoute => exact ⟨(typed_keeps .route m).filled (by decide) hvia, filled_typed hroute⟩
  | popRoute =>
    exact ⟨(pop_keeps m).filled (by decide) hvia, filled_pop (fun _ => rfl) hroute⟩
  | pushRecordRoute entry =>
    exact ⟨(pushRecordRoute_keeps entry m).filled (by decide) hvia,
      (pushRecordRoute_keeps entry m).filled (by decide) hroute⟩

/-- Lines that are neither Via nor Route stay in their order, and at most a new one joins them. -/
theorem sublist_apply (e : Edit) (m : Message) :
    m.headers.rest.Sublist (e.apply m).2.headers.rest := by
  by_cases hk : e.kind = .via ∨ e.kind = .route
  · exact (e.keeps m).rest_eq (by simpa using hk) ▸ List.Sublist.refl _
  · cases e with
    | pushRecordRoute entry =>
      refine List.Sublist.filter _ ?_
      conv => lhs; rw [← List.take_append_drop m.headers.recordRoutePosition m.headers]
      exact (List.sublist_cons_self _ _).append_left _
    | _ => simp [kind] at hk

end Edit

namespace IsStacked

theorem withVia {entries : List ViaEntry} (h : m.IsStacked s) (hk : Keeps [.via] m m')
    (he : m'.Lists .via id entries) : m'.IsStacked { s with via := entries } where
  via := he.entries
  route := by rw [hk.linesOf_eq (by decide), h.route]
  recordRoute := by rw [hk.linesOf_eq (by decide), h.recordRoute]

theorem withRoute {entries : List RouteEntry} (h : m.IsStacked s) (hk : Keeps [.route] m m')
    (he : m'.Lists .route id entries) : m'.IsStacked { s with route := entries } where
  via := by rw [hk.linesOf_eq (by decide), h.via]
  route := he.entries
  recordRoute := by rw [hk.linesOf_eq (by decide), h.recordRoute]

theorem withRecordRoute (entry : RouteEntry) (h : m.IsStacked s) :
    (m.pushRecordRoute entry).IsStacked
      { s with recordRoute := .ofValue .recordRoute [entry] :: s.recordRoute } where
  via := by rw [(pushRecordRoute_keeps entry m).linesOf_eq (by decide), h.via]
  route := by rw [(pushRecordRoute_keeps entry m).linesOf_eq (by decide), h.route]
  recordRoute := by rw [linesOf_pushRecordRoute, h.recordRoute]

end IsStacked

namespace Edit

/-- An edit answers as the stacks do, and leaves the message with the stacks it leaves. -/
theorem apply_isStacked (e : Edit) (hf : m.IsFilled) (h : m.IsStacked s) :
    (e.apply m).1 = (e.applyTo m.isRequest s).1 ∧
      (e.apply m).2.IsStacked (e.applyTo m.isRequest s).2 := by
  have hvia : m.Lists .via id s.via := ⟨h.via, hf.via⟩
  have hroute : m.Lists .route id s.route := ⟨h.route, hf.route⟩
  cases e with
  | pushVia entry => exact ⟨rfl, h.withVia (pushVia_keeps entry m) (hvia.pushVia entry)⟩
  | popVia =>
    obtain ⟨via, route, recordRoute⟩ := s
    cases via with
    | nil =>
      have hpop : m.popVia = (.error (.noEntry "Via"), m) := hvia.pop_nil
      rw [apply, hpop]
      exact ⟨rfl, h⟩
    | cons entry entries =>
      obtain ⟨hpop, hrest⟩ : m.popVia.1 = .ok entry ∧ m.popVia.2.Lists .via id entries :=
        hvia.pop_cons fun _ => rfl
      exact ⟨hpop, h.withVia (pop_keeps m) hrest⟩
  | topVia => exact ⟨hvia.head_typed, h.withVia (typed_keeps .via m) hvia.typed⟩
  | viaEntries =>
    exact ⟨(viaEntries_fst m).trans h.via, h.withVia (viaEntries_keeps m) hvia.viaEntries⟩
  | noteSource source =>
    obtain ⟨hanswer, hnoted⟩ := hvia.noteSource source
    exact ⟨hanswer, h.withVia (noteSource_keeps source m) hnoted⟩
  | topRoute => exact ⟨hroute.head_typed, h.withRoute (typed_keeps .route m) hroute.typed⟩
  | popRoute =>
    obtain ⟨via, route, recordRoute⟩ := s
    cases route with
    | nil =>
      have hpop : m.popRoute = (.error (.noEntry "Route"), m) := hroute.pop_nil
      rw [apply, hpop]
      exact ⟨rfl, h⟩
    | cons entry entries =>
      obtain ⟨hpop, hrest⟩ : m.popRoute.1 = .ok entry ∧ m.popRoute.2.Lists .route id entries :=
        hroute.pop_cons fun _ => rfl
      exact ⟨hpop, h.withRoute (pop_keeps m) hrest⟩
  | pushRecordRoute entry =>
    exact ⟨rfl, h.withRecordRoute entry⟩

end Edit

/-! ## Any number of edits -/

theorem isFilled_edited (edits : List Edit) (h : m.IsFilled) : (m.edited edits).IsFilled := by
  induction edits generalizing m with
  | nil => exact h
  | cons e edits ih => exact ih (e.isFilled_apply h)

theorem edited_keeps (edits : List Edit) (m : Message) :
    Keeps [.via, .route, .recordRoute] m (m.edited edits) := by
  induction edits generalizing m with
  | nil => exact .refl _ m
  | cons e edits ih =>
    refine ((e.keeps m).mono fun k hk => ?_).trans (ih (e.apply m).2)
    rw [List.mem_singleton.1 hk]
    cases e <;> simp [Edit.kind]

theorem sublist_edited (edits : List Edit) (m : Message) :
    m.headers.rest.Sublist (m.edited edits).headers.rest := by
  induction edits generalizing m with
  | nil => exact .refl _
  | cons e edits ih => exact (e.sublist_apply m).trans (ih (e.apply m).2)

theorem IsStacked.edited (edits : List Edit) (hf : m.IsFilled) (h : m.IsStacked s) :
    (m.edited edits).IsStacked (s.edited m.isRequest edits) := by
  induction edits generalizing m s with
  | nil => exact h
  | cons e edits ih =>
    have hrest := ih (e.isFilled_apply hf) (e.apply_isStacked hf h).2
    rw [(e.keeps m).isRequest_eq] at hrest
    exact hrest

/-- Any number of lines are one list. Let a message be read and edited. Then no Via line and no
Route line is without entries, an entry that is pushed comes off again and leaves no trace, and
lines of other kinds are as they were. As long as the Via and Route lines can be read, the message
has come to the stacks that the edits make of those it had, and every further edit answers as they
do, leaves the stacks it leaves of them, and touches no line of another kind than its own. -/
theorem edited_answers_as_stacks {text : Octets} (h : Message.parse text = .ok m)
    (edits : List Edit) :
    (m.edited edits).IsFilled ∧
    (∀ entry, ((m.edited edits).pushVia entry).popVia = (.ok entry, m.edited edits)) ∧
    Keeps [.via, .route, .recordRoute] m (m.edited edits) ∧
    m.headers.rest.Sublist (m.edited edits).headers ∧
    (∀ s, m.IsStacked s → (m.edited edits).IsStacked (s.edited m.isRequest edits)) ∧
    ∀ s, (m.edited edits).IsStacked s → ∀ e : Edit,
      (e.apply (m.edited edits)).1 = (e.applyTo m.isRequest s).1 ∧
        (e.apply (m.edited edits)).2.IsStacked (e.applyTo m.isRequest s).2 ∧
          Keeps [e.kind] (m.edited edits) (e.apply (m.edited edits)).2 := by
  have hf := isFilled_edited edits (isFilled_of_parse h)
  refine ⟨hf, fun entry => popVia_pushVia entry _, edited_keeps edits m,
    (sublist_edited edits m).trans List.filter_sublist,
    fun s hs => hs.edited edits (isFilled_of_parse h), fun s hs e => ?_⟩
  obtain ⟨hanswer, hleft⟩ := e.apply_isStacked hf hs
  rw [(edited_keeps edits m).isRequest_eq] at hanswer hleft
  exact ⟨hanswer, hleft, e.keeps _⟩

/-- Three Via entries on two lines, and a Route line behind each of them. When two Via entries are
gone, the third notes a source; when both Route entries are gone, there is no other. -/
theorem edited_answers_as_stacks_of_two_lines :
    ∃ m, Message.parse (Utf8.encode ("BYE b SIP/2.0\r\nv: SIP/2.0/UDP a, SIP/2.0/UDP b\r\n" ++
          "Route: <sip:r>\r\nVIA: SIP/2.0/TCP c\r\nroute: <sip:s>\r\nl: 0\r\n\r\n")) = .ok m ∧
      (m.edited [.popVia, .popRoute, .popVia, .noteSource (.v4 ⟨10, 0, 0, 1⟩ 4000)]).popVia.1 =
        .ok ⟨"SIP", "2.0", "TCP", "c", 0, [.of "received" "10.0.0.1"]⟩ ∧
      (m.edited [.popRoute, .popVia, .popRoute]).popRoute.1 = .error (.noEntry "Route") := by
  have hparse : Message.parse (Utf8.encode
      ("BYE b SIP/2.0\r\nv: SIP/2.0/UDP a, SIP/2.0/UDP b\r\n" ++
        "Route: <sip:r>\r\nVIA: SIP/2.0/TCP c\r\nroute: <sip:s>\r\nl: 0\r\n\r\n")) =
      .ok ⟨.request ⟨"BYE", "b", "SIP/2.0"⟩,
        [.ofText "v" "SIP/2.0/UDP a, SIP/2.0/UDP b", .ofText "Route" "<sip:r>",
          .ofText "VIA" "SIP/2.0/TCP c", .ofText "route" "<sip:s>", .ofText "l" "0"], []⟩ := by
    decide +kernel
  have hstacked : IsStacked
      ⟨[.of "UDP" "a" 0, .of "UDP" "b" 0, .of "TCP" "c" 0],
        [.ofAddress (.ofUri (.sip ⟨.sip, none, none, "r", 0, [], []⟩)),
          .ofAddress (.ofUri (.sip ⟨.sip, none, none, "s", 0, [], []⟩))], []⟩
      ⟨.request ⟨"BYE", "b", "SIP/2.0"⟩,
        [.ofText "v" "SIP/2.0/UDP a, SIP/2.0/UDP b", .ofText "Route" "<sip:r>",
          .ofText "VIA" "SIP/2.0/TCP c", .ofText "route" "<sip:s>", .ofText "l" "0"], []⟩ :=
    ⟨by decide +kernel, by decide +kernel, by decide +kernel⟩
  refine ⟨_, hparse, ?_, ?_⟩
  · obtain ⟨-, -, -, -, hrun, hnext⟩ := edited_answers_as_stacks hparse
      [.popVia, .popRoute, .popVia, .noteSource (.v4 ⟨10, 0, 0, 1⟩ 4000)]
    exact (hnext _ (hrun _ hstacked) .popVia).1.trans (by decide +kernel)
  · obtain ⟨-, -, -, -, hrun, hnext⟩ := edited_answers_as_stacks hparse
      [.popRoute, .popVia, .popRoute]
    exact (hnext _ (hrun _ hstacked) .popRoute).1.trans rfl

end SipProxy.Message
