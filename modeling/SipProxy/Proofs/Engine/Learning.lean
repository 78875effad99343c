import Mathlib.Data.List.Induction
import SipProxy.Engine.Forward
import SipProxy.Proofs.Header.Lines
import SipProxy.Proofs.History

/-!
# What is learned

After any number of messages, given to any engines that share one table of learned routes, a host is
found where it was seen last and nowhere else (`Engine.Call.found_where_last_shown`). A message
shows the host it came from, and the hosts of its Via entries if all of them can be read. What
becomes of the message has no part in it: learning comes first, and a message that is refused
afterwards was learned from like any other.

The table itself does not tell the order of its entries, so the law is about what a look-up gives.
One call writes one listening point at several hosts; each host then has that point or what it had
before (`Engine.Call.seenAt?_process`), and the last call to write at a host decides.
-/

namespace SipProxy

open Headers History

/-- A message on its way into an engine. -/
structure Engine.Call where
  engine : Engine
  source : Endpoint
  /-- The listening point that received the message. -/
  point : ListeningPoint
  message : Message

namespace LearnedRoutes

/-! ## Several hosts at once -/

/-- Of several hosts seen at one point, each is found there, and no other host is affected. -/
theorem seenAt?_foldl_learn {α : Type} (hostOf : α → String) (point : ListeningPoint)
    (xs : List α) (routes : LearnedRoutes) (host : String) :
    ((∃ x ∈ xs, Text.sameIgnoringCase host (hostOf x) = true) →
        (xs.foldl (fun l x => learn (hostOf x) point l) routes).seenAt? host = some point) ∧
      ((¬ ∃ x ∈ xs, Text.sameIgnoringCase host (hostOf x) = true) →
        (xs.foldl (fun l x => learn (hostOf x) point l) routes).seenAt? host =
          routes.seenAt? host) := by
  induction xs generalizing routes with
  | nil => simp
  | cons x xs ih =>
    obtain ⟨hseen, hunseen⟩ := ih (learn (hostOf x) point routes)
    rw [List.foldl_cons]
    by_cases hxs : ∃ y ∈ xs, Text.sameIgnoringCase host (hostOf y) = true
    · refine ⟨fun _ => hseen hxs, fun hno => absurd ?_ hno⟩
      obtain ⟨y, hy, hhost⟩ := hxs
      exact ⟨y, List.mem_cons_of_mem x hy, hhost⟩
    · rw [hunseen hxs, seenAt?_learn]
      simp only [← Text.sameIgnoringCase_iff]
      constructor
      · rintro ⟨y, hy, hhost⟩
        rcases List.mem_cons.1 hy with rfl | hy
        · exact if_pos hhost
        · exact absurd ⟨y, hy, hhost⟩ hxs
      · intro hno
        exact if_neg fun hhost => hno ⟨x, List.mem_cons_self, hhost⟩

end LearnedRoutes

namespace Engine

/-- What an engine decides has no part in what it learns. -/
theorem process_snd (e : Engine) (source : Endpoint) (point : ListeningPoint) (m : Message)
    (learned : LearnedRoutes) :
    (e.process source point m learned).2 = (learned.learnFrom source point m).2 := by
  unfold process
  split
  · rename_i h
    rw [h]
  · rename_i h
    rw [h]

namespace Call

/-- What is decided on the message, and the learned routes with what it showed. -/
def process (c : Call) (learned : LearnedRoutes) : Except ProxyError Forward × LearnedRoutes :=
  c.engine.process c.source c.point c.message learned

/-- The learned routes after calls. -/
def learnedAfter (calls : List Call) : LearnedRoutes :=
  calls.foldl (fun learned c => (c.process learned).2) Table.empty

/-- The hosts that a call shows: the address that the message came from and, if all its Via lines
can be read, the host of every Via entry without its brackets. -/
def Shows (c : Call) (host : String) : Prop :=
  Text.sameIgnoringCase host c.source.ip.text = true ∨
    (∀ h ∈ linesOf .via c.message.headers, ∃ vs, h.read .via = .ok vs) ∧
      ∃ h ∈ linesOf .via c.message.headers, ∃ vs, h.read .via = .ok vs ∧
        ∃ v ∈ vs, Text.sameIgnoringCase host (Host.unbracket v.host) = true

variable {c : Call} {host : String} {learned : LearnedRoutes}

/-! ## One call -/

theorem shows_of_entries {entries : List ViaEntry}
    (h : entriesOf .via id (linesOf .via c.message.headers) = .ok entries) :
    c.Shows host ↔ Text.sameIgnoringCase host c.source.ip.text = true ∨
      ∃ v ∈ entries, Text.sameIgnoringCase host (Host.unbracket v.host) = true := by
  refine or_congr_right ?_
  rw [and_iff_right (exists_read_of_entriesOf h)]
  constructor
  · rintro ⟨line, hline, vs, hvs, v, hv, hhost⟩
    exact ⟨v, (mem_of_entriesOf h v).2 ⟨line, hline, vs, hvs, hv⟩, hhost⟩
  · rintro ⟨v, hv, hhost⟩
    obtain ⟨line, hline, vs, hvs, hv⟩ := (mem_of_entriesOf h v).1 hv
    exact ⟨line, hline, vs, hvs, v, hv, hhost⟩

theorem shows_of_error {e : SipError}
    (h : entriesOf .via id (linesOf .via c.message.headers) = .error e) :
    c.Shows host ↔ Text.sameIgnoringCase host c.source.ip.text = true := by
  refine or_iff_left ?_
  rintro ⟨hread, -⟩
  obtain ⟨entries, he⟩ : ∃ entries,
      entriesOf .via id (linesOf .via c.message.headers) = .ok entries := exists_entriesOf hread
  rw [h] at he
  cases he

/-- Whatever comes of a call, a host that it shows is found at its listening point afterwards, and
every other host where it was found before. -/
theorem seenAt?_process (c : Call) (learned : LearnedRoutes) (host : String) :
    (c.Shows host → (c.process learned).2.seenAt? host = some c.point) ∧
      (¬ c.Shows host → (c.process learned).2.seenAt? host = learned.seenAt? host) := by
  have hsource := LearnedRoutes.seenAt?_learn c.source.ip.text host c.point learned
  simp only [← Text.sameIgnoringCase_iff] at hsource
  have hvia := Headers.viaEntries_fst c.message.headers
  rw [process, process_snd, LearnedRoutes.learnFrom, Message.viaEntries]
  cases hr : c.message.headers.viaEntries.1 with
  | error e =>
    rw [hr] at hvia
    rw [shows_of_error hvia.symm]
    exact ⟨fun h => hsource.trans (if_pos h), fun h => hsource.trans (if_neg h)⟩
  | ok entries =>
    rw [hr] at hvia
    rw [shows_of_entries hvia.symm]
    obtain ⟨hseen, hunseen⟩ := LearnedRoutes.seenAt?_foldl_learn
      (fun v : ViaEntry => Host.unbracket v.host) c.point entries
      (learned.learn c.source.ip.text c.point) host
    by_cases hentries : ∃ v ∈ entries, Text.sameIgnoringCase host (Host.unbracket v.host) = true
    · exact ⟨fun _ => hseen hentries, fun h => absurd (.inr hentries) h⟩
    · rw [or_iff_left hentries]
      have hsame := (hunseen hentries).trans hsource
      exact ⟨fun h => hsame.trans (if_pos h), fun h => hsame.trans (if_neg h)⟩

/-! ## Many calls -/

theorem learnedAfter_concat (calls : List Call) (c : Call) :
    learnedAfter (calls ++ [c]) = (c.process (learnedAfter calls)).2 := by
  rw [learnedAfter, List.foldl_append]
  rfl

/-- Learned routes are the latest sightings: after any calls, of any engines and with any outcome, a
host is found at the listening point of the last call that showed it, and if none did, nowhere.
Other engines, that refuse other messages of these or forward them elsewhere, learn the same. -/
theorem found_where_last_shown (calls : List Call) (host : String) :
    (∀ point, (learnedAfter calls).seenAt? host = some point ↔
      ∃ earlier c later, calls = earlier ++ c :: later ∧ c.Shows host ∧ c.point = point ∧
        ∀ c' ∈ later, ¬ c'.Shows host) ∧
    ((learnedAfter calls).seenAt? host = none ↔ ∀ c ∈ calls, ¬ c.Shows host) ∧
    ∀ other : Call → Engine,
      learnedAfter (calls.map fun c => { c with engine := other c }) = learnedAfter calls := by
  refine ⟨?_, ?_, ?_⟩
  · intro point
    induction calls using List.reverseRecOn with
    | nil => simp [learnedAfter, LearnedRoutes.seenAt?]
    | append_singleton calls c ih =>
      obtain ⟨hshown, hunshown⟩ := seenAt?_process c (learnedAfter calls) host
      rw [learnedAfter_concat, exists_last_concat, ← ih]
      by_cases hc : c.Shows host
      · simp [hshown hc, hc]
      · simp [hunshown hc, hc]
  · induction calls using List.reverseRecOn with
    | nil => simp [learnedAfter, LearnedRoutes.seenAt?]
    | append_singleton calls c ih =>
      obtain ⟨hshown, hunshown⟩ := seenAt?_process c (learnedAfter calls) host
      rw [learnedAfter_concat, List.forall_mem_append, List.forall_mem_singleton, ← ih]
      by_cases hc : c.Shows host
      · simp [hshown hc, hc]
      · simp [hunshown hc, hc]
  · intro other
    simp only [learnedAfter, List.foldl_map, process, process_snd]

end Call

end Engine

end SipProxy
