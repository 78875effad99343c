import Mathlib.Data.List.Forall2
import SipProxy.Proofs.Header.Fault
import SipProxy.Proofs.Message.Stacks

/-!
# Operations that fail

Reading a header writes into its slot, and most operations on a message read before they can know
whether they will succeed. None of them leaves a trace if it fails (`Message.IsUndone`), but for the
one that reads several lines: it keeps the values of the lines before the one that cannot be read.
What is kept says what its line said (`Header.ReadsAlike`), so no later answer is another for it.

All of it rests on two facts. A slot is written when its text could be read, and never otherwise;
and text is never read as a list without entries, so a line that turns out to be empty held its
empty list before and gets it back. The second also tells why there was nothing to take
(`PopFault`): a fault in the text is never mistaken for an empty message, nor the other way around.
-/

namespace SipProxy

open Headers

variable {k : HeaderKind} {α : Type} {view : k.Value → List α} {make : List α → k.Value}

/-! ## Slots that cannot be read -/

namespace Header

variable {h : Header} {e : SipError}

theorem memoise_of_fst_eq_error (he : (h.memoise k).1 = .error e) : (h.memoise k).2 = h := by
  rw [memoise_fst] at he
  rw [memoise_of_error he]

/-- A line cannot be read for a fault in its text or because it keeps a value of another kind. -/
theorem read_eq_error_iff :
    h.read k = .error e ↔
      (∃ text, h.slot = .raw text ∧ k.parse text = .error e) ∨
        ∃ value, h.slot = .typed value ∧ k.unwrap? value = none ∧ e = h.otherKind k := by
  unfold read
  cases h.slot with
  | raw text => simp
  | typed value =>
    cases hv : k.unwrap? value with
    | some v => simp [hv]
    | none => simp [hv, eq_comm]

/-- A line that is read as an empty list keeps one already. -/
theorem slot_of_view_eq_nil (hk : ∀ text v, k.parse text = .ok v → view v ≠ []) {v : k.Value}
    (hr : h.read k = .ok v) (hv : view v = []) : h.slot = .typed (k.wrap v) := by
  unfold read at hr
  cases hs : h.slot with
  | raw text =>
    rw [hs] at hr
    exact absurd hv (hk text v hr)
  | typed value =>
    simp only [hs] at hr
    cases hu : k.unwrap? value with
    | none => simp [hu] at hr
    | some w =>
      simp only [hu, Except.ok.injEq] at hr
      rw [← hr, HeaderKind.wrap_of_unwrap? hu]

end Header

/-- Putting the first line of a kind in its own place changes nothing. -/
theorem Headers.replaceFirst_eq_self {f : Header → Headers} {h : Header} {hs rest : Headers}
    (hl : linesOf k hs = h :: rest) (hf : f h = [h]) : replaceFirst k f hs = hs := by
  unfold replaceFirst
  cases hc : cut k.name hs with
  | none => rfl
  | some r =>
    obtain ⟨before, h', after⟩ := r
    rw [linesOf_of_cut hc] at hl
    cases hl
    simp only [(cut_eq_some.1 hc).1, hf, List.append_assoc, List.singleton_append]

namespace Message

variable {m : Message} {e : SipError}

/-- If the operation fails, it has left the message as it was. -/
def IsUndone {β : Type} (m : Message) (r : Except SipError β × Message) : Prop :=
  ∀ e, r.1 = .error e → r.2 = m

/-- What is made of an answer does not matter. -/
theorem IsUndone.map {β γ : Type} {r : Except SipError β × Message} (f : β → γ)
    (h : m.IsUndone r) : m.IsUndone (r.1.map f, r.2) := by
  intro e he
  cases hr : r.1 with
  | ok b => simp [hr, Except.map] at he
  | error e' => exact h e' hr

theorem typed_eq_error (he : (m.typed k).1 = .error e) :
    ∃ h rest, linesOf k m.headers = h :: rest ∧ h.read k = .error e := by
  rw [typed_fst] at he
  split at he
  · cases he
  · rename_i h rest hl
    refine ⟨h, rest, hl, ?_⟩
    cases hr : h.read k with
    | ok v => simp [hr, Except.map] at he
    | error e' => simpa [hr, Except.map] using he

theorem typed_isUndone (k : HeaderKind) (m : Message) : m.IsUndone (m.typed k) := by
  intro e he
  obtain ⟨h, rest, hl, hr⟩ := typed_eq_error he
  rw [typed_snd, replaceFirst_eq_self hl (by rw [Header.memoise_of_error hr])]

theorem modify_isUndone (f : k.Value → k.Value) (m : Message) : m.IsUndone (m.modify k f) := by
  intro e he
  rw [modify_fst] at he
  split at he
  · cases he
  · rename_i h rest hl
    cases hr : h.read k with
    | ok v => simp [hr, Except.map] at he
    | error e' => rw [modify_snd, replaceFirst_eq_self hl (by simp [revised, hr])]

theorem noteSource_isUndone (source : Endpoint) (m : Message) :
    m.IsUndone (m.noteSource source) := by
  unfold noteSource
  split
  · rw [modifyTopVia_eq]
    exact ((modify_isUndone _ m).map _).map _
  · exact fun e he => nomatch he

/-! ## Taking off an entry -/

/-- Why no entry can be taken off the first line of a kind. -/
inductive PopFault (k : HeaderKind) (view : k.Value → List α) : Option Header → SipError → Prop
  where
  | noLine : PopFault k view none (.noEntry k.name.text)
  | emptyList {h : Header} {v : k.Value} (hs : h.slot = .typed (k.wrap v)) (hv : view v = []) :
      PopFault k view (some h) (.noEntry k.name.text)
  /-- The text of the line does not follow the grammar of its kind. -/
  | unreadable {h : Header} {text : String} {e : SipError} (hs : h.slot = .raw text)
      (he : k.parse text = .error e) : PopFault k view (some h) e
  | otherKind {h : Header} {value : HeaderValue} (hs : h.slot = .typed value)
      (hv : k.unwrap? value = none) :
      PopFault k view (some h)
        (.malformedHeader s!"{h.name} does not hold a {k.name.text} value")

theorem pop_fst (m : Message) :
    (m.pop k view make).1 =
      match linesOf k m.headers with
      | [] => .error (.noEntry k.name.text)
      | h :: _ =>
        (h.read k).bind fun v => (view v).head?.elim (.error (.noEntry k.name.text)) .ok := by
  unfold pop
  cases hc : cut k.name m.headers with
  | none => simp only [linesOf_of_cut_eq_none hc]
  | some r =>
    obtain ⟨before, h, after⟩ := r
    simp only [linesOf_of_cut hc]
    cases hr : h.read k with
    | error e => simp only [Header.memoise_of_error hr, Except.bind]
    | ok v =>
      simp only [Header.memoise_of_ok hr, Except.bind]
      split <;> simp_all

theorem named?_eq_head? (k : HeaderKind) (hs : Headers) :
    named? k.name hs = (linesOf k hs).head? :=
  (List.head?_filter ..).symm

section Pop

variable (hk : ∀ text v, k.parse text = .ok v → view v ≠ [])

include hk

theorem pop_isUndone (m : Message) : m.IsUndone (m.pop k view make) := by
  intro e he
  rw [pop_fst] at he
  rw [pop_snd]
  split at he
  · rename_i hl
    -- without a line there is none to replace
    have hc : cut k.name m.headers = none := by
      refine cut_eq_none.2 fun x hx => ?_
      simpa using List.filter_eq_nil_iff.1 hl x hx
    simp only [replaceFirst, hc]
  · rename_i h rest hl
    cases hr : h.read k with
    | error e' => rw [replaceFirst_eq_self hl (by simp [leftover, hr])]
    | ok v =>
      cases hv : view v with
      | cons entry entries => simp [hr, hv, Except.bind] at he
      | nil =>
        -- the empty list goes back into the slot that it was read from
        have hput : h.put k v = h := by
          have hm := Header.memoise_of_typed (k := k) (Header.slot_of_view_eq_nil hk hr hv)
          rwa [Header.memoise_of_ok hr] at hm
        rw [replaceFirst_eq_self hl (by simp [leftover, hr, hv, hput])]

/-- What an entry cannot be taken for is told by the first line of the kind. -/
theorem pop_eq_error_iff :
    (m.pop k view make).1 = .error e ↔ PopFault k view (named? k.name m.headers) e := by
  rw [pop_fst, named?_eq_head?]
  cases linesOf k m.headers with
  | nil =>
    constructor
    · rintro ⟨⟩
      exact .noLine
    · rintro ⟨⟩
      rfl
  | cons h rest =>
    simp only [List.head?_cons]
    constructor
    · intro he
      cases hr : h.read k with
      | error e' =>
        simp only [hr, Except.bind, Except.error.injEq] at he
        subst he
        rcases Header.read_eq_error_iff.1 hr with ⟨text, hs, hp⟩ | ⟨value, hs, hu, rfl⟩
        · exact .unreadable hs hp
        · exact .otherKind hs hu
      | ok v =>
        cases hv : view v with
        | cons entry entries => simp [hr, hv, Except.bind] at he
        | nil =>
          simp only [hr, hv, Except.bind, List.head?_nil, Option.elim_none,
            Except.error.injEq] at he
          subst he
          exact .emptyList (Header.slot_of_view_eq_nil hk hr hv) hv
    · rintro (_ | ⟨hs, hv⟩ | ⟨hs, hp⟩ | ⟨hs, hu⟩)
      · simp [Header.read, hs, hv, Except.bind]
      · simp [Header.read, hs, hp, Except.bind]
      · simp [Header.read, hs, hu, Except.bind, Header.otherKind]

/-- An entry is missing if and only if there is no line of the kind, or the first one keeps an empty
list. -/
theorem pop_eq_noEntry_iff :
    (∃ name, (m.pop k view make).1 = .error (.noEntry name)) ↔
      named? k.name m.headers = none ∨
        ∃ h v, named? k.name m.headers = some h ∧ h.slot = .typed (k.wrap v) ∧ view v = [] := by
  simp only [pop_eq_error_iff hk]
  constructor
  · rintro ⟨name, hfault⟩
    generalize named? k.name m.headers = first at hfault
    cases hfault with
    | noLine => exact .inl rfl
    | @emptyList h v hs hv => exact .inr ⟨h, v, rfl, hs, hv⟩
    | unreadable hs he =>
      have hinput : (SipError.noEntry name).isParseError = true := k.parse_failsIn _ _ he
      cases hinput
  · rintro (hnone | ⟨h, v, hsome, hs, hv⟩)
    · rw [hnone]
      exact ⟨_, .noLine⟩
    · rw [hsome]
      exact ⟨_, .emptyList hs hv⟩

end Pop

end Message

/-! ## Reading all lines -/

/-- The line has the name it had and says what it said: a line of the kind is read as before, or
fails as before, and any other line is the same. -/
structure Header.ReadsAlike (k : HeaderKind) (h h' : Header) : Prop where
  name : h'.name = h.name
  read : h'.read k = h.read k
  other : h.is k.name = false → h' = h

theorem Header.ReadsAlike.refl (k : HeaderKind) (h : Header) : h.ReadsAlike k h :=
  ⟨rfl, rfl, fun _ => rfl⟩

theorem Header.readsAlike_memoise {h : Header} (hh : h.is k.name = true) :
    h.ReadsAlike k (h.memoise k).2 where
  name := by
    unfold memoise
    split <;> rfl
  read := read_memoise
  other hn := by simp [hh] at hn

theorem Headers.forall₂_readsAlike_self (k : HeaderKind) (hs : Headers) :
    List.Forall₂ (Header.ReadsAlike k) hs hs :=
  List.forall₂_same.2 fun h _ => .refl k h

/-- Reading the Via lines changes none of them but for the form in which its value is kept. -/
theorem Headers.forall₂_viaEntries (hs : Headers) :
    List.Forall₂ (Header.ReadsAlike .via) hs hs.viaEntries.2 := by
  induction hs with
  | nil => exact .nil
  | cons h hs ih =>
    unfold viaEntries
    split
    · rename_i hh
      have hline := Header.readsAlike_memoise (k := .via) hh
      cases hr : h.read .via with
      | ok v =>
        rw [Header.memoise_of_ok hr] at hline
        simp only [Header.memoise_of_ok hr]
        exact .cons hline ih
      -- the lines behind one that cannot be read are not looked at
      | error e =>
        simp only [Header.memoise_of_error hr]
        exact forall₂_readsAlike_self .via (h :: hs)
    · exact .cons (.refl .via h) ih

/-! ## Failed operations -/

/-- An operation that fails leaves the message as it was. This is so for reading a header of any
kind, through the message or at a line of any name, for a look at the topmost Via or Route entry or
taking it off, and for noting a source. Reading all Via entries keeps line for line what it says,
whether it fails or not. There is no entry to take off if and only if there is no line of the kind
or the first keeps an empty list; otherwise the fault is that of the text of the first line, or that
the line keeps a value of another kind. -/
theorem Message.isUndone_of_failed (m : Message) :
    (∀ k, m.IsUndone (m.typed k)) ∧
    (∀ h ∈ m.headers, ∀ k e, (h.memoise k).1 = .error e → (h.memoise k).2 = h) ∧
    m.IsUndone m.topVia ∧ m.IsUndone m.topRoute ∧ m.IsUndone m.popVia ∧ m.IsUndone m.popRoute ∧
    (∀ source, m.IsUndone (m.noteSource source)) ∧
    (m.viaEntries.2.start = m.start ∧ m.viaEntries.2.body = m.body ∧
      List.Forall₂ (Header.ReadsAlike .via) m.headers m.viaEntries.2.headers) ∧
    (∀ e, m.popVia.1 = .error e ↔ PopFault .via id (named? .via m.headers) e) ∧
    (∀ e, m.popRoute.1 = .error e ↔ PopFault .route id (named? .route m.headers) e) ∧
    ((∃ name, m.popVia.1 = .error (.noEntry name)) ↔
      named? .via m.headers = none ∨
        ∃ h, named? .via m.headers = some h ∧ h.slot = .typed (.via [])) ∧
    ((∃ name, m.popRoute.1 = .error (.noEntry name)) ↔
      named? .route m.headers = none ∨
        ∃ h, named? .route m.headers = some h ∧ h.slot = .typed (.route [])) := by
  have hvia : ∀ text v, HeaderKind.via.parse text = .ok v → id v ≠ ([] : List ViaEntry) := by
    rintro text v hv rfl
    exact Via.parse_ne_nil text hv
  have hroute : ∀ text v, HeaderKind.route.parse text = .ok v → id v ≠ ([] : List RouteEntry) := by
    rintro text v hv rfl
    exact Route.parse_ne_nil "Route" text hv
  refine ⟨fun k => typed_isUndone k m, fun h _ k e he => Header.memoise_of_fst_eq_error he,
    (typed_isUndone .via m).map _, (typed_isUndone .route m).map _, pop_isUndone hvia m,
    pop_isUndone hroute m, fun source => noteSource_isUndone source m,
    ⟨rfl, rfl, forall₂_viaEntries m.headers⟩, fun e => pop_eq_error_iff hvia,
    fun e => pop_eq_error_iff hroute, (pop_eq_noEntry_iff hvia).trans ?_,
    (pop_eq_noEntry_iff hroute).trans ?_⟩
  · refine or_congr Iff.rfl (exists_congr fun h => ?_)
    exact ⟨fun ⟨v, hn, hs, hv⟩ => ⟨hn, (show v = [] from hv) ▸ hs⟩,
      fun ⟨hn, hs⟩ => ⟨[], hn, hs, rfl⟩⟩
  · refine or_congr Iff.rfl (exists_congr fun h => ?_)
    exact ⟨fun ⟨v, hn, hs, hv⟩ => ⟨hn, (show v = [] from hv) ▸ hs⟩,
      fun ⟨hn, hs⟩ => ⟨[], hn, hs, rfl⟩⟩

/-- The second Via line cannot be read: the first keeps its value, and both say what they said. The
Route line keeps a number, and goes on keeping it. -/
theorem Message.isUndone_of_failed_of_second_line :
    let m : Message := ⟨.request ⟨"BYE", "b", "SIP/2.0"⟩,
      [.ofText "v" "SIP/2.0/UDP a", .ofText "Via" "?", ⟨"route", .typed (.maxForwards ⟨7⟩)⟩], []⟩
    m.viaEntries.1 = .error (.malformedEntry "invalid Via '?'") ∧
      m.viaEntries.2.headers ≠ m.headers ∧
      List.Forall₂ (Header.ReadsAlike .via) m.headers m.viaEntries.2.headers ∧
      m.popRoute = (.error (.malformedHeader "route does not hold a Route value"), m) := by
  intro m
  obtain ⟨-, -, -, -, -, hpop, -, ⟨-, -, hlines⟩, -, hfault, -⟩ := m.isUndone_of_failed
  have hfirst : named? .route m.headers = some ⟨"route", .typed (.maxForwards ⟨7⟩)⟩ := by
    decide +kernel
  have herror : m.popRoute.1 = .error (.malformedHeader "route does not hold a Route value") := by
    rw [hfault, hfirst]
    exact .otherKind rfl rfl
  exact ⟨by decide +kernel, by decide +kernel, hlines, Prod.ext herror (hpop _ herror)⟩

end SipProxy
