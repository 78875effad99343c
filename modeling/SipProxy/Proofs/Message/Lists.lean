import SipProxy.Proofs.Message.Edit
import SipProxy.Proofs.Message.Wire

/-!
# Several lines as one list

The entries of a kind stand on any number of lines, in groups of any size. What an operation does to
them can be told without the groups, as long as every line can be read and none is without entries
(`Message.Lists`): a look at the first line is a look at the first entry, and taking an entry off
the first line takes it off the list.

That no line is without entries (`Headers.Filled`) carries everything else. An empty first line
would hide the entries behind it. Text never says that a line is empty, and a line that loses its
last entry goes with it, so this is kept whatever is read and whatever fails.
-/

namespace SipProxy

open Headers

variable {k : HeaderKind} {α : Type} {view : k.Value → List α} {make : List α → k.Value}

/-! ## Lines with entries -/

/-- The line holds an entry, if it can be read. -/
def Header.Filled (k : HeaderKind) (view : k.Value → List α) (h : Header) : Prop :=
  ∀ v, h.read k = .ok v → view v ≠ []

namespace Headers

variable {hs hs' : Headers} {h : Header}

/-- No line of the kind is without entries, unless it cannot be read. -/
def Filled (k : HeaderKind) (view : k.Value → List α) (hs : Headers) : Prop :=
  ∀ h ∈ linesOf k hs, h.Filled k view

theorem Filled.of_reads (hf : Filled k view hs)
    (hr : (linesOf k hs').map (·.read k) = (linesOf k hs).map (·.read k)) :
    Filled k view hs' := by
  intro h hh v hv
  have hmem : Except.ok v ∈ (linesOf k hs').map (·.read k) := List.mem_map.2 ⟨h, hh, hv⟩
  rw [hr] at hmem
  obtain ⟨x, hx, hv⟩ := List.mem_map.1 hmem
  exact hf x hx v hv

theorem Filled.of_linesOf (hf : Filled k view hs) (hl : linesOf k hs' = linesOf k hs) :
    Filled k view hs' :=
  hf.of_reads (by rw [hl])

theorem Filled.replaceFirst {f : Header → Headers} (hf : Filled k view hs)
    (hk : ∀ h, h.is k.name = true → ∀ x ∈ f h, x.is k.name = true)
    (hx : ∀ h, h.Filled k view → ∀ x ∈ f h, x.Filled k view) :
    Filled k view (Headers.replaceFirst k f hs) := by
  intro x hmem
  rw [linesOf_replaceFirst hk] at hmem
  cases hl : linesOf k hs with
  | nil =>
    rw [hl] at hmem
    cases hmem
  | cons line lines =>
    rw [hl] at hmem
    rcases List.mem_append.1 hmem with hmem | hmem
    · refine hx line (hf line ?_) x hmem
      rw [hl]
      exact List.mem_cons_self
    · apply hf
      rw [hl]
      exact List.mem_cons_of_mem line hmem

/-- The lines that are neither Via nor Route. -/
def rest (hs : Headers) : Headers := hs.filter fun h => !(h.is .via || h.is .route)

theorem named?_eq_none_iff : named? k.name hs = none ↔ linesOf k hs = [] := by
  rw [named?, List.find?_eq_none, linesOf, List.filter_eq_nil_iff]

end Headers

namespace Message

variable {m m' : Message} {e : α} {es : List α}

/-- Text that holds a list never says that the list is empty, so no line that was read is without
entries. -/
theorem filled_of_parse {s : Octets} (hk : ∀ text v, k.parse text = .ok v → view v ≠ [])
    (h : Message.parse s = .ok m) : Filled k view m.headers := by
  obtain ⟨first, rest, body, length, -, -, hblock, -⟩ := parts_of_parse h
  intro x hx v hv
  rw [(HeaderBlock.of_mem_read hblock (List.mem_filter.1 hx).1).2, Header.read_ofText] at hv
  exact hk x.valueText v hv

theorem filled_memoise {h : Header} (hf : h.Filled k view) :
    ∀ x ∈ [(h.memoise k).2], x.Filled k view := by
  intro x hx v hv
  rw [List.mem_singleton.1 hx, Header.read_memoise] at hv
  exact hf v hv

theorem filled_revised {f : k.Value → k.Value} (hview : ∀ v, view v ≠ [] → view (f v) ≠ [])
    {h : Header} (hf : h.Filled k view) : ∀ x ∈ [revised k f h], x.Filled k view := by
  intro x hx v hv
  rw [List.mem_singleton.1 hx] at hv
  cases hr : h.read k with
  | ok w =>
    rw [revised_of_ok hr, Header.read_put] at hv
    cases hv
    exact hview w (hf w hr)
  | error e =>
    rw [revised, hr] at hv
    exact hf v hv

theorem filled_leftover (hview : ∀ entries, view (make entries) = entries) {h : Header}
    (hf : h.Filled k view) : ∀ x ∈ leftover k view make h, x.Filled k view := by
  intro x hx v hv
  unfold leftover at hx
  cases hr : h.read k with
  | error e =>
    rw [hr] at hx
    rw [List.mem_singleton.1 hx] at hv
    exact hf v hv
  | ok w =>
    rw [hr] at hx
    simp only at hx
    -- a line that held one entry is gone, so what is left of any other line holds one
    split at hx
    · rename_i hnil
      exact absurd hnil (hf w hr)
    · cases hx
    · rename_i entry entries hne hw
      rw [List.mem_singleton.1 hx, Header.read_put] at hv
      cases hv
      rw [hview]
      rintro rfl
      exact hne rfl

theorem filled_typed (hf : Filled k view m.headers) : Filled k view (m.typed k).2.headers := by
  rw [typed_snd]
  exact hf.replaceFirst (fun _ => memoise_is_of_mem) fun _ => filled_memoise

theorem filled_modify {f : k.Value → k.Value} (hview : ∀ v, view v ≠ [] → view (f v) ≠ [])
    (hf : Filled k view m.headers) : Filled k view (m.modify k f).2.headers := by
  rw [modify_snd]
  exact hf.replaceFirst (fun _ => revised_is_of_mem) fun _ => filled_revised hview

theorem filled_pop (hview : ∀ entries, view (make entries) = entries)
    (hf : Filled k view m.headers) : Filled k view (m.pop k view make).2.headers := by
  rw [pop_snd]
  exact hf.replaceFirst (fun _ => leftover_is_of_mem) fun _ => filled_leftover hview

/-- A new line with an entry on it. -/
theorem filled_of_linesOf_eq_cons {h : Header} (hh : h.Filled k view)
    (hl : linesOf k m'.headers = h :: linesOf k m.headers) (hf : Filled k view m.headers) :
    Filled k view m'.headers := by
  intro x hx
  rw [hl] at hx
  rcases List.mem_cons.1 hx with rfl | hx
  · exact hh
  · exact hf x hx

theorem Keeps.filled {kinds : List HeaderKind} (h : Keeps kinds m m') (hk : k ∉ kinds)
    (hf : Filled k view m.headers) : Filled k view m'.headers :=
  hf.of_linesOf (h.linesOf_eq hk)

theorem Keeps.rest_eq {kinds : List HeaderKind} (h : Keeps kinds m m')
    (hk : ∀ k ∈ kinds, k = .via ∨ k = .route) : m'.headers.rest = m.headers.rest := by
  refine h.lines _ fun k hmem x hx => ?_
  rcases hk k hmem with rfl | rfl
  · rw [show x.is .via = true from hx]
    rfl
  · rw [show x.is .route = true from hx, Bool.or_true]
    rfl

/-! ## One list -/

/-- The lines of the kind can all be read, and hold these entries, at least one on each line. -/
structure Lists (k : HeaderKind) (view : k.Value → List α) (es : List α) (m : Message) : Prop where
  entries : entriesOf k view (linesOf k m.headers) = .ok es
  filled : Filled k view m.headers

theorem Keeps.lists {kinds : List HeaderKind} (h : Keeps kinds m m') (hk : k ∉ kinds)
    (hl : m.Lists k view es) : m'.Lists k view es where
  entries := by rw [h.linesOf_eq hk, hl.entries]
  filled := h.filled hk hl.filled

namespace Lists

/-- A kind without entries is without lines. -/
theorem linesOf_eq_nil (h : m.Lists k view []) : linesOf k m.headers = [] := by
  cases hl : linesOf k m.headers with
  | nil => rfl
  | cons line lines =>
    have he := h.entries
    rw [hl] at he
    obtain ⟨v, below, hr, -, hnil⟩ := entriesOf_cons_eq_ok he
    have hline : line ∈ linesOf k m.headers := by rw [hl]; exact List.mem_cons_self
    exact absurd (List.append_eq_nil_iff.1 hnil.symm).1 (h.filled line hline v hr)

/-- The first entry stands first on the first line. -/
theorem exists_line (h : m.Lists k view (e :: es)) :
    ∃ line lines v own below, linesOf k m.headers = line :: lines ∧ line.read k = .ok v ∧
      view v = e :: own ∧ entriesOf k view lines = .ok below ∧ es = own ++ below := by
  have he := h.entries
  cases hl : linesOf k m.headers with
  | nil =>
    rw [hl] at he
    cases he
  | cons line lines =>
    rw [hl] at he
    obtain ⟨v, below, hr, hbelow, heq⟩ := entriesOf_cons_eq_ok he
    have hline : line ∈ linesOf k m.headers := by rw [hl]; exact List.mem_cons_self
    obtain ⟨top, own, hown⟩ := List.exists_cons_of_ne_nil (h.filled line hline v hr)
    rw [hown] at heq
    cases heq
    exact ⟨line, lines, v, own, below, rfl, hr, hown, hbelow, rfl⟩

theorem named?_eq_none_iff (h : m.Lists k view es) : named? k.name m.headers = none ↔ es = [] := by
  rw [Headers.named?_eq_none_iff]
  cases es with
  | nil => simp [h.linesOf_eq_nil]
  | cons e es =>
    obtain ⟨line, lines, v, own, below, hl, -⟩ := h.exists_line
    simp [hl]

/-- The first entry of the first line is the first of all. -/
theorem head_typed (h : m.Lists k view es) :
    ((m.typed k).1.map fun v => v.bind fun v => (view v).head?) = .ok es.head? := by
  rw [typed_fst]
  cases es with
  | nil =>
    rw [h.linesOf_eq_nil]
    rfl
  | cons e es =>
    obtain ⟨line, lines, v, own, below, hl, hr, hv, -⟩ := h.exists_line
    simp only [hl, hr, Except.map, Option.bind_some, hv, List.head?_cons]

theorem typed (h : m.Lists k view es) : (m.typed k).2.Lists k view es :=
  ⟨(entriesOf_typed view m).trans h.entries, filled_typed h.filled⟩

theorem pop_nil (h : m.Lists k view []) :
    m.pop k view make = (.error (.noEntry k.name.text), m) := by
  have hc : cut k.name m.headers = none := by
    refine cut_eq_none.2 fun x hx => ?_
    simpa using List.filter_eq_nil_iff.1 h.linesOf_eq_nil x hx
  simp only [pop, hc]

theorem pop_cons (hview : ∀ entries, view (make entries) = entries)
    (h : m.Lists k view (e :: es)) :
    (m.pop k view make).1 = .ok e ∧ (m.pop k view make).2.Lists k view es := by
  obtain ⟨line, lines, v, own, below, hl, hr, hv, -⟩ := h.exists_line
  have hpop : (m.pop k view make).1 = .ok e := pop_eq_ok.2 ⟨line, lines, v, own, hl, hr, hv⟩
  have hrest := entriesOf_pop hview hpop
  rw [h.entries] at hrest
  obtain ⟨rest, hrest, heq⟩ := Outcome.map_eq_ok.1 hrest.symm
  cases heq
  exact ⟨hpop, hrest, filled_pop hview h.filled⟩

/-- What is taken off is told by the entries alone. -/
theorem pop (hview : ∀ entries, view (make entries) = entries) (h : m.Lists k view es) :
    (m.pop k view make).1 = es.head?.elim (.error (.noEntry k.name.text)) .ok ∧
      (m.pop k view make).2.Lists k view es.tail := by
  cases es with
  | nil =>
    rw [h.pop_nil]
    exact ⟨rfl, h⟩
  | cons e es => exact h.pop_cons hview

/-- Changing the first entry of the first line changes the first of all. -/
theorem modifyHead {f : k.Value → k.Value} {g : α → α}
    (hf : ∀ v, view (f v) = (view v).modifyHead g) (h : m.Lists k view es) :
    (∃ v, (m.modify k f).1 = .ok v) ∧ (m.modify k f).2.Lists k view (es.modifyHead g) := by
  have hview : ∀ v, view v ≠ [] → view (f v) ≠ [] := by
    intro v hv
    rw [hf]
    simpa using hv
  refine ⟨?_, ?_, filled_modify hview h.filled⟩
  · rw [modify_fst]
    cases es with
    | nil =>
      rw [h.linesOf_eq_nil]
      exact ⟨none, rfl⟩
    | cons e es =>
      obtain ⟨line, lines, v, own, below, hl, hr, -⟩ := h.exists_line
      simp only [hl, hr]
      exact ⟨some (f v), rfl⟩
  · rw [linesOf_modify]
    cases es with
    | nil =>
      rw [h.linesOf_eq_nil]
      rfl
    | cons e es =>
      obtain ⟨line, lines, v, own, below, hl, hr, hv, hbelow, rfl⟩ := h.exists_line
      simp only [hl, revised_of_ok hr]
      rw [entriesOf_cons Header.read_put, hf, hv, hbelow]
      rfl

end Lists

end Message

end SipProxy
