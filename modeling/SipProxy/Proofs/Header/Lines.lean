import SipProxy.Header.Basic
import SipProxy.Proofs.Outcome

/-!
# The lines of a kind

Whatever the proxy does to the headers of a message, it does to the first line of one kind or by
putting a line in front of those of one kind. So the headers of a message are seen here as the lines
of each kind (`Headers.linesOf`), which no change of another kind touches, since a line is of one
kind at most (`Header.kind_unique`), and for a kind that holds lists as one list of entries written
on several lines (`Headers.entriesOf`).
-/

namespace SipProxy

theorem HeaderKind.name_injective {j k : HeaderKind} (h : j.name = k.name) : j = k := by
  cases j <;> cases k <;> first | rfl | cases h

namespace Header

variable {h : Header} {name : HeaderName} {j k : HeaderKind} {v : k.Value}

/-- A line is of a kind if its name is read as that of the kind. -/
theorem is_name_iff : h.is k.name = true ↔ HeaderName.ofText h.name = k.name := by
  unfold is HeaderName.isWrittenAs
  split
  · rename_i theirs ht
    rw [ht]
    cases k <;> simp [HeaderKind.name]
  · exact beq_iff_eq

theorem kind_unique (hj : h.is j.name = true) (hk : h.is k.name = true) : j = k :=
  HeaderKind.name_injective ((is_name_iff.1 hj).symm.trans (is_name_iff.1 hk))

theorem is_ofValue (k : HeaderKind) (v : k.Value) : (ofValue k v).is k.name = true := by
  rw [is_name_iff]
  show HeaderName.ofText k.name.text = k.name
  cases k <;> decide +kernel

/-! ## Values in slots -/

@[simp] theorem put_is : (h.put k v).is name = h.is name := rfl

@[simp] theorem put_put (w : k.Value) : (h.put k v).put k w = h.put k w := rfl

@[simp] theorem read_put : (h.put k v).read k = .ok v := by
  simp [read, put]

theorem read_ofText (k : HeaderKind) (name text : String) :
    (ofText name text).read k = k.parse text := rfl

theorem read_ofValue (k : HeaderKind) (v : k.Value) : (ofValue k v).read k = .ok v := by
  simp [read, ofValue]

@[simp] theorem memoise_fst : (h.memoise k).1 = h.read k := by
  unfold memoise
  split <;> simp_all

theorem memoise_of_ok (hr : h.read k = .ok v) : h.memoise k = (.ok v, h.put k v) := by
  simp [memoise, hr]

theorem memoise_of_error {e : SipError} (hr : h.read k = .error e) :
    h.memoise k = (.error e, h) := by
  simp [memoise, hr]

@[simp] theorem memoise_is : (h.memoise k).2.is name = h.is name := by
  unfold memoise
  split <;> rfl

/-- A value that was kept is read again. -/
@[simp] theorem read_memoise : (h.memoise k).2.read k = h.read k := by
  cases hr : h.read k with
  | ok v => rw [memoise_of_ok hr, read_put]
  | error e => rw [memoise_of_error hr, hr]

end Header

namespace Headers

variable {k : HeaderKind} {hs before after : Headers} {h : Header} {p : Header → Bool}

/-! ## Lines -/

/-- The lines of a kind. -/
def linesOf (k : HeaderKind) (hs : Headers) : Headers := hs.filter fun h => h.is k.name

theorem linesOf_cons_of_is (hh : h.is k.name = true) (hs : Headers) :
    linesOf k (h :: hs) = h :: linesOf k hs :=
  List.filter_cons_of_pos hh

theorem linesOf_cons_of_not_is (hh : ¬ h.is k.name = true) (hs : Headers) :
    linesOf k (h :: hs) = linesOf k hs :=
  List.filter_cons_of_neg hh

theorem linesOf_append (hs hs' : Headers) : linesOf k (hs ++ hs') = linesOf k hs ++ linesOf k hs' :=
  List.filter_append ..

theorem linesOf_eq_nil (hn : ∀ x ∈ hs, x.is k.name = false) : linesOf k hs = [] :=
  List.filter_eq_nil_iff.2 fun x hx => by simp [hn x hx]

theorem linesOf_eq_self (hn : ∀ x ∈ hs, x.is k.name = true) : linesOf k hs = hs :=
  List.filter_eq_self.2 hn

theorem linesOf_of_cut (hc : cut k.name hs = some (before, h, after)) :
    linesOf k hs = h :: linesOf k after := by
  obtain ⟨rfl, hh, hb⟩ := cut_eq_some.1 hc
  rw [linesOf_append, linesOf_eq_nil hb, List.nil_append, linesOf_cons_of_is hh]

theorem linesOf_of_cut_eq_none (hc : cut k.name hs = none) : linesOf k hs = [] :=
  linesOf_eq_nil (cut_eq_none.1 hc)

/-- Puts lines in the place of the first line of a kind. -/
def replaceFirst (k : HeaderKind) (f : Header → Headers) (hs : Headers) : Headers :=
  match cut k.name hs with
  | some (before, h, after) => before ++ f h ++ after
  | none => hs

section ReplaceFirst

variable {f : Header → Headers} (hf : ∀ h, h.is k.name = true → ∀ x ∈ f h, x.is k.name = true)

include hf

theorem linesOf_replaceFirst (hs : Headers) :
    linesOf k (replaceFirst k f hs) =
      match linesOf k hs with
      | [] => []
      | h :: rest => f h ++ rest := by
  unfold replaceFirst
  cases hc : cut k.name hs with
  | none => simp only [linesOf_of_cut_eq_none hc]
  | some r =>
    obtain ⟨before, h, after⟩ := r
    obtain ⟨-, hh, hb⟩ := cut_eq_some.1 hc
    simp only [linesOf_of_cut hc, linesOf_append, linesOf_eq_nil hb, List.nil_append,
      linesOf_eq_self (hf h hh)]

/-- Lines that no line of the kind is among stay as they are. -/
theorem filter_replaceFirst (hp : ∀ h : Header, h.is k.name = true → p h = false) (hs : Headers) :
    (replaceFirst k f hs).filter p = hs.filter p := by
  unfold replaceFirst
  cases hc : cut k.name hs with
  | none => rfl
  | some r =>
    obtain ⟨before, h, after⟩ := r
    obtain ⟨rfl, hh, -⟩ := cut_eq_some.1 hc
    have hout : (f h).filter p = [] :=
      List.filter_eq_nil_iff.2 fun x hx => by simp [hp x (hf h hh x hx)]
    simp only [List.filter_append, hout, List.append_nil, List.filter_cons, hp h hh]
    rfl

end ReplaceFirst

/-- A line that is put in front of the lines of its kind is the first of them. -/
theorem linesOf_insertAt {n : Nat} (hh : h.is k.name = true)
    (hn : ∀ x ∈ hs.take n, x.is k.name = false) :
    linesOf k (insertAt n h hs) = h :: linesOf k hs := by
  have hsplit : linesOf k hs = linesOf k (hs.drop n) := by
    conv => lhs; rw [← List.take_append_drop n hs, linesOf_append, linesOf_eq_nil hn]
    rfl
  rw [insertAt, linesOf_append, linesOf_eq_nil hn, hsplit, List.nil_append, linesOf_cons_of_is hh]

theorem filter_insertAt {n : Nat} (hh : p h = false) :
    (insertAt n h hs).filter p = hs.filter p := by
  rw [insertAt, List.filter_append, List.filter_cons_of_neg (by simp [hh]), ← List.filter_append,
    List.take_append_drop]

/-! ## Positions -/

theorem is_eq_false_of_mem_take {q : Header → Bool} {n : Nat} (hn : hs.findIdx? q = some n) :
    ∀ x ∈ hs.take n, q x = false := by
  obtain ⟨hlt, -, hbefore⟩ := List.findIdx?_eq_some_iff_getElem.1 hn
  intro x hx
  obtain ⟨i, hi, rfl⟩ := List.mem_take_iff_getElem.1 hx
  simpa using hbefore i (by omega)

theorem is_eq_false_of_mem_take_viaPosition (hs : Headers) :
    ∀ x ∈ hs.take hs.viaPosition, x.is .via = false := by
  unfold viaPosition
  cases hn : hs.findIdx? (·.is .via) with
  | none => simp
  | some n => exact is_eq_false_of_mem_take hn

theorem is_eq_false_of_mem_take_recordRoutePosition (hs : Headers) :
    ∀ x ∈ hs.take hs.recordRoutePosition, x.is .recordRoute = false := by
  unfold recordRoutePosition
  cases hn : hs.findIdx? (·.is .recordRoute) with
  | none =>
    intro x hx
    exact List.findIdx?_eq_none_iff.1 hn x (List.mem_of_mem_take hx)
  | some n => exact is_eq_false_of_mem_take hn

/-! ## Entries -/

section Entries

variable {α : Type} {view : k.Value → List α}

/-- The entries of lines that hold lists, or what is wrong with the first that cannot be read. -/
def entriesOf (k : HeaderKind) (view : k.Value → List α) : Headers → Except SipError (List α)
  | [] => .ok []
  | h :: hs =>
    match h.read k with
    | .ok v => (entriesOf k view hs).map (view v ++ ·)
    | .error e => .error e

theorem entriesOf_cons {v : k.Value} (hr : h.read k = .ok v) :
    entriesOf k view (h :: hs) = (entriesOf k view hs).map (view v ++ ·) := by
  simp [entriesOf, hr]

/-- Entries are what lines are read as, and nothing else of them. -/
theorem entriesOf_congr {hs' : Headers} (hr : hs.map (·.read k) = hs'.map (·.read k)) :
    entriesOf k view hs = entriesOf k view hs' := by
  induction hs generalizing hs' with
  | nil =>
    rw [List.map_nil, eq_comm, List.map_eq_nil_iff] at hr
    rw [hr]
  | cons h hs ih =>
    cases hs' with
    | nil => cases hr
    | cons h' hs' =>
      rw [List.map_cons, List.map_cons, List.cons.injEq] at hr
      unfold entriesOf
      rw [hr.1, ih hr.2]

/-- There is a list of entries if every line can be read, and then it holds those of each line. -/
theorem exists_entriesOf (hr : ∀ h ∈ hs, ∃ v, h.read k = .ok v) :
    ∃ entries, entriesOf k view hs = .ok entries := by
  induction hs with
  | nil => exact ⟨[], rfl⟩
  | cons h hs ih =>
    obtain ⟨v, hv⟩ := hr h List.mem_cons_self
    obtain ⟨entries, he⟩ := ih fun x hx => hr x (List.mem_cons_of_mem h hx)
    exact ⟨view v ++ entries, by rw [entriesOf_cons hv, he]; rfl⟩

theorem entriesOf_cons_eq_ok {entries : List α} (he : entriesOf k view (h :: hs) = .ok entries) :
    ∃ v below, h.read k = .ok v ∧ entriesOf k view hs = .ok below ∧ entries = view v ++ below := by
  cases hr : h.read k with
  | error e => simp [entriesOf, hr] at he
  | ok v =>
    rw [entriesOf_cons hr] at he
    obtain ⟨below, hbelow, rfl⟩ := Outcome.map_eq_ok.1 he
    exact ⟨v, below, rfl, hbelow, rfl⟩

theorem exists_read_of_entriesOf {entries : List α} (he : entriesOf k view hs = .ok entries) :
    ∀ h ∈ hs, ∃ v, h.read k = .ok v := by
  induction hs generalizing entries with
  | nil => simp
  | cons h hs ih =>
    obtain ⟨v, below, hv, hbelow, -⟩ := entriesOf_cons_eq_ok he
    intro x hx
    rcases List.mem_cons.1 hx with rfl | hx
    · exact ⟨v, hv⟩
    · exact ih hbelow x hx

theorem mem_of_entriesOf {entries : List α} (he : entriesOf k view hs = .ok entries) (x : α) :
    x ∈ entries ↔ ∃ h ∈ hs, ∃ v, h.read k = .ok v ∧ x ∈ view v := by
  induction hs generalizing entries with
  | nil =>
    cases he
    simp
  | cons h hs ih =>
    obtain ⟨v, below, hv, hbelow, rfl⟩ := entriesOf_cons_eq_ok he
    simp [hv, ih hbelow]

/-- The Via entries are those of the Via lines. -/
theorem viaEntries_fst (hs : Headers) :
    (viaEntries hs).1 = entriesOf .via id (linesOf .via hs) := by
  induction hs with
  | nil => rfl
  | cons h hs ih =>
    unfold viaEntries
    by_cases hh : h.is .via = true
    · rw [if_pos hh, linesOf_cons_of_is (k := .via) hh, entriesOf]
      cases hr : h.read .via with
      | ok v => simp only [Header.memoise_of_ok hr, ih, id]
      | error e => simp only [Header.memoise_of_error hr]
    · rw [if_neg hh, linesOf_cons_of_not_is (k := .via) hh, ih]

/-- Reading the Via lines keeps what they are read as. -/
theorem reads_viaEntries (hs : Headers) :
    (linesOf .via (viaEntries hs).2).map (·.read .via) = (linesOf .via hs).map (·.read .via) := by
  induction hs with
  | nil => rfl
  | cons h hs ih =>
    unfold viaEntries
    by_cases hh : h.is .via = true
    · rw [if_pos hh]
      cases hr : h.read .via with
      | ok v =>
        simp only [Header.memoise_of_ok hr]
        rw [linesOf_cons_of_is (k := .via) (Header.put_is.trans hh),
          linesOf_cons_of_is (k := .via) hh, List.map_cons, List.map_cons, ih, Header.read_put, hr]
      -- reading stops at a line that cannot be read, and the lines behind it are as they were
      | error e => simp only [Header.memoise_of_error hr]
    · rw [if_neg hh, linesOf_cons_of_not_is (k := .via) hh, linesOf_cons_of_not_is (k := .via) hh,
        ih]

theorem filter_viaEntries (hp : ∀ h : Header, h.is .via = true → p h = false) (hs : Headers) :
    (viaEntries hs).2.filter p = hs.filter p := by
  induction hs with
  | nil => rfl
  | cons h hs ih =>
    unfold viaEntries
    by_cases hh : h.is .via = true
    · rw [if_pos hh]
      have hout : p (h.memoise .via).2 = false := hp _ (Header.memoise_is.trans hh)
      cases hr : h.read .via with
      | ok v =>
        rw [Header.memoise_of_ok hr] at hout
        simp only [Header.memoise_of_ok hr]
        rw [List.filter_cons_of_neg (by simp [hout]), List.filter_cons_of_neg (by simp [hp h hh]),
          ih]
      | error e => simp only [Header.memoise_of_error hr]
    · rw [if_neg hh, List.filter_cons, List.filter_cons, ih]

end Entries

end Headers

end SipProxy
