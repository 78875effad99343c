import SipProxy.Message.Edit
import SipProxy.Proofs.Header.Lines

/-!
# What an edit of a message leaves alone

Every operation on the headers of a message names the kinds of lines that it may touch, and the rest
of the message stays as it is (`Message.Keeps`), whatever the operation reads or fails at. What it
does to the lines of its own kind is told apart from that, as an equation on those lines or on the
entries that are written on them.
-/

namespace SipProxy.Message

open Headers

variable {k : HeaderKind} {kinds : List HeaderKind} {m m' m'' : Message}

/-- The message is the same but for header lines of these kinds: any choice of lines without one of
these is the same, in its order. -/
structure Keeps (kinds : List HeaderKind) (m m' : Message) : Prop where
  start : m'.start = m.start
  body : m'.body = m.body
  lines : ∀ p : Header → Bool,
    (∀ k ∈ kinds, ∀ h : Header, h.is k.name = true → p h = false) →
      m'.headers.filter p = m.headers.filter p

namespace Keeps

theorem refl (kinds : List HeaderKind) (m : Message) : Keeps kinds m m := ⟨rfl, rfl, fun _ _ => rfl⟩

theorem mono {kinds' : List HeaderKind} (h : Keeps kinds m m') (hs : ∀ k ∈ kinds, k ∈ kinds') :
    Keeps kinds' m m' :=
  ⟨h.start, h.body, fun p hp => h.lines p fun k hk => hp k (hs k hk)⟩

theorem trans (h : Keeps kinds m m') (h' : Keeps kinds m' m'') : Keeps kinds m m'' where
  start := h'.start.trans h.start
  body := h'.body.trans h.body
  lines p hp := (h'.lines p hp).trans (h.lines p hp)

/-- The lines of another kind are none of those that changed. -/
theorem linesOf_eq (h : Keeps kinds m m') (hk : k ∉ kinds) :
    linesOf k m'.headers = linesOf k m.headers := by
  refine h.lines _ fun j hj x hx => ?_
  rw [← Bool.not_eq_true]
  intro hxk
  exact hk (Header.kind_unique hx hxk ▸ hj)

theorem isRequest_eq (h : Keeps kinds m m') : m'.isRequest = m.isRequest := by
  unfold isRequest
  rw [h.start]

/-- Changing the first line of a kind touches that kind alone. -/
theorem replaceFirst {f : Header → Headers}
    (hf : ∀ h, h.is k.name = true → ∀ x ∈ f h, x.is k.name = true) (m : Message) :
    Keeps [k] m { m with headers := Headers.replaceFirst k f m.headers } where
  start := rfl
  body := rfl
  lines _ hp := filter_replaceFirst hf (hp k List.mem_cons_self) m.headers

theorem insertAt {h : Header} (hh : h.is k.name = true) (n : Nat) (m : Message) :
    Keeps [k] m { m with headers := Headers.insertAt n h m.headers } where
  start := rfl
  body := rfl
  lines _ hp := filter_insertAt (hp k List.mem_cons_self h hh)

end Keeps

/-! ## Reading a line -/

theorem typed_snd (k : HeaderKind) (m : Message) :
    (m.typed k).2 =
      { m with headers := replaceFirst k (fun h => [(h.memoise k).2]) m.headers } := by
  unfold typed replaceFirst
  cases cut k.name m.headers with
  | none => rfl
  | some r => simp

theorem typed_fst (k : HeaderKind) (m : Message) :
    (m.typed k).1 =
      match linesOf k m.headers with
      | [] => .ok none
      | h :: _ => (h.read k).map some := by
  unfold typed
  cases hc : cut k.name m.headers with
  | none => simp only [linesOf_of_cut_eq_none hc]
  | some r => simp only [linesOf_of_cut hc, Header.memoise_fst]

theorem memoise_is_of_mem {h : Header} (hh : h.is k.name = true) :
    ∀ x ∈ [(h.memoise k).2], x.is k.name = true := by
  intro x hx
  rw [List.mem_singleton.1 hx]
  exact Header.memoise_is.trans hh

theorem typed_keeps (k : HeaderKind) (m : Message) : Keeps [k] m (m.typed k).2 := by
  rw [typed_snd]
  exact .replaceFirst (fun _ => memoise_is_of_mem) m

theorem linesOf_typed (k : HeaderKind) (m : Message) :
    linesOf k (m.typed k).2.headers =
      match linesOf k m.headers with
      | [] => []
      | h :: rest => (h.memoise k).2 :: rest := by
  rw [typed_snd]
  exact linesOf_replaceFirst (fun _ => memoise_is_of_mem) m.headers

/-- Reading a line keeps the entries that are written on the lines of its kind. -/
theorem entriesOf_typed {α : Type} (view : k.Value → List α) (m : Message) :
    entriesOf k view (linesOf k (m.typed k).2.headers) =
      entriesOf k view (linesOf k m.headers) := by
  rw [linesOf_typed]
  cases linesOf k m.headers with
  | nil => rfl
  | cons h rest => exact entriesOf_congr (by simp)

/-! ## Changing a line -/

/-- A line with its value changed, if it has one of the kind. -/
def revised (k : HeaderKind) (f : k.Value → k.Value) (h : Header) : Header :=
  match h.read k with
  | .ok v => h.put k (f v)
  | .error _ => h

theorem revised_of_ok {f : k.Value → k.Value} {h : Header} {v : k.Value} (hr : h.read k = .ok v) :
    revised k f h = h.put k (f v) := by
  simp [revised, hr]

theorem revised_is_of_mem {f : k.Value → k.Value} {h : Header} (hh : h.is k.name = true) :
    ∀ x ∈ [revised k f h], x.is k.name = true := by
  intro x hx
  rw [List.mem_singleton.1 hx, revised]
  split
  · exact Header.put_is.trans hh
  · exact hh

theorem modify_snd (k : HeaderKind) (f : k.Value → k.Value) (m : Message) :
    (m.modify k f).2 =
      { m with headers := replaceFirst k (fun h => [revised k f h]) m.headers } := by
  unfold modify replaceFirst
  cases cut k.name m.headers with
  | none => rfl
  | some r =>
    obtain ⟨before, h, after⟩ := r
    cases hr : h.read k with
    | ok v => simp [Header.memoise_of_ok hr, revised_of_ok hr]
    | error e => simp [Header.memoise_of_error hr, revised, hr]

theorem modify_fst (k : HeaderKind) (f : k.Value → k.Value) (m : Message) :
    (m.modify k f).1 =
      match linesOf k m.headers with
      | [] => .ok none
      | h :: _ => (h.read k).map fun v => some (f v) := by
  unfold modify
  cases hc : cut k.name m.headers with
  | none => simp only [linesOf_of_cut_eq_none hc]
  | some r =>
    obtain ⟨before, h, after⟩ := r
    simp only [linesOf_of_cut hc]
    cases hr : h.read k with
    | ok v => simp only [Header.memoise_of_ok hr, Except.map]
    | error e => simp only [Header.memoise_of_error hr, Except.map]

theorem modify_keeps (k : HeaderKind) (f : k.Value → k.Value) (m : Message) :
    Keeps [k] m (m.modify k f).2 := by
  rw [modify_snd]
  exact .replaceFirst (fun _ => revised_is_of_mem) m

theorem linesOf_modify (k : HeaderKind) (f : k.Value → k.Value) (m : Message) :
    linesOf k (m.modify k f).2.headers =
      match linesOf k m.headers with
      | [] => []
      | h :: rest => revised k f h :: rest := by
  rw [modify_snd]
  exact linesOf_replaceFirst (fun _ => revised_is_of_mem) m.headers

/-! ## Taking off an entry -/

section Pop

variable {α : Type} {view : k.Value → List α} {make : List α → k.Value}

/-- What is left of a line without its first entry. -/
def leftover (k : HeaderKind) (view : k.Value → List α) (make : List α → k.Value) (h : Header) :
    Headers :=
  match h.read k with
  | .error _ => [h]
  | .ok v =>
    match view v with
    | [] => [h.put k v]
    | [_] => []
    | _ :: entries => [h.put k (make entries)]

theorem leftover_is_of_mem {h : Header} (hh : h.is k.name = true) :
    ∀ x ∈ leftover k view make h, x.is k.name = true := by
  intro x hx
  unfold leftover at hx
  repeat' split at hx
  · rw [List.mem_singleton.1 hx]
    exact hh
  · rw [List.mem_singleton.1 hx]
    exact Header.put_is.trans hh
  · cases hx
  · rw [List.mem_singleton.1 hx]
    exact Header.put_is.trans hh

theorem pop_snd (m : Message) :
    (m.pop k view make).2 =
      { m with headers := replaceFirst k (leftover k view make) m.headers } := by
  unfold pop replaceFirst
  cases cut k.name m.headers with
  | none => rfl
  | some r =>
    obtain ⟨before, h, after⟩ := r
    cases hr : h.read k with
    | error e => simp [Header.memoise_of_error hr, leftover, hr]
    | ok v =>
      simp only [Header.memoise_of_ok hr, leftover, hr]
      -- an empty list, the last entry and any other, as `leftover` tells them apart
      split <;> simp_all

theorem pop_keeps (m : Message) : Keeps [k] m (m.pop k view make).2 := by
  rw [pop_snd]
  exact .replaceFirst (fun _ => leftover_is_of_mem) m

theorem linesOf_pop (m : Message) :
    linesOf k (m.pop k view make).2.headers =
      match linesOf k m.headers with
      | [] => []
      | h :: rest => leftover k view make h ++ rest := by
  rw [pop_snd]
  exact linesOf_replaceFirst (fun _ => leftover_is_of_mem) m.headers

/-- An entry is taken off the first line of the kind, which has to hold one. -/
theorem pop_eq_ok {entry : α} :
    (m.pop k view make).1 = .ok entry ↔
      ∃ h rest v entries, linesOf k m.headers = h :: rest ∧ h.read k = .ok v ∧
        view v = entry :: entries := by
  unfold pop
  cases hc : cut k.name m.headers with
  | none => simp [linesOf_of_cut_eq_none hc]
  | some r =>
    obtain ⟨before, h, after⟩ := r
    rw [linesOf_of_cut hc]
    cases hr : h.read k with
    | error e =>
      simp only [Header.memoise_of_error hr]
      constructor
      · intro h
        cases h
      · rintro ⟨h', rest, v, entries, hl, hv, -⟩
        cases hl
        rw [hr] at hv
        cases hv
    | ok v =>
      simp only [Header.memoise_of_ok hr]
      constructor
      · intro h
        split at h
        · cases h
        · cases h
          exact ⟨_, _, v, [], rfl, hr, by assumption⟩
        · cases h
          exact ⟨_, _, v, _, rfl, hr, by assumption⟩
      · rintro ⟨h', rest, v', entries, hl, hv, he⟩
        cases hl
        obtain rfl : v' = v := by
          rw [hr] at hv
          cases hv
          rfl
        rw [he]
        cases entries <;> rfl

/-- What is taken off is the first of all entries, and the others are left. -/
theorem entriesOf_pop {entry : α} (hview : ∀ entries, view (make entries) = entries)
    (h : (m.pop k view make).1 = .ok entry) :
    entriesOf k view (linesOf k m.headers) =
      (entriesOf k view (linesOf k (m.pop k view make).2.headers)).map (entry :: ·) := by
  obtain ⟨h, rest, v, entries, hl, hr, hv⟩ := pop_eq_ok.1 h
  rw [linesOf_pop, hl, entriesOf_cons hr]
  simp only [leftover, hr, hv]
  -- a line that held only this entry is gone, and any other line holds the rest of its entries
  cases entries with
  | nil =>
    simp only [List.nil_append, List.singleton_append]
  | cons next entries =>
    simp only [List.singleton_append]
    rw [entriesOf_cons Header.read_put, hview]
    cases entriesOf k view rest <;> rfl

end Pop

/-! ## Putting a line in front -/

theorem pushVia_keeps (entry : ViaEntry) (m : Message) : Keeps [.via] m (m.pushVia entry) :=
  .insertAt (Header.is_ofValue .via [entry]) _ m

theorem linesOf_pushVia (entry : ViaEntry) (m : Message) :
    linesOf .via (m.pushVia entry).headers =
      .ofValue .via [entry] :: linesOf .via m.headers :=
  linesOf_insertAt (Header.is_ofValue .via [entry])
    (is_eq_false_of_mem_take_viaPosition m.headers)

theorem entriesOf_pushVia (entry : ViaEntry) (m : Message) :
    entriesOf .via id (linesOf .via (m.pushVia entry).headers) =
      (entriesOf .via id (linesOf .via m.headers)).map (entry :: ·) := by
  rw [linesOf_pushVia, entriesOf_cons (Header.read_ofValue .via [entry])]
  rfl

theorem pushRecordRoute_keeps (entry : RouteEntry) (m : Message) :
    Keeps [.recordRoute] m (m.pushRecordRoute entry) :=
  .insertAt (Header.is_ofValue .recordRoute [entry]) _ m

theorem linesOf_pushRecordRoute (entry : RouteEntry) (m : Message) :
    linesOf .recordRoute (m.pushRecordRoute entry).headers =
      .ofValue .recordRoute [entry] :: linesOf .recordRoute m.headers :=
  linesOf_insertAt (Header.is_ofValue .recordRoute [entry])
    (is_eq_false_of_mem_take_recordRoutePosition m.headers)

/-! ## All Via entries -/

theorem viaEntries_fst (m : Message) :
    m.viaEntries.1 = entriesOf .via id (linesOf .via m.headers) :=
  Headers.viaEntries_fst m.headers

theorem viaEntries_keeps (m : Message) : Keeps [.via] m m.viaEntries.2 where
  start := rfl
  body := rfl
  lines _ hp := filter_viaEntries (hp .via List.mem_cons_self) m.headers

theorem viaEntries_viaEntries (m : Message) : m.viaEntries.2.viaEntries.1 = m.viaEntries.1 := by
  rw [viaEntries_fst, viaEntries_fst]
  exact entriesOf_congr (reads_viaEntries m.headers)

end SipProxy.Message
