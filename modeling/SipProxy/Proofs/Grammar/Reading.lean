import SipProxy.Grammar.Reader

/-!
# What readers take

A reader of a run stops at the first octet outside its class and nowhere else, so what it takes and
what may follow say all about it (`Reader.run1_eq_some`). A reader that repeats another takes one
item after another until none follows (`Reader.Reads`), which is what `many` does for every reader
that takes at least an octet each time (`Reader.many_eq_iff`).
-/

namespace SipProxy.Reader

variable {α β : Type} {p : UInt8 → Bool} {w s rest : Octets}

/-! ## Runs -/

/-- A run of the class ends in front of these octets. -/
def Stops (p : UInt8 → Bool) (rest : Octets) : Prop := ∀ b ∈ rest.head?, p b = false

theorem stops_nil (p : UInt8 → Bool) : Stops p [] := by
  intro b hb
  cases hb

theorem stops_cons {b : UInt8} : Stops p (b :: rest) ↔ p b = false := by
  simp [Stops]

theorem stops_dropWhile (p : UInt8 → Bool) (s : Octets) : Stops p (s.dropWhile p) := by
  intro b hb
  have h := List.head?_dropWhile_not p s
  rw [Option.mem_def.1 hb] at h
  simpa using h

theorem takeWhile_append (hw : ∀ b ∈ w, p b = true) (hr : Stops p rest) :
    (w ++ rest).takeWhile p = w := by
  rw [List.takeWhile_append_of_pos hw]
  cases rest with
  | nil => simp
  | cons b rest => simp [stops_cons.1 hr]

theorem dropWhile_append (hw : ∀ b ∈ w, p b = true) (hr : Stops p rest) :
    (w ++ rest).dropWhile p = rest := by
  rw [List.dropWhile_append_of_pos hw]
  cases rest with
  | nil => rfl
  | cons b rest => simp [stops_cons.1 hr]

theorem run_eq_iff :
    run p s = (w, rest) ↔ s = w ++ rest ∧ (∀ b ∈ w, p b = true) ∧ Stops p rest := by
  constructor
  · intro h
    cases h
    exact ⟨List.takeWhile_append_dropWhile.symm, List.all_eq_true.1 List.all_takeWhile,
      stops_dropWhile p s⟩
  · rintro ⟨rfl, hw, hr⟩
    rw [run, takeWhile_append hw hr, dropWhile_append hw hr]

/-- A run is as long as it can be, and not empty. -/
theorem run1_eq_some :
    run1 p s = some (w, rest) ↔
      s = w ++ rest ∧ w ≠ [] ∧ (∀ b ∈ w, p b = true) ∧ Stops p rest := by
  constructor
  · intro h
    cases s with
    | nil => cases h
    | cons b s =>
      unfold run1 at h
      simp only [Option.ite_none_right_eq_some] at h
      obtain ⟨hb, h⟩ := h
      obtain ⟨heq, hw, hr⟩ := run_eq_iff.1 (Option.some.inj h)
      refine ⟨heq, ?_, hw, hr⟩
      -- the first octet is of the class, so the rest does not begin with it
      rintro rfl
      rw [List.nil_append] at heq
      subst heq
      rw [stops_cons.1 hr] at hb
      cases hb
  · rintro ⟨rfl, hne, hw, hr⟩
    obtain ⟨b, w, rfl⟩ := List.exists_cons_of_ne_nil hne
    have hb := hw b List.mem_cons_self
    rw [List.cons_append, run1, ← List.cons_append]
    simp only [hb, if_true]
    exact congrArg some (run_eq_iff.2 ⟨rfl, hw, hr⟩)

theorem run1_append (hne : w ≠ []) (hw : ∀ b ∈ w, p b = true) (hr : Stops p rest) :
    run1 p (w ++ rest) = some (w, rest) :=
  run1_eq_some.2 ⟨rfl, hne, hw, hr⟩

theorem consumes_run1 (p : UInt8 → Bool) : Consumes (run1 p) := by
  intro s w rest h
  obtain ⟨rfl, hne, -, -⟩ := run1_eq_some.1 h
  have hpos := List.length_pos_iff.2 hne
  rw [List.length_append]
  omega

/-! ## Single octets and alternatives -/

theorem octet_eq_some {b : UInt8} : octet b s = some rest ↔ s = b :: rest := by
  cases s with
  | nil => simp [octet]
  | cons c s =>
    by_cases h : c = b
    · simp [octet, h]
    · simp [octet, h]

theorem octet_eq_none {b : UInt8} : octet b s = none ↔ ∀ c ∈ s.head?, c ≠ b := by
  cases s with
  | nil => simp [octet]
  | cons c s => simp [octet]

theorem optional_of_some {q : Reader α} {a : α} (h : q s = some (a, rest)) :
    optional q s = (some a, rest) := by
  simp [optional, h]

theorem optional_of_none {q : Reader α} (h : q s = none) : optional q s = (none, s) := by
  simp [optional, h]

theorem optional_eq_iff {q : Reader α} {r : Option α} :
    optional q s = (r, rest) ↔
      (∃ a, r = some a ∧ q s = some (a, rest)) ∨ r = none ∧ q s = none ∧ rest = s := by
  cases h : q s with
  | none => simp [optional_of_none h, eq_comm]
  | some x =>
    obtain ⟨a, rest'⟩ := x
    simp only [optional_of_some h, Prod.mk.injEq]
    constructor
    · rintro ⟨rfl, rfl⟩
      exact .inl ⟨a, rfl, rfl⟩
    · rintro (⟨b, rfl, hb⟩ | ⟨-, hb, -⟩)
      · cases hb
        exact ⟨rfl, rfl⟩
      · cases hb

theorem after_eq_some {skip : Skipper} {q : Reader α} {a : α} :
    after skip q s = some (a, rest) ↔ ∃ s', skip s = some s' ∧ q s' = some (a, rest) :=
  Option.bind_eq_some_iff

/-! ## Repetition -/

/-- Items are read one after another until none follows. -/
inductive Reads (q : Reader α) : Octets → List α → Octets → Prop
  | done {s : Octets} : q s = none → Reads q s [] s
  | next {s s' rest : Octets} {a : α} {as : List α} :
      q s = some (a, s') → Reads q s' as rest → Reads q s (a :: as) rest

variable {q : Reader α} {as : List α}

theorem reads_many (hq : q.Consumes) (s : Octets) : Reads q s (many q s).1 (many q s).2 := by
  -- every item takes an octet or more, so the induction is on the length
  induction hn : s.length using Nat.strongRecOn generalizing s with
  | ind n ih =>
    rw [many_eq hq]
    cases h : q s with
    | none => exact .done h
    | some r =>
      have hlt : r.2.length < n := hn ▸ hq h
      exact .next h (ih _ hlt r.2 rfl)

theorem many_eq_iff (hq : q.Consumes) : many q s = (as, rest) ↔ Reads q s as rest := by
  constructor
  · intro h
    have hreads := reads_many hq s
    rwa [h] at hreads
  · intro h
    induction h with
    | done h => rw [many_eq hq, h]
    | next h _ ih =>
      rw [many_eq hq, h]
      simp only [ih]

theorem Reads.length_le (hq : q.Consumes) (h : Reads q s as rest) : rest.length ≤ s.length := by
  induction h with
  | done _ => exact Nat.le_refl _
  | next h _ ih =>
    have hlt := hq h
    omega

/-- What is known of whatever the reader reads is known of every item. -/
theorem Reads.forall_mem {W : α → Prop} (h : Reads q s as rest)
    (hq : ∀ {s a rest}, q s = some (a, rest) → W a) : ∀ a ∈ as, W a := by
  induction h with
  | done _ => exact fun a ha => absurd ha List.not_mem_nil
  | next h _ ih =>
    intro b hb
    rcases List.mem_cons.1 hb with rfl | hb
    · exact hq h
    · exact ih b hb

/-- If every item is read from its spelling, then so are items one after another. What is known of
the octets that are read from may be used, as long as it is known of what is left. -/
theorem Reads.sound {spell : α → Octets} {W : α → Prop} {I : Octets → Prop}
    (h : Reads q s as rest) (hs : I s)
    (hq : ∀ {s a rest}, I s → q s = some (a, rest) → s = spell a ++ rest ∧ W a ∧ I rest) :
    s = as.flatMap spell ++ rest ∧ (∀ a ∈ as, W a) ∧ I rest := by
  induction h with
  | done _ => exact ⟨rfl, fun a ha => absurd ha List.not_mem_nil, hs⟩
  | next h _ ih =>
    obtain ⟨rfl, ha, hs'⟩ := hq hs h
    obtain ⟨rfl, has, hrest⟩ := ih hs'
    refine ⟨by rw [List.flatMap_cons, List.append_assoc], ?_, hrest⟩
    intro b hb
    rcases List.mem_cons.1 hb with rfl | hb
    · exact ha
    · exact has b hb

/-- If every spelling is read in front of what may follow an item, and another spelling may follow
it, then spellings one after another are read. -/
theorem Reads.complete {bs : List β} {spell : β → Octets} {view : β → α} {E : Octets → Prop}
    (hq : ∀ b ∈ bs, ∀ rest, E rest → q (spell b ++ rest) = some (view b, rest))
    (hE : ∀ b ∈ bs, ∀ rest, E (spell b ++ rest)) (hrest : E rest) (hnone : q rest = none) :
    Reads q (bs.flatMap spell ++ rest) (bs.map view) rest := by
  induction bs with
  | nil => exact .done hnone
  | cons b bs ih =>
    have htail := ih (fun c hc => hq c (List.mem_cons_of_mem b hc))
      fun c hc => hE c (List.mem_cons_of_mem b hc)
    have hfollow : E (bs.flatMap spell ++ rest) := by
      cases bs with
      | nil => exact hrest
      | cons c cs =>
        rw [List.flatMap_cons, List.append_assoc]
        exact hE c (by simp) _
    rw [List.flatMap_cons, List.append_assoc]
    exact .next (hq b List.mem_cons_self _ hfollow) htail

theorem ne_nil_of_sepBy1 {sep : Skipper} (h : sepBy1 sep q s = some (as, rest)) : as ≠ [] := by
  unfold sepBy1 at h
  split at h
  · cases h
    exact List.cons_ne_nil _ _
  · cases h

theorem sepBy1_eq_some {sep : Skipper} (hq : (after sep q).Consumes) :
    sepBy1 sep q s = some (as, rest) ↔
      ∃ a s' as', q s = some (a, s') ∧ Reads (after sep q) s' as' rest ∧ as = a :: as' := by
  unfold sepBy1
  cases h : q s with
  | none => simp
  | some r =>
    obtain ⟨a, s'⟩ := r
    simp only [Option.some.injEq, Prod.mk.injEq]
    constructor
    · rintro ⟨rfl, rfl⟩
      exact ⟨a, s', _, ⟨rfl, rfl⟩, reads_many hq s', rfl⟩
    · rintro ⟨a', s'', as', ⟨rfl, rfl⟩, hreads, rfl⟩
      rw [(many_eq_iff hq).2 hreads]
      exact ⟨rfl, rfl⟩

end SipProxy.Reader
