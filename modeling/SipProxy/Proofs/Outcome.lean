/-!
# Steps that may fail

A step that yields a result has yielded one before it and went on from there. These laws take such a
run apart, be it of two steps or one for each item of a list, so that no proof about one has to
unfold the monad.
-/

namespace SipProxy.Outcome

variable {ε α β : Type} {x : Except ε α}

instance decEqExcept [DecidableEq ε] [DecidableEq α] : DecidableEq (Except ε α)
  | .ok a, .ok b => decidable_of_iff (a = b) (Except.ok.injEq a b).symm.to_iff
  | .error d, .error e => decidable_of_iff (d = e) (Except.error.injEq d e).symm.to_iff
  | .ok _, .error _ => .isFalse fun h => nomatch h
  | .error _, .ok _ => .isFalse fun h => nomatch h

theorem bind_eq_ok {f : α → Except ε β} {b : β} :
    (x >>= f) = .ok b ↔ ∃ a, x = .ok a ∧ f a = .ok b := by
  cases x with
  | error e =>
    constructor
    · intro h
      cases h
    · rintro ⟨_, h, -⟩
      cases h
  | ok a =>
    constructor
    · intro h
      exact ⟨a, rfl, h⟩
    · rintro ⟨_, ha, h⟩
      cases ha
      exact h

theorem andThen_eq_ok {u : Except ε PUnit} {b : α} :
    (u >>= fun _ => x) = .ok b ↔ u = .ok () ∧ x = .ok b := by
  rw [bind_eq_ok]
  exact ⟨fun ⟨_, hu, hx⟩ => ⟨hu, hx⟩, fun ⟨hu, hx⟩ => ⟨(), hu, hx⟩⟩

theorem map_eq_ok {f : α → β} {b : β} : x.map f = .ok b ↔ ∃ a, x = .ok a ∧ f a = b := by
  cases x <;> simp [Except.map]

theorem discard_eq_ok : (discard x : Except ε Unit) = .ok () ↔ ∃ a, x = .ok a := by
  cases x with
  | error e => exact iff_of_false (fun h => nomatch h) (fun ⟨_, h⟩ => nomatch h)
  | ok a => exact iff_of_true rfl ⟨a, rfl⟩

/-- A run that is refused under a condition. -/
theorem refuse_eq_ok {c : Prop} [Decidable c] {e : ε} {f : PUnit → Except ε β} {b : β} :
    (if c then (throw e >>= f) else f ()) = .ok b ↔ ¬ c ∧ f () = .ok b := by
  split
  · rename_i hc
    exact iff_of_false (fun h => nomatch h) (fun h => h.1 hc)
  · rename_i hc
    exact (and_iff_right hc).symm

/-! ## Lists -/

section MapM

variable {xs : List α} {ys : List β} {f : α → Except ε β}

theorem mapM_cons_eq_ok {x : α} :
    (x :: xs).mapM f = .ok ys ↔ ∃ y ys', f x = .ok y ∧ xs.mapM f = .ok ys' ∧ ys = y :: ys' := by
  rw [List.mapM_cons, bind_eq_ok]
  constructor
  · rintro ⟨y, hy, h⟩
    obtain ⟨ys', hys', h⟩ := bind_eq_ok.1 h
    cases h
    exact ⟨y, ys', hy, hys', rfl⟩
  · rintro ⟨y, ys', hy, hys', rfl⟩
    exact ⟨y, hy, bind_eq_ok.2 ⟨ys', hys', rfl⟩⟩

/-- What is known of the items tells what is known of the results. -/
theorem forall_of_mapM {P : α → Prop} {Q : β → Prop} (h : xs.mapM f = .ok ys)
    (hxs : ∀ x ∈ xs, P x) (hf : ∀ {x y}, P x → f x = .ok y → Q y) : ∀ y ∈ ys, Q y := by
  induction xs generalizing ys with
  | nil =>
    cases h
    intro y hy
    cases hy
  | cons x xs ih =>
    obtain ⟨y, ys', hy, hys', rfl⟩ := mapM_cons_eq_ok.1 h
    intro z hz
    rcases List.mem_cons.1 hz with rfl | hz
    · exact hf (hxs x List.mem_cons_self) hy
    · exact ih hys' (fun x' hx' => hxs x' (List.mem_cons_of_mem x hx')) z hz

/-- The results are told by a function that tells each of them. -/
theorem eq_map_of_mapM {g : α → β} (h : xs.mapM f = .ok ys)
    (hf : ∀ {x y}, f x = .ok y → y = g x) : ys = xs.map g := by
  induction xs generalizing ys with
  | nil =>
    cases h
    rfl
  | cons x xs ih =>
    obtain ⟨y, ys', hy, hys', rfl⟩ := mapM_cons_eq_ok.1 h
    rw [List.map_cons, ← hf hy, ← ih hys']

/-- What each item is made into, its own result tells. -/
theorem mapM_map {γ : Type} {zs : List γ} {g : γ → α} {view : γ → β}
    (hf : ∀ z ∈ zs, f (g z) = .ok (view z)) : (zs.map g).mapM f = .ok (zs.map view) := by
  induction zs with
  | nil => rfl
  | cons z zs ih =>
    exact mapM_cons_eq_ok.2 ⟨view z, zs.map view, hf z List.mem_cons_self,
      ih fun z' hz' => hf z' (List.mem_cons_of_mem z hz'), rfl⟩

theorem ne_nil_of_mapM (h : xs.mapM f = .ok ys) (hne : xs ≠ []) : ys ≠ [] := by
  obtain ⟨x, xs', rfl⟩ := List.exists_cons_of_ne_nil hne
  obtain ⟨y, ys', -, -, rfl⟩ := mapM_cons_eq_ok.1 h
  exact List.cons_ne_nil y ys'

/-- There are results if every item has one. -/
theorem exists_mapM_iff : (∃ ys, xs.mapM f = .ok ys) ↔ ∀ x ∈ xs, ∃ y, f x = .ok y := by
  induction xs with
  | nil => exact ⟨fun _ _ hx => absurd hx List.not_mem_nil, fun _ => ⟨[], rfl⟩⟩
  | cons x xs ih =>
    rw [List.forall_mem_cons, ← ih]
    constructor
    · rintro ⟨_, h⟩
      obtain ⟨y, ys, hy, hys, -⟩ := mapM_cons_eq_ok.1 h
      exact ⟨⟨y, hy⟩, ys, hys⟩
    · rintro ⟨⟨y, hy⟩, ys, hys⟩
      exact ⟨y :: ys, mapM_cons_eq_ok.2 ⟨y, ys, hy, hys, rfl⟩⟩

end MapM

theorem forM_eq_ok_iff {xs : List α} {f : α → Except ε Unit} :
    xs.forM f = .ok () ↔ ∀ x ∈ xs, f x = .ok () := by
  induction xs with
  | nil => exact ⟨fun _ _ hx => absurd hx List.not_mem_nil, fun _ => rfl⟩
  | cons x xs ih =>
    rw [List.forall_mem_cons, ← ih]
    exact andThen_eq_ok

/-! ## Faults -/

/-- If the run fails, its fault is one of these. -/
def FailsIn (P : ε → Prop) (x : Except ε α) : Prop := ∀ e, x = .error e → P e

namespace FailsIn

variable {P : ε → Prop}

theorem ok (a : α) : FailsIn P (.ok a : Except ε α) := fun _ h => nomatch h

theorem error {e : ε} (h : P e) : FailsIn P (.error e : Except ε α) := by
  rintro _ ⟨⟩
  exact h

theorem bind {f : α → Except ε β} (hx : FailsIn P x) (hf : ∀ a, FailsIn P (f a)) :
    FailsIn P (x >>= f) := by
  cases x with
  | ok a => exact hf a
  | error e => exact .error (hx e rfl)

theorem ite {y : Except ε α} {c : Prop} [Decidable c] (hx : FailsIn P x) (hy : FailsIn P y) :
    FailsIn P (if c then x else y) := by
  split
  · exact hx
  · exact hy

theorem map (f : α → β) (hx : FailsIn P x) : FailsIn P (x.map f) := by
  cases x with
  | ok a => exact .ok (f a)
  | error e => exact .error (hx e rfl)

theorem mapM {f : α → Except ε β} (hf : ∀ a, FailsIn P (f a)) (xs : List α) :
    FailsIn P (xs.mapM f) := by
  induction xs with
  | nil => exact .ok []
  | cons x xs ih =>
    rw [List.mapM_cons]
    exact (hf x).bind fun y => ih.bind fun ys => .ok (y :: ys)

end FailsIn

/-! ## Two runs -/

/-- Two runs both succeed, with results in one relation, or both fail, with faults in another. -/
inductive Agree {α' : Type} (E : ε → ε → Prop) (R : α → α' → Prop) :
    Except ε α → Except ε α' → Prop where
  | ok {a : α} {a' : α'} (h : R a a') : Agree E R (.ok a) (.ok a')
  | error {e e' : ε} (h : E e e') : Agree E R (.error e) (.error e')

namespace Agree

variable {α' β' : Type} {E : ε → ε → Prop} {R : α → α' → Prop} {S : β → β' → Prop}
  {x' : Except ε α'}

theorem of_ok {a : α} (h : Agree E R (.ok a) x') : ∃ a', x' = .ok a' ∧ R a a' := by
  cases h with
  | ok h => exact ⟨_, rfl, h⟩

theorem mono {R' : α → α' → Prop} (hx : Agree E R x x') (hR : ∀ a a', R a a' → R' a a') :
    Agree E R' x x' := by
  cases hx with
  | ok h => exact .ok (hR _ _ h)
  | error h => exact .error h

/-- Runs that agree so far and go on to agree. -/
theorem bind {f : α → Except ε β} {f' : α' → Except ε β'} (hx : Agree E R x x')
    (hf : ∀ a a', R a a' → Agree E S (f a) (f' a')) : Agree E S (x >>= f) (x' >>= f') := by
  cases hx with
  | ok h => exact hf _ _ h
  | error h => exact .error h

theorem map {f : α → β} {f' : α' → β'} (hx : Agree E R x x')
    (hf : ∀ a a', R a a' → S (f a) (f' a')) : Agree E S (x.map f) (x'.map f') := by
  cases hx with
  | ok h => exact .ok (hf _ _ h)
  | error h => exact .error h

end Agree

end SipProxy.Outcome
