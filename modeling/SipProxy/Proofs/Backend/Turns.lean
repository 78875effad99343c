import SipProxy.Proofs.Backend.Rotation

/-!
# Taking turns

What the rotation promises while backends come and go. A run of a pool is a list of requests, and a
*lap* of a backend is the part of a run from one of its selections to the next. In a lap every other
backend that is there all the time is selected exactly once (`IsLap.count_eq_one`). What carries the
proof is the order of two backends in the rotation: only a selection of one of the two changes it,
so the other one has had its turn in this lap exactly if it stands behind.

The backend whose lap it is has to be there all the time too. One that leaves and comes back is put
at the end of the list, and a lap that it spends outside may be too short for some of the others
(`exists_turn_missed`).
-/

namespace SipProxy.Pool

/-- What can be asked of a pool. -/
inductive Request (β : Type) where
  /-- To select a backend for a message. -/
  | next
  | add (b : β)
  | remove (address : Endpoint)

variable {β : Type}

/-- The backend that a request selects, if there is one to select. -/
def selected? (p : Pool β) : Request β → Option β
  | .next =>
    match p.next with
    | .ok r => some r.1
    | .error _ => none
  | .add _ => none
  | .remove _ => none

section Runs

variable [Addressed β]

/-- The pool after a request. -/
def step (p : Pool β) : Request β → Pool β
  | .next =>
    match p.next with
    | .ok r => r.2
    | .error _ => p
  | .add b => p.add b
  | .remove a => (p.remove a).2

/-- The pool after requests. -/
def run (p : Pool β) : List (Request β) → Pool β
  | [] => p
  | r :: rs => (p.step r).run rs

/-- The backends that requests select, in order. -/
def selections (p : Pool β) : List (Request β) → List β
  | [] => []
  | r :: rs => (p.selected? r).toList ++ (p.step r).selections rs

/-- The pools that requests lead through, the first and the last included. -/
def stages (p : Pool β) : List (Request β) → List (Pool β)
  | [] => [p]
  | r :: rs => p :: (p.step r).stages rs

/-- From one selection of `b` to the next: the requests between them select others, and all the time
`b` is in the pool and no two backends have one address. -/
structure IsLap (p : Pool β) (b : β) (rs : List (Request β)) : Prop where
  first : p.selected? .next = some b
  others : b ∉ (p.step .next).selections rs
  last : ((p.step .next).run rs).selected? .next = some b
  stays : ∀ q ∈ (p.step .next).stages rs, b ∈ q.backends
  distinct : ∀ q ∈ (p.step .next).stages rs, q.addresses.Nodup

end Runs

variable {p : Pool β} {b c : β} {r : Request β} {rs : List (Request β)}

/-! ## The order of two backends -/

theorem IsPlaced.selected?_next (hp : p.IsPlaced) (hne : p.backends ≠ []) :
    ∃ x, p.selected? .next = some x := by
  rcases hp.next with ⟨hnil, -⟩ | ⟨hlt, hnext⟩
  · exact absurd hnil hne
  · exact ⟨p.backends[p.index], by simp only [selected?, hnext]⟩

theorem length_backends_of_rotation {front back : List β} (h : p.rotation = front ++ b :: back) :
    p.backends.length = front.length + back.length + 1 := by
  rw [← p.rotation_perm.length_eq, h, List.length_append, List.length_cons]
  omega

/-- Nobody stands in front of the first. -/
theorem not_sublist_cons {rest : List β} (hn : (b :: rest).Nodup) :
    ¬ [c, b].Sublist (b :: rest) := by
  intro hsub
  have hmem : b ∈ rest := by
    rcases List.sublist_cons_iff.1 hsub with h | ⟨tail, ht, h⟩
    · exact h.subset (by simp)
    · cases ht
      exact h.subset (by simp)
  exact (List.nodup_cons.1 hn).1 hmem

/-- When the first becomes the last, the others keep their order. -/
theorem sublist_append_of_cons {x : β} {rest : List β} (hb : b ≠ x)
    (hsub : [b, c].Sublist (x :: rest)) : [b, c].Sublist (rest ++ [x]) := by
  rcases List.sublist_cons_iff.1 hsub with h | ⟨tail, ht, -⟩
  · exact h.trans (List.sublist_append_left rest [x])
  · cases ht
    exact absurd rfl hb

variable [Addressed β]

theorem mem_stages_self : p ∈ p.stages rs := by
  cases rs with
  | nil => exact List.mem_singleton.2 rfl
  | cons r rs => exact List.mem_cons_self

/-! ## One request -/

theorem IsPlaced.step (hp : p.IsPlaced) (r : Request β) : (p.step r).IsPlaced := by
  cases r with
  | next =>
    unfold Pool.step
    cases h : p.next with
    | ok r => exact isPlaced_of_next h
    | error e => exact hp
  | add b => exact hp.add b
  | remove a => exact hp.remove a

theorem IsPlaced.run (hp : p.IsPlaced) (rs : List (Request β)) : (p.run rs).IsPlaced := by
  induction rs generalizing p with
  | nil => exact hp
  | cons r rs ih => exact ih (hp.step r)

theorem nodup_rotation (hn : p.addresses.Nodup) : p.rotation.Nodup :=
  p.rotation_perm.nodup_iff.2 (List.Nodup.of_map _ hn)

/-- Whoever is selected stood first in the rotation and stands last now. -/
theorem rotation_of_selected (h : p.selected? r = some b) :
    ∃ rest, p.rotation = b :: rest ∧ (p.step r).rotation = rest ++ [b] := by
  cases r with
  | next =>
    unfold selected? at h
    unfold step
    cases hnext : p.next with
    | ok r =>
      rw [hnext] at h
      cases h
      exact rotation_of_next hnext
    | error e =>
      rw [hnext] at h
      cases h
  | add b => cases h
  | remove a => cases h

/-- A request that selects nobody leaves those who stay in their order. -/
theorem sublist_rotation_step (hp : p.IsPlaced) (hn : p.addresses.Nodup)
    (h : p.selected? r = none) {bs : List β} (hbs : ∀ x ∈ bs, x ∈ (p.step r).backends)
    (hsub : bs.Sublist p.rotation) : bs.Sublist (p.step r).rotation := by
  cases r with
  | next =>
    unfold selected? at h
    unfold step
    cases hnext : p.next with
    | ok r =>
      rw [hnext] at h
      cases h
    | error e => exact hsub
  | add b =>
    obtain ⟨front, back, hr, hr'⟩ := rotation_add hp b
    show bs.Sublist (p.add b).rotation
    rw [hr] at hsub
    rw [hr']
    exact hsub.trans ((List.Sublist.refl front).append (List.sublist_cons_self b back))
  | remove a =>
    have hr := rotation_remove hp hn a
    have hkeep : bs.filter (fun x => Addressed.address x ≠ a) = bs := by
      refine List.filter_eq_self.2 fun x hx => ?_
      have hmem := mem_rotation.2 (hbs x hx)
      show decide (Addressed.address x ≠ a) = true
      rw [show (p.step (.remove a)).rotation = (p.remove a).2.rotation from rfl, hr] at hmem
      exact (List.mem_filter.1 hmem).2
    show bs.Sublist (p.remove a).2.rotation
    rw [hr, ← hkeep]
    exact hsub.filter _

theorem backends_step_next (p : Pool β) : (p.step .next).backends = p.backends := by
  unfold step
  cases h : p.next with
  | ok r => exact backends_of_next h
  | error e => rfl

/-! ## Laps -/

variable [DecidableEq β]

/-- Until `b` is selected, `c` is selected once if it stands in front of `b`, and not at all if it
stands behind. -/
theorem count_selections_of_sublist (hp : p.IsPlaced) (hbc : c ≠ b)
    (hn : ∀ q ∈ p.stages rs, q.addresses.Nodup) (hb : ∀ q ∈ p.stages rs, b ∈ q.backends)
    (hc : ∀ q ∈ p.stages rs, c ∈ q.backends) (hothers : b ∉ p.selections rs)
    (hlast : (p.run rs).selected? .next = some b) :
    ([c, b].Sublist p.rotation → (p.selections rs).count c = 1) ∧
      ([b, c].Sublist p.rotation → (p.selections rs).count c = 0) := by
  induction rs generalizing p with
  | nil =>
    obtain ⟨rest, hrest, -⟩ := rotation_of_selected (p := p) hlast
    have hnodup := nodup_rotation (hn p mem_stages_self)
    rw [hrest] at hnodup ⊢
    exact ⟨fun h => absurd h (not_sublist_cons hnodup), fun _ => rfl⟩
  | cons r rs ih =>
    have htail : ∀ q ∈ (p.step r).stages rs, q ∈ p.stages (r :: rs) := by
      intro q hq
      exact List.mem_cons_of_mem p hq
    rw [selections, List.mem_append, not_or] at hothers
    have ih := ih (hp.step r) (fun q hq => hn q (htail q hq)) (fun q hq => hb q (htail q hq))
      (fun q hq => hc q (htail q hq)) hothers.2 hlast
    have hnodup := nodup_rotation (hn p mem_stages_self)
    rw [selections, List.count_append]
    cases hsel : p.selected? r with
    | none =>
      have hmem : ∀ x, x = b ∨ x = c → x ∈ (p.step r).backends := by
        rintro x (rfl | rfl)
        · exact hb _ (htail _ mem_stages_self)
        · exact hc _ (htail _ mem_stages_self)
      have hkeep : ∀ {bs : List β}, (∀ x ∈ bs, x = b ∨ x = c) → bs.Sublist p.rotation →
          bs.Sublist (p.step r).rotation := by
        intro bs hbs
        exact sublist_rotation_step hp (hn p mem_stages_self) hsel fun x hx => hmem x (hbs x hx)
      rw [Option.toList_none, List.count_nil, Nat.zero_add]
      constructor
      · intro h
        exact ih.1 (hkeep (by simp) h)
      · intro h
        exact ih.2 (hkeep (by simp) h)
    | some x =>
      obtain ⟨rest, hrest, hrest'⟩ := rotation_of_selected hsel
      rw [hrest] at hnodup ⊢
      rw [hrest'] at ih
      rw [hsel] at hothers
      have hxb : x ≠ b := by
        rintro rfl
        exact hothers.1 (by simp)
      rw [Option.toList_some]
      by_cases hxc : x = c
      · -- its turn: it was in front, and stands behind from now on
        subst hxc
        have hmem : b ∈ rest := by
          have hmem := mem_rotation.2 (hb p mem_stages_self)
          rw [hrest] at hmem
          exact (List.mem_cons.1 hmem).resolve_left hbc.symm
        have hbehind : [b, x].Sublist (rest ++ [x]) :=
          (List.singleton_sublist.2 hmem).append (List.Sublist.refl [x])
        refine ⟨fun _ => ?_, fun h => absurd h (not_sublist_cons hnodup)⟩
        rw [ih.2 hbehind, List.count_singleton_self]
      · -- the turn of a third one, who stands in front of both
        rw [List.count_singleton, if_neg (by simpa using hxc), Nat.zero_add]
        constructor
        · intro h
          exact ih.1 (sublist_append_of_cons (Ne.symm hxc) h)
        · intro h
          exact ih.2 (sublist_append_of_cons (Ne.symm hxb) h)

/-- Every other backend that is there all the time has one turn in a lap. -/
theorem IsLap.count_eq_one (h : p.IsLap b rs) (hp : p.IsPlaced) (hbc : c ≠ b)
    (hc : ∀ q ∈ (p.step .next).stages rs, c ∈ q.backends) :
    ((p.step .next).selections rs).count c = 1 := by
  obtain ⟨rest, -, hrest⟩ := rotation_of_selected h.first
  refine (count_selections_of_sublist (hp.step .next) hbc h.distinct h.stays hc h.others
    h.last).1 ?_
  -- at the beginning of the lap its backend has just become the last
  have hmem : c ∈ rest := by
    have hmem := mem_rotation.2 (hc _ mem_stages_self)
    rw [hrest, List.mem_append] at hmem
    exact hmem.resolve_right fun h => hbc (List.mem_singleton.1 h)
  rw [hrest]
  exact (List.singleton_sublist.2 hmem).append (List.Sublist.refl [b])

/-! ## Selections alone -/

/-- Of `k` selections a backend has as many as its place in the rotation comes round. -/
theorem count_selections_replicate {front back : List β} (hp : p.IsPlaced)
    (hn : p.addresses.Nodup) (hr : p.rotation = front ++ b :: back) (k : Nat) :
    (p.selections (List.replicate k .next)).count b =
      (k + p.backends.length - 1 - front.length) / p.backends.length := by
  induction k generalizing p front back with
  | zero =>
    have hlen := length_backends_of_rotation hr
    rw [Nat.div_eq_of_lt (by omega)]
    rfl
  | succ k ih =>
    have hlen := length_backends_of_rotation hr
    obtain ⟨x, hx⟩ := hp.selected?_next (List.ne_nil_of_length_pos (by omega))
    obtain ⟨rest, hrest, hrest'⟩ := rotation_of_selected hx
    have hnodup := nodup_rotation hn
    have hn' : (p.step .next).addresses.Nodup := by
      rw [addresses, backends_step_next]
      exact hn
    have ih := @ih (p.step .next)
    rw [backends_step_next] at ih
    rw [List.replicate_succ, selections, List.count_append, hx, Option.toList_some]
    rw [hrest] at hr hnodup
    generalize p.backends.length = n at ih hlen ⊢
    cases front with
    | nil =>
      -- its turn now, and then when all others have had theirs
      obtain ⟨rfl, rfl⟩ := List.cons.inj hr
      rw [List.length_nil] at hlen ⊢
      have hturn : k + n - 1 - rest.length = k := by omega
      have hnow : k + 1 + n - 1 - 0 = k + n := by omega
      rw [ih (hp.step .next) hn' hrest', hturn, List.count_singleton_self, hnow,
        Nat.add_div_right k (by omega), Nat.add_comm]
    | cons y front =>
      rw [List.cons_append, List.cons.injEq] at hr
      obtain ⟨rfl, rfl⟩ := hr
      have hxb : x ≠ b := by
        rintro rfl
        exact (List.nodup_cons.1 hnodup).1 (by simp)
      have hshift : (p.step .next).rotation = front ++ b :: (back ++ [x]) := by
        rw [hrest']
        simp
      have hnow : k + 1 + n - 1 - (x :: front).length = k + n - 1 - front.length := by
        rw [List.length_cons]
        omega
      rw [ih (hp.step .next) hn' hshift, List.count_singleton, if_neg (by simpa using hxb),
        Nat.zero_add, hnow]

/-- Of `k` selections every backend of a pool of `n` has its share, which is `k / n` rounded down or
rounded up. -/
theorem count_selections_eq (hp : p.IsPlaced) (hn : p.addresses.Nodup) (hb : b ∈ p.backends)
    (k : Nat) :
    (p.selections (List.replicate k .next)).count b = k / p.backends.length ∨
      (p.selections (List.replicate k .next)).count b =
        (k + p.backends.length - 1) / p.backends.length := by
  obtain ⟨front, back, hr⟩ := List.append_of_mem (mem_rotation.2 hb)
  have hcount := count_selections_replicate hp hn hr k
  have hlen := length_backends_of_rotation hr
  generalize p.backends.length = n at hcount hlen ⊢
  have hlow : k / n ≤ (k + n - 1 - front.length) / n :=
    Nat.div_le_div_right (by omega)
  have hhigh : (k + n - 1 - front.length) / n ≤ (k + n - 1) / n :=
    Nat.div_le_div_right (by omega)
  have hgap : (k + n - 1) / n ≤ k / n + 1 := by
    rw [← Nat.add_div_right k (by omega : 0 < n)]
    exact Nat.div_le_div_right (by omega)
  omega

/-! ## Runs -/

/-- After every run of a pool its position is one of the list, so that it refuses to select only
for lack of backends; in every lap that begins then, every other backend that stays has one turn;
and selections alone give every backend its share of them, rounded down or rounded up. -/
theorem selects_in_turn (before : List (Request β)) :
    let p := (empty : Pool β).run before
    p.IsPlaced ∧
      ((p.backends = [] ∧ p.next = .error .noBackend) ∨
        ∃ h : p.index < p.backends.length,
          p.next = .ok (p.backends[p.index], ⟨p.backends, (p.index + 1) % p.backends.length⟩)) ∧
      (∀ b between, p.IsLap b between →
        ∀ c, c ≠ b → (∀ q ∈ (p.step .next).stages between, c ∈ q.backends) →
          ((p.step .next).selections between).count c = 1) ∧
      (p.addresses.Nodup → ∀ k, ∀ b ∈ p.backends,
        (p.selections (List.replicate k .next)).count b = k / p.backends.length ∨
          (p.selections (List.replicate k .next)).count b =
            (k + p.backends.length - 1) / p.backends.length) := by
  intro p
  have hp : p.IsPlaced := isPlaced_empty.run before
  refine ⟨hp, hp.next, ?_, ?_⟩
  · intro b between hlap c hbc hc
    exact hlap.count_eq_one hp hbc hc
  · intro hn k b hb
    exact count_selections_eq hp hn hb k

/-- The barest backend is its own address. -/
instance : Addressed Endpoint := ⟨id⟩

/-- A lap in which one backend comes and another goes: the one that stays has its turn in it. -/
theorem selects_in_turn_of_churn :
    let a : Endpoint := .v4 ⟨10, 0, 0, 1⟩ 5060
    let b : Endpoint := .v4 ⟨10, 0, 0, 2⟩ 5060
    let c : Endpoint := .v4 ⟨10, 0, 0, 3⟩ 5060
    let d : Endpoint := .v6 ⟨[0, 0, 0, 0, 0, 0, 0, 1], rfl⟩ 5060 0
    let p : Pool Endpoint := empty.run [.add a, .add b, .add c, .next]
    let between : List (Request Endpoint) := [.add d, .remove a, .next, .next]
    (p.IsLap b between ∧ c ≠ b ∧ (∀ q ∈ (p.step .next).stages between, c ∈ q.backends) ∧
        p.addresses.Nodup ∧ a ∈ p.backends) ∧
      ((p.step .next).selections between).count c = 1 ∧
      ((p.selections (List.replicate 4 .next)).count a = 4 / 3 ∨
        (p.selections (List.replicate 4 .next)).count a = (4 + 3 - 1) / 3) := by
  intro a b c d p between
  obtain ⟨-, -, hlap, hshare⟩ := @selects_in_turn Endpoint _ _ [.add a, .add b, .add c, .next]
  have h : p.IsLap b between := by
    refine ⟨?_, ?_, ?_, ?_, ?_⟩
    all_goals decide
  have hcb : c ≠ b := by decide
  have hc : ∀ q ∈ (p.step .next).stages between, c ∈ q.backends := by decide
  have hn : p.addresses.Nodup := by decide
  have ha : a ∈ p.backends := by decide
  exact ⟨⟨h, hcb, hc, hn, ha⟩, hlap b between h c hcb hc, hshare hn 4 a ha⟩

/-- A backend that leaves after its turn and comes back is selected again before another one that
was there all the time. -/
theorem exists_turn_missed :
    ∃ (before between : List (Request Endpoint)) (a b : Endpoint),
      let p : Pool Endpoint := empty.run before
      a ≠ b ∧ p.selected? .next = some b ∧ b ∉ (p.step .next).selections between ∧
        ((p.step .next).run between).selected? .next = some b ∧
        (∀ q ∈ empty.stages before, q.addresses.Nodup) ∧
        (∀ q ∈ (p.step .next).stages between, q.addresses.Nodup ∧ a ∈ q.backends) ∧
        ((p.step .next).selections between).count a = 0 := by
  refine ⟨[.add (.v4 ⟨10, 0, 0, 1⟩ 5060), .add (.v4 ⟨10, 0, 0, 2⟩ 5060),
      .add (.v4 ⟨10, 0, 0, 3⟩ 5060), .next],
    [.remove (.v4 ⟨10, 0, 0, 2⟩ 5060), .add (.v4 ⟨10, 0, 0, 2⟩ 5060), .next],
    .v4 ⟨10, 0, 0, 1⟩ 5060, .v4 ⟨10, 0, 0, 2⟩ 5060, ?_⟩
  decide

end SipProxy.Pool
