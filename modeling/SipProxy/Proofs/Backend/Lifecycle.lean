import SipProxy.Proofs.Backend.Separation

/-!
# From entering to closing

Backends come into a pool in two ways, one by one and by a resolution of a watched name, and leave
it in three: by their address, by a resolution that no longer has it, and all at once. Whatever
happens, in any order and with any failures in between, a backend that came in is there and open, or
it is gone and was closed once (`PoolEvent.held_or_closed_once`).

What carries this is a balance of lists (`Pool.Turnover.Balances`): what was closed and what is
there is, up to order, what was there and what came in. It speaks of backends and never of
addresses, so that it does not matter how many backends have one address, or for whom they were
opened.
-/

namespace SipProxy

/-- What became of backends. -/
structure Pool.Turnover (β : Type) where
  /-- The backends that came into the pool, in order. -/
  entered : List β := []
  /-- The backends that were closed, in order, and as often as they were. -/
  closed : List β := []
  /-- The backends that a message was handed to. -/
  reached : List β := []

def Pool.Turnover.append {β : Type} (t t' : Pool.Turnover β) : Pool.Turnover β :=
  ⟨t.entered ++ t'.entered, t.closed ++ t'.closed, t.reached ++ t'.reached⟩

/-- What operations on a watched pool did to backends. -/
def Activity.turnover {β : Type} (a : Activity β) : Pool.Turnover β :=
  { entered := a.opened, closed := a.closed }

/-- What is done to a pool, or happens to it. -/
inductive PoolEvent (β : Type) where
  | add (b : β)
  | remove (address : Endpoint)
  /-- A message is sent, with what each backend would make of it. -/
  | send (outcome : β → Except ProxyError Unit)
  /-- A watch on a name starts, with this resolution. -/
  | watch (target : Hop) (interval : Nat) (r : Resolution β)
  /-- The name of one of the watches resolves again. -/
  | renew (watch : Nat) (r : Resolution β)
  /-- A second passes, and the names of the watches that are due resolve again. -/
  | tick (resolve : Resolver) (openAt : Opener β)
  | close

variable {β : Type} [Addressed β]

namespace PoolEvent

/-- The outcome of an event, and the pool and its backends after it. -/
def apply (p : WatchedPool β) :
    PoolEvent β → Except ProxyError Unit × WatchedPool β × Pool.Turnover β
  | add b => (.ok (), { p with pool := p.pool.add b }, { entered := [b] })
  | remove a =>
    (.ok (), { p with pool := (p.pool.remove a).2 }, { closed := (p.pool.remove a).1.toList })
  | send outcome =>
    match p.pool.next with
    | .ok (b, pool) => (outcome b, { p with pool }, { reached := [b] })
    | .error e => (.error e, p, {})
  | watch target interval r =>
    let started := p.watch (fun _ _ => r.result) r.openAt target interval
    (started.1, started.2.1, started.2.2.turnover)
  | renew i r =>
    match p.watches[i]? with
    | some w =>
      let renewed := r.renew w p.pool
      (.ok (), ⟨renewed.1, p.watches.set i renewed.2.1⟩, renewed.2.2.turnover)
    | none => (.ok (), p, {})
  | tick resolve openAt =>
    let passed := p.tick resolve openAt
    (.ok (), passed.1, passed.2.turnover)
  | close => (.ok (), p.close.1, p.close.2.turnover)

/-- The pool after events, and what became of backends. -/
def run (p : WatchedPool β) : List (PoolEvent β) → WatchedPool β × Pool.Turnover β
  | [] => (p, {})
  | e :: es =>
    let first := e.apply p
    let rest := run first.2.1 es
    (rest.1, first.2.2.append rest.2)

end PoolEvent

/-! ## Balance -/

namespace Pool.Turnover

omit [Addressed β]

/-- What was closed and what is there now is what was there before and what came in. -/
structure Balances (t : Turnover β) (before after : Pool β) : Prop where
  perm : (t.closed ++ after.backends).Perm (before.backends ++ t.entered)
  placed : before.IsPlaced → after.IsPlaced

variable {t t' : Turnover β} {p q r : Pool β}

theorem balances_refl (p : Pool β) : Balances {} p p :=
  ⟨by rw [List.append_nil]; exact .refl _, id⟩

theorem Balances.trans (h : Balances t p q) (h' : Balances t' q r) :
    Balances (t.append t') p r where
  perm := by
    have hsecond : (t.closed ++ t'.closed ++ r.backends).Perm
        (t.closed ++ (q.backends ++ t'.entered)) := by
      rw [List.append_assoc]
      exact h'.perm.append_left t.closed
    have hfirst : (t.closed ++ (q.backends ++ t'.entered)).Perm
        (p.backends ++ (t.entered ++ t'.entered)) := by
      rw [← List.append_assoc, ← List.append_assoc]
      exact h.perm.append_right t'.entered
    exact hsecond.trans hfirst
  placed hp := h'.placed (h.placed hp)

/-- A message is handed to a backend, and none comes or goes. -/
theorem balances_next {b : β} (h : p.next = .ok (b, q)) (reached : List β) :
    Balances { reached } p q :=
  ⟨by rw [backends_of_next h, List.append_nil]; exact .refl _, fun _ => isPlaced_of_next h⟩

theorem balances_add (b : β) (p : Pool β) : Balances { entered := [b] } p (p.add b) :=
  ⟨.refl _, fun hp => hp.add b⟩

theorem balances_clear (p : Pool β) : Balances { closed := p.clear.1 } p p.clear.2 :=
  ⟨.refl _, fun _ => isPlaced_empty⟩

variable [Addressed β]

theorem balances_remove (a : Endpoint) (p : Pool β) :
    Balances { closed := (p.remove a).1.toList } p (p.remove a).2 :=
  ⟨by rw [List.append_nil]; exact p.remove_perm a, fun hp => hp.remove a⟩

theorem balances_follow (openAt : Opener β) (w : Watch) (as : List Endpoint) (p : Pool β) :
    Balances (WatchedPool.follow openAt w as p).2.2.turnover p
      (WatchedPool.follow openAt w as p).1 where
  perm := by
    show ((Membership.removeAll _ p).1 ++ (Membership.follow _ as w.known p).pool.backends).Perm _
    rw [Membership.backends_follow, ← List.append_assoc]
    exact (Membership.removeAll_perm _ p).append_right _
  placed hp := (Membership.isPlaced_removeAll hp _).foldl_add _

theorem balances_renew (resolve : Resolver) (openAt : Opener β) (w : Watch) (p : Pool β) :
    Balances (WatchedPool.renew resolve openAt w p).2.2.turnover p
      (WatchedPool.renew resolve openAt w p).1 := by
  unfold WatchedPool.renew
  cases resolve w.target.host w.target.port with
  | ok as => exact balances_follow openAt w as p
  | error e => exact balances_refl p

theorem balances_renewAll (resolve : Resolver) (openAt : Opener β) (ws : List Watch) (p : Pool β) :
    Balances (WatchedPool.renewAll resolve openAt ws p).2.2.turnover p
      (WatchedPool.renewAll resolve openAt ws p).1 := by
  induction ws generalizing p with
  | nil => exact balances_refl p
  | cons w ws ih => exact (balances_renew resolve openAt w p).trans (ih _)

theorem balances_watch (resolve : Resolver) (openAt : Opener β) (target : Hop) (interval : Nat)
    (p : WatchedPool β) :
    Balances (p.watch resolve openAt target interval).2.2.turnover p.pool
      (p.watch resolve openAt target interval).2.1.pool := by
  unfold WatchedPool.watch
  cases resolve target.host target.port with
  | ok as => exact balances_follow openAt _ as p.pool
  | error e => exact balances_refl p.pool

end Pool.Turnover

namespace PoolEvent

open Pool.Turnover

variable {p : WatchedPool β} {events : List (PoolEvent β)} {b : β}

/-- Every event is balanced. -/
theorem balances_apply (e : PoolEvent β) (p : WatchedPool β) :
    Balances (e.apply p).2.2 p.pool (e.apply p).2.1.pool := by
  cases e with
  | add b => exact balances_add b p.pool
  | remove a => exact balances_remove a p.pool
  | send outcome =>
    cases hnext : p.pool.next with
    | ok r =>
      simp only [apply, hnext]
      exact balances_next hnext _
    | error e =>
      simp only [apply, hnext]
      exact balances_refl p.pool
  | watch target interval r => exact balances_watch _ r.openAt target interval p
  | renew i r =>
    cases hw : p.watches[i]? with
    | some w =>
      simp only [apply, hw]
      exact balances_renew _ r.openAt _ p.pool
    | none =>
      simp only [apply, hw]
      exact balances_refl p.pool
  | tick resolve openAt => exact balances_renewAll resolve openAt _ p.pool
  | close => exact balances_clear p.pool

/-- And so is every run. -/
theorem balances_run (p : WatchedPool β) (events : List (PoolEvent β)) :
    Balances (run p events).2 p.pool (run p events).1.pool := by
  induction events generalizing p with
  | nil => exact balances_refl p.pool
  | cons e es ih => exact (balances_apply e p).trans (ih (e.apply p).2.1)

/-! ## Backends one by one -/

/-- A message reaches one of the backends that are there, and changes nothing but the turn. -/
theorem apply_send_of_ne_nil (hp : p.pool.IsPlaced) (hne : p.pool.backends ≠ [])
    (outcome : β → Except ProxyError Unit) :
    ∃ b ∈ p.pool.backends, ∃ pool, (send outcome).apply p =
        (outcome b, ⟨pool, p.watches⟩, { reached := [b] }) ∧ pool.backends = p.pool.backends := by
  rcases hp.next with ⟨hnil, -⟩ | ⟨hlt, hnext⟩
  · exact absurd hnil hne
  · have hsent : (send outcome).apply p = (outcome p.pool.backends[p.pool.index],
        ⟨⟨p.pool.backends, (p.pool.index + 1) % p.pool.backends.length⟩, p.watches⟩,
        { reached := [p.pool.backends[p.pool.index]] }) := by
      simp only [apply, hnext]
    exact ⟨_, List.getElem_mem hlt, _, hsent, rfl⟩

theorem apply_send_of_eq_nil (hp : p.pool.IsPlaced) (hnil : p.pool.backends = [])
    (outcome : β → Except ProxyError Unit) :
    (send outcome).apply p = (.error .noBackend, p, {}) := by
  rcases hp.next with ⟨-, hnext⟩ | ⟨hlt, -⟩
  · simp only [apply, hnext]
  · rw [hnil] at hlt
    exact absurd hlt (Nat.not_lt_zero _)

/-- A pool closes what it loses and nothing else. Let no backend come into it twice. Then at any
time every backend that came in is there, once, and was never closed, or it is not there and was
closed once; and no others are there or were closed. A message reaches one of the backends that are
there, and where there is none it is refused and nothing changes. -/
theorem held_or_closed_once [DecidableEq β] (events : List (PoolEvent β))
    (h : (run .empty events).2.entered.Nodup) :
    let p := (run .empty events).1
    let t := (run .empty events).2
    (∀ b ∈ t.entered,
      p.pool.backends.count b = 1 ∧ t.closed.count b = 0 ∨
        b ∉ p.pool.backends ∧ t.closed.count b = 1) ∧
    (∀ b, b ∈ p.pool.backends ∨ b ∈ t.closed → b ∈ t.entered) ∧
    (p.pool.backends ≠ [] → ∀ outcome, ∃ b ∈ p.pool.backends, b ∉ t.closed ∧
      ∃ pool, (send outcome).apply p = (outcome b, ⟨pool, p.watches⟩, { reached := [b] }) ∧
        pool.backends = p.pool.backends) ∧
    (p.pool.backends = [] → ∀ outcome, (send outcome).apply p = (.error .noBackend, p, {})) := by
  intro p t
  obtain ⟨hperm, hplaced⟩ := balances_run (.empty : WatchedPool β) events
  have hperm : (t.closed ++ p.pool.backends).Perm t.entered := hperm
  have hp : p.pool.IsPlaced := hplaced Pool.isPlaced_empty
  have hcount : ∀ b ∈ t.entered, t.closed.count b + p.pool.backends.count b = 1 := by
    intro b hb
    rw [← List.count_append, hperm.count_eq, List.count_eq_one_of_mem h hb]
  have hmem : ∀ b, b ∈ p.pool.backends ∨ b ∈ t.closed → b ∈ t.entered := by
    intro b hb
    exact hperm.mem_iff.1 (List.mem_append.2 hb.symm)
  refine ⟨?_, hmem, ?_, apply_send_of_eq_nil hp⟩
  · intro b hb
    have hone := hcount b hb
    by_cases hin : b ∈ p.pool.backends
    · have hpos := List.count_pos_iff.2 hin
      exact .inl ⟨by omega, by omega⟩
    · rw [List.count_eq_zero_of_not_mem hin] at hone
      exact .inr ⟨hin, hone⟩
  · intro hne outcome
    obtain ⟨b, hb, pool, hsent, hsame⟩ := apply_send_of_ne_nil hp hne outcome
    have hone := hcount b (hmem b (.inl hb))
    have hpos := List.count_pos_iff.2 hb
    exact ⟨b, hb, List.count_eq_zero.1 (by omega), pool, hsent, hsame⟩

/-- Two backends of one address, and a watched name that comes to the same address: what the name
drops is the backend that came first, and of another address that cannot be opened there is nothing
to close. -/
theorem held_or_closed_once_of_one_address :
    let a : Endpoint := .v4 ⟨10, 0, 0, 1⟩ 5060
    let b : Endpoint := .v4 ⟨10, 0, 0, 2⟩ 5060
    let named : Hop := ⟨.tcp, "one.test", 5060⟩
    let up : Opener (Opened Nat) := fun protocol x => if x = b then none else some ⟨3, protocol, x⟩
    let events : List (PoolEvent (Opened Nat)) :=
      [.add ⟨1, .udp, a⟩, .add ⟨2, .udp, a⟩, .send fun _ => .error (.transport .closed),
        .watch named 30 ⟨.ok [a], up, id, fun _ => .refl _⟩,
        .renew 0 ⟨.error .closed, up, id, fun _ => .refl _⟩,
        .renew 0 ⟨.ok [b], up, id, fun _ => .refl _⟩, .remove b]
    let p := (run .empty events).1
    let t := (run .empty events).2
    t.entered = [⟨1, .udp, a⟩, ⟨2, .udp, a⟩, ⟨3, .tcp, a⟩] ∧ t.entered.Nodup ∧
      t.closed.count ⟨1, .udp, a⟩ = 1 ∧ t.closed.count ⟨3, .tcp, a⟩ = 0 ∧
      ∃ x ∈ p.pool.backends, x ∉ t.closed ∧ ((send fun _ => .ok ()).apply p).2.2.reached = [x] := by
  intro a b named up events p t
  have hentered : t.entered = [⟨1, .udp, a⟩, ⟨2, .udp, a⟩, ⟨3, .tcp, a⟩] := by decide +kernel
  have hn : t.entered.Nodup := by
    rw [hentered]
    decide
  have hheld : p.pool.backends = [⟨2, .udp, a⟩, ⟨3, .tcp, a⟩] := by decide +kernel
  obtain ⟨heach, -, hsend, -⟩ := held_or_closed_once events hn
  have hfirst := (heach ⟨1, .udp, a⟩ (by rw [hentered]; decide)).resolve_left ?_
  · have hthird := (heach ⟨3, .tcp, a⟩ (by rw [hentered]; decide)).resolve_right ?_
    · obtain ⟨x, hx, hopen, pool, hsent, -⟩ := hsend (by rw [hheld]; decide) fun _ => .ok ()
      exact ⟨hentered, hn, hfirst.2, hthird.2, x, hx, hopen, by rw [hsent]⟩
    · intro hgone
      exact hgone.1 (by rw [hheld]; decide)
  · intro hthere
    rw [hheld] at hthere
    exact absurd hthere.1 (by decide)

end PoolEvent

end SipProxy
