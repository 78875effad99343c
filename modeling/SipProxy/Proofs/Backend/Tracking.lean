import SipProxy.Backend.Watch
import SipProxy.Proofs.Backend.Following
import SipProxy.Proofs.Backend.Turns

/-!
# Watching one name

A pool whose backends all come from one watched name, through any number of resolutions, successful
or not, with messages sent in between. The invariant is that the watch knows the addresses that the
pool has backends for, each once (`Membership.Tracks`); what one resolution changes then is a
`Membership.Renewal`.

A watch keeps the known addresses as a set, and goes through it in whatever order it comes. That
order is part of each event here, so that the theorems range over all of them.
-/

namespace SipProxy

/-- A resolution of a watched name, and what came of it. -/
structure Resolution (β : Type) where
  result : Except TransportError (List Endpoint)
  /-- What could be opened then. -/
  openAt : Opener β
  /-- The order in which the known addresses were gone through. -/
  order : List Endpoint → List Endpoint
  order_perm : ∀ known, (order known).Perm known

/-- What happens to a watched pool. -/
inductive WatchEvent (β : Type) where
  /-- A message is sent. -/
  | selection
  | resolution (r : Resolution β)

variable {β : Type} [Addressed β]

namespace Resolution

/-- The backends that are opened have the addresses that they are opened for. -/
def IsFaithful (r : Resolution β) : Prop :=
  ∀ protocol a b, r.openAt protocol a = some b → Addressed.address b = a

/-- Renews a watch by the resolution. -/
def renew (r : Resolution β) (w : Watch) (p : Pool β) : Pool β × Watch × Activity β :=
  WatchedPool.renew (fun _ _ => r.result) r.openAt { w with known := r.order w.known } p

end Resolution

namespace WatchEvent

/-- The pool and its watch after an event. -/
def after (s : Pool β × Watch) : WatchEvent β → Pool β × Watch
  | selection => (s.1.step .next, s.2)
  | resolution r => ((r.renew s.2 s.1).1, (r.renew s.2 s.1).2.1)

/-- The pool and its watch after events. -/
def run (s : Pool β × Watch) (events : List (WatchEvent β)) : Pool β × Watch :=
  events.foldl after s

/-- The same happens: a name resolves to the same set of addresses and the same can be opened, or it
does not resolve. In what order sets are listed may differ. -/
inductive Alike : WatchEvent β → WatchEvent β → Prop where
  | selection : Alike selection selection
  | failure {r r' : Resolution β} {e e' : TransportError} :
      r.result = .error e → r'.result = .error e' → Alike (resolution r) (resolution r')
  | success {r r' : Resolution β} {as bs : List Endpoint} :
      r.result = .ok as → r'.result = .ok bs → (∀ a, a ∈ as ↔ a ∈ bs) → r.openAt = r'.openAt →
      Alike (resolution r) (resolution r')

end WatchEvent

/-! ## Where renewals come from -/

/-- A watch begins with a renewal that knows no address. -/
theorem WatchedPool.watch_eq_renew {resolve : Resolver} {target : Hop} {as : List Endpoint}
    (h : resolve target.host target.port = .ok as) (openAt : Opener β) (interval : Nat)
    (p : WatchedPool β) :
    p.watch resolve openAt target interval =
      let r := renew resolve openAt ⟨target, interval, 0, []⟩ p.pool
      (.ok (), ⟨r.1, p.watches ++ [r.2.1]⟩, r.2.2) := by
  unfold watch renew
  simp only [h]

/-- A second in which the only watch of a pool is due brings a renewal. -/
theorem WatchedPool.tick_of_isDue {w : Watch} (h : isDue w = true) (resolve : Resolver)
    (openAt : Opener β) (p : Pool β) :
    (WatchedPool.tick resolve openAt ⟨p, [w]⟩).1 =
      ⟨(renew resolve openAt w p).1, [(renew resolve openAt w p).2.1]⟩ := by
  simp [tick, h, renewAll]

/-! ## One renewal -/

namespace Resolution

variable {r : Resolution β} {w : Watch} {p : Pool β} {as : List Endpoint}

theorem renew_of_ok (h : r.result = .ok as) (w : Watch) (p : Pool β) :
    let m := Membership.follow (r.openAt w.target.protocol) as (r.order w.known) p
    r.renew w p =
      (m.pool, { w with known := m.known, age := 0 }, ⟨m.closed, m.opened, [w.target]⟩) := by
  unfold renew WatchedPool.renew
  simp only [h]
  rfl

theorem renew_of_error {e : TransportError} (h : r.result = .error e) (w : Watch) (p : Pool β) :
    r.renew w p =
      (p, { w with known := r.order w.known, age := 0 }, { resolved := [w.target] }) := by
  unfold renew WatchedPool.renew
  simp only [h]

omit [Addressed β] in
theorem order_perm_order {known known' : List Endpoint} (h : known'.Perm known)
    (r r' : Resolution β) : (r'.order known').Perm (r.order known) :=
  ((r'.order_perm known').trans h).trans (r.order_perm known).symm

theorem target_renew (r : Resolution β) (w : Watch) (p : Pool β) :
    (r.renew w p).2.1.target = w.target := by
  cases h : r.result with
  | ok as => rw [renew_of_ok h]
  | error e => rw [renew_of_error h]

theorem mem_known_renew_of_ok (h : r.result = .ok as) {a : Endpoint} :
    a ∈ (r.renew w p).2.1.known ↔
      a ∈ as ∧ (a ∈ w.known ∨ (r.openAt w.target.protocol a).isSome) := by
  rw [renew_of_ok h, ← (r.order_perm w.known).mem_iff]
  exact Membership.mem_known_follow p

theorem nodup_known_renew (hn : w.known.Nodup) (r : Resolution β) (p : Pool β) :
    (r.renew w p).2.1.known.Nodup := by
  have hn' := (r.order_perm w.known).nodup_iff.2 hn
  cases h : r.result with
  | ok as =>
    rw [renew_of_ok h]
    exact Membership.nodup_known_follow hn' p
  | error e =>
    rw [renew_of_error h]
    exact hn'

end Resolution

namespace Membership.Tracks

variable {known : List Endpoint} {w : Watch} {p : Pool β} {r : Resolution β} {as : List Endpoint}

theorem of_perm {known' : List Endpoint} (h : Tracks known p) (hk : known'.Perm known) :
    Tracks known' p :=
  ⟨h.placed, h.distinct, hk.trans h.known_perm⟩

theorem step_next (h : Tracks known p) : Tracks known (p.step .next) := by
  have haddresses : (p.step .next).addresses = p.addresses := by
    rw [Pool.addresses, Pool.backends_step_next, Pool.addresses]
  refine ⟨h.placed.step .next, ?_, ?_⟩
  · rw [haddresses]
    exact h.distinct
  · rw [haddresses]
    exact h.known_perm

/-- The known addresses stay those of the pool. -/
theorem renew (h : Tracks w.known p) (hr : r.IsFaithful) :
    Tracks (r.renew w p).2.1.known (r.renew w p).1 := by
  have hw := h.of_perm (r.order_perm w.known)
  cases hres : r.result with
  | ok as =>
    rw [Resolution.renew_of_ok hres]
    exact hw.follow (hr w.target.protocol) as
  | error e =>
    rw [Resolution.renew_of_error hres]
    exact hw

theorem renewal (h : Tracks w.known p) (hres : r.result = .ok as) :
    Renewal (r.openAt w.target.protocol) as p (r.renew w p).1 (r.renew w p).2.2.closed
      (r.renew w p).2.2.opened := by
  rw [Resolution.renew_of_ok hres]
  exact (h.of_perm (r.order_perm w.known)).renewal_follow _ as

/-- A resolved address has a backend then if it had one before or one could be opened. -/
theorem mem_addresses_renew (h : Tracks w.known p) (hr : r.IsFaithful) (hres : r.result = .ok as)
    (a : Endpoint) :
    a ∈ (r.renew w p).1.addresses ↔
      a ∈ as ∧ (a ∈ p.addresses ∨ (r.openAt w.target.protocol a).isSome) := by
  rw [Resolution.renew_of_ok hres]
  exact (h.of_perm (r.order_perm w.known)).mem_addresses_follow (hr w.target.protocol) as

end Membership.Tracks

/-! ## Runs -/

namespace WatchEvent

open SipProxy.Membership

variable {s s' : Pool β × Watch} {events events' : List (WatchEvent β)}

theorem target_run (s : Pool β × Watch) (events : List (WatchEvent β)) :
    (run s events).2.target = s.2.target := by
  induction events generalizing s with
  | nil => rfl
  | cons e es ih =>
    refine (ih (after s e)).trans ?_
    cases e with
    | selection => rfl
    | resolution r => exact r.target_renew s.2 s.1

theorem tracks_after {e : WatchEvent β} (h : Tracks s.2.known s.1)
    (hf : ∀ r, e = .resolution r → r.IsFaithful) : Tracks (after s e).2.known (after s e).1 := by
  cases e with
  | selection => exact h.step_next
  | resolution r => exact h.renew (hf r rfl)

theorem tracks_run (h : Tracks s.2.known s.1)
    (hf : ∀ r, .resolution r ∈ events → Resolution.IsFaithful r) :
    Tracks (run s events).2.known (run s events).1 := by
  induction events generalizing s with
  | nil => exact h
  | cons e es ih =>
    refine ih (s := after s e) (tracks_after h ?_) fun r hr => hf r (List.mem_cons_of_mem e hr)
    rintro r rfl
    exact hf r List.mem_cons_self

/-- Two watched pools that differ in the order of the known addresses alone. -/
structure Agree (s s' : Pool β × Watch) : Prop where
  pool : s'.1 = s.1
  target : s'.2.target = s.2.target
  known : s'.2.known.Perm s.2.known

theorem Agree.after {e e' : WatchEvent β} (h : Agree s s') (ht : Tracks s.2.known s.1)
    (he : Alike e e') : Agree (WatchEvent.after s e) (WatchEvent.after s' e') := by
  obtain ⟨p, w⟩ := s
  obtain ⟨p', w'⟩ := s'
  obtain ⟨hpool, htarget, hknown⟩ := h
  obtain rfl : p' = p := hpool
  cases he with
  | selection => exact ⟨rfl, htarget, hknown⟩
  | @failure r r' err err' hr hr' =>
    simp only [WatchEvent.after, Resolution.renew_of_error hr, Resolution.renew_of_error hr']
    exact ⟨rfl, htarget, r.order_perm_order hknown r'⟩
  | @success r r' as bs hr hr' has ho =>
    let openAt := r.openAt w.target.protocol
    have hfollow : (follow openAt as (r.order w.known) p').pool =
          (follow openAt bs (r'.order w'.known) p').pool ∧
        (follow openAt bs (r'.order w'.known) p').known.Perm
          (follow openAt as (r.order w.known) p').known :=
      (ht.of_perm (r.order_perm w.known)).follow_congr (r.order_perm_order hknown r') has
    simp only [WatchEvent.after, Resolution.renew_of_ok hr, Resolution.renew_of_ok hr', ← ho]
    rw [show w'.target = w.target from htarget]
    exact ⟨hfollow.1.symm, rfl, hfollow.2⟩

theorem Agree.run (h : Agree s s') (ht : Tracks s.2.known s.1)
    (hf : ∀ r, .resolution r ∈ events → Resolution.IsFaithful r)
    (hes : List.Forall₂ Alike events events') :
    Agree (WatchEvent.run s events) (WatchEvent.run s' events') := by
  induction hes generalizing s s' with
  | nil => exact h
  | @cons e e' es es' he _ ih =>
    refine ih (h.after ht he) (tracks_after ht ?_) fun r hr => hf r (List.mem_cons_of_mem e hr)
    rintro r rfl
    exact hf r List.mem_cons_self

/-- The pool and the watch of one name, through resolutions that succeed or fail and messages that
are sent. The watch knows the addresses of the pool, and no address occurs twice. Neither a message
nor a resolution that fails changes the membership, and a resolution that succeeds is a renewal: an
address without a backend is tried, so also one that could not be opened before. What the pool is,
down to its position, depends on the sets of addresses alone. -/
theorem run_tracks (target : Hop) (interval : Nat) (events : List (WatchEvent β))
    (hf : ∀ r, .resolution r ∈ events → Resolution.IsFaithful r) :
    let start : Pool β × Watch := (.empty, ⟨target, interval, 0, []⟩)
    let s := run start events
    (∀ a, a ∈ s.2.known ↔ a ∈ s.1.addresses) ∧ s.2.known.Nodup ∧ s.1.addresses.Nodup ∧
    (after s .selection).1.backends = s.1.backends ∧
    (∀ (r : Resolution β) e, r.result = .error e →
      (r.renew s.2 s.1).1 = s.1 ∧ (r.renew s.2 s.1).2.1.known.Perm s.2.known ∧
        (r.renew s.2 s.1).2.2.closed = [] ∧ (r.renew s.2 s.1).2.2.opened = []) ∧
    (∀ (r : Resolution β) addresses, r.result = .ok addresses →
      Renewal (r.openAt target.protocol) addresses s.1 (r.renew s.2 s.1).1
        (r.renew s.2 s.1).2.2.closed (r.renew s.2 s.1).2.2.opened ∧
      (r.IsFaithful → ∀ a, a ∈ (r.renew s.2 s.1).1.addresses ↔
        a ∈ addresses ∧ (a ∈ s.1.addresses ∨ (r.openAt target.protocol a).isSome))) ∧
    ∀ events', List.Forall₂ Alike events events' →
      (run start events').1 = s.1 ∧ (run start events').2.known.Perm s.2.known := by
  intro start s
  have hstart : Tracks start.2.known start.1 :=
    ⟨Pool.isPlaced_empty, List.nodup_nil, List.Perm.refl _⟩
  have hs : Tracks s.2.known s.1 := tracks_run hstart hf
  have htarget : s.2.target = target := target_run start events
  refine ⟨fun _ => hs.mem_known, hs.known_perm.nodup_iff.2 hs.distinct, hs.distinct,
    s.1.backends_step_next, ?_, ?_, ?_⟩
  · intro r e hr
    rw [Resolution.renew_of_error hr]
    exact ⟨rfl, r.order_perm _, rfl, rfl⟩
  · intro r addresses hr
    rw [← htarget]
    exact ⟨hs.renewal hr, fun hfr => hs.mem_addresses_renew hfr hr⟩
  · intro events' hes
    have hagree := Agree.run (Agree.mk (s := start) rfl rfl (List.Perm.refl _)) hstart hf hes
    exact ⟨hagree.pool, hagree.known⟩

/-- An address that could not be opened is tried again by the resolution after the next, and the
order of addresses makes no difference. -/
theorem run_tracks_of_retry :
    let a : Endpoint := .v4 ⟨10, 0, 0, 1⟩ 5060
    let b : Endpoint := .v4 ⟨10, 0, 0, 2⟩ 5060
    let c : Endpoint := .v4 ⟨10, 0, 0, 3⟩ 5060
    let up : Opener Endpoint := fun _ x => some x
    let down : Opener Endpoint := fun _ x => if x = b then none else some x
    let first : Resolution Endpoint := ⟨.ok [c, b, a, b], down, id, fun _ => .refl _⟩
    let first' : Resolution Endpoint := ⟨.ok [a, b, c], down, List.reverse, List.reverse_perm⟩
    let failed : Resolution Endpoint := ⟨.error .closed, up, id, fun _ => .refl _⟩
    let later : Resolution Endpoint := ⟨.ok [b, c], up, List.reverse, List.reverse_perm⟩
    let start : Pool Endpoint × Watch := (.empty, ⟨⟨.udp, "one.test", 5060⟩, 30, 0, []⟩)
    let events : List (WatchEvent Endpoint) := [.resolution first, .selection, .resolution failed]
    let s := run start events
    (∀ r, .resolution r ∈ events → Resolution.IsFaithful r) ∧
      first.result = .ok [c, b, a, b] ∧ failed.result = .error .closed ∧
      later.result = .ok [b, c] ∧ later.IsFaithful ∧
      (∀ x, x ∈ s.2.known ↔ x ∈ s.1.addresses) ∧ b ∉ s.1.addresses ∧
      (failed.renew s.2 s.1).1 = s.1 ∧
      Renewal (up .udp) [b, c] s.1 (later.renew s.2 s.1).1 (later.renew s.2 s.1).2.2.closed
        (later.renew s.2 s.1).2.2.opened ∧
      b ∈ (later.renew s.2 s.1).1.addresses ∧
      (run start [.resolution first', .selection, .resolution failed]).1 = s.1 := by
  intro a b c up down first first' failed later start events s
  have hup : ∀ (p : Protocol) x y, up p x = some y → Addressed.address y = x := by
    intro _ x y h
    exact (Option.some.inj h).symm
  have hdown : ∀ (p : Protocol) x y, down p x = some y → Addressed.address y = x := by
    intro _ x y h
    by_cases hx : x = b
    · simp [down, hx] at h
    · simp only [down, if_neg hx] at h
      exact (Option.some.inj h).symm
  have hf : ∀ r, .resolution r ∈ events → Resolution.IsFaithful r := by
    intro r hr
    simp only [events, List.mem_cons, WatchEvent.resolution.injEq, reduceCtorEq, false_or,
      List.not_mem_nil, or_false] at hr
    rcases hr with rfl | rfl
    · exact hdown
    · exact hup
  have hsame : ∀ x, x ∈ [c, b, a, b] ↔ x ∈ [a, b, c] := by
    intro x
    simp only [List.mem_cons, List.not_mem_nil, or_false]
    tauto
  have hes : List.Forall₂ Alike events [.resolution first', .selection, .resolution failed] :=
    .cons (.success rfl rfl hsame rfl) (.cons .selection (.cons (.failure rfl rfl) .nil))
  obtain ⟨hknown, -, -, -, herror, hok, hcongr⟩ :=
    run_tracks ⟨.udp, "one.test", 5060⟩ 30 events hf
  have hlater := hok later [b, c] rfl
  have hmissing : b ∉ s.1.addresses := by
    obtain ⟨-, -, -, -, -, hbegin, -⟩ :=
      @run_tracks Endpoint _ ⟨.udp, "one.test", 5060⟩ 30 [] fun _ hr => absurd hr List.not_mem_nil
    have hsame : s.1.addresses = (first.renew start.2 start.1).1.addresses := by
      show ((first.renew start.2 start.1).1.step .next).addresses = _
      rw [Pool.addresses, Pool.backends_step_next, Pool.addresses]
    rw [hsame]
    intro hb
    rcases (((hbegin first _ rfl).2 hdown b).1 hb).2 with hb | hb
    · cases hb
    · simp [first, down] at hb
  exact ⟨hf, rfl, rfl, rfl, hup, hknown, hmissing, (herror failed .closed rfl).1, hlater.1,
    (hlater.2 hup b).2 ⟨List.mem_cons_self, .inr rfl⟩, (hcongr _ hes).1⟩

end WatchEvent

end SipProxy
