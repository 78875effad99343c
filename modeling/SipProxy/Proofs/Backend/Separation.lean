import SipProxy.Proofs.Backend.Tracking

/-!
# Watching several names

A pool whose backends come from several watched names. Each watch knows which addresses it has
backends for, but a backend is found by its address alone when it is to leave. If two names resolve
to one address, the first to drop it closes the backend that was opened first, whoever it was opened
for.

What carries the proofs is the queue of an address: the watches whose names resolve to it, in the
order in which they came to it (`Sync.queue`). The backends of the address stand in the pool in this
order, one for each watch of the queue (`Queues`). So a watch takes its own backend out exactly if
it stands in front (`Sync.IsInTurn`), and the names are kept apart exactly as long as they drop
every address in the order in which they came to it (`separate_iff_isInTurn`). Nothing makes them do
so (`closed_backend_of_other`).
-/

namespace SipProxy

/-- A resolution of one of several watched names. -/
structure Sync (ι β : Type) where
  watcher : ι
  resolution : Resolution β

/-- What is remembered of the opening of a backend. -/
structure Provenance (ι β : Type) where
  /-- The watch that the backend was opened for. -/
  owner : β → ι
  protocol : β → Protocol

variable {ι β : Type} [DecidableEq ι] [Addressed β]

namespace Sync

/-- The pool and its watches after a resolution. -/
def after (s : Pool β × (ι → Watch)) (e : Sync ι β) : Pool β × (ι → Watch) :=
  let r := e.resolution.renew (s.2 e.watcher) s.1
  (r.1, Function.update s.2 e.watcher r.2.1)

/-- The backends that a resolution closes. -/
def closed (s : Pool β × (ι → Watch)) (e : Sync ι β) : List β :=
  (e.resolution.renew (s.2 e.watcher) s.1).2.2.closed

/-- The pool and its watches after resolutions. -/
def run (s : Pool β × (ι → Watch)) (events : List (Sync ι β)) : Pool β × (ι → Watch) :=
  events.foldl after s

/-- Every backend that is asked for can be opened. -/
def Opens (l : Provenance ι β) (target : ι → Hop) (e : Sync ι β) : Prop :=
  ∀ a, ∃ b, e.resolution.openAt (target e.watcher).protocol a = some b ∧
    Addressed.address b = a ∧ l.owner b = e.watcher ∧
      l.protocol b = (target e.watcher).protocol

/-- Notes what a name resolved to. -/
def noted (seen : ι → List Endpoint) (e : Sync ι β) : ι → List Endpoint :=
  match e.resolution.result with
  | .ok addresses => Function.update seen e.watcher addresses
  | .error _ => seen

/-- The addresses that each name last resolved to. -/
def resolved (events : List (Sync ι β)) : ι → List Endpoint := events.foldl noted fun _ => []

/-- Lets a watch come to the addresses that are new to it, and leave those that it no longer has. -/
def queued (q : Endpoint → List ι) (e : Sync ι β) : Endpoint → List ι :=
  match e.resolution.result with
  | .ok addresses => fun a =>
    if a ∈ addresses then if e.watcher ∈ q a then q a else q a ++ [e.watcher]
    else (q a).erase e.watcher
  | .error _ => q

/-- The watches whose names resolve to an address, in the order in which they came to it. -/
def queue (events : List (Sync ι β)) : Endpoint → List ι := events.foldl queued fun _ => []

/-- Whoever leaves an address leaves it from the front of its queue. -/
def IsInTurn (q : Endpoint → List ι) (e : Sync ι β) : Prop :=
  ∀ addresses, e.resolution.result = .ok addresses →
    ∀ a, e.watcher ∈ q a → a ∉ addresses → (q a).head? = some e.watcher

end Sync

/-- A pool has one backend for every watch and every address that its name last resolved to, opened
for it and with the protocol of its target, and no others. -/
structure Separate (l : Provenance ι β) (target : ι → Hop) (seen : ι → List Endpoint) (p : Pool β) :
    Prop where
  count : ∀ i a, (p.backends.countP fun b => l.owner b = i ∧ Addressed.address b = a) =
    if a ∈ seen i then 1 else 0
  protocol : ∀ b ∈ p.backends, l.protocol b = (target (l.owner b)).protocol

/-! ## Queues -/

namespace Sync

omit [Addressed β]

variable {q : Endpoint → List ι} {e : Sync ι β} {a : Endpoint} {as : List Endpoint}

theorem queued_of_ok (h : e.resolution.result = .ok as) (q : Endpoint → List ι) (a : Endpoint) :
    queued q e a =
      if a ∈ as then if e.watcher ∈ q a then q a else q a ++ [e.watcher]
      else (q a).erase e.watcher := by
  unfold queued
  simp only [h]

theorem queued_of_error {err : TransportError} (h : e.resolution.result = .error err)
    (q : Endpoint → List ι) : queued q e = q := by
  unfold queued
  simp only [h]

theorem nodup_queued (hn : (q a).Nodup) : (queued q e a).Nodup := by
  cases h : e.resolution.result with
  | error err => rwa [queued_of_error h]
  | ok as =>
    rw [queued_of_ok h]
    split
    · split
      · exact hn
      · rename_i hi
        rw [← List.concat_eq_append]
        exact hn.concat hi
    · exact hn.erase _

theorem mem_queued_of_ok (hn : (q a).Nodup) (h : e.resolution.result = .ok as) (i : ι) :
    i ∈ queued q e a ↔ if i = e.watcher then a ∈ as else i ∈ q a := by
  rw [queued_of_ok h]
  by_cases hi : i = e.watcher
  · subst hi
    by_cases ha : a ∈ as
    · by_cases hq : e.watcher ∈ q a <;> simp [ha, hq]
    · simp [ha, hn.not_mem_erase]
  · by_cases ha : a ∈ as
    · by_cases hq : e.watcher ∈ q a <;> simp [ha, hq, hi]
    · simp [ha, hi, List.mem_erase_of_ne]

theorem nodup_queue (events : List (Sync ι β)) (a : Endpoint) : (queue events a).Nodup := by
  induction events using List.reverseRecOn with
  | nil => exact List.nodup_nil
  | append_singleton es e ih =>
    rw [queue, List.foldl_append]
    exact nodup_queued ih

/-- In the queue of an address are those whose names last resolved to it. -/
theorem mem_queue (events : List (Sync ι β)) (i : ι) (a : Endpoint) :
    i ∈ queue events a ↔ a ∈ resolved events i := by
  induction events using List.reverseRecOn with
  | nil => exact iff_of_false List.not_mem_nil List.not_mem_nil
  | append_singleton es e ih =>
    rw [queue, resolved, List.foldl_append, List.foldl_append]
    show i ∈ queued (queue es) e a ↔ a ∈ noted (resolved es) e i
    cases h : e.resolution.result with
    | error err =>
      rw [queued_of_error h]
      simpa only [noted, h] using ih
    | ok as =>
      rw [mem_queued_of_ok (nodup_queue es a) h]
      simp only [noted, h, Function.update_apply]
      split
      · rfl
      · exact ih

end Sync

omit [DecidableEq ι] in
/-- Whatever is opened tells truly what it was opened for. -/
theorem Sync.Opens.of_openAt {l : Provenance ι β} {target : ι → Hop} {e : Sync ι β}
    (ho : e.Opens l target) {a : Endpoint} {b : β}
    (hab : e.resolution.openAt (target e.watcher).protocol a = some b) :
    Addressed.address b = a ∧ l.owner b = e.watcher ∧
      l.protocol b = (target e.watcher).protocol := by
  obtain ⟨b', hb', hb⟩ := ho a
  rw [hab] at hb'
  rwa [Option.some.inj hb']

/-- The backends of every address stand in the order of its queue, and every watch knows the
addresses in whose queue it is. -/
structure Queues (l : Provenance ι β) (target : ι → Hop) (q : Endpoint → List ι)
    (s : Pool β × (ι → Watch)) : Prop where
  owners : ∀ a, (s.1.backendsAt a).map l.owner = q a
  protocol : ∀ b ∈ s.1.backends, l.protocol b = (target (l.owner b)).protocol
  known : ∀ i a, a ∈ (s.2 i).known ↔ i ∈ q a
  distinct : ∀ i, (s.2 i).known.Nodup
  target : ∀ i, (s.2 i).target = target i

namespace Queues

variable {l : Provenance ι β} {target : ι → Hop} {q : Endpoint → List ι}
  {s : Pool β × (ι → Watch)} {e : Sync ι β}

omit [DecidableEq ι] in
theorem head?_backendsAt (h : Queues l target q s) (a : Endpoint) :
    (s.1.backendsAt a).head?.map l.owner = (q a).head? := by
  rw [← List.head?_map, h.owners]

omit [DecidableEq ι] in
/-- A resolution closes the first backends of the addresses that its watch drops. -/
theorem mem_closed (h : Queues l target q s) {as : List Endpoint}
    (hr : e.resolution.result = .ok as) (b : β) :
    b ∈ e.closed s ↔ ∃ a, e.watcher ∈ q a ∧ a ∉ as ∧ (s.1.backendsAt a).head? = some b := by
  have hperm := e.resolution.order_perm (s.2 e.watcher).known
  have hclosed : e.closed s =
      (Membership.vanished as (e.resolution.order (s.2 e.watcher).known)).filterMap fun a =>
        (s.1.backendsAt a).head? := by
    rw [Sync.closed, Resolution.renew_of_ok hr]
    exact Membership.removeAll_fst ((hperm.nodup_iff.2 (h.distinct _)).filter _) s.1
  simp only [hclosed, List.mem_filterMap, Membership.mem_vanished, hperm.mem_iff, h.known,
    and_assoc]

omit [DecidableEq ι] in
/-- Nobody's backend is closed but the own, exactly if every address is left in turn. -/
theorem closed_iff (h : Queues l target q s) :
    (∀ b ∈ e.closed s, l.owner b = e.watcher) ↔ e.IsInTurn q := by
  cases hr : e.resolution.result with
  | error err =>
    refine iff_of_true ?_ ?_
    · rw [Sync.closed, Resolution.renew_of_error hr]
      exact fun b hb => absurd hb List.not_mem_nil
    · intro as has
      rw [hr] at has
      cases has
  | ok as =>
    have hturn : e.IsInTurn q ↔
        ∀ a, e.watcher ∈ q a → a ∉ as → (q a).head? = some e.watcher := by
      unfold Sync.IsInTurn
      simp [hr]
    rw [hturn]
    constructor
    · intro hown a hi ha
      have hne : s.1.backendsAt a ≠ [] := by
        intro hnil
        have := h.owners a
        rw [hnil] at this
        rw [← this] at hi
        cases hi
      obtain ⟨b, rest, hb⟩ := List.exists_cons_of_ne_nil hne
      have hhead : (s.1.backendsAt a).head? = some b := by rw [hb]; rfl
      rw [← h.head?_backendsAt, hhead, Option.map_some,
        hown b ((h.mem_closed hr b).2 ⟨a, hi, ha, hhead⟩)]
    · intro hturn b hb
      obtain ⟨a, hi, ha, hhead⟩ := (h.mem_closed hr b).1 hb
      have hq := hturn a hi ha
      rw [← h.head?_backendsAt, hhead] at hq
      exact Option.some.inj hq

/-- If every address is left in turn, the backends stand in the order of the queues again. -/
theorem owners_after (h : Queues l target q s) (ho : e.Opens l target) (ht : e.IsInTurn q)
    {as : List Endpoint} (hr : e.resolution.result = .ok as) (a : Endpoint) :
    ((Sync.after s e).1.backendsAt a).map l.owner = Sync.queued q e a := by
  have hperm := e.resolution.order_perm (s.2 e.watcher).known
  have hknown : a ∈ e.resolution.order (s.2 e.watcher).known ↔ e.watcher ∈ q a :=
    hperm.mem_iff.trans (h.known e.watcher a)
  obtain ⟨b, hb, -, hbo, -⟩ := ho a
  simp only [Sync.after, Resolution.renew_of_ok hr, h.target]
  rw [Membership.backendsAt_follow (fun _ _ hab => (ho.of_openAt hab).1)
    (hperm.nodup_iff.2 (h.distinct _)), Sync.queued_of_ok hr, List.map_append, hb]
  simp only [Membership.mem_vanished, Membership.mem_new, hknown]
  by_cases ha : a ∈ as
  · by_cases hi : e.watcher ∈ q a
    · simp [ha, hi, h.owners]
    · simp [ha, hi, h.owners, hbo]
  · by_cases hi : e.watcher ∈ q a
    · obtain ⟨rest, hq⟩ := List.head?_eq_some_iff.1 (ht as hr a hi ha)
      simp [ha, h.owners, hq]
    · simp [ha, hi, h.owners, List.erase_of_not_mem]

theorem protocol_after (h : Queues l target q s) (ho : e.Opens l target) :
    ∀ b ∈ (Sync.after s e).1.backends, l.protocol b = (target (l.owner b)).protocol := by
  intro b hb
  cases hr : e.resolution.result with
  | error err =>
    simp only [Sync.after, Resolution.renew_of_error hr] at hb
    exact h.protocol b hb
  | ok as =>
    simp only [Sync.after, Resolution.renew_of_ok hr, h.target, Membership.backends_follow,
      List.mem_append, List.mem_filterMap] at hb
    rcases hb with hb | ⟨a, -, hab⟩
    · exact h.protocol b ((Membership.removeAll_perm _ s.1).subset (List.mem_append_right _ hb))
    · obtain ⟨-, howner, hprotocol⟩ := ho.of_openAt hab
      rw [hprotocol, howner]

theorem known_after (h : Queues l target q s) (hn : ∀ a, (q a).Nodup) (ho : e.Opens l target)
    (i : ι) (a : Endpoint) :
    a ∈ ((Sync.after s e).2 i).known ↔ i ∈ Sync.queued q e a := by
  show a ∈ (Function.update s.2 e.watcher (e.resolution.renew (s.2 e.watcher) s.1).2.1 i).known ↔ _
  rw [Function.update_apply]
  cases hr : e.resolution.result with
  | error err =>
    rw [Sync.queued_of_error hr, Resolution.renew_of_error hr]
    split
    · rename_i hi
      rw [hi, ← h.known]
      exact (e.resolution.order_perm _).mem_iff
    · exact h.known i a
  | ok as =>
    rw [Sync.mem_queued_of_ok (hn a) hr]
    split
    · obtain ⟨b, hb, -⟩ := ho a
      rw [Resolution.mem_known_renew_of_ok hr, h.target, hb]
      simp
    · exact h.known i a

/-- If every address is left in turn, the queues go on to tell everything. -/
theorem after (h : Queues l target q s) (hn : ∀ a, (q a).Nodup) (ho : e.Opens l target)
    (ht : e.IsInTurn q) : Queues l target (Sync.queued q e) (Sync.after s e) := by
  have hwatch : ∀ i, (Sync.after s e).2 i =
      if i = e.watcher then (e.resolution.renew (s.2 e.watcher) s.1).2.1 else s.2 i :=
    fun i => Function.update_apply s.2 e.watcher _ i
  refine ⟨?_, h.protocol_after ho, h.known_after hn ho, ?_, ?_⟩
  · intro a
    cases hr : e.resolution.result with
    | error err =>
      rw [Sync.queued_of_error hr, Sync.after, Resolution.renew_of_error hr]
      exact h.owners a
    | ok as => exact h.owners_after ho ht hr a
  · intro i
    rw [hwatch]
    split
    · exact Resolution.nodup_known_renew (h.distinct _) e.resolution s.1
    · exact h.distinct i
  · intro i
    rw [hwatch]
    split
    · rename_i hi
      rw [Resolution.target_renew, h.target, hi]
    · exact h.target i

/-- As long as the queues tell everything, the names are kept apart. -/
theorem separate (h : Queues l target q s) (hn : ∀ a, (q a).Nodup) {seen : ι → List Endpoint}
    (hseen : ∀ i a, i ∈ q a ↔ a ∈ seen i) : Separate l target seen s.1 := by
  refine ⟨?_, h.protocol⟩
  intro i a
  calc (s.1.backends.countP fun b => l.owner b = i ∧ Addressed.address b = a)
      = (s.1.backendsAt a).countP fun b => l.owner b = i := by
        rw [Pool.backendsAt, List.countP_filter]
        simp
    _ = (q a).count i := by
        rw [← h.owners, List.count, List.countP_map]
        rfl
    _ = if a ∈ seen i then 1 else 0 := by
        simp only [(hn a).count, hseen]

end Queues

/-! ## Runs -/

section Runs

variable (l : Provenance ι β) (target : ι → Hop) (interval : ι → Nat)

/-- An empty pool, and a watch for each target that knows nothing. -/
def Sync.start : Pool β × (ι → Watch) := (.empty, fun i => ⟨target i, interval i, 0, []⟩)

private theorem forall_prefix_concat {α : Type} {P : List α → α → Prop} {xs : List α} {x : α} :
    (∀ before y, before ++ [y] <+: xs ++ [x] → P before y) ↔
      (∀ before y, before ++ [y] <+: xs → P before y) ∧ P xs x := by
  constructor
  · intro h
    exact ⟨fun before y hp => h before y (hp.trans (List.prefix_append xs [x])),
      h xs x (List.prefix_refl _)⟩
  · rintro ⟨h, hx⟩ before y hp
    rcases List.prefix_concat_iff.1 hp with heq | hp
    · obtain ⟨rfl, hy⟩ := List.append_inj' heq rfl
      rwa [List.singleton_inj.1 hy]
    · exact h before y hp

theorem queues_run {events : List (Sync ι β)} (ho : ∀ e ∈ events, e.Opens l target)
    (ht : ∀ before e, before ++ [e] <+: events → e.IsInTurn (Sync.queue before)) :
    Queues l target (Sync.queue events) (Sync.run (Sync.start target interval) events) := by
  induction events using List.reverseRecOn with
  | nil =>
    exact ⟨fun _ => rfl, fun _ hb => absurd hb List.not_mem_nil,
      fun _ _ => iff_of_false List.not_mem_nil List.not_mem_nil, fun _ => List.nodup_nil,
      fun _ => rfl⟩
  | append_singleton es e ih =>
    obtain ⟨hes, he⟩ := forall_prefix_concat.1 ht
    rw [Sync.queue, Sync.run, List.foldl_append, List.foldl_append]
    exact (ih (fun x hx => ho x (List.mem_append_left _ hx)) hes).after (Sync.nodup_queue es)
      (ho e (List.mem_append_right _ List.mem_cons_self)) he

/-- The pool keeps names apart, closing nobody's backend for another, exactly as long as each
address is left by the watches in the order in which they came to it. -/
theorem separate_iff_isInTurn (events : List (Sync ι β)) (ho : ∀ e ∈ events, e.Opens l target) :
    (∀ before e, before ++ [e] <+: events →
      Separate l target (Sync.resolved (before ++ [e]))
          (Sync.run (Sync.start target interval) (before ++ [e])).1 ∧
        ∀ b ∈ e.closed (Sync.run (Sync.start target interval) before), l.owner b = e.watcher) ↔
      ∀ before e, before ++ [e] <+: events → e.IsInTurn (Sync.queue before) := by
  induction events using List.reverseRecOn with
  | nil => simp
  | append_singleton es e ih =>
    have hes : ∀ e' ∈ es, e'.Opens l target := fun x hx => ho x (List.mem_append_left _ hx)
    rw [forall_prefix_concat, forall_prefix_concat, ih hes]
    refine and_congr_right fun ht => ?_
    have hq := queues_run l target interval hes ht
    constructor
    · rintro ⟨-, hclosed⟩
      exact hq.closed_iff.1 hclosed
    · intro he
      refine ⟨?_, hq.closed_iff.2 he⟩
      have hq' := queues_run l target interval ho (forall_prefix_concat.2 ⟨ht, he⟩)
      exact hq'.separate (Sync.nodup_queue _) (Sync.mem_queue _)

end Runs

/-! ## Two names with one address -/

/-- A backend that is nothing but what it was opened for. -/
structure Opened (ι : Type) where
  owner : ι
  protocol : Protocol
  address : Endpoint
deriving DecidableEq

instance : Addressed (Opened ι) := ⟨Opened.address⟩

def Opened.provenance : Provenance ι (Opened ι) := ⟨Opened.owner, Opened.protocol⟩

/-- A name resolves, and whatever is asked for is opened. -/
def Sync.ideal (i : ι) (addresses : List Endpoint) : Sync ι (Opened ι) :=
  ⟨i, .ok addresses, fun protocol a => some ⟨i, protocol, a⟩, id, fun _ => .refl _⟩

omit [DecidableEq ι] in
theorem Sync.opens_ideal (target : ι → Hop) (i : ι) (addresses : List Endpoint) :
    (ideal i addresses).Opens Opened.provenance target :=
  fun a => ⟨⟨i, (target i).protocol, a⟩, rfl, rfl, rfl, rfl⟩

/-- The first to come to an address is the first to leave it. -/
theorem separate_of_first_leaving :
    let a : Endpoint := .v4 ⟨10, 0, 0, 1⟩ 5060
    let target : Bool → Hop := fun i =>
      if i then ⟨.tcp, "two.test", 5060⟩ else ⟨.udp, "one.test", 5060⟩
    let start := Sync.start target fun _ => 30
    let before : List (Sync Bool (Opened Bool)) := [.ideal false [a], .ideal true [a]]
    let e : Sync Bool (Opened Bool) := .ideal false []
    (∀ e' ∈ before ++ [e], e'.Opens Opened.provenance target) ∧
      Separate Opened.provenance target (Sync.resolved (before ++ [e]))
          (Sync.run start (before ++ [e])).1 ∧
        ∀ b ∈ e.closed (Sync.run start before), b.owner = false := by
  intro a target start before e
  have hopens : ∀ e' ∈ before ++ [e], e'.Opens Opened.provenance target := by
    simp [before, e, Sync.opens_ideal]
  have hturns : ∀ before' e', before' ++ [e'] <+: before ++ [e] →
      e'.IsInTurn (Sync.queue before') := by
    have hfirst : (Sync.ideal false [a]).IsInTurn fun _ => [] := by
      intro as _ a' hi
      cases hi
    have hsecond : (Sync.ideal true [a]).IsInTurn (Sync.queue [Sync.ideal false [a]]) := by
      intro as has a' hi
      simp [Sync.queue, Sync.queued, Sync.ideal] at hi
    have hthird : e.IsInTurn (Sync.queue before) := by
      intro as has a' hi _
      by_cases ha : a' = a
      · subst ha
        rfl
      · simp [Sync.queue, Sync.queued, Sync.ideal, before, ha] at hi
    refine forall_prefix_concat.2 ⟨?_, hthird⟩
    refine (@forall_prefix_concat _ _ [_] _).2 ⟨?_, hsecond⟩
    refine (@forall_prefix_concat _ _ [] _).2 ⟨?_, hfirst⟩
    simp
  exact ⟨hopens,
    (separate_iff_isInTurn Opened.provenance target (fun _ => 30) (before ++ [e]) hopens).2 hturns
      before e (List.prefix_refl _)⟩

/-- Of two names that resolve to one address the second drops it: the backend of the first is
closed, and the one that is left was opened for the second. -/
theorem closed_backend_of_other :
    let a : Endpoint := .v4 ⟨10, 0, 0, 1⟩ 5060
    let target : Bool → Hop := fun i =>
      if i then ⟨.tcp, "two.test", 5060⟩ else ⟨.udp, "one.test", 5060⟩
    let start := Sync.start target fun _ => 30
    let before : List (Sync Bool (Opened Bool)) := [.ideal false [a], .ideal true [a]]
    let e : Sync Bool (Opened Bool) := .ideal true []
    (∀ e' ∈ before ++ [e], e'.Opens Opened.provenance target) ∧
      e.closed (Sync.run start before) = [⟨false, .udp, a⟩] ∧
      (Sync.run start (before ++ [e])).1.backends = [⟨true, .tcp, a⟩] ∧
      ¬ Separate Opened.provenance target (Sync.resolved (before ++ [e]))
          (Sync.run start (before ++ [e])).1 := by
  intro a target start before e
  have hleft : (Sync.run start (before ++ [e])).1.backends = [⟨true, .tcp, a⟩] := by decide +kernel
  refine ⟨by simp [before, e, Sync.opens_ideal], by decide +kernel, hleft, ?_⟩
  intro h
  -- the first still resolves to the address
  have hcount := h.count false a
  rw [hleft] at hcount
  revert hcount
  decide +kernel

end SipProxy
