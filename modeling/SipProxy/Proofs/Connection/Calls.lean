import SipProxy.Proofs.Connection.Cache

/-!
# Calls for connections

A cache is called again and again, at times that do not go back, while connections close on their
own and openings fail as the network and the resolver will have it. `CacheUse.Keeps` says what one
call promises, and `CacheUse.keeps_call` that every call of every history keeps it: what it gives is
open and goes to the hop, what it closes was idle, nothing that is open is lost, and nothing stays
cached for twice the idle time without being used.

The histories have a clock and note when each connection was given out, so that the promises are
about what callers saw and not about what the cache wrote down.
-/

namespace SipProxy

/-- A cache in use. -/
structure CacheUse where
  now : Nat
  cache : ConnectionCache
  /-- When each connection was given out last, by its place. -/
  given : Table Nat Nat

/-- What is done to a cache, or happens to it. -/
inductive CacheEvent where
  /-- Time passes. -/
  | wait (time : Nat)
  /-- A connection closes on its own. -/
  | lapse (place : Nat)
  /-- A connection to a hop is called for, with the network and the resolver as they are then. -/
  | call (net : Network) (resolve : Resolver) (sharesSocket : Bool) (hop : Hop)
  | closeAll

namespace CacheUse

/-- Calls for a connection, and notes that it was given out. -/
def call (connect : Hop → Except TransportError Connection) (hop : Hop) (u : CacheUse) :
    Except TransportError Nat × CacheUse :=
  let called := u.cache.connection u.now connect hop
  match called.1 with
  | .ok place => (.ok place, ⟨u.now, called.2, u.given.put place u.now⟩)
  | .error fault => (.error fault, ⟨u.now, called.2, u.given⟩)

def apply (u : CacheUse) : CacheEvent → CacheUse
  | .wait time => { u with now := u.now + time }
  | .lapse place => { u with cache := u.cache.closeAt place }
  | .call net resolve sharesSocket hop =>
    (u.call (Connection.connect net resolve sharesSocket) hop).2
  | .closeAll => { u with cache := u.cache.closeAll }

/-- The use of a cache that was made with this idle time, after events. -/
def run (idle : Nat) (events : List CacheEvent) : CacheUse :=
  events.foldl apply ⟨0, .empty idle, ∅⟩

variable {u : CacheUse} {connect : Hop → Except TransportError Connection} {hop : Hop}

/-! ## One call -/

/-- The places of the connections that a call takes out of the cache because they are idle. -/
def idlers (u : CacheUse) : List Nat := (u.cache.sweep u.now).1

/-- The cache without them. -/
def swept (u : CacheUse) : ConnectionCache := (u.cache.sweep u.now).2

/-- The cache without them and without what it had for a hop. -/
def cleared (u : CacheUse) (hop : Hop) : ConnectionCache :=
  { u.swept with cached := u.swept.cached.erase hop }

/-- All that a call can come to. -/
inductive Called (u : CacheUse) (connect : Hop → Except TransportError Connection) (hop : Hop) :
    Except TransportError Nat × CacheUse → Prop where
  | reused {e : CachedConnection} (he : (hop, e) ∈ u.swept.cached.entries)
      (hopen : u.cache.isOpenAt e.place = true) :
      Called u connect hop (.ok e.place,
        ⟨u.now,
          ConnectionCache.closeEach u.idlers
            { u.swept with cached := u.swept.cached.put hop { e with lastUsed := u.now } },
          u.given.put e.place u.now⟩)
  | opened {opened : Connection}
      (hclosed : ∀ e, u.swept.cached.find? hop = some e → u.cache.isOpenAt e.place = false)
      (hconnect : connect hop = .ok opened) :
      Called u connect hop (.ok u.cache.connections.length,
        ⟨u.now, ((u.cleared hop).enter u.now hop opened).2.closeEach u.idlers,
          u.given.put u.cache.connections.length u.now⟩)
  | failed {fault : TransportError}
      (hclosed : ∀ e, u.swept.cached.find? hop = some e → u.cache.isOpenAt e.place = false)
      (hconnect : connect hop = .error fault) :
      Called u connect hop (.error fault,
        ⟨u.now, (u.cleared hop).closeEach u.idlers, u.given⟩)

theorem isOpenAt_swept (u : CacheUse) (place : Nat) :
    u.swept.isOpenAt place = u.cache.isOpenAt place :=
  ConnectionCache.isOpenAt_sweep _ _ _

theorem connections_swept (u : CacheUse) : u.swept.connections = u.cache.connections :=
  ConnectionCache.connections_sweep _ _

/-- A connection that is entered has the place behind all that there were before the call. -/
theorem getElem?_entered (u : CacheUse) (hop : Hop) (opened : Connection) (place : Nat) :
    ((u.cleared hop).enter u.now hop opened).2.connections[place]? =
      if place = u.cache.connections.length then some opened
      else u.cache.connections[place]? := by
  rw [ConnectionCache.getElem?_enter, ← connections_swept u]
  rfl

theorem call_eq (connect : Hop → Except TransportError Connection) (hop : Hop) (u : CacheUse) :
    u.call connect hop =
      match (u.swept.lookUp u.now connect hop).1 with
      | .ok place =>
        (.ok place, ⟨u.now, (u.swept.lookUp u.now connect hop).2.closeEach u.idlers,
          u.given.put place u.now⟩)
      | .error fault =>
        (.error fault, ⟨u.now, (u.swept.lookUp u.now connect hop).2.closeEach u.idlers, u.given⟩) :=
  rfl

theorem called (connect : Hop → Except TransportError Connection) (hop : Hop) (u : CacheUse) :
    Called u connect hop (u.call connect hop) := by
  rw [call_eq]
  by_cases hopen : ∃ e, u.swept.cached.find? hop = some e ∧ u.cache.isOpenAt e.place = true
  · obtain ⟨e, he, hopen⟩ := hopen
    rw [ConnectionCache.lookUp_of_open he ((isOpenAt_swept _ _).trans hopen)]
    exact .reused (Table.find?_eq_some.1 he) hopen
  · have hclosed : ∀ e, u.swept.cached.find? hop = some e → u.cache.isOpenAt e.place = false := by
      intro e he
      rw [← Bool.not_eq_true]
      exact fun h => hopen ⟨e, he, h⟩
    rw [ConnectionCache.lookUp_of_not_open fun e he => (isOpenAt_swept _ _).trans (hclosed e he)]
    cases hconnect : connect hop with
    | ok opened =>
      rw [ConnectionCache.openNew_of_ok hconnect]
      -- nothing was opened in the meantime, so the new place is the next one
      show Called u connect hop (.ok u.swept.connections.length,
        ⟨u.now, ((u.cleared hop).enter u.now hop opened).2.closeEach u.idlers,
          u.given.put u.swept.connections.length u.now⟩)
      rw [connections_swept]
      exact .opened hclosed hconnect
    | error fault =>
      rw [ConnectionCache.openNew_of_error hconnect]
      exact .failed hclosed hconnect

namespace Called

variable {r : Except TransportError Nat × CacheUse} {place : Nat}

/-- Of the connections that were there, a call closes the idlers, and no others. -/
theorem isOpenAt_iff (h : Called u connect hop r) (hplace : place < u.cache.connections.length) :
    r.2.cache.isOpenAt place = true ↔ u.cache.isOpenAt place = true ∧ place ∉ u.idlers := by
  rw [← isOpenAt_swept u place]
  cases h with
  | reused _ _ => exact ConnectionCache.isOpenAt_closeEach _ _ _
  | opened _ _ =>
    refine (ConnectionCache.isOpenAt_closeEach _ _ _).trans (and_congr_left' ?_)
    rw [isOpenAt_swept, ConnectionCache.isOpenAt, getElem?_entered, if_neg (Nat.ne_of_lt hplace)]
    rfl
  | failed _ _ => exact ConnectionCache.isOpenAt_closeEach _ _ _

theorem hopAt?_eq (h : Called u connect hop r) (hplace : place < u.cache.connections.length) :
    r.2.cache.hopAt? place = u.cache.hopAt? place := by
  rw [← ConnectionCache.hopAt?_sweep u.now place u.cache]
  cases h with
  | reused _ _ => exact ConnectionCache.hopAt?_closeEach _ _ _
  | opened _ _ =>
    refine (ConnectionCache.hopAt?_closeEach _ _ _).trans ?_
    rw [ConnectionCache.hopAt?_sweep, ConnectionCache.hopAt?, getElem?_entered]
    rw [if_neg (Nat.ne_of_lt hplace)]
    rfl
  | failed _ _ => exact ConnectionCache.hopAt?_closeEach _ _ _

theorem idle_eq (h : Called u connect hop r) : r.2.cache.idle = u.cache.idle := by
  rw [← ConnectionCache.idle_sweep u.now u.cache]
  cases h <;> exact ConnectionCache.idle_closeEach _ _

theorem lastSweep_eq (h : Called u connect hop r) : r.2.cache.lastSweep = u.swept.lastSweep := by
  cases h <;> exact ConnectionCache.lastSweep_closeEach _ _

end Called

/-! ## Between calls -/

/-- Sound between calls: nothing is left to be closed. -/
def IsSound (u : CacheUse) : Prop := u.cache.IsSound u.now u.given []

theorem find?_cleared (u : CacheUse) (hop : Hop) : (u.cleared hop).cached.find? hop = none :=
  (Table.find?_erase hop hop _).trans (if_pos rfl)

namespace IsSound

theorem new {idle : Nat} (hidle : 0 < idle) : IsSound ⟨0, .empty idle, ∅⟩ :=
  ConnectionCache.IsSound.empty hidle

theorem swept (h : u.IsSound) : u.swept.IsSound u.now u.given u.idlers :=
  ConnectionCache.IsSound.sweep h

theorem cleared (h : u.IsSound)
    (hclosed : ∀ e, u.swept.cached.find? hop = some e → u.cache.isOpenAt e.place = false) :
    (u.cleared hop).IsSound u.now u.given u.idlers :=
  h.swept.forget fun e he => (isOpenAt_swept _ _).trans (hclosed e he)

theorem call (h : u.IsSound) (hconnect : ∀ opened, connect hop = .ok opened → opened.hop = hop) :
    (u.call connect hop).2.IsSound := by
  generalize hcall : u.call connect hop = r
  have hcalled : Called u connect hop r := hcall ▸ called connect hop u
  cases hcalled with
  | reused he hopen => exact (h.swept.reuse he).closeEach
  | opened hclosed hopened =>
    have hentered := (h.cleared hclosed).enter (find?_cleared u hop) (hconnect _ hopened)
    rw [show (u.cleared hop).connections = _ from connections_swept u] at hentered
    exact hentered.closeEach
  | failed hclosed hfault => exact (h.cleared hclosed).closeEach

theorem apply (h : u.IsSound) (event : CacheEvent) : (u.apply event).IsSound := by
  cases event with
  | wait time => exact h.wait time
  | lapse place => exact h.closeAt place
  | call net resolve sharesSocket hop =>
    exact h.call fun opened hopened => (Connection.of_connect hopened).1
  | closeAll => exact h.closeAll

end IsSound

theorem idle_apply (event : CacheEvent) (u : CacheUse) :
    (u.apply event).cache.idle = u.cache.idle := by
  cases event with
  | wait _ => rfl
  | lapse _ => rfl
  | call net resolve sharesSocket hop => exact (called _ _ _).idle_eq
  | closeAll => exact ConnectionCache.idle_closeAll _

theorem IsSound.foldl (h : u.IsSound) (events : List CacheEvent) :
    (events.foldl CacheUse.apply u).IsSound := by
  induction events generalizing u with
  | nil => exact h
  | cons event events ih => exact ih (h.apply event)

theorem idle_foldl (events : List CacheEvent) (u : CacheUse) :
    (events.foldl apply u).cache.idle = u.cache.idle := by
  induction events generalizing u with
  | nil => rfl
  | cons event events ih => exact (ih _).trans (idle_apply event u)

theorem isSound_run {idle : Nat} (hidle : 0 < idle) (events : List CacheEvent) :
    (run idle events).IsSound :=
  (IsSound.new hidle).foldl events

theorem idle_run (idle : Nat) (events : List CacheEvent) : (run idle events).cache.idle = idle :=
  idle_foldl events _

/-! ## What a call promises -/

/-- What holds of the connections between calls. -/
structure IsTidy (u : CacheUse) : Prop where
  /-- Of the connections that go to one hop, at most one is cached. -/
  one_of_hop : ∀ e ∈ u.cache.cached.values, ∀ e' ∈ u.cache.cached.values,
    u.cache.hopAt? e.place = u.cache.hopAt? e'.place → e = e'
  /-- What was ever opened is cached or closed. -/
  accounted : ∀ place < u.cache.connections.length,
    (∃ e ∈ u.cache.cached.values, e.place = place) ∨ u.cache.isOpenAt place = false

/-- What a call for a connection to a hop promises, of what it gives and of what is there after it.
The outcome of opening a connection, should one be needed, is `opening`. -/
structure Keeps (idle : Nat) (opening : Except TransportError Connection) (hop : Hop)
    (before : CacheUse) (given : Except TransportError Nat) (after : CacheUse) : Prop where
  /-- What is given is open, goes to the hop, and is what is cached for it now. -/
  gives_open : ∀ place, given = .ok place →
    after.cache.hopAt? place = some hop ∧ after.cache.isOpenAt place = true ∧
      after.cache.cached.find? hop = some ⟨place, before.now⟩
  /-- It is the cached connection if and only if that is open and was not taken out as idle. -/
  reused_iff : ∀ e, before.cache.cached.find? hop = some e →
    (given = .ok e.place ↔ before.cache.isOpenAt e.place = true ∧ e.place ∉ before.idlers)
  /-- Otherwise it is a new one, unless that cannot be opened. -/
  opens : (¬∃ e, before.cache.cached.find? hop = some e ∧ before.cache.isOpenAt e.place = true ∧
      e.place ∉ before.idlers) →
    given = opening.map fun _ => before.cache.connections.length
  /-- Where nothing is given, nothing is cached for the hop. -/
  forgets : ∀ fault, given = .error fault → after.cache.cached.find? hop = none
  /-- Of the connections that were there, the idlers are closed and no others. -/
  closes : ∀ place < before.cache.connections.length,
    (after.cache.isOpenAt place = true ↔
      before.cache.isOpenAt place = true ∧ place ∉ before.idlers)
  /-- An idler was given out last the idle time ago or before. -/
  idled : ∀ place ∈ before.idlers,
    ∃ time, before.given.find? place = some time ∧ time + idle ≤ before.now
  /-- What is cached was given out less than twice the idle time ago. -/
  recent : ∀ e ∈ after.cache.cached.values,
    ∃ time, after.given.find? e.place = some time ∧ before.now < time + 2 * idle
  tidy : after.IsTidy
  /-- What was ever opened stays on record at its place. -/
  recorded : ∀ place < before.cache.connections.length,
    after.cache.hopAt? place = before.cache.hopAt? place

/-! ## What a call gives, and what it takes -/

section

variable {r : Except TransportError Nat × CacheUse}

/-- What is given is what is cached for the hop from then on. -/
theorem Called.find?_of_ok (h : Called u connect hop r) {place : Nat} (hgiven : r.1 = .ok place) :
    r.2.cache.cached.find? hop = some ⟨place, u.now⟩ := by
  cases h with
  | reused _ _ =>
    cases hgiven
    rw [ConnectionCache.cached_closeEach, Table.find?_put, if_pos rfl]
  | opened _ _ =>
    cases hgiven
    rw [ConnectionCache.cached_closeEach, ← connections_swept u]
    exact (Table.find?_put _ _ _ _).trans (if_pos rfl)
  | failed _ _ => cases hgiven

theorem Called.find?_of_error (h : Called u connect hop r) {fault : TransportError}
    (hgiven : r.1 = .error fault) : r.2.cache.cached.find? hop = none := by
  cases h with
  | reused _ _ => cases hgiven
  | opened _ _ => cases hgiven
  | failed _ _ =>
    rw [ConnectionCache.cached_closeEach]
    exact find?_cleared u hop

/-- What is given is open: if it is the cached one, since it was and is no idler, and if it is a new
one, since that was opened just now and no idler has its place. -/
theorem IsSound.isOpenAt_of_ok (hsound : u.IsSound) (h : Called u connect hop r)
    (hconnect : ∀ opened, connect hop = .ok opened → opened.isOpen = true) {place : Nat}
    (hgiven : r.1 = .ok place) : r.2.cache.isOpenAt place = true := by
  cases h with
  | reused he hopen =>
    cases hgiven
    refine (ConnectionCache.isOpenAt_closeEach _ _ _).2 ⟨?_, (hsound.swept.entry he).not_loose⟩
    exact (isOpenAt_swept u _).trans hopen
  | opened _ hopened =>
    cases hgiven
    refine (ConnectionCache.isOpenAt_closeEach _ _ _).2 ⟨?_, fun hplace => ?_⟩
    · rw [ConnectionCache.isOpenAt, getElem?_entered, if_pos rfl]
      exact hconnect _ hopened
    · have hlt := hsound.swept.loose_lt hplace
      rw [connections_swept] at hlt
      exact Nat.lt_irrefl _ hlt
  | failed _ _ => cases hgiven

/-- The cached connection of a hop stays cached through the sweep just if it is no idler. -/
theorem IsSound.find?_swept_iff (hsound : u.IsSound) {e : CachedConnection} :
    u.swept.cached.find? hop = some e ↔
      u.cache.cached.find? hop = some e ∧ e.place ∉ u.idlers := by
  simp only [Table.find?_eq_some]
  constructor
  · intro he
    exact ⟨(ConnectionCache.mem_cached_sweep.1 he).1, (hsound.swept.entry he).not_loose⟩
  · rintro ⟨he, hplace⟩
    exact (ConnectionCache.IsSound.mem_cached_sweep_iff hsound he).2 hplace

/-- What is given is the cached connection just if that is open and no idler. -/
theorem IsSound.reused_iff (hsound : u.IsSound) (h : Called u connect hop r) {e : CachedConnection}
    (he : u.cache.cached.find? hop = some e) :
    r.1 = .ok e.place ↔ u.cache.isOpenAt e.place = true ∧ e.place ∉ u.idlers := by
  cases h with
  | reused he' hopen =>
    obtain ⟨hcached, hplace⟩ := hsound.find?_swept_iff.1 (Table.find?_eq_some.2 he')
    cases Option.some.inj (hcached.symm.trans he)
    exact iff_of_true rfl ⟨hopen, hplace⟩
  | opened hclosed _ =>
    refine iff_of_false (fun hgiven => ?_) fun ⟨hopen, hplace⟩ => ?_
    · -- a new connection is at no place that is cached
      have hlt := ConnectionCache.lt_of_hopAt? (hsound.entry (Table.find?_eq_some.1 he)).hopAt
      exact Nat.ne_of_gt hlt (Except.ok.inj hgiven)
    · have hshut := hclosed e (hsound.find?_swept_iff.2 ⟨he, hplace⟩)
      exact Bool.false_ne_true (hshut.symm.trans hopen)
  | failed hclosed _ =>
    refine iff_of_false nofun fun ⟨hopen, hplace⟩ => ?_
    have hshut := hclosed e (hsound.find?_swept_iff.2 ⟨he, hplace⟩)
    exact Bool.false_ne_true (hshut.symm.trans hopen)

/-- Otherwise a new connection is opened, or fails to open. -/
theorem IsSound.given_eq_map (hsound : u.IsSound) (h : Called u connect hop r)
    (hnone : ¬∃ e, u.cache.cached.find? hop = some e ∧ u.cache.isOpenAt e.place = true ∧
      e.place ∉ u.idlers) :
    r.1 = (connect hop).map fun _ => u.cache.connections.length := by
  cases h with
  | reused he hopen =>
    obtain ⟨hcached, hplace⟩ := hsound.find?_swept_iff.1 (Table.find?_eq_some.2 he)
    exact absurd ⟨_, hcached, hopen, hplace⟩ hnone
  | opened _ hopened =>
    rw [hopened]
    rfl
  | failed _ hfault =>
    rw [hfault]
    rfl

/-- An idler was given out last the idle time ago or before. -/
theorem IsSound.given_of_mem_idlers (hsound : u.IsSound) {place : Nat} (hplace : place ∈ u.idlers) :
    ∃ time, u.given.find? place = some time ∧ time + u.cache.idle ≤ u.now := by
  obtain ⟨-, hop, e, he, hidle, rfl⟩ := ConnectionCache.mem_sweep.1 hplace
  have hpos := hsound.idle_pos
  exact ⟨e.lastUsed, (hsound.entry he).lastGiven, by omega⟩

end

/-! ## Every call keeps it -/

theorem IsSound.isTidy (hsound : u.IsSound) : u.IsTidy where
  one_of_hop e he e' he' hsame := by
    obtain ⟨hop, he⟩ := Table.mem_values.1 he
    obtain ⟨hop', he'⟩ := Table.mem_values.1 he'
    rw [(hsound.entry he).hopAt, (hsound.entry he').hopAt] at hsame
    cases Option.some.inj hsame
    exact Option.some.inj ((Table.find?_eq_some.2 he).symm.trans (Table.find?_eq_some.2 he'))
  accounted place _ := by
    cases hopen : u.cache.isOpenAt place with
    | false => exact .inr rfl
    | true =>
      obtain ⟨hop, e, he, hplace⟩ := (hsound.cached_of_open hopen).resolve_left List.not_mem_nil
      exact .inl ⟨e, Table.mem_values.2 ⟨hop, he⟩, hplace⟩

theorem IsSound.keeps (hsound : u.IsSound)
    (hconnect : ∀ opened, connect hop = .ok opened → opened.hop = hop ∧ opened.isOpen = true) :
    Keeps u.cache.idle (connect hop) hop u (u.call connect hop).1 (u.call connect hop).2 := by
  have hcalled := called connect hop u
  have hafter := hsound.call fun opened hopened => (hconnect opened hopened).1
  generalize u.call connect hop = r at hcalled hafter
  constructor
  case gives_open =>
    intro place hgiven
    have hcached := hcalled.find?_of_ok hgiven
    refine ⟨(hafter.entry (Table.find?_eq_some.1 hcached)).hopAt, ?_, hcached⟩
    exact hsound.isOpenAt_of_ok hcalled (fun opened hopened => (hconnect opened hopened).2) hgiven
  case reused_iff => exact fun e he => hsound.reused_iff hcalled he
  case opens => exact hsound.given_eq_map hcalled
  case forgets => exact fun fault hgiven => hcalled.find?_of_error hgiven
  case closes => exact fun place hplace => hcalled.isOpenAt_iff hplace
  case idled => exact fun place hplace => hsound.given_of_mem_idlers hplace
  case recent =>
    intro e he
    obtain ⟨hop, he⟩ := Table.mem_values.1 he
    have hlast := ConnectionCache.lt_lastSweep_sweep hsound.idle_pos u.now
    have hrecent := (hafter.entry he).recent
    rw [hcalled.lastSweep_eq, hcalled.idle_eq] at hrecent
    refine ⟨e.lastUsed, (hafter.entry he).lastGiven, ?_⟩
    change u.now < u.swept.lastSweep + u.cache.idle at hlast
    omega
  case tidy => exact hafter.isTidy
  case recorded => exact fun place hplace => hcalled.hopAt?_eq hplace

/-- Every call keeps what is promised, whatever was done to the cache and happened to it before. -/
theorem keeps_call {idle : Nat} (hidle : 0 < idle) (events : List CacheEvent) (net : Network)
    (resolve : Resolver) (sharesSocket : Bool) (hop : Hop) :
    let connect := Connection.connect net resolve sharesSocket
    let before := run idle events
    let called := before.call connect hop
    before.IsTidy ∧ Keeps idle (connect hop) hop before called.1 called.2 := by
  intro connect before called
  have hbefore : before.IsSound := isSound_run hidle events
  have hkeeps : Keeps before.cache.idle (connect hop) hop before called.1 called.2 :=
    hbefore.keeps fun opened hopened => Connection.of_connect hopened
  rw [idle_run] at hkeeps
  exact ⟨hbefore.isTidy, hkeeps⟩

/-- Two hops, and a sweep when one of them is called again: the other one's connection is closed,
for it was given out as long ago as the idle time, and the one called for is the one there was. -/
theorem keeps_call_of_two_hops :
    let net : Network := ⟨fun _ _ => none, fun _ _ => none, fun _ => .ok []⟩
    let resolve : Resolver := fun _ port => .ok [.v4 ⟨10, 0, 0, 1⟩ port]
    let connect := Connection.connect net resolve true
    let one : Hop := ⟨.udp, "one.test", 5060⟩
    let two : Hop := ⟨.tcp, "two.test", 5060⟩
    let before := run 10 [.call net resolve true one, .wait 4, .call net resolve true two, .wait 7]
    let called := before.call connect two
    0 < 10 ∧ called.1 = .ok 1 ∧ called.2.cache.isOpenAt 1 = true ∧
      called.2.cache.hopAt? 1 = some two ∧
      called.2.cache.isOpenAt 0 = false ∧
      ∃ time, before.given.find? 0 = some time ∧ time + 10 ≤ before.now := by
  intro net resolve connect one two before called
  have hpos : 0 < 10 := by decide
  have hkeeps : Keeps 10 (connect two) two before called.1 called.2 :=
    (keeps_call hpos _ net resolve true two).2
  have hcached : before.cache.cached.find? two = some ⟨1, 4⟩ := by decide +kernel
  have hgiven : called.1 = .ok 1 :=
    (hkeeps.reused_iff _ hcached).2 ⟨by decide +kernel, by decide +kernel⟩
  obtain ⟨hhop, hopen, -⟩ := hkeeps.gives_open _ hgiven
  have hidle : 0 ∈ before.idlers := by decide +kernel
  have hclosed : called.2.cache.isOpenAt 0 ≠ true := fun h =>
    ((hkeeps.closes 0 (by decide +kernel)).1 h).2 hidle
  exact ⟨hpos, hgiven, hopen, hhop, Bool.eq_false_iff.2 hclosed, hkeeps.idled 0 hidle⟩

end CacheUse

end SipProxy
