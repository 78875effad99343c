import SipProxy.Proofs.Outcome
import SipProxy.Transport.ConnectionCache

/-!
# What a cache of connections keeps

A call for a connection has three parts: idle connections are taken out of the cache, the hop is
looked up and opened if it has to be, and the connections that were taken out are closed. What holds
of the cache between calls does not hold within one, since a connection that was taken out is open
and no longer cached. `ConnectionCache.IsSound` says what holds at all times, given the connections
that are still to be closed, and there is one law for each part.

Its one invariant about time ties every entry to the last sweep and not to the clock: no entry was
used as long before the sweep as the idle time (`IsSoundEntry.recent`). A sweep establishes that,
and a use does not harm it.
-/

namespace SipProxy

/-- A connection that was opened is open and goes to the hop that was asked for. -/
theorem Connection.of_connect {net : Network} {resolve : Resolver} {sharesSocket : Bool} {hop : Hop}
    {c : Connection} (h : connect net resolve sharesSocket hop = .ok c) :
    c.hop = hop ∧ c.isOpen = true := by
  obtain ⟨remotes, -, h⟩ := Outcome.bind_eq_ok.1 h
  cases remotes with
  | nil => cases h
  | cons remote _ =>
    obtain ⟨-, -, h⟩ := Outcome.bind_eq_ok.1 h
    cases h
    exact ⟨rfl, rfl⟩

namespace ConnectionCache

/-- The hop of the connection at a place. -/
def hopAt? (c : ConnectionCache) (place : Nat) : Option Hop :=
  c.connections[place]?.map Connection.hop

variable {c : ConnectionCache} {now place : Nat} {hop : Hop} {e : CachedConnection}

theorem lt_of_hopAt? (h : c.hopAt? place = some hop) : place < c.connections.length := by
  obtain ⟨opened, hopened, -⟩ := Option.map_eq_some_iff.1 h
  exact (List.getElem?_eq_some_iff.1 hopened).1

/-! ## Closing -/

theorem hopAt?_closeAt (p place : Nat) (c : ConnectionCache) :
    (c.closeAt p).hopAt? place = c.hopAt? place := by
  rw [hopAt?, hopAt?, closeAt, List.getElem?_modify]
  cases c.connections[place]? with
  | none => rfl
  | some opened => by_cases h : p = place <;> simp [h, Connection.close]

theorem isOpenAt_closeAt (p place : Nat) (c : ConnectionCache) :
    (c.closeAt p).isOpenAt place = true ↔ c.isOpenAt place = true ∧ place ≠ p := by
  rw [isOpenAt, isOpenAt, closeAt, List.getElem?_modify]
  cases c.connections[place]? with
  | none => simp
  | some opened =>
    by_cases h : p = place
    · simp [h, Connection.close]
    · simp [h, Ne.symm h]

/-- The cache with the connections at several places closed. -/
def closeEach (places : List Nat) (c : ConnectionCache) : ConnectionCache :=
  places.foldl (fun c place => c.closeAt place) c

theorem closeEach_cons (p : Nat) (places : List Nat) (c : ConnectionCache) :
    c.closeEach (p :: places) = (c.closeAt p).closeEach places := rfl

theorem hopAt?_closeEach (places : List Nat) (place : Nat) (c : ConnectionCache) :
    (c.closeEach places).hopAt? place = c.hopAt? place := by
  induction places generalizing c with
  | nil => rfl
  | cons p places ih => rw [closeEach_cons, ih, hopAt?_closeAt]

theorem isOpenAt_closeEach (places : List Nat) (place : Nat) (c : ConnectionCache) :
    (c.closeEach places).isOpenAt place = true ↔ c.isOpenAt place = true ∧ place ∉ places := by
  induction places generalizing c with
  | nil => simp [closeEach]
  | cons p places ih => rw [closeEach_cons, ih, isOpenAt_closeAt, List.mem_cons, not_or, and_assoc]

/-- Closing connections is no change to the cache proper. -/
theorem closeEach_eq (places : List Nat) (c : ConnectionCache) :
    c.closeEach places = { c with connections := (c.closeEach places).connections } := by
  induction places generalizing c with
  | nil => rfl
  | cons p places ih =>
    rw [closeEach_cons, ih]
    rfl

@[simp] theorem cached_closeEach (places : List Nat) (c : ConnectionCache) :
    (c.closeEach places).cached = c.cached := by
  rw [closeEach_eq]

@[simp] theorem lastSweep_closeEach (places : List Nat) (c : ConnectionCache) :
    (c.closeEach places).lastSweep = c.lastSweep := by
  rw [closeEach_eq]

@[simp] theorem idle_closeEach (places : List Nat) (c : ConnectionCache) :
    (c.closeEach places).idle = c.idle := by
  rw [closeEach_eq]

theorem closeAll_eq (c : ConnectionCache) :
    c.closeAll = { c.closeEach (c.cached.values.map CachedConnection.place) with cached := ∅ } := by
  rw [closeAll, closeEach, List.foldl_map]

theorem idle_closeAll (c : ConnectionCache) : c.closeAll.idle = c.idle := by
  rw [closeAll_eq]
  exact idle_closeEach _ _

/-! ## Sweeping -/

theorem sweep_of_lt (h : now - c.lastSweep < c.idle) : c.sweep now = ([], c) := if_pos h

theorem sweep_of_le (h : c.idle ≤ now - c.lastSweep) :
    c.sweep now = ((c.cached.values.filter (c.isIdle now)).map CachedConnection.place,
      { c with cached := c.cached.filter fun _ e => !c.isIdle now e, lastSweep := now }) :=
  if_neg (Nat.not_lt.2 h)

/-- What a sweep takes out is what was not used for the idle time, if it is time to sweep. -/
theorem mem_sweep :
    place ∈ (c.sweep now).1 ↔ c.idle ≤ now - c.lastSweep ∧
      ∃ hop e, (hop, e) ∈ c.cached.entries ∧ c.idle ≤ now - e.lastUsed ∧ e.place = place := by
  by_cases h : c.idle ≤ now - c.lastSweep
  · rw [sweep_of_le h, and_iff_right h, List.mem_map]
    constructor
    · rintro ⟨e, he, rfl⟩
      obtain ⟨hmem, hidle⟩ := List.mem_filter.1 he
      obtain ⟨hop, hmem⟩ := Table.mem_values.1 hmem
      exact ⟨hop, e, hmem, of_decide_eq_true hidle, rfl⟩
    · rintro ⟨hop, e, hmem, hidle, rfl⟩
      exact ⟨e, List.mem_filter.2 ⟨Table.mem_values.2 ⟨hop, hmem⟩, decide_eq_true hidle⟩, rfl⟩
  · rw [sweep_of_lt (Nat.lt_of_not_le h)]
    simp [h]

theorem mem_cached_sweep :
    (hop, e) ∈ (c.sweep now).2.cached.entries ↔
      (hop, e) ∈ c.cached.entries ∧ ¬(c.idle ≤ now - c.lastSweep ∧ c.idle ≤ now - e.lastUsed) := by
  by_cases h : c.idle ≤ now - c.lastSweep
  · rw [sweep_of_le h, Table.mem_entries_filter]
    simp [h, isIdle]
  · rw [sweep_of_lt (Nat.lt_of_not_le h)]
    simp [h]

@[simp] theorem connections_sweep (now : Nat) (c : ConnectionCache) :
    (c.sweep now).2.connections = c.connections := by
  unfold sweep
  split <;> rfl

@[simp] theorem idle_sweep (now : Nat) (c : ConnectionCache) : (c.sweep now).2.idle = c.idle := by
  unfold sweep
  split <;> rfl

theorem hopAt?_sweep (now place : Nat) (c : ConnectionCache) :
    (c.sweep now).2.hopAt? place = c.hopAt? place := by
  rw [hopAt?, hopAt?, connections_sweep]

theorem isOpenAt_sweep (now place : Nat) (c : ConnectionCache) :
    (c.sweep now).2.isOpenAt place = c.isOpenAt place := by
  rw [isOpenAt, isOpenAt, connections_sweep]

/-- The last sweep is never as long ago as the idle time. -/
theorem lt_lastSweep_sweep (hidle : 0 < c.idle) (now : Nat) :
    now < (c.sweep now).2.lastSweep + c.idle := by
  by_cases h : c.idle ≤ now - c.lastSweep
  · rw [sweep_of_le h]
    exact Nat.lt_add_of_pos_right hidle
  · rw [sweep_of_lt (Nat.lt_of_not_le h)]
    show now < c.lastSweep + c.idle
    omega

/-! ## Looking up -/

variable {connect : Hop → Except TransportError Connection} {opened : Connection}

theorem lookUp_of_open (he : c.cached.find? hop = some e) (hopen : c.isOpenAt e.place = true) :
    c.lookUp now connect hop =
      (.ok e.place, { c with cached := c.cached.put hop { e with lastUsed := now } }) := by
  simp only [lookUp, he, hopen, if_true]

/-- A hop that has no open connection is opened, and the one that it had is forgotten. -/
theorem lookUp_of_not_open
    (hopen : ∀ e, c.cached.find? hop = some e → c.isOpenAt e.place = false) :
    c.lookUp now connect hop = openNew now connect hop { c with cached := c.cached.erase hop } := by
  cases he : c.cached.find? hop with
  | some e => simp [lookUp, he, hopen e he]
  | none =>
    rw [Table.erase_of_find?_eq_none he]
    simp only [lookUp, he]

theorem openNew_of_ok (h : connect hop = .ok opened) :
    c.openNew now connect hop = (.ok c.connections.length, (c.enter now hop opened).2) := by
  simp only [openNew, h]
  rfl

theorem openNew_of_error {fault : TransportError} (h : connect hop = .error fault) :
    c.openNew now connect hop = (.error fault, c) := by
  simp only [openNew, h]

/-- A connection that is entered has the place behind all others. -/
theorem getElem?_enter (now : Nat) (hop : Hop) (opened : Connection) (c : ConnectionCache)
    (place : Nat) : (c.enter now hop opened).2.connections[place]? =
      if place = c.connections.length then some opened else c.connections[place]? := by
  show (c.connections ++ [opened])[place]? = _
  rcases Nat.lt_trichotomy place c.connections.length with h | h | h
  · rw [List.getElem?_append_left h, if_neg (Nat.ne_of_lt h)]
  · rw [if_pos h, h, List.getElem?_concat_length]
  · rw [if_neg (Nat.ne_of_gt h), List.getElem?_eq_none (Nat.le_of_lt h), List.getElem?_eq_none]
    rw [List.length_append]
    exact h

/-! ## Soundness -/

/-- What holds of an entry of a cache, where `given` tells when a connection was given out last, and
the connections that are `loose` were taken out. -/
structure IsSoundEntry (c : ConnectionCache) (given : Table Nat Nat) (loose : List Nat) (hop : Hop)
    (e : CachedConnection) : Prop where
  /-- A connection is cached for the hop that it goes to. -/
  hopAt : c.hopAt? e.place = some hop
  lastGiven : given.find? e.place = some e.lastUsed
  /-- It had not been idle for too long at the last sweep. -/
  recent : c.lastSweep < e.lastUsed + c.idle
  not_loose : e.place ∉ loose

/-- What holds of a cache at a time, when the connections that are `loose` were taken out of it and
are still to be closed. -/
structure IsSound (now : Nat) (given : Table Nat Nat) (loose : List Nat) (c : ConnectionCache) :
    Prop where
  idle_pos : 0 < c.idle
  lastSweep_le : c.lastSweep ≤ now
  entry : ∀ {hop e}, (hop, e) ∈ c.cached.entries → c.IsSoundEntry given loose hop e
  loose_lt : ∀ {place}, place ∈ loose → place < c.connections.length
  /-- What is open is cached, or about to be closed. -/
  cached_of_open : ∀ {place}, c.isOpenAt place = true →
    place ∈ loose ∨ ∃ hop e, (hop, e) ∈ c.cached.entries ∧ e.place = place

namespace IsSound

variable {given : Table Nat Nat} {loose : List Nat}

theorem empty {idle : Nat} (hidle : 0 < idle) : (empty idle).IsSound 0 ∅ [] where
  idle_pos := hidle
  lastSweep_le := Nat.le_refl 0
  entry := nofun
  loose_lt := nofun
  cached_of_open := nofun

/-- One place is cached under one hop, since it is the place of a connection to that hop. -/
theorem eq_of_place_eq (h : c.IsSound now given loose) {hop' : Hop} {e' : CachedConnection}
    (he : (hop, e) ∈ c.cached.entries) (he' : (hop', e') ∈ c.cached.entries)
    (hplace : e.place = e'.place) : hop = hop' ∧ e = e' := by
  have hhop : hop = hop' := by
    apply Option.some.inj
    rw [← (h.entry he).hopAt, ← (h.entry he').hopAt, hplace]
  subst hhop
  refine ⟨rfl, ?_⟩
  exact Option.some.inj ((Table.find?_eq_some.2 he).symm.trans (Table.find?_eq_some.2 he'))

/-! ### Sweeping -/

/-- An entry stays through a sweep just if its connection is not taken out. -/
theorem mem_cached_sweep_iff (h : c.IsSound now given loose) (he : (hop, e) ∈ c.cached.entries) :
    (hop, e) ∈ (c.sweep now).2.cached.entries ↔ e.place ∉ (c.sweep now).1 := by
  rw [mem_cached_sweep, and_iff_right he, mem_sweep]
  refine not_congr (and_congr_right fun _ => ⟨fun hidle => ⟨hop, e, he, hidle, rfl⟩, ?_⟩)
  rintro ⟨hop', e', he', hidle, hplace⟩
  obtain ⟨-, rfl⟩ := h.eq_of_place_eq he' he hplace
  exact hidle

theorem sweep (h : c.IsSound now given []) :
    (c.sweep now).2.IsSound now given (c.sweep now).1 where
  idle_pos := by
    rw [idle_sweep]
    exact h.idle_pos
  lastSweep_le := by
    unfold ConnectionCache.sweep
    split
    · exact h.lastSweep_le
    · exact Nat.le_refl now
  entry {hop e} he := by
    obtain ⟨hmem, hkept⟩ := mem_cached_sweep.1 he
    obtain ⟨hhop, hgiven, hrecent, -⟩ := h.entry hmem
    have hpos := h.idle_pos
    refine ⟨(hopAt?_sweep _ _ _).trans hhop, hgiven, ?_, (h.mem_cached_sweep_iff hmem).1 he⟩
    rw [idle_sweep]
    by_cases hdue : c.idle ≤ now - c.lastSweep
    · rw [sweep_of_le hdue]
      show now < e.lastUsed + c.idle
      omega
    · rw [sweep_of_lt (Nat.lt_of_not_le hdue)]
      exact hrecent
  loose_lt hplace := by
    obtain ⟨-, hop, e, he, -, rfl⟩ := mem_sweep.1 hplace
    rw [connections_sweep]
    exact lt_of_hopAt? (h.entry he).hopAt
  cached_of_open hopen := by
    rw [isOpenAt_sweep] at hopen
    obtain ⟨hop, e, he, rfl⟩ := (h.cached_of_open hopen).resolve_left List.not_mem_nil
    by_cases hplace : e.place ∈ (c.sweep now).1
    · exact .inl hplace
    · exact .inr ⟨hop, e, (h.mem_cached_sweep_iff he).2 hplace, rfl⟩

/-! ### Looking up -/

/-- A connection is used again. -/
theorem reuse (h : c.IsSound now given loose) (he : (hop, e) ∈ c.cached.entries) :
    IsSound now (given.put e.place now) loose
      { c with cached := c.cached.put hop { e with lastUsed := now } } where
  idle_pos := h.idle_pos
  lastSweep_le := h.lastSweep_le
  entry {hop' e'} he' := by
    rcases Table.mem_entries_put.1 he' with ⟨he', hne⟩ | ⟨rfl, rfl⟩
    · obtain ⟨hhop, hgiven, hrecent, hloose⟩ := h.entry he'
      refine ⟨hhop, ?_, hrecent, hloose⟩
      rw [Table.find?_put, if_neg fun hplace => hne (h.eq_of_place_eq he' he hplace).1, hgiven]
    · obtain ⟨hhop, -, -, hloose⟩ := h.entry he
      refine ⟨hhop, ?_, ?_, hloose⟩
      · rw [Table.find?_put, if_pos rfl]
      · exact Nat.lt_of_le_of_lt h.lastSweep_le (Nat.lt_add_of_pos_right h.idle_pos)
  loose_lt := h.loose_lt
  cached_of_open hopen := by
    refine (h.cached_of_open hopen).imp_right ?_
    rintro ⟨hop', e', he', rfl⟩
    by_cases hhop : hop' = hop
    · subst hhop
      have hsame := (Table.find?_eq_some.2 he').symm.trans (Table.find?_eq_some.2 he)
      cases Option.some.inj hsame
      exact ⟨_, _, Table.mem_entries_put.2 (.inr ⟨rfl, rfl⟩), rfl⟩
    · exact ⟨hop', e', Table.mem_entries_put.2 (.inl ⟨he', hhop⟩), rfl⟩

/-- A connection that is not open is forgotten. -/
theorem forget (h : c.IsSound now given loose)
    (hopen : ∀ e, c.cached.find? hop = some e → c.isOpenAt e.place = false) :
    IsSound now given loose { c with cached := c.cached.erase hop } where
  idle_pos := h.idle_pos
  lastSweep_le := h.lastSweep_le
  entry he := by
    obtain ⟨hhop, hgiven, hrecent, hloose⟩ := h.entry (Table.mem_entries_erase.1 he).1
    exact ⟨hhop, hgiven, hrecent, hloose⟩
  loose_lt := h.loose_lt
  cached_of_open {place} hplace := by
    refine (h.cached_of_open hplace).imp_right ?_
    rintro ⟨hop', e', he', rfl⟩
    refine ⟨hop', e', Table.mem_entries_erase.2 ⟨he', ?_⟩, rfl⟩
    rintro rfl
    have hclosed := hopen e' (Table.find?_eq_some.2 he')
    exact Bool.false_ne_true (hclosed.symm.trans hplace)

/-- A new connection is cached for a hop that has none. -/
theorem enter (h : c.IsSound now given loose) (hnone : c.cached.find? hop = none)
    (hhop : opened.hop = hop) :
    (c.enter now hop opened).2.IsSound now (given.put c.connections.length now) loose where
  idle_pos := h.idle_pos
  lastSweep_le := h.lastSweep_le
  entry {hop' e'} he' := by
    rcases Table.mem_entries_put.1 he' with ⟨he', hne⟩ | ⟨rfl, rfl⟩
    · obtain ⟨hhop', hgiven, hrecent, hloose⟩ := h.entry he'
      have hplace := Nat.ne_of_lt (lt_of_hopAt? hhop')
      refine ⟨?_, ?_, hrecent, hloose⟩
      · rw [hopAt?, getElem?_enter, if_neg hplace]
        exact hhop'
      · rw [Table.find?_put, if_neg hplace, hgiven]
    · refine ⟨?_, ?_, ?_, ?_⟩
      · rw [hopAt?, getElem?_enter, if_pos rfl, Option.map_some, hhop]
      · rw [Table.find?_put, if_pos rfl]
      · exact Nat.lt_of_le_of_lt h.lastSweep_le (Nat.lt_add_of_pos_right h.idle_pos)
      · exact fun hplace => Nat.lt_irrefl _ (h.loose_lt hplace)
  loose_lt hplace := by
    show _ < (c.connections ++ [opened]).length
    rw [List.length_append]
    exact Nat.lt_succ_of_lt (h.loose_lt hplace)
  cached_of_open {place} hopen := by
    rw [isOpenAt, getElem?_enter] at hopen
    by_cases hplace : place = c.connections.length
    · exact .inr ⟨hop, _, Table.mem_entries_put.2 (.inr ⟨rfl, rfl⟩), hplace.symm⟩
    · rw [if_neg hplace] at hopen
      refine (h.cached_of_open hopen).imp_right ?_
      rintro ⟨hop', e', he', rfl⟩
      refine ⟨hop', e', Table.mem_entries_put.2 (.inl ⟨he', ?_⟩), rfl⟩
      rintro rfl
      exact Table.find?_eq_none.1 hnone e' he'

/-! ### Closing -/

/-- When the connections that were taken out are closed, all that is open is cached. -/
theorem closeEach (h : c.IsSound now given loose) :
    (c.closeEach loose).IsSound now given [] where
  idle_pos := by
    rw [idle_closeEach]
    exact h.idle_pos
  lastSweep_le := by
    rw [lastSweep_closeEach]
    exact h.lastSweep_le
  entry he := by
    rw [cached_closeEach] at he
    obtain ⟨hhop, hgiven, hrecent, -⟩ := h.entry he
    refine ⟨(hopAt?_closeEach _ _ _).trans hhop, hgiven, ?_, List.not_mem_nil⟩
    rw [lastSweep_closeEach, idle_closeEach]
    exact hrecent
  loose_lt := nofun
  cached_of_open hopen := by
    rw [isOpenAt_closeEach] at hopen
    rw [cached_closeEach]
    exact .inr ((h.cached_of_open hopen.1).resolve_left hopen.2)

/-- A connection that closes on its own stays cached. -/
theorem closeAt (h : c.IsSound now given []) (place : Nat) : (c.closeAt place).IsSound now given []
    where
  idle_pos := h.idle_pos
  lastSweep_le := h.lastSweep_le
  entry he := by
    obtain ⟨hhop, hgiven, hrecent, hloose⟩ := h.entry he
    exact ⟨(hopAt?_closeAt _ _ _).trans hhop, hgiven, hrecent, hloose⟩
  loose_lt := nofun
  cached_of_open hopen := h.cached_of_open ((isOpenAt_closeAt _ _ _).1 hopen).1

theorem closeAll (h : c.IsSound now given []) : c.closeAll.IsSound now given [] := by
  rw [closeAll_eq]
  refine ⟨?_, ?_, nofun, nofun, fun {place} hopen => ?_⟩
  · exact (idle_closeEach _ _).symm ▸ h.idle_pos
  · exact (lastSweep_closeEach _ _).symm ▸ h.lastSweep_le
  · obtain ⟨hopen, hplace⟩ := (isOpenAt_closeEach _ _ _).1 hopen
    obtain ⟨hop, e, he, rfl⟩ := (h.cached_of_open hopen).resolve_left List.not_mem_nil
    exact absurd (List.mem_map.2 ⟨e, Table.mem_values.2 ⟨hop, he⟩, rfl⟩) hplace

/-! ### Waiting -/

theorem wait (h : c.IsSound now given loose) (time : Nat) : c.IsSound (now + time) given loose where
  idle_pos := h.idle_pos
  lastSweep_le := Nat.le_add_right_of_le h.lastSweep_le
  entry := h.entry
  loose_lt := h.loose_lt
  cached_of_open := h.cached_of_open

end IsSound

end ConnectionCache

end SipProxy
