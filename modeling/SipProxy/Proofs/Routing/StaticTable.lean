import Mathlib.Data.List.Induction
import SipProxy.Proofs.History
import SipProxy.Routing.StaticTable

/-!
# What a table of static routes answers

A table is the outcome of insertions and removals, and a route stands in it if it was the last thing
that happened to its destination (`StaticRoutes.Stands`). A look-up prefers the route of the very
host to a pattern that matches it, and that to the fallback (`StaticRoutes.find_changed`). Nothing
else decides: the entries may be gone through in any order, and only which of several matching
patterns is taken depends on it.

That a pattern matches a host is said without the matcher. Cut the pattern at its stars; the host is
the pieces, one behind the other, with some text in the place of each star (`Pattern.Spells`).
-/

namespace SipProxy

/-! ## What a pattern matches -/

namespace Pattern

variable {pattern s : List Char} {pieces : List (List Char)}

/-- The text has the pieces of the pattern between its stars, as they are written, and any text in
the place of each star. Every star is given with the text in its place and the piece behind it. -/
def Spells (pattern s : List Char) : Prop :=
  ∃ (first : List Char) (stars : List (List Char × List Char)),
    '*' ∉ first ∧ (∀ star ∈ stars, '*' ∉ star.2) ∧
      pattern = first ++ stars.flatMap (fun star => '*' :: star.2) ∧
      s = first ++ stars.flatMap fun star => star.1 ++ star.2

theorem starred_map (stars : List (List Char × List Char)) :
    starred (stars.map Prod.snd) = stars.flatMap fun star => '*' :: star.2 := by
  rw [starred, List.flatMap_map]

/-- On one line a star stands for any text. -/
theorem covers_starred (hpieces : ∀ piece ∈ pieces, '*' ∉ piece) (hs : '\n' ∉ s) :
    covers (starred pieces) s = true ↔
      ∃ stars : List (List Char × List Char), stars.map Prod.snd = pieces ∧
        s = stars.flatMap fun star => star.1 ++ star.2 := by
  induction pieces generalizing s with
  | nil => simp [starred, covers]
  | cons piece pieces ih =>
    rw [List.forall_mem_cons] at hpieces
    have hstarred : starred (piece :: pieces) = '*' :: (piece ++ starred pieces) := by
      simp [starred]
    rw [hstarred, covers_star]
    constructor
    · rintro ⟨gap, behind, rfl, -, hbehind⟩
      obtain ⟨rest, rfl, hrest⟩ := (covers_append hpieces.1).1 hbehind
      simp only [List.mem_append, not_or] at hs
      obtain ⟨stars, hstars, rfl⟩ := (ih hpieces.2 hs.2.2).1 hrest
      exact ⟨(gap, piece) :: stars, by rw [List.map_cons, hstars], by simp⟩
    · rintro ⟨stars, hstars, rfl⟩
      obtain ⟨⟨gap, piece⟩, stars, rfl, rfl, rfl⟩ := List.map_eq_cons_iff.1 hstars
      simp only [List.flatMap_cons, List.mem_append, not_or] at hs
      refine ⟨gap, piece ++ stars.flatMap fun star => star.1 ++ star.2, by simp, hs.1.1, ?_⟩
      exact (covers_append hpieces.1).2 ⟨_, rfl, (ih hpieces.2 hs.2).2 ⟨stars, rfl, rfl⟩⟩

theorem covers_iff_spells (hs : '\n' ∉ s) : covers pattern s = true ↔ Spells pattern s := by
  have hpieces := star_notMem_pieces pattern
  constructor
  · intro h
    rw [← pieces_append pattern, covers_append hpieces.1] at h
    obtain ⟨rest, rfl, hrest⟩ := h
    rw [List.mem_append, not_or] at hs
    obtain ⟨stars, hstars, rfl⟩ := (covers_starred hpieces.2 hs.2).1 hrest
    refine ⟨_, stars, hpieces.1, ?_, ?_, rfl⟩
    · intro star hmem
      exact hpieces.2 _ (hstars ▸ List.mem_map_of_mem hmem)
    · rw [← starred_map, hstars, pieces_append]
  · rintro ⟨first, stars, hfirst, hstars, rfl, rfl⟩
    rw [List.mem_append, not_or] at hs
    rw [← starred_map, covers_append hfirst]
    refine ⟨_, rfl, (covers_starred ?_ hs.2).2 ⟨stars, rfl, rfl⟩⟩
    intro piece hmem
    obtain ⟨star, hstar, rfl⟩ := List.mem_map.1 hmem
    exact hstars star hstar

end Pattern

/-- A route covers a host on one line exactly if its destination, taken as a pattern, spells it. -/
theorem StaticRoute.covers_iff {r : StaticRoute} {host : String} (hline : '\n' ∉ host.toList) :
    r.covers host = true ↔ Pattern.Spells r.destination.toList host.toList := by
  rw [covers, Pattern.isMatch_eq_covers, Pattern.covers_iff_spells hline]

namespace StaticRoutes

/-! ## Changes of a table -/

/-- One change of a table. -/
inductive Change where
  | insert (route : StaticRoute)
  | remove (destination : String)

namespace Change

def destination : Change → String
  | insert route => route.destination
  | remove destination => destination

def apply (routes : StaticRoutes) : Change → StaticRoutes
  | insert route => StaticRoutes.insert route routes
  | remove destination => routes.erase destination

end Change

/-- The table after changes, the first of them to a table without entries. -/
def changed (changes : List Change) : StaticRoutes := changes.foldl Change.apply Table.empty

/-- The route is in the table after the changes: it was inserted, and nothing has happened to its
destination since. -/
def Stands (changes : List Change) (route : StaticRoute) : Prop :=
  ∃ earlier later, changes = earlier ++ .insert route :: later ∧
    ∀ change ∈ later, change.destination ≠ route.destination

variable {changes : List Change} {routes : StaticRoutes} {route : StaticRoute} {host : String}

theorem changed_concat (changes : List Change) (change : Change) :
    changed (changes ++ [change]) = change.apply (changed changes) := by
  rw [changed, List.foldl_append]
  rfl

/-- One change decides on its own destination and on no other. -/
theorem find?_apply (change : Change) (destination : String) :
    (change.apply routes).find? destination =
      if change.destination = destination then
        match change with
        | .insert route => some route.hop
        | .remove _ => none
      else routes.find? destination := by
  cases change with
  | insert route =>
    simp only [Change.apply, insert, Change.destination, Table.find?_put]
    exact if_congr eq_comm rfl rfl
  | remove removed =>
    simp only [Change.apply, Change.destination, Table.find?_erase]
    exact if_congr eq_comm rfl rfl

theorem stands_iff_exists_last {destination : String} {hop : Hop} :
    Stands changes ⟨destination, hop⟩ ↔
      ∃ earlier change later, changes = earlier ++ change :: later ∧
        change.destination = destination ∧ change = .insert ⟨destination, hop⟩ ∧
        ∀ change ∈ later, ¬ change.destination = destination := by
  constructor
  · rintro ⟨earlier, later, heq, hlater⟩
    exact ⟨earlier, _, later, heq, rfl, rfl, hlater⟩
  · rintro ⟨earlier, _, later, heq, -, rfl, hlater⟩
    exact ⟨earlier, later, heq, hlater⟩

/-- The entries of a table are the routes that stand. -/
theorem find?_changed (destination : String) (hop : Hop) :
    (changed changes).find? destination = some hop ↔ Stands changes ⟨destination, hop⟩ := by
  induction changes using List.reverseRecOn with
  | nil => simp [changed, Stands]
  | append_singleton changes change ih =>
    rw [stands_iff_exists_last, History.exists_last_concat, ← stands_iff_exists_last, ← ih,
      changed_concat, find?_apply]
    by_cases hd : change.destination = destination
    · rw [if_pos hd]
      subst hd
      cases change with
      | insert route =>
        obtain ⟨destination, hop'⟩ := route
        simp [Change.destination]
      | remove removed => simp
    · simp [hd]

/-! ## Look-ups -/

/-- The route is for hosts that a pattern with a star spells, and this host is one of them. -/
def IsPatternFor (route : StaticRoute) (host : String) : Prop :=
  '*' ∈ route.destination.toList ∧ Pattern.Spells route.destination.toList host.toList

/-- What a table answers after changes. The route of the very host comes first, then any pattern for
it, then the fallback. -/
structure Answers (changes : List Change) (host : String) (answer : Except ProxyError Hop) :
    Prop where
  exact : ∀ route, Stands changes route → route.destination = host → answer = .ok route.hop
  pattern : (∀ route, Stands changes route → route.destination ≠ host) →
    (∃ route, Stands changes route ∧ IsPatternFor route host) →
      ∃ route, Stands changes route ∧ IsPatternFor route host ∧ answer = .ok route.hop
  fallback : (∀ route, Stands changes route → route.destination ≠ host) →
    (∀ route, Stands changes route → ¬ IsPatternFor route host) →
      ∀ route, Stands changes route → route.destination = "default" → answer = .ok route.hop
  none : (∀ route, Stands changes route → route.destination ≠ host) →
    (∀ route, Stands changes route → ¬ IsPatternFor route host) →
      (∀ route, Stands changes route → route.destination ≠ "default") →
        answer = .error (.routeNotFound host)

/-- The entries of a table in any order are the routes that stand. -/
theorem mem_entries_iff (horder : routes.entries.Perm (changed changes).entries) :
    (route.destination, route.hop) ∈ routes.entries ↔ Stands changes route := by
  rw [horder.mem_iff, ← Table.find?_eq_some]
  exact find?_changed route.destination route.hop

theorem find?_eq_none_of_order {destination : String}
    (horder : routes.entries.Perm (changed changes).entries) :
    routes.find? destination = none ↔
      ∀ route, Stands changes route → route.destination ≠ destination := by
  rw [Table.find?_eq_none]
  constructor
  · rintro h route hstands rfl
    exact h route.hop ((mem_entries_iff horder).2 hstands)
  · intro h hop hmem
    exact h ⟨destination, hop⟩ ((mem_entries_iff horder).1 hmem) rfl

theorem isPatternFor_iff (hline : '\n' ∉ host.toList) :
    (Pattern.hasStar route.destination && Pattern.isMatch route.destination host) = true ↔
      IsPatternFor route host := by
  rw [Bool.and_eq_true, Pattern.hasStar, List.contains_iff_mem]
  exact and_congr_right fun _ => StaticRoute.covers_iff (r := route) hline

theorem byPattern?_eq_none_iff (horder : routes.entries.Perm (changed changes).entries)
    (hline : '\n' ∉ host.toList) :
    routes.byPattern? host = none ↔
      ∀ route, Stands changes route → ¬ IsPatternFor route host := by
  rw [byPattern?, Option.map_eq_none_iff, List.find?_eq_none]
  constructor
  · intro h route hstands hpattern
    exact h _ ((mem_entries_iff horder).2 hstands) ((isPatternFor_iff hline).2 hpattern)
  · rintro h ⟨destination, hop⟩ hmem hpattern
    have hfor : IsPatternFor ⟨destination, hop⟩ host := (isPatternFor_iff hline).1 hpattern
    exact h _ ((mem_entries_iff horder).1 hmem) hfor

theorem exists_of_byPattern? {hop : Hop} (horder : routes.entries.Perm (changed changes).entries)
    (hline : '\n' ∉ host.toList) (h : routes.byPattern? host = some hop) :
    ∃ route, Stands changes route ∧ IsPatternFor route host ∧ route.hop = hop := by
  obtain ⟨⟨destination, hop'⟩, hfind, rfl⟩ := Option.map_eq_some_iff.1 h
  have hmem := List.mem_of_find?_eq_some hfind
  have hpattern := List.find?_some hfind
  exact ⟨⟨destination, hop'⟩, (mem_entries_iff horder).1 hmem,
    (isPatternFor_iff hline).1 hpattern, rfl⟩

/-- A look-up answers by what was inserted last at each destination, whatever the order of the
entries, and a pattern matches what it spells. -/
theorem find_of_changes (changes : List Change) (routes : StaticRoutes) (host : String)
    (horder : routes.entries.Perm (changed changes).entries) (hline : '\n' ∉ host.toList) :
    Answers changes host (routes.find host) ∧
      ∀ route : StaticRoute, route.covers host = true ↔
        Pattern.Spells route.destination.toList host.toList := by
  have hstands : ∀ {route}, Stands changes route →
      routes.find? route.destination = some route.hop := by
    intro route h
    exact Table.find?_eq_some.2 ((mem_entries_iff horder).2 h)
  have hfind := @find?_eq_none_of_order changes routes host horder
  have hpattern := byPattern?_eq_none_iff horder hline
  refine ⟨⟨?_, ?_, ?_, ?_⟩, fun route => StaticRoute.covers_iff hline⟩
  · rintro route h rfl
    simp only [find, hstands h]
  · rintro hexact ⟨route, h, hfor⟩
    cases hp : routes.byPattern? host with
    | none => exact absurd hfor (hpattern.1 hp route h)
    | some hop =>
      obtain ⟨taken, htaken, htakenFor, rfl⟩ := exists_of_byPattern? horder hline hp
      exact ⟨taken, htaken, htakenFor, by simp only [find, hfind.2 hexact, hp]⟩
  · rintro hexact hno route h hdefault
    have hfallback : routes.find? fallback = some route.hop := by
      rw [fallback, ← hdefault]
      exact hstands h
    simp only [find, hfind.2 hexact, hpattern.2 hno, hfallback]
  · rintro hexact hno hdefault
    have hfallback : routes.find? fallback = none := (find?_eq_none_of_order horder).2 hdefault
    simp only [find, hfind.2 hexact, hpattern.2 hno, hfallback]

/-- Two patterns for one host, and a route of the very host that was taken out again. Which pattern
is taken depends on the order of the entries. -/
theorem find_of_changes_of_overlap :
    ∃ (changes : List Change) (routes : StaticRoutes),
      changes = [.insert ⟨"default", ⟨.udp, "c.net", 5060⟩⟩,
        .insert ⟨"*.example.com", ⟨.udp, "a.net", 5060⟩⟩,
        .insert ⟨"x.*.com", ⟨.tls, "b.net", 5061⟩⟩,
        .insert ⟨"x.example.com", ⟨.udp, "d.net", 5060⟩⟩, .remove "x.example.com"] ∧
      routes.entries = (changed changes).entries.reverse ∧
      Answers changes "x.example.com" (routes.find "x.example.com") ∧
      routes.find "x.example.com" = .ok ⟨.tls, "b.net", 5061⟩ ∧
      (changed changes).find "x.example.com" = .ok ⟨.udp, "a.net", 5060⟩ := by
  refine ⟨_, ⟨_, ?_⟩, rfl, rfl, ?_, ?_, ?_⟩
  · decide +kernel
  · exact (find_of_changes _ _ _ (by decide +kernel) (by decide +kernel)).1
  · decide +kernel
  · decide +kernel

end StaticRoutes

end SipProxy
