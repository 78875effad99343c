import Mathlib.Data.List.Forall2
import SipProxy.Proofs.Header.Lines

/-!
# Lines that differ in spelling

A header name can be written in any letter case, and some in a compact form. Two lines that hold the
same under two spellings of one name (`Header.Alike`) are found by the same names and read to the
same value, so lists of such lines stay alike under everything that is done to headers. Faults are
of the same kind too, but not always in the same words, since the words may cite the name as it is
written.

The second part is about lines that are left out of sight. Whatever finds its place by lines of some
kinds does the same to a list from which only lines of other kinds are missing.
-/

namespace SipProxy

namespace HeaderName

/-- Do two texts spell one name, in another letter case, or one in full and one in compact form? -/
def SpelledAlike (a b : String) : Prop :=
  a.toLower = b.toLower ∨ ∃ name, known? a.toLower = some name ∧ known? b.toLower = some name

variable {a b : String}

theorem isEmpty_eq_of_toLower (h : a.toLower = b.toLower) : a.isEmpty = b.isEmpty := by
  have hlength : (a.map Char.toLower).toList.length = (b.map Char.toLower).toList.length :=
    congrArg (fun s => s.toList.length) h
  simp only [String.toList_map, List.length_map, String.length_toList] at hlength
  rw [Bool.eq_iff_iff, String.isEmpty_iff, String.isEmpty_iff, ← String.length_eq_zero_iff,
    ← String.length_eq_zero_iff, hlength]

theorem known?_ne_other (lower text : String) : known? lower ≠ some (other text) := by
  unfold known?
  split <;> simp

/-- A text in another form than a known name writes that name and no other. -/
theorem isWrittenAs_of_known {known : HeaderName} (h : known? a.toLower = some known)
    (name : HeaderName) : name.isWrittenAs a = (known == name) := by
  unfold isWrittenAs ofText
  rw [h, Option.getD_some]
  split
  · exact absurd h (known?_ne_other _ _)
  · rfl

theorem isWrittenAs_of_unknown (h : known? a.toLower = none) (name : HeaderName) :
    name.isWrittenAs a =
      match name with
      | other ours => !a.isEmpty && Text.sameIgnoringCase ours a
      | _ => false := by
  have hother : ofText a = .other a := by
    simp only [ofText, h, Option.getD_none]
  cases name <;> simp only [isWrittenAs, hother]

/-- No name tells the spellings apart. -/
theorem SpelledAlike.isWrittenAs_eq (h : SpelledAlike a b) (name : HeaderName) :
    name.isWrittenAs b = name.isWrittenAs a := by
  rcases h with h | ⟨known, ha, hb⟩
  · cases hk : known? a.toLower with
    | some known => rw [isWrittenAs_of_known hk, isWrittenAs_of_known (h ▸ hk)]
    | none =>
      rw [isWrittenAs_of_unknown hk, isWrittenAs_of_unknown (h ▸ hk),
        ← isEmpty_eq_of_toLower h]
      simp only [Text.sameIgnoringCase, h]
  · rw [isWrittenAs_of_known ha, isWrittenAs_of_known hb]

end HeaderName

/-- Faults of the same kind, maybe in other words. -/
def SipError.Alike (e e' : SipError) : Prop := e'.name = e.name

/-- The lines hold the same, under spellings of one name. -/
structure Header.Alike (h h' : Header) : Prop where
  name : HeaderName.SpelledAlike h.name h'.name
  slot : h'.slot = h.slot

namespace Header

variable {h h' : Header} {k : HeaderKind} {name : HeaderName}

/-- A line of a name that is no free text is of no other such name. -/
theorem is_iff (hn : ∀ text, name ≠ .other text) :
    h.is name = true ↔ HeaderName.ofText h.name = name := by
  unfold is HeaderName.isWrittenAs
  split
  · rename_i theirs ht
    rw [ht]
    cases name with
    | other text => exact absurd rfl (hn text)
    | _ => simp
  · exact beq_iff_eq

theorem Alike.refl (h : Header) : Alike h h := ⟨.inl rfl, rfl⟩

theorem Alike.is_eq (ha : Alike h h') (name : HeaderName) : h'.is name = h.is name :=
  ha.name.isWrittenAs_eq name

theorem Alike.valueText_eq (ha : Alike h h') : h'.valueText = h.valueText := by
  rw [valueText, valueText, ha.slot]

theorem Alike.put (ha : Alike h h') (k : HeaderKind) (v : k.Value) :
    Alike (h.put k v) (h'.put k v) :=
  ⟨ha.name, rfl⟩

/-- Alike lines are read to the same value, or for faults of one kind. -/
theorem Alike.read (ha : Alike h h') (k : HeaderKind) :
    Outcome.Agree SipError.Alike Eq (h.read k) (h'.read k) := by
  unfold Header.read
  rw [ha.slot]
  cases h.slot with
  | raw text =>
    simp only
    cases k.parse text with
    | ok v => exact .ok rfl
    | error e => exact .error rfl
  | typed value =>
    simp only
    cases k.unwrap? value with
    | some v => exact .ok rfl
    | none => exact .error rfl

theorem Alike.memoise (ha : Alike h h') (k : HeaderKind) :
    Alike (h.memoise k).2 (h'.memoise k).2 := by
  have hread := ha.read k
  unfold Header.memoise
  generalize h.read k = r at hread ⊢
  generalize h'.read k = r' at hread ⊢
  cases hread with
  | ok hv =>
    subst hv
    exact ha.put k _
  | error _ => exact ha

end Header

namespace Headers

variable {k : HeaderKind} {hs hs' : Headers} {h : Header} {f : Header → Headers}
  {p q : Header → Bool}

theorem replaceFirst_cons (h : Header) (hs : Headers) :
    replaceFirst k f (h :: hs) =
      if h.is k.name = true then f h ++ hs else h :: replaceFirst k f hs := by
  unfold replaceFirst
  rw [cut]
  by_cases hh : h.is k.name = true
  · rw [if_pos hh, if_pos hh]
    rfl
  · rw [if_neg hh, if_neg hh]
    cases cut k.name hs <;> rfl

/-! ## Lists of alike lines -/

/-- Line by line alike. -/
def Alike (hs hs' : Headers) : Prop := List.Forall₂ Header.Alike hs hs'

namespace Alike

theorem filter (ha : Alike hs hs') (hp : ∀ x x', x.Alike x' → p x' = p x) :
    Alike (hs.filter p) (hs'.filter p) :=
  List.rel_filter (fun x x' hx => Bool.eq_iff_iff.1 (hp x x' hx).symm) ha

theorem linesOf (ha : Alike hs hs') (k : HeaderKind) :
    Alike (linesOf k hs) (Headers.linesOf k hs') :=
  ha.filter fun _ _ hx => hx.is_eq k.name

theorem slots_eq (ha : Alike hs hs') : hs'.map Header.slot = hs.map Header.slot := by
  induction ha with
  | nil => rfl
  | cons hx _ ih => rw [List.map_cons, List.map_cons, hx.slot, ih]

theorem named? (ha : Alike hs hs') (name : HeaderName) :
    (Headers.named? name hs').map Header.valueText =
      (Headers.named? name hs).map Header.valueText := by
  induction ha with
  | nil => rfl
  | @cons x x' xs xs' hx _ ih =>
    unfold Headers.named? at ih ⊢
    rw [List.find?_cons, List.find?_cons, hx.is_eq]
    split
    · exact congrArg some hx.valueText_eq
    · exact ih

theorem findIdx?_eq (ha : Alike hs hs') (hq : ∀ x x', x.Alike x' → q x' = q x) :
    hs'.findIdx? q = hs.findIdx? q := by
  induction ha with
  | nil => rfl
  | cons hx _ ih => rw [List.findIdx?_cons, List.findIdx?_cons, hq _ _ hx, ih]

theorem recordRoutePosition_eq (ha : Alike hs hs') :
    recordRoutePosition hs' = recordRoutePosition hs := by
  unfold recordRoutePosition
  rw [ha.findIdx?_eq fun _ _ hx => hx.is_eq .recordRoute,
    ha.findIdx?_eq fun _ _ hx => by rw [hx.is_eq, hx.is_eq], List.Forall₂.length_eq ha]

theorem replaceFirst (ha : Alike hs hs') (hf : ∀ x x', x.Alike x' → Alike (f x) (f x')) :
    Alike (Headers.replaceFirst k f hs) (Headers.replaceFirst k f hs') := by
  induction ha with
  | nil => exact .nil
  | @cons x x' xs xs' hx hxs ih =>
    rw [replaceFirst_cons, replaceFirst_cons, hx.is_eq]
    split
    · exact List.rel_append (hf x x' hx) hxs
    · exact .cons hx ih

theorem insertAt (ha : Alike hs hs') (n : Nat) (h : Header) :
    Alike (Headers.insertAt n h hs) (Headers.insertAt n h hs') :=
  List.rel_append (List.forall₂_take n ha) (.cons (.refl h) (List.forall₂_drop n ha))

end Alike

/-! ## Lines out of sight -/

theorem linesOf_filter (hp : ∀ x : Header, x.is k.name = true → p x = true) (hs : Headers) :
    linesOf k (hs.filter p) = linesOf k hs := by
  unfold linesOf
  rw [List.filter_filter]
  refine List.filter_congr fun x _ => ?_
  cases hx : x.is k.name with
  | true => rw [hp x hx, Bool.and_true]
  | false => rw [Bool.false_and]

theorem named?_filter {name : HeaderName} (hp : ∀ x : Header, x.is name = true → p x = true)
    (hs : Headers) : named? name (hs.filter p) = named? name hs := by
  induction hs with
  | nil => rfl
  | cons x xs ih =>
    unfold named? at ih ⊢
    by_cases hx : p x = true
    · rw [List.filter_cons_of_pos hx, List.find?_cons, List.find?_cons, ih]
    · have hname : ¬ x.is name = true := fun hname => hx (hp x hname)
      rw [List.filter_cons_of_neg hx, ih]
      exact (List.find?_cons_of_neg (p := fun x : Header => x.is name) hname).symm

/-- Changing the first line of a kind does not depend on lines that are not seen. -/
theorem filter_replaceFirst_of_seen (hp : ∀ x : Header, x.is k.name = true → p x = true)
    (hf : ∀ x, x.is k.name = true → ∀ y ∈ f x, y.is k.name = true) (hs : Headers) :
    (replaceFirst k f hs).filter p = replaceFirst k f (hs.filter p) := by
  induction hs with
  | nil => rfl
  | cons x xs ih =>
    rw [replaceFirst_cons]
    by_cases hx : x.is k.name = true
    · have hkept : (f x).filter p = f x := List.filter_eq_self.2 fun y hy => hp y (hf x hx y hy)
      rw [if_pos hx, List.filter_append, hkept, List.filter_cons_of_pos (hp x hx),
        replaceFirst_cons, if_pos hx]
    · rw [if_neg hx, List.filter_cons, List.filter_cons, ih]
      split
      · rw [replaceFirst_cons, if_neg hx]
      · rfl

theorem insertAt_findIdx_cons (q : Header → Bool) (h x : Header) (xs : Headers) :
    insertAt ((x :: xs).findIdx q) h (x :: xs) =
      if q x = true then h :: x :: xs else x :: insertAt (xs.findIdx q) h xs := by
  rw [List.findIdx_cons]
  cases q x <;> rfl

/-- A line that is put in front of the first line of some sort goes to the same place among the
lines that are seen. -/
theorem filter_insertAt_findIdx (hh : p h = true) (hq : ∀ x, q x = true → p x = true)
    (hs : Headers) :
    (insertAt (hs.findIdx q) h hs).filter p =
      insertAt ((hs.filter p).findIdx q) h (hs.filter p) := by
  induction hs with
  | nil => simp [insertAt, hh]
  | cons x xs ih =>
    rw [insertAt_findIdx_cons]
    by_cases hx : q x = true
    · rw [if_pos hx, List.filter_cons_of_pos hh, List.filter_cons_of_pos (hq x hx),
        insertAt_findIdx_cons, if_pos hx]
    · rw [if_neg hx, List.filter_cons, List.filter_cons, ih]
      split
      · rw [insertAt_findIdx_cons, if_neg hx]
      · rfl

/-- What a new Record-Route line goes in front of. -/
def recordRouteAnchor (hs : Headers) : Header → Bool :=
  if (linesOf .recordRoute hs).isEmpty then fun h => h.is .fromParty || h.is .maxForwards
  else fun h => h.is .recordRoute

theorem recordRoutePosition_eq_findIdx (hs : Headers) :
    recordRoutePosition hs = hs.findIdx (recordRouteAnchor hs) := by
  unfold recordRoutePosition recordRouteAnchor
  cases hr : hs.findIdx? (·.is .recordRoute) with
  | none =>
    have hnil : linesOf .recordRoute hs = [] := linesOf_eq_nil (List.findIdx?_eq_none_iff.1 hr)
    rw [hnil]
    exact List.findIdx_eq_getD_findIdx?.symm
  | some n =>
    have hne : ¬ (linesOf .recordRoute hs).isEmpty = true := by
      intro hnil
      rw [List.isEmpty_iff, linesOf, List.filter_eq_nil_iff] at hnil
      have hnone : hs.findIdx? (·.is .recordRoute) = none :=
        List.findIdx?_eq_none_iff.2 fun x hx => by simpa [HeaderKind.name] using hnil x hx
      rw [hr] at hnone
      cases hnone
    rw [if_neg hne, List.findIdx_eq_getD_findIdx?, hr]
    rfl

/-- A new Record-Route line goes to the same place among the lines that are seen, if those that it
can go in front of are seen. -/
theorem filter_insertAt_recordRoutePosition (hh : p h = true)
    (hp : ∀ k ∈ [HeaderKind.recordRoute, .fromParty, .maxForwards], ∀ x : Header,
      x.is k.name = true → p x = true) (hs : Headers) :
    (insertAt (recordRoutePosition hs) h hs).filter p =
      insertAt (recordRoutePosition (hs.filter p)) h (hs.filter p) := by
  have hanchor : recordRouteAnchor (hs.filter p) = recordRouteAnchor hs := by
    unfold recordRouteAnchor
    rw [linesOf_filter (hp .recordRoute (by simp))]
  rw [recordRoutePosition_eq_findIdx, recordRoutePosition_eq_findIdx, hanchor]
  refine filter_insertAt_findIdx hh (fun x hx => ?_) hs
  unfold recordRouteAnchor at hx
  split at hx
  · rcases Bool.or_eq_true_iff.1 hx with hx | hx
    · exact hp .fromParty (by simp) x hx
    · exact hp .maxForwards (by simp) x hx
  · exact hp .recordRoute (by simp) x hx

end Headers

end SipProxy
