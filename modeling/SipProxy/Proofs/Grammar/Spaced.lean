import SipProxy.Proofs.Grammar.Lexeme

/-!
# Separators with spaces around them

Spaces and tabs may stand on both sides of a slash, a comma, a semicolon and an equals sign, and in
front of the colon of a port. A separator takes them all off (`Lexeme.separator_eq_some`), so what
it leaves never begins with a space, while what stands in front of it may be followed by some
(`Lexeme.Follows`).
-/

namespace SipProxy.Lexeme

open Reader Utf8

variable {p : UInt8 → Bool} {cs ds : List Char} {c : Char} {s w rest : Octets}

/-- Spaces and tabs, as many as one likes. -/
def IsSpaces (w : Octets) : Prop := ∀ b ∈ w, isSpace b = true

theorem isSpaces_nil : IsSpaces [] := fun _ hb => nomatch hb

theorem IsSpaces.isText (h : IsSpaces w) : IsText w :=
  isText_of_ascii fun b hb => isAscii_isSpace b (h b hb)

/-- Behind spaces the text goes on. -/
theorem IsSpaces.isText_behind (h : IsSpaces w) (hs : IsText (w ++ rest)) : IsText rest :=
  (hs.cut (.inl fun b hb => isAscii_isSpace b (h b (List.mem_of_getLast? hb)))).2

/-- What is passed over is spaces. -/
theorem exists_spaces (s : Octets) : ∃ front, IsSpaces front ∧ s = front ++ spaces s :=
  ⟨s.takeWhile isSpace, List.all_eq_true.1 List.all_takeWhile,
    List.takeWhile_append_dropWhile.symm⟩

theorem stops_spaces (s : Octets) : Stops isSpace (spaces s) := stops_dropWhile isSpace s

/-- A character with spaces on both sides. -/
def IsSpaced (c : Char) (w : Octets) : Prop :=
  ∃ front behind, IsSpaces front ∧ IsSpaces behind ∧ w = front ++ ascii c :: behind

/-- A character that no spaces surround. -/
theorem isSpaced_bare (c : Char) : IsSpaced c [ascii c] :=
  ⟨[], [], isSpaces_nil, isSpaces_nil, rfl⟩

theorem IsSpaced.forall_ascii (h : IsSpaced c w) (hc : (ascii c).toNat < 0x80) :
    ∀ b ∈ w, b.toNat < 0x80 := by
  obtain ⟨front, behind, hfront, hbehind, rfl⟩ := h
  intro b hb
  rcases List.mem_append.1 hb with hb | hb
  · exact isAscii_isSpace b (hfront b hb)
  · rcases List.mem_cons.1 hb with rfl | hb
    · exact hc
    · exact isAscii_isSpace b (hbehind b hb)

theorem IsSpaced.isText (h : IsSpaced c w) (hc : (ascii c).toNat < 0x80) : IsText w :=
  isText_of_ascii (h.forall_ascii hc)

/-- Behind a separator the text goes on. -/
theorem IsSpaced.isText_behind (h : IsSpaced c w) (hc : (ascii c).toNat < 0x80)
    (hs : IsText (w ++ rest)) : IsText rest :=
  (hs.cut (.inl fun b hb => h.forall_ascii hc b (List.mem_of_getLast? hb))).2

/-- A separator takes off a character with the spaces around it, and the spaces behind those. -/
theorem IsSpaced.separator (h : IsSpaced c w) (hc : isSpace (ascii c) = false) (rest : Octets) :
    Lexeme.separator c (w ++ rest) = some (spaces rest) := by
  obtain ⟨front, behind, hfront, hbehind, rfl⟩ := h
  rw [List.append_assoc, List.cons_append]
  unfold Lexeme.separator
  rw [spaces_append hfront, spaces_of_stops (stops_cons.2 hc), octet_eq_some.2 rfl,
    Option.map_some, spaces_append hbehind]

/-- A separator takes off a character with all the spaces around it. -/
theorem separator_eq_some (hc : isSpace (ascii c) = false) :
    separator c s = some rest ↔ ∃ w, IsSpaced c w ∧ s = w ++ rest ∧ Stops isSpace rest := by
  constructor
  · intro h
    obtain ⟨s', hs', rfl⟩ := Option.map_eq_some_iff.1 h
    obtain ⟨front, hfront, hs⟩ := exists_spaces s
    obtain ⟨behind, hbehind, hs''⟩ := exists_spaces s'
    refine ⟨front ++ ascii c :: behind, ⟨front, behind, hfront, hbehind, rfl⟩, ?_, stops_spaces s'⟩
    rw [List.append_assoc, List.cons_append, ← hs'', ← octet_eq_some.1 hs', ← hs]
  · rintro ⟨w, hw, rfl, hstops⟩
    rw [hw.separator hc, spaces_of_stops hstops]

/-! ## What follows -/

/-- One of these characters follows, or nothing, spaces in front of it being allowed. -/
abbrev Follows (cs : List Char) (rest : Octets) : Prop := Ends cs (spaces rest)

theorem follows_nil (cs : List Char) : Follows cs [] := ends_nil cs

theorem Follows.spaces (h : Follows cs rest) : Follows cs (Lexeme.spaces rest) := by
  rw [Follows, spaces_spaces]
  exact h

theorem Ends.follows (h : Ends cs rest) (hcs : cs.any (fun c => isSpace (ascii c)) = false) :
    Follows cs rest := by
  rw [Follows, spaces_of_stops (h.stops hcs)]
  exact h

theorem IsSpaced.follows (h : IsSpaced c w) (hc : isSpace (ascii c) = false) (hmem : c ∈ cs)
    (rest : Octets) : Follows cs (w ++ rest) := by
  obtain ⟨front, behind, hfront, -, rfl⟩ := h
  rw [Follows, List.append_assoc, List.cons_append, spaces_append hfront,
    spaces_of_stops (stops_cons.2 hc)]
  exact ends_cons hmem _

/-- Either a space follows or one of the characters does. -/
theorem Follows.ends (h : Follows cs rest) : Ends (' ' :: '\t' :: cs) rest := by
  intro b hb
  cases hspace : isSpace b with
  | true =>
    rcases isSpace_iff.1 hspace with rfl | rfl
    · exact ⟨' ', by simp, rfl⟩
    · exact ⟨'\t', by simp, rfl⟩
  | false =>
    obtain ⟨behind, rfl⟩ := List.head?_eq_some_iff.1 (Option.mem_def.1 hb)
    rw [Follows, spaces_of_stops (stops_cons.2 hspace)] at h
    obtain ⟨c, hc, rfl⟩ := h b rfl
    exact ⟨c, List.mem_cons_of_mem _ (List.mem_cons_of_mem _ hc), rfl⟩

theorem Follows.stops (h : Follows cs rest)
    (hp : (' ' :: '\t' :: cs).any (fun c => p (ascii c)) = false) : Stops p rest :=
  h.ends.stops hp

theorem IsSpaced.stops (h : IsSpaced c w) (hc : isSpace (ascii c) = false)
    (hp : [' ', '\t', c].any (fun d => p (ascii d)) = false) (rest : Octets) :
    Stops p (w ++ rest) := by
  have hfollows : Follows [c] (w ++ rest) := h.follows hc List.mem_cons_self rest
  exact hfollows.stops hp

theorem Follows.separator_eq_none (h : Follows cs rest) (hc : ascii c ∉ cs.map ascii) :
    separator c rest = none := by
  unfold separator
  rw [h.octet_eq_none hc]
  rfl

end SipProxy.Lexeme
