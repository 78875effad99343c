import SipProxy.Text.Cut

/-!
# Destination patterns

A pattern is a text in which a star stands for any run of characters on one line, possibly an empty
one, and every other character for itself. It has to match the whole destination. `covers` says this
in as many words, at the cost of trying every split at every star.

`isMatch` decides it in one pass. The stars cut the pattern into pieces; the first has to stand in
front, the last at the end, and each one between them is taken where it occurs first. Taking it
there loses nothing (`isMatch_eq_covers`): whatever a later occurrence leaves for the next star, the
first one leaves too, with more characters of the same line in front.

A pattern is admitted if it is small enough to be compiled (`fits`), which is measured as if it were
compiled to a pair of automata over the octets of a destination, one that reads forward and one that
reads backward.
-/

namespace SipProxy.Pattern

open Text (dropFront? dropFront?_eq_some)

/-- Does the pattern match the whole text? -/
def covers : List Char → List Char → Bool
  | [], s => s.isEmpty
  | p :: ps, s =>
    if p = '*' then
      covers ps s ||
        match s with
        | c :: s => c != '\n' && covers (p :: ps) s
        | [] => false
    else
      match s with
      | c :: s => c == p && covers ps s
      | [] => false
termination_by p s => p.length + s.length

/-! ## Matching in one pass -/

/-- What stands before the first star, and what stands behind each star up to the next. -/
def pieces : List Char → List Char × List (List Char)
  | [] => ([], [])
  | p :: ps =>
    let r := pieces ps
    if p = '*' then ([], r.1 :: r.2) else (p :: r.1, r.2)

/-- What follows the first occurrence of a piece that is reached without leaving the line. -/
def skipTo (piece : List Char) : List Char → Option (List Char)
  | [] => dropFront? piece []
  | c :: s =>
    match dropFront? piece (c :: s) with
    | some rest => some rest
    | none => if c = '\n' then none else skipTo piece s

/-- Is the text a part of a line with the piece behind it? -/
def isLineBefore (piece s : List Char) : Bool :=
  let line := s.take (s.length - piece.length)
  s == line ++ piece && !line.contains '\n'

/-- Is the text covered by the pieces with a star before each? -/
def followsStars : List (List Char) → List Char → Bool
  | [], s => s.isEmpty
  | [last], s => isLineBefore last s
  | piece :: pieces, s =>
    match skipTo piece s with
    | some rest => followsStars pieces rest
    | none => false

/-- Does the pattern match the whole destination? -/
def isMatch (pattern destination : String) : Bool :=
  let cut := pieces pattern.toList
  match dropFront? cut.1 destination.toList with
  | some rest => followsStars cut.2 rest
  | none => false

/-- Has the pattern a star? -/
def hasStar (pattern : String) : Bool := pattern.toList.contains '*'

/-! ## Size -/

/-- The memory of the larger automaton, in octets. A state takes 32 of them and a literal octet is
one state in either direction. A star takes 464 forward, where the encodings of its characters
share their last octets, and 1040 backward, where they share nothing. The ends of the text take six
states forward and four backward. -/
def automatonSize (pattern : String) : Nat :=
  let stars := pattern.toList.count '*'
  let literals := 32 * (pattern.utf8ByteSize - stars)
  max (192 + literals + 464 * stars) (128 + literals + 1040 * stars)

/-- The memory that an automaton may take, in octets. -/
def sizeLimit : Nat := 10485760

/-- Is the pattern small enough to be compiled? -/
def fits (pattern : String) : Bool := automatonSize pattern ≤ sizeLimit

/-! ## The meaning of the pass -/

/-- The pattern of pieces with a star before each. -/
def starred (pieces : List (List Char)) : List Char := pieces.flatMap ('*' :: ·)

theorem pieces_append (p : List Char) : (pieces p).1 ++ starred (pieces p).2 = p := by
  induction p with
  | nil => rfl
  | cons c p ih =>
    by_cases h : c = '*'
    · simpa [pieces, h, starred] using ih
    · simpa [pieces, h] using ih

theorem star_notMem_pieces (p : List Char) :
    '*' ∉ (pieces p).1 ∧ ∀ piece ∈ (pieces p).2, '*' ∉ piece := by
  induction p with
  | nil => simp [pieces]
  | cons c p ih =>
    by_cases h : c = '*'
    · simpa [pieces, h] using ih
    · simpa [pieces, h, Ne.symm h] using ih

theorem covers_append {piece p s : List Char} (h : '*' ∉ piece) :
    covers (piece ++ p) s = true ↔ ∃ rest, s = piece ++ rest ∧ covers p rest = true := by
  induction piece generalizing s with
  | nil => simp
  | cons c piece ih =>
    simp only [List.mem_cons, not_or] at h
    cases s with
    | nil => simp [covers, Ne.symm h.1]
    | cons d s =>
      simp only [List.cons_append, covers, Ne.symm h.1, if_false, Bool.and_eq_true, beq_iff_eq,
        ih h.2, List.cons.injEq]
      constructor
      · rintro ⟨rfl, rest, rfl, hr⟩
        exact ⟨rest, ⟨rfl, rfl⟩, hr⟩
      · rintro ⟨rest, ⟨rfl, rfl⟩, hr⟩
        exact ⟨rfl, rest, rfl, hr⟩

theorem covers_star {p s : List Char} : covers ('*' :: p) s = true ↔
    ∃ line rest, s = line ++ rest ∧ '\n' ∉ line ∧ covers p rest = true := by
  induction s with
  | nil =>
    simp only [covers, if_true, Bool.or_false]
    constructor
    · exact fun h => ⟨[], [], rfl, by simp, h⟩
    · rintro ⟨line, rest, h, _, hr⟩
      rw [(List.append_eq_nil_iff.1 h.symm).2] at hr
      exact hr
  | cons c s ih =>
    rw [covers]
    simp only [if_true, Bool.or_eq_true, Bool.and_eq_true, bne_iff_ne, ih]
    constructor
    · rintro (h | ⟨hc, line, rest, rfl, hl, hr⟩)
      · exact ⟨[], c :: s, rfl, by simp, h⟩
      · exact ⟨c :: line, rest, rfl, by simp [hl, Ne.symm hc], hr⟩
    · rintro ⟨line, rest, hs, hl, hr⟩
      cases line with
      | nil =>
        rw [List.nil_append] at hs
        exact .inl (hs ▸ hr)
      | cons d line =>
        simp only [List.cons_append, List.cons.injEq, List.mem_cons, not_or] at hs hl
        exact .inr ⟨hs.1 ▸ Ne.symm hl.1, line, rest, hs.2, hl.2, hr⟩

theorem skipTo_of_dropFront? {piece s rest : List Char} (h : dropFront? piece s = some rest) :
    skipTo piece s = some rest := by
  cases s with
  | nil => exact h
  | cons c s => rw [skipTo, h]

theorem skipTo_cons {piece s : List Char} {c : Char} (h : dropFront? piece (c :: s) = none) :
    skipTo piece (c :: s) = if c = '\n' then none else skipTo piece s := by
  rw [skipTo, h]

theorem eq_append_of_skipTo {piece s rest : List Char} (h : skipTo piece s = some rest) :
    ∃ line, s = line ++ (piece ++ rest) ∧ '\n' ∉ line := by
  induction s with
  | nil =>
    rw [skipTo, dropFront?_eq_some] at h
    exact ⟨[], h, by simp⟩
  | cons c s ih =>
    cases hd : dropFront? piece (c :: s) with
    | some r =>
      rw [skipTo_of_dropFront? hd, Option.some.injEq] at h
      rw [h, dropFront?_eq_some] at hd
      exact ⟨[], hd, by simp⟩
    | none =>
      rw [skipTo_cons hd] at h
      by_cases hc : c = '\n'
      · simp [hc] at h
      · rw [if_neg hc] at h
        obtain ⟨line, rfl, hl⟩ := ih h
        exact ⟨c :: line, rfl, by simp [hl, Ne.symm hc]⟩

/-- The first occurrence leaves what a later one leaves, with more of the same line in front: no
line feed stands before the later one, hence none between the two ends. -/
theorem skipTo_append {line piece rest : List Char} (h : '\n' ∉ line) :
    ∃ more, skipTo piece (line ++ (piece ++ rest)) = some (more ++ rest) ∧ '\n' ∉ more := by
  induction line with
  | nil => exact ⟨[], skipTo_of_dropFront? (dropFront?_eq_some.2 rfl), by simp⟩
  | cons c line ih =>
    cases hd : dropFront? piece (c :: line ++ (piece ++ rest)) with
    | some r =>
      have hr := dropFront?_eq_some.1 hd
      have hlen := congrArg List.length hr
      simp only [List.length_append, List.length_cons] at hlen
      have hcut : (c :: line ++ piece) ++ rest
          = (piece ++ r.take (line.length + 1)) ++ r.drop (line.length + 1) := by
        rw [List.append_assoc, hr, List.append_assoc, List.take_append_drop]
      obtain ⟨hfront, hback⟩ := List.append_inj' hcut (by simp; omega)
      refine ⟨r.take (line.length + 1), ?_, ?_⟩
      · rw [hback, List.take_append_drop]
        exact skipTo_of_dropFront? (hback ▸ hd)
      · have hcount := congrArg (List.count '\n') hfront
        rw [List.count_append, List.count_append, List.count_eq_zero.2 h] at hcount
        exact List.count_eq_zero.1 (by omega)
    | none =>
      simp only [List.mem_cons, not_or] at h
      obtain ⟨more, hm, hn⟩ := ih h.2
      rw [List.cons_append] at hd
      exact ⟨more, by rw [List.cons_append, skipTo_cons hd, if_neg (Ne.symm h.1), hm], hn⟩

theorem isLineBefore_eq_true {piece s : List Char} :
    isLineBefore piece s = true ↔ ∃ line, s = line ++ piece ∧ '\n' ∉ line := by
  simp only [isLineBefore, Bool.and_eq_true, beq_iff_eq, Bool.not_eq_true',
    List.contains_eq_mem, decide_eq_false_iff_not]
  constructor
  · exact fun h => ⟨_, h.1, h.2⟩
  · rintro ⟨line, rfl, hl⟩
    have : (line ++ piece).take ((line ++ piece).length - piece.length) = line := by simp
    rw [this]
    exact ⟨rfl, hl⟩

theorem followsStars_eq_covers {ps : List (List Char)} (h : ∀ piece ∈ ps, '*' ∉ piece)
    (s : List Char) : followsStars ps s = covers (starred ps) s := by
  induction ps generalizing s with
  | nil => rw [followsStars, starred, List.flatMap_nil, covers]
  | cons piece ps ih =>
    rw [Bool.eq_iff_iff]
    have hs : starred (piece :: ps) = '*' :: (piece ++ starred ps) := by simp [starred]
    have hp := h piece (by simp)
    have ih := ih fun q hq => h q (by simp [hq])
    simp only [hs, covers_star, covers_append hp]
    cases ps with
    | nil =>
      rw [followsStars, isLineBefore_eq_true]
      simp [starred, covers]
    | cons q ps =>
      have hq : starred (q :: ps) = '*' :: (q ++ starred ps) := by simp [starred]
      rw [followsStars.eq_3 s piece (q :: ps) (by simp)]
      constructor
      · intro hm
        cases hk : skipTo piece s with
        | none => simp [hk] at hm
        | some rest =>
          obtain ⟨line, hl⟩ := eq_append_of_skipTo hk
          rw [hk] at hm
          exact ⟨line, piece ++ rest, hl.1, hl.2, rest, rfl, ih rest ▸ hm⟩
      · rintro ⟨line, _, rfl, hl, rest, rfl, hr⟩
        obtain ⟨more, hk, hn⟩ := @skipTo_append line piece rest hl
        rw [hq, covers_star] at hr
        obtain ⟨l, r, rfl, hl', hr⟩ := hr
        simp only [hk, ih]
        rw [hq, covers_star]
        exact ⟨more ++ l, r, by simp, by simp [hn, hl'], hr⟩

/-- Matching in one pass decides what the pattern means. -/
theorem isMatch_eq_covers (pattern destination : String) :
    isMatch pattern destination = covers pattern.toList destination.toList := by
  have h := star_notMem_pieces pattern.toList
  rw [Bool.eq_iff_iff]
  conv => rhs; rw [← pieces_append pattern.toList, covers_append h.1]
  simp only [isMatch]
  cases hd : dropFront? (pieces pattern.toList).1 destination.toList with
  | some rest =>
    rw [dropFront?_eq_some] at hd
    simp [hd, followsStars_eq_covers h.2]
  | none =>
    simp only [Bool.false_eq_true, false_iff, not_exists, not_and]
    intro rest hr
    simp [dropFront?_eq_some.2 hr] at hd

end SipProxy.Pattern
