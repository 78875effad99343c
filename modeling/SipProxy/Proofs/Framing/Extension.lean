import SipProxy.Message.Framing

/-!
# Framing as a stream grows

What `frameLengthWithin` says of a buffer is a decision that later octets never take back. A frame
and a fault stay what they are (`frameLengthWithin_append`), and a buffer that is incomplete and
already longer than the limit has no frame however it goes on
(`frameLengthWithin_append_ne_some`).

Both rest on where a line, and then a header block, ends. A finished one is untouched by what
follows it, and an unfinished one can only end within what follows; lengths say which of the two it
is, so no octet of a line is ever looked at again after `Line.read_eq_some`.
-/

namespace SipProxy

/-! ## Lines -/

namespace Line

/-- A line is what stands before its ending, and its ending is one of two. -/
theorem read_eq_some {s line rest : Octets} :
    read s = some (line, rest) ↔
      (∀ b ∈ line, isInside b = true) ∧
        (s = line ++ 0x0A :: rest ∨ s = line ++ 0x0D :: 0x0A :: rest) := by
  constructor
  · intro h
    have hs := List.takeWhile_append_dropWhile (p := isInside) (l := s)
    have hin : ∀ b ∈ s.takeWhile isInside, isInside b = true :=
      List.all_eq_true.1 List.all_takeWhile
    unfold read at h
    split at h
    · rename_i r hr
      obtain ⟨rfl, rfl⟩ : s.takeWhile isInside = line ∧ r = rest := by simpa using h
      exact ⟨hin, .inl (by rw [← hr, hs])⟩
    · rename_i r hr
      obtain ⟨rfl, rfl⟩ : s.takeWhile isInside = line ∧ r = rest := by simpa using h
      exact ⟨hin, .inr (by rw [← hr, hs])⟩
    · simp at h
  · rintro ⟨hin, rfl | rfl⟩ <;>
      simp [read, List.dropWhile_append_of_pos hin, List.takeWhile_append_of_pos hin, isInside]

theorem read_append {s line rest : Octets} (x : Octets) (h : read s = some (line, rest)) :
    read (s ++ x) = some (line, rest ++ x) := by
  rw [read_eq_some] at h ⊢
  obtain ⟨hin, rfl | rfl⟩ := h <;> exact ⟨hin, by simp⟩

/-- A line that has not ended ends within the octets that follow. -/
theorem length_lt_of_read_append {s x line rest : Octets} (h : read s = none)
    (hx : read (s ++ x) = some (line, rest)) : rest.length < x.length := by
  apply Nat.lt_of_not_le
  intro hle
  -- otherwise the line with its ending is a prefix of `s`, and `s` would have been read
  have hrest : ∀ ending : Octets, s ++ x = line ++ ending ++ rest →
      ∃ r, s = line ++ ending ++ r := by
    intro ending he
    have hline : line ++ ending <+: s ++ x := ⟨rest, he.symm⟩
    have hpre : line ++ ending <+: s := by
      refine List.prefix_of_prefix_length_le hline ⟨x, rfl⟩ ?_
      have := congrArg List.length he
      simp only [List.length_append] at this ⊢
      omega
    exact hpre.imp fun _ hr => hr.symm
  -- the ending is one octet or two, and the argument is the same
  obtain ⟨hin, he | he⟩ := read_eq_some.1 hx
  · obtain ⟨r, hr⟩ := hrest [0x0A] (by simpa using he)
    simp [read_eq_some.2 ⟨hin, .inl (by simpa using hr)⟩] at h
  · obtain ⟨r, hr⟩ := hrest [0x0D, 0x0A] (by simpa using he)
    simp [read_eq_some.2 ⟨hin, .inr (by simpa using hr)⟩] at h

end Line

/-! ## Header blocks -/

namespace HeaderBlock

theorem read_of_none {s : Octets} (h : Line.read s = none) : read s = unfinished := by
  unfold read
  split <;> simp_all

theorem read_of_blank {s body : Octets} (h : Line.read s = some ([], body)) :
    read s = ended [] body := by
  unfold read
  split <;> simp_all

theorem read_of_line {s line rest : Octets} (h : Line.read s = some (line, rest))
    (hne : line ≠ []) :
    read s =
      match Header.parse line with
      | .ok header => cons header (read rest)
      | .error e => malformed e := by
  conv => lhs; unfold read
  split
  · simp_all
  · simp_all
  · rename_i hl
    obtain ⟨rfl, rfl⟩ : line = _ ∧ rest = _ := by simpa using h.symm.trans hl
    rfl

/-- The block with more octets behind it, which belong to the body if it has ended. -/
def extend (x : Octets) : HeaderBlock → HeaderBlock
  | ended headers body => ended headers (body ++ x)
  | block => block

theorem extend_cons (x : Octets) (h : Header) (block : HeaderBlock) :
    (cons h block).extend x = cons h (block.extend x) := by
  cases block <;> rfl

theorem cons_eq_unfinished {h : Header} {block : HeaderBlock} :
    cons h block = unfinished ↔ block = unfinished := by
  cases block <;> simp [cons]

theorem cons_eq_ended {h : Header} {block : HeaderBlock} {headers : Headers} {body : Octets} :
    cons h block = ended headers body ↔ ∃ hs, block = ended hs body ∧ headers = h :: hs := by
  cases block with
  | ended hs b =>
    constructor
    · rintro ⟨⟩
      exact ⟨hs, rfl, rfl⟩
    · rintro ⟨_, ⟨⟩, rfl⟩
      rfl
  | unfinished => simp [cons]
  | malformed e => simp [cons]

/-- A block that has ended or is malformed stays so, whatever follows. -/
theorem read_append {s : Octets} (x : Octets) (h : read s ≠ unfinished) :
    read (s ++ x) = (read s).extend x := by
  fun_induction read s with
  | case1 => exact absurd rfl h
  | case2 s body hl =>
    rw [read_of_blank (Line.read_append x hl)]
    rfl
  | case3 s line rest hne hl header hp ih =>
    have hrest : read rest ≠ unfinished := by
      intro hu
      exact h (cons_eq_unfinished.2 hu)
    rw [read_of_line (Line.read_append x hl) hne, hp, extend_cons, ← ih hrest]
  | case4 s line rest hne hl e hp =>
    rw [read_of_line (Line.read_append x hl) hne, hp]
    rfl

theorem length_le_of_read {s line rest body : Octets} {headers : Headers}
    (hl : Line.read s = some (line, rest)) (h : read s = ended headers body) :
    body.length ≤ rest.length := by
  by_cases hne : line = []
  · subst hne
    rw [read_of_blank hl] at h
    cases h
    exact Nat.le_refl _
  · rw [read_of_line hl hne] at h
    split at h
    · obtain ⟨hs, hb, -⟩ := cons_eq_ended.1 h
      exact Nat.le_of_lt (length_lt_of_read hb)
    · cases h

/-- A block that has not ended ends within the octets that follow. -/
theorem length_lt_of_read_append {s x body : Octets} {headers : Headers}
    (h : read s = unfinished) (hx : read (s ++ x) = ended headers body) :
    body.length < x.length := by
  fun_induction read s generalizing headers with
  -- the line itself ends in what follows, or the lines behind it do
  | case1 s hl =>
    cases hlx : Line.read (s ++ x) with
    | none =>
      rw [read_of_none hlx] at hx
      cases hx
    | some r =>
      exact Nat.lt_of_le_of_lt (length_le_of_read hlx hx) (Line.length_lt_of_read_append hl hlx)
  | case2 => cases h
  | case3 s line rest hne hl header hp ih =>
    rw [read_of_line (Line.read_append x hl) hne, hp] at hx
    obtain ⟨hs, hb, -⟩ := cons_eq_ended.1 hx
    exact ih (cons_eq_unfinished.1 h) hb
  | case4 => cases h

end HeaderBlock

/-! ## Frames -/

section Frame

variable {limit n : Nat} {s x line rest body : Octets} {headers : Headers}

theorem frameLengthWithin_of_none (hl : Line.read s = none) :
    frameLengthWithin limit s = .ok none := by
  simp [frameLengthWithin, hl]

theorem frameLengthWithin_of_unfinished (hl : Line.read s = some (line, rest))
    (hb : HeaderBlock.read rest = .unfinished) : frameLengthWithin limit s = .ok none := by
  simp [frameLengthWithin, hl, hb]

theorem frameLengthWithin_of_malformed {e : SipError} (hl : Line.read s = some (line, rest))
    (hb : HeaderBlock.read rest = .malformed e) : frameLengthWithin limit s = .error e := by
  simp [frameLengthWithin, hl, hb]

/-- What a finished head says of the length, which is the head's own and the announced one. -/
theorem frameLengthWithin_of_ended (hl : Line.read s = some (line, rest))
    (hb : HeaderBlock.read rest = .ended headers body) :
    frameLengthWithin limit s =
      match headers.contentLength with
      | .error e => .error e
      | .ok length =>
        if s.length - body.length + length ≤ limit then
          .ok (if s.length - body.length + length ≤ s.length
            then some (s.length - body.length + length) else none)
        else .error (.invalidContentLength s!"{length} exceeds the message size limit") := by
  cases hc : headers.contentLength with
  | error e => simp only [frameLengthWithin, hl, hb, hc]
  | ok length => simp only [frameLengthWithin, hl, hb, hc]

/-- A frame has a finished head, and ends as far behind it as announced. -/
theorem frameLengthWithin_eq_some :
    frameLengthWithin limit s = .ok (some n) ↔
      ∃ line rest headers body length, Line.read s = some (line, rest) ∧
        HeaderBlock.read rest = .ended headers body ∧ headers.contentLength = .ok length ∧
        n = s.length - body.length + length ∧ n ≤ limit ∧ n ≤ s.length := by
  constructor
  · intro h
    cases hl : Line.read s with
    | none => simp [frameLengthWithin_of_none hl] at h
    | some r =>
      obtain ⟨line, rest⟩ := r
      cases hb : HeaderBlock.read rest with
      | unfinished => simp [frameLengthWithin_of_unfinished hl hb] at h
      | malformed e => simp [frameLengthWithin_of_malformed hl hb] at h
      | ended headers body =>
        rw [frameLengthWithin_of_ended hl hb] at h
        split at h
        · cases h
        · rename_i length hc
          split at h
          · rename_i hlim
            simp only [Except.ok.injEq, Option.ite_none_right_eq_some, Option.some.injEq] at h
            obtain ⟨hle, rfl⟩ := h
            exact ⟨line, rest, headers, body, length, rfl, hb, hc, rfl, hlim, hle⟩
          · cases h
  · rintro ⟨line, rest, headers, body, length, hl, hb, hc, rfl, hlim, hle⟩
    rw [frameLengthWithin_of_ended hl hb, hc]
    simp only [hlim, hle, if_true]

/-- A frame, and a fault, are the same whatever follows. -/
theorem frameLengthWithin_append (x : Octets) (h : frameLengthWithin limit s ≠ .ok none) :
    frameLengthWithin limit (s ++ x) = frameLengthWithin limit s := by
  cases hl : Line.read s with
  | none => exact absurd (frameLengthWithin_of_none hl) h
  | some r =>
    obtain ⟨line, rest⟩ := r
    have hlx := Line.read_append x hl
    have hlt := Line.length_lt_of_read hl
    cases hb : HeaderBlock.read rest with
    | unfinished => exact absurd (frameLengthWithin_of_unfinished hl hb) h
    | malformed e =>
      have hbx := HeaderBlock.read_append x (s := rest) (by simp [hb])
      rw [hb] at hbx
      rw [frameLengthWithin_of_malformed hl hb, frameLengthWithin_of_malformed hlx hbx]
    | ended headers body =>
      have hbx := HeaderBlock.read_append x (s := rest) (by simp [hb])
      rw [hb] at hbx
      have hbl := HeaderBlock.length_lt_of_read hb
      -- the head is as long as it was
      have hhead : (s ++ x).length - (body ++ x).length = s.length - body.length := by
        simp only [List.length_append]
        omega
      rw [frameLengthWithin_of_ended hl hb] at h ⊢
      rw [frameLengthWithin_of_ended hlx hbx, hhead]
      cases hc : headers.contentLength with
      | error e => rfl
      | ok length =>
        simp only [hc] at h ⊢
        split
        · rename_i hlim
          by_cases hle : s.length - body.length + length ≤ s.length
          · rw [if_pos hle, if_pos (by rw [List.length_append]; omega)]
          · simp [hlim, hle] at h
        · rfl

/-- A frame does not need the octets behind it. -/
theorem frameLengthWithin_of_append (h : frameLengthWithin limit (s ++ x) = .ok (some n))
    (hn : n ≤ s.length) : frameLengthWithin limit s = .ok (some n) := by
  obtain ⟨line, rest, headers, body, length, hlx, hbx, hc, hlen, hlim, -⟩ :=
    frameLengthWithin_eq_some.1 h
  have hbl := HeaderBlock.length_lt_of_read hbx
  have hll := Line.length_lt_of_read hlx
  rw [List.length_append] at hlen hll
  -- an unfinished line or head would end behind `s`, and the frame with it
  cases hl : Line.read s with
  | none =>
    have := Line.length_lt_of_read_append hl hlx
    omega
  | some r =>
    obtain ⟨line', rest'⟩ := r
    obtain ⟨rfl, rfl⟩ : line' = line ∧ rest' ++ x = rest := by
      simpa [Line.read_append x hl] using hlx
    have hll' := Line.length_lt_of_read hl
    cases hb : HeaderBlock.read rest' with
    | unfinished =>
      have := HeaderBlock.length_lt_of_read_append hb hbx
      omega
    | malformed e =>
      rw [HeaderBlock.read_append x (by simp [hb]), hb] at hbx
      cases hbx
    | ended headers' body' =>
      rw [HeaderBlock.read_append x (by simp [hb]), hb] at hbx
      cases hbx
      have hbl' := HeaderBlock.length_lt_of_read hb
      rw [List.length_append] at hlen
      exact frameLengthWithin_eq_some.2
        ⟨_, _, _, _, length, hl, hb, hc, by omega, hlim, hn⟩

/-- A buffer without a frame that is longer than the limit never has one. -/
theorem frameLengthWithin_append_ne_some (x : Octets) (h : frameLengthWithin limit s = .ok none)
    (hlong : limit < s.length) : frameLengthWithin limit (s ++ x) ≠ .ok (some n) := by
  intro hx
  obtain ⟨_, _, _, _, _, _, _, _, _, hlim, _⟩ := frameLengthWithin_eq_some.1 hx
  have := frameLengthWithin_of_append hx (by omega)
  simp [h] at this

end Frame

end SipProxy
