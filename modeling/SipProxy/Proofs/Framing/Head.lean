import SipProxy.Proofs.Framing.Extension

/-!
# Heads

The head of a message is what stands before its body: a first line, header lines and an empty line,
each with an ending of its own. `IsHead` says so of octets without reading them, so that a statement
about where a message ends need not say how its end is looked for. The readers find a head where
there is one and nowhere else (`isHead_iff_read`), and behind a head framing is a comparison of
lengths (`frameLengthWithin_of_isHead`).
-/

namespace SipProxy

/-! ## Lines -/

/-- The octets of a line with its ending, which is one of two. -/
def Line.IsEnded (line s : Octets) : Prop :=
  (∀ b ∈ line, isInside b = true) ∧ (s = line ++ [0x0A] ∨ s = line ++ [0x0D, 0x0A])

theorem Line.read_eq_some_iff {s line rest : Octets} :
    read s = some (line, rest) ↔ ∃ ended, IsEnded line ended ∧ s = ended ++ rest := by
  rw [read_eq_some]
  constructor
  · rintro ⟨hin, rfl | rfl⟩
    · exact ⟨line ++ [0x0A], ⟨hin, .inl rfl⟩, by simp⟩
    · exact ⟨line ++ [0x0D, 0x0A], ⟨hin, .inr rfl⟩, by simp⟩
  · rintro ⟨ended, ⟨hin, rfl | rfl⟩, rfl⟩
    · exact ⟨hin, .inl (by simp)⟩
    · exact ⟨hin, .inr (by simp)⟩

theorem Line.IsEnded.read {line ended : Octets} (h : IsEnded line ended) (rest : Octets) :
    Line.read (ended ++ rest) = some (line, rest) :=
  read_eq_some_iff.2 ⟨ended, h, rfl⟩

/-! ## Header lines -/

namespace HeaderBlock

/-- The octets of header lines that read as these headers. -/
inductive IsLines : Headers → Octets → Prop where
  | none : IsLines [] []
  | line {line ended lines : Octets} {h : Header} {hs : Headers} (he : Line.IsEnded line ended)
      (hne : line ≠ []) (hp : Header.parse line = .ok h) (hl : IsLines hs lines) :
      IsLines (h :: hs) (ended ++ lines)

variable {s lines rest body : Octets} {headers : Headers}

/-- Header lines are read one after another, and then what follows them. -/
theorem IsLines.read_append (h : IsLines headers lines) (rest : Octets) :
    read (lines ++ rest) = headers.foldr cons (read rest) := by
  induction h with
  | none => rfl
  | line he hne hp hl ih =>
    rw [List.append_assoc, read_of_line (he.read _) hne, hp, ih]
    rfl

theorem foldr_cons_ended (hs headers : Headers) (body : Octets) :
    hs.foldr cons (ended headers body) = ended (hs ++ headers) body := by
  induction hs with
  | nil => rfl
  | cons h hs ih => rw [List.foldr_cons, ih, cons, List.cons_append]

theorem foldr_cons_eq_unfinished {hs : Headers} {block : HeaderBlock} :
    hs.foldr cons block = unfinished ↔ block = unfinished := by
  induction hs with
  | nil => rfl
  | cons h hs ih => rw [List.foldr_cons, cons_eq_unfinished, ih]

/-- A block has ended behind an empty line, and the header lines stand before it. -/
theorem read_eq_ended :
    read s = ended headers body ↔
      ∃ lines blank, IsLines headers lines ∧ Line.IsEnded [] blank ∧
        s = lines ++ (blank ++ body) := by
  constructor
  · intro h
    fun_induction read s generalizing headers with
    | case1 => cases h
    | case2 s body' hl =>
      cases h
      obtain ⟨blank, hblank, rfl⟩ := Line.read_eq_some_iff.1 hl
      exact ⟨[], blank, .none, hblank, rfl⟩
    | case3 s line rest hne hl header hp ih =>
      obtain ⟨hs, hb, rfl⟩ := cons_eq_ended.1 h
      obtain ⟨lines, blank, hlines, hblank, rfl⟩ := ih hb
      obtain ⟨ended, he, rfl⟩ := Line.read_eq_some_iff.1 hl
      exact ⟨ended ++ lines, blank, .line he hne hp hlines, hblank, by simp⟩
    | case4 => cases h
  · rintro ⟨lines, blank, hlines, hblank, rfl⟩
    rw [hlines.read_append, read_of_blank (hblank.read body), foldr_cons_ended, List.append_nil]

/-- A block has not ended where a line has not, and what stands before that are header lines. -/
theorem read_eq_unfinished :
    read s = unfinished ↔
      ∃ headers lines rest, IsLines headers lines ∧ Line.read rest = none ∧ s = lines ++ rest := by
  constructor
  · intro h
    fun_induction read s with
    | case1 s hl => exact ⟨[], [], s, .none, hl, rfl⟩
    | case2 => cases h
    | case3 s line rest hne hl header hp ih =>
      obtain ⟨hs, lines, tail, hlines, htail, rfl⟩ := ih (cons_eq_unfinished.1 h)
      obtain ⟨ended, he, rfl⟩ := Line.read_eq_some_iff.1 hl
      exact ⟨header :: hs, ended ++ lines, tail, .line he hne hp hlines, htail, by simp⟩
    | case4 => cases h
  · rintro ⟨headers, lines, rest, hlines, hrest, rfl⟩
    rw [hlines.read_append, foldr_cons_eq_unfinished, read_of_none hrest]

end HeaderBlock

/-! ## Heads -/

/-- The octets before a body: a first line, header lines that read as these headers, and an empty
line. -/
def IsHead (headers : Headers) (head : Octets) : Prop :=
  ∃ first ended lines blank, Line.IsEnded first ended ∧ HeaderBlock.IsLines headers lines ∧
    Line.IsEnded [] blank ∧ head = ended ++ (lines ++ blank)

section Head

variable {limit : Nat} {s head body : Octets} {headers : Headers}

/-- A head is read as what it is, whatever follows it. -/
theorem IsHead.reads (h : IsHead headers head) :
    ∃ first block, ∀ body, Line.read (head ++ body) = some (first, block ++ body) ∧
      HeaderBlock.read (block ++ body) = .ended headers body := by
  obtain ⟨first, ended, lines, blank, he, hlines, hblank, rfl⟩ := h
  refine ⟨first, lines ++ blank, fun body => ⟨?_, ?_⟩⟩
  · rw [List.append_assoc]
    exact he.read _
  · exact HeaderBlock.read_eq_ended.2 ⟨lines, blank, hlines, hblank, by simp⟩

theorem isHead_iff_read :
    (∃ head, IsHead headers head ∧ s = head ++ body) ↔
      ∃ first rest, Line.read s = some (first, rest) ∧
        HeaderBlock.read rest = .ended headers body := by
  constructor
  · rintro ⟨head, h, rfl⟩
    obtain ⟨first, block, hread⟩ := h.reads
    exact ⟨first, block ++ body, hread body⟩
  · rintro ⟨first, rest, hl, hb⟩
    obtain ⟨ended, he, rfl⟩ := Line.read_eq_some_iff.1 hl
    obtain ⟨lines, blank, hlines, hblank, rfl⟩ := HeaderBlock.read_eq_ended.1 hb
    exact ⟨_, ⟨first, ended, lines, blank, he, hlines, hblank, rfl⟩, by simp⟩

/-- Behind a head, framing compares lengths. -/
theorem frameLengthWithin_of_isHead (h : IsHead headers head) (body : Octets) :
    frameLengthWithin limit (head ++ body) =
      match headers.contentLength with
      | .error e => .error e
      | .ok length =>
        if head.length + length ≤ limit then
          .ok (if length ≤ body.length then some (head.length + length) else none)
        else .error (.invalidContentLength s!"{length} exceeds the message size limit") := by
  obtain ⟨first, block, hread⟩ := h.reads
  have hlength : (head ++ body).length - body.length = head.length := by
    rw [List.length_append, Nat.add_sub_cancel]
  rw [frameLengthWithin_of_ended (hread body).1 (hread body).2, hlength, List.length_append]
  cases headers.contentLength with
  | error e => rfl
  | ok length => simp only [Nat.add_le_add_iff_left]

/-- A frame is a head and the body that it announces, in front of anything. -/
theorem frameLengthWithin_eq_some_iff {n : Nat} :
    frameLengthWithin limit s = .ok (some n) ↔
      ∃ headers head body rest, IsHead headers head ∧
        headers.contentLength = .ok body.length ∧ s = head ++ (body ++ rest) ∧
          n = head.length + body.length ∧ n ≤ limit := by
  constructor
  · intro hn
    obtain ⟨first, rest, headers, body, length, hl, hb, hc, rfl, hlim, hle⟩ :=
      frameLengthWithin_eq_some.1 hn
    obtain ⟨head, hhead, rfl⟩ := isHead_iff_read.2 ⟨first, rest, hl, hb⟩
    rw [List.length_append, Nat.add_sub_cancel] at hlim hle ⊢
    have htake : (body.take length).length = length := List.length_take_of_le (by omega)
    refine ⟨headers, head, body.take length, body.drop length, hhead, ?_, ?_, ?_, hlim⟩
    · rw [htake, hc]
    · rw [List.take_append_drop]
    · rw [htake]
  · rintro ⟨headers, head, body, rest, hhead, hc, rfl, rfl, hlim⟩
    rw [frameLengthWithin_of_isHead hhead, hc]
    simp only [hlim, if_true, List.length_append, Nat.le_add_right]

end Head

end SipProxy
