import SipProxy.Proofs.Framing.Head
import SipProxy.Message.Parse
import SipProxy.Proofs.Outcome
import SipProxy.Proofs.Stream.Cuts

/-!
# What more octets can decide

A buffer is incomplete while its head or its body is, and more octets are waited for. They help
unless a carriage return stands alone in the line that the head has come to: it ends no line, and no
line holds one, so the line never ends (`Line.IsBroken`). Such a buffer is incomplete for good, and
no other is (`exists_decided_iff`): any other line ends with a line feed, any other head with two,
and any body with as many octets as it lacks.

A stream whose reader has come to such a line delivers nothing more
(`StreamReader.frames_of_isStuck`).
-/

namespace SipProxy

/-! ## Lines -/

namespace Line

/-- A carriage return without a line feed behind it stands where a line would have to end. -/
def IsBroken (s : Octets) : Prop :=
  ∃ front b rest, (∀ c ∈ front, isInside c = true) ∧ b ≠ 0x0A ∧ s = front ++ 0x0D :: b :: rest

variable {s : Octets}

theorem IsBroken.append (h : IsBroken s) (x : Octets) : IsBroken (s ++ x) := by
  obtain ⟨front, b, rest, hfront, hb, rfl⟩ := h
  exact ⟨front, b, rest ++ x, hfront, hb, by simp⟩

theorem IsBroken.read (h : IsBroken s) : Line.read s = none := by
  obtain ⟨front, b, rest, hfront, hb, rfl⟩ := h
  have hcr : isInside 0x0D = false := rfl
  unfold Line.read
  rw [List.dropWhile_append_of_pos hfront, List.dropWhile_cons_of_neg (by simp [hcr])]
  split
  · rename_i heq
    cases heq
  · rename_i heq
    cases heq
    exact absurd rfl hb
  · rfl

/-- A line that has not ended is broken, or a line feed ends it. -/
theorem exists_read_append (h : read s = none) (hb : ¬IsBroken s) :
    ∃ line, read (s ++ [0x0A]) = some (line, []) := by
  have hfront : ∀ c ∈ s.takeWhile isInside, isInside c = true :=
    List.all_eq_true.1 List.all_takeWhile
  have hs := List.takeWhile_append_dropWhile (p := isInside) (l := s)
  cases hd : s.dropWhile isInside with
  | nil =>
    rw [hd, List.append_nil] at hs
    exact ⟨s, read_eq_some.2 ⟨hs ▸ hfront, .inl rfl⟩⟩
  | cons c rest =>
    rw [hd] at hs
    have hc : isInside c = false := by
      have := List.head?_dropWhile_not isInside s
      rw [hd] at this
      simpa using this
    -- what stops a line is one of two octets
    have hcase : c = 0x0A ∨ c = 0x0D := by
      simp only [isInside, Bool.and_eq_false_iff, bne_eq_false_iff_eq] at hc
      exact hc.symm
    rcases hcase with rfl | rfl
    · rw [read_eq_some.2 ⟨hfront, .inl hs.symm⟩] at h
      cases h
    · cases rest with
      | nil =>
        have hfeed := (congrArg (· ++ [0x0A]) hs.symm).trans (List.append_assoc _ _ _)
        exact ⟨_, read_eq_some.2 ⟨hfront, .inr hfeed⟩⟩
      | cons b rest =>
        by_cases hlf : b = 0x0A
        · subst hlf
          rw [read_eq_some.2 ⟨hfront, .inr hs.symm⟩] at h
          cases h
        · exact absurd ⟨_, b, rest, hfront, hlf, hs.symm⟩ hb

end Line

/-! ## Heads -/

/-- A line of the head is broken, and those before it are as they have to be. -/
def IsStuck (s : Octets) : Prop :=
  Line.IsBroken s ∨
    ∃ first ended headers lines rest, Line.IsEnded first ended ∧
      HeaderBlock.IsLines headers lines ∧ Line.IsBroken rest ∧ s = ended ++ (lines ++ rest)

section Stuck

variable {limit : Nat} {s : Octets}

theorem IsStuck.append (h : IsStuck s) (x : Octets) : IsStuck (s ++ x) := by
  rcases h with hb | ⟨first, ended, headers, lines, rest, he, hlines, hb, rfl⟩
  · exact .inl (hb.append x)
  · exact .inr ⟨first, ended, headers, lines, rest ++ x, he, hlines, hb.append x, by simp⟩

theorem IsStuck.ne_nil (h : IsStuck s) : s ≠ [] := by
  rcases h with ⟨front, b, rest, -, -, rfl⟩ |
    ⟨_, ended, _, lines, _, -, -, ⟨front, b, rest, -, -, rfl⟩, rfl⟩
  · simp
  · simp

theorem IsStuck.frameLengthWithin_eq (h : IsStuck s) : frameLengthWithin limit s = .ok none := by
  rcases h with hb | ⟨first, ended, headers, lines, rest, he, hlines, hb, rfl⟩
  · exact frameLengthWithin_of_none hb.read
  · refine frameLengthWithin_of_unfinished (he.read _) ?_
    exact HeaderBlock.read_eq_unfinished.2 ⟨headers, lines, rest, hlines, hb.read, rfl⟩

/-- Two line feeds end a header block, unless what they follow is broken or makes it malformed. -/
theorem HeaderBlock.read_append_ne_unfinished {headers : Headers} {lines rest : Octets}
    (hlines : IsLines headers lines) (hrest : Line.read rest = none) (hb : ¬Line.IsBroken rest) :
    read (lines ++ rest ++ [0x0A, 0x0A]) ≠ unfinished := by
  obtain ⟨line, hline⟩ := Line.exists_read_append hrest hb
  have hread : Line.read (rest ++ [0x0A, 0x0A]) = some (line, [0x0A]) := by
    simpa using Line.read_append [0x0A] hline
  have hblank : read [0x0A] = ended [] [] := read_of_blank rfl
  rw [List.append_assoc, hlines.read_append, ne_eq, foldr_cons_eq_unfinished]
  by_cases hne : line = []
  · subst hne
    rw [read_of_blank hread]
    exact nofun
  · rw [read_of_line hread hne, hblank]
    cases Header.parse line with
    | ok header => exact nofun
    | error e => exact nofun

/-- Of a head that is there in full, the body that it announces decides. -/
theorem exists_decided_of_isHead {headers : Headers} {head : Octets} (h : IsHead headers head)
    (body : Octets) : ∃ x, frameLengthWithin limit (head ++ body ++ x) ≠ .ok none := by
  cases hc : headers.contentLength with
  | error e =>
    refine ⟨[], ?_⟩
    rw [List.append_nil, frameLengthWithin_of_isHead h, hc]
    exact nofun
  | ok length =>
    refine ⟨List.replicate length 0, ?_⟩
    rw [List.append_assoc, frameLengthWithin_of_isHead h, hc]
    have hle : length ≤ (body ++ List.replicate length 0).length := by simp
    simp only [hle, if_true]
    split <;> exact nofun

/-- A header block that is not unfinished decides, or the body behind it does. -/
theorem exists_decided_of_read {first rest : Octets} (hl : Line.read s = some (first, rest))
    (hb : HeaderBlock.read rest ≠ .unfinished) :
    ∃ x, frameLengthWithin limit (s ++ x) ≠ .ok none := by
  cases hblock : HeaderBlock.read rest with
  | unfinished => exact absurd hblock hb
  | malformed e =>
    refine ⟨[], ?_⟩
    rw [List.append_nil, frameLengthWithin_of_malformed hl hblock]
    exact nofun
  | ended headers body =>
    obtain ⟨head, hhead, rfl⟩ := isHead_iff_read.2 ⟨first, rest, hl, hblock⟩
    exact exists_decided_of_isHead hhead body

/-- Some octets make a buffer a frame or a fault if and only if no carriage return stands alone in
the line that its head has come to. -/
theorem exists_decided_iff (limit : Nat) (s : Octets) :
    (∃ x, frameLengthWithin limit (s ++ x) ≠ .ok none) ↔ ¬IsStuck s := by
  constructor
  · rintro ⟨x, hx⟩ hs
    exact hx (hs.append x).frameLengthWithin_eq
  · intro hs
    -- it is enough to go on to where the first line and the header block are decided
    have hmore : ∀ y first rest, Line.read (s ++ y) = some (first, rest) →
        HeaderBlock.read rest ≠ .unfinished →
          ∃ x, frameLengthWithin limit (s ++ x) ≠ .ok none := by
      intro y first rest hl hb
      obtain ⟨x, hx⟩ := exists_decided_of_read hl hb
      exact ⟨y ++ x, by rwa [← List.append_assoc]⟩
    cases hl : Line.read s with
    | none =>
      obtain ⟨first, hfirst⟩ := Line.exists_read_append hl fun hb => hs (.inl hb)
      have hread : Line.read (s ++ [0x0A, 0x0A]) = some (first, [0x0A]) := by
        simpa using Line.read_append [0x0A] hfirst
      refine hmore _ _ _ hread ?_
      have hblank : HeaderBlock.read [0x0A] = .ended [] [] := HeaderBlock.read_of_blank rfl
      rw [hblank]
      exact nofun
    | some r =>
      obtain ⟨first, rest⟩ := r
      by_cases hb : HeaderBlock.read rest = .unfinished
      · obtain ⟨headers, lines, tail, hlines, htail, rfl⟩ := HeaderBlock.read_eq_unfinished.1 hb
        obtain ⟨ended, he, rfl⟩ := Line.read_eq_some_iff.1 hl
        refine hmore _ _ _ (Line.read_append [0x0A, 0x0A] hl) ?_
        refine HeaderBlock.read_append_ne_unfinished hlines htail fun hbroken => ?_
        exact hs (.inr ⟨first, ended, headers, lines, tail, he, hlines, hbroken, rfl⟩)
      · exact exists_decided_of_read hl hb

/-- A whole message but for a carriage return alone in one of its header lines is incomplete, and
stays so with any octets behind it. Read as a message, it is refused. -/
theorem incomplete_for_good :
    let s := Utf8.encode
      "OPTIONS sip:a@b SIP/2.0\r\nSubject: a\rb\r\nContent-Length: 0\r\n\r\n"
    frameLength s = .ok none ∧ (¬∃ x, frameLength (s ++ x) ≠ .ok none) ∧
      Message.parse s = .error (.malformedHeader "header block is not terminated") := by
  intro s
  have hstuck : IsStuck s := by
    refine .inr ⟨Utf8.encode "OPTIONS sip:a@b SIP/2.0", Utf8.encode "OPTIONS sip:a@b SIP/2.0\r\n",
      [], [], Utf8.encode "Subject: a\rb\r\nContent-Length: 0\r\n\r\n", ⟨?_, .inr ?_⟩, .none,
      ⟨Utf8.encode "Subject: a", 0x62, Utf8.encode "\r\nContent-Length: 0\r\n\r\n", ?_, ?_, ?_⟩, ?_⟩
    all_goals decide +kernel
  refine ⟨hstuck.frameLengthWithin_eq, ?_, by decide +kernel⟩
  rintro ⟨x, hx⟩
  exact hx (hstuck.append x).frameLengthWithin_eq

end Stuck

/-! ## Streams -/

namespace StreamReader

variable {s : Octets}

/-- What a reader waits with begins with no filler. -/
theorem dropWhile_of_drain {t : Octets} (h : (drain t).2 = reading s) :
    s.dropWhile isFiller = s := by
  fun_induction drain t with
  | case1 t n hn rest ih => exact ih h
  | case2 t hn =>
    split at h
    · cases h
    · cases h
      cases hd : t.dropWhile isFiller with
      | nil => rfl
      | cons b rest =>
        have hb := List.head?_dropWhile_not isFiller t
        rw [hd] at hb
        exact List.dropWhile_cons_of_neg (by simpa using hb)
  | case3 => cases h

/-- A reader that has come to a broken line takes out nothing more. -/
theorem frames_of_isStuck {read : List Octets} (h : (feedAll read start).2 = reading s)
    (hs : IsStuck s) (unread : List Octets) : frames (read ++ unread) = frames read := by
  rw [feedAll_eq_drain] at h
  have hfront := dropWhile_of_drain h
  have hmore : (s ++ unread.flatten).dropWhile isFiller = s ++ unread.flatten := by
    rw [dropWhile_append_of_ne_nil _ (hfront.symm ▸ hs.ne_nil), hfront]
  have hwait : frameLengthWithin maxMessage ((s ++ unread.flatten).dropWhile isFiller) =
      .ok none := by
    rw [hmore]
    exact (hs.append _).frameLengthWithin_eq
  have hnone : (drain (s ++ unread.flatten)).1 = [] := by rw [drain_of_incomplete hwait]
  rw [frames, frames, feedAll_eq_drain, feedAll_eq_drain]
  rw [List.flatten_append, drain_append, h, feed, hnone, List.append_nil]

end StreamReader

end SipProxy
