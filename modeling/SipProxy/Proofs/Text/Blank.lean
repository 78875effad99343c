import SipProxy.Text.Blank

/-!
# Trimmed text and words

Text that was trimmed begins and ends with a character that is not white space, so trimming it again
changes nothing (`trim_trim`), and no more does white space put in front of it (`trim_cons`). Words
hold no white space at all, and words put side by side with one space between them are read back
(`words_of_three`).
-/

namespace SipProxy.Text

/-! ## Trimming -/

theorem trimStartChars_sublist (cs : List Char) : (trimStartChars cs).Sublist cs :=
  List.dropWhile_sublist isBlank

theorem trimEndChars_sublist (cs : List Char) : (trimEndChars cs).Sublist cs := by
  have h := (List.dropWhile_sublist (l := cs.reverse) isBlank).reverse
  rwa [List.reverse_reverse] at h

theorem trimChars_sublist (cs : List Char) : (trimChars cs).Sublist cs :=
  (trimEndChars_sublist _).trans (trimStartChars_sublist cs)

theorem mem_of_mem_trim {c : Char} {s : String} (h : c ∈ (trim s).toList) : c ∈ s.toList := by
  rw [trim, String.toList_ofList] at h
  exact (trimChars_sublist s.toList).subset h

theorem trimStartChars_of_head {c : Char} {cs : List Char} (h : isBlank c = false) :
    trimStartChars (c :: cs) = c :: cs := by
  simp [trimStartChars, h]

/-- What is left of trimming in front begins with no white space. -/
theorem isBlank_of_trimStartChars {c : Char} {cs rest : List Char}
    (h : trimStartChars cs = c :: rest) : isBlank c = false := by
  have hhead := List.head?_dropWhile_not isBlank cs
  rw [show cs.dropWhile isBlank = c :: rest from h] at hhead
  simpa using hhead

/-- Trimming behind leaves the first character, unless it leaves nothing. -/
theorem trimEndChars_eq_nil_or (c : Char) (cs : List Char) :
    trimEndChars (c :: cs) = [] ∨ ∃ ds, trimEndChars (c :: cs) = c :: ds := by
  have hpre : trimEndChars (c :: cs) <+: c :: cs := by
    have h := List.dropWhile_suffix (l := (c :: cs).reverse) isBlank
    exact List.reverse_suffix.1 (by rwa [trimEndChars, List.reverse_reverse])
  cases ht : trimEndChars (c :: cs) with
  | nil => exact .inl rfl
  | cons d ds =>
    rw [ht, List.cons_prefix_cons] at hpre
    exact .inr ⟨ds, by rw [hpre.1]⟩

theorem trimEndChars_trimEndChars (cs : List Char) :
    trimEndChars (trimEndChars cs) = trimEndChars cs := by
  unfold trimEndChars
  rw [List.reverse_reverse]
  congr 1
  generalize cs.reverse = ds
  cases hd : ds.dropWhile isBlank with
  | nil => rfl
  | cons d rest => exact trimStartChars_of_head (isBlank_of_trimStartChars hd)

theorem trimChars_trimChars (cs : List Char) : trimChars (trimChars cs) = trimChars cs := by
  unfold trimChars
  cases hs : trimStartChars cs with
  | nil => rfl
  | cons c rest =>
    -- trimming behind does not lay bare white space in front
    rcases trimEndChars_eq_nil_or c rest with h | ⟨ds, h⟩
    · rw [h]
      rfl
    · rw [h, trimStartChars_of_head (isBlank_of_trimStartChars hs), ← h, trimEndChars_trimEndChars]

theorem trim_trim (s : String) : trim (trim s) = trim s := by
  unfold trim
  rw [String.toList_ofList, trimChars_trimChars]

/-- White space in front of text is not part of it. -/
theorem trim_cons {c : Char} {cs : List Char} (h : isBlank c = true) :
    trim (String.ofList (c :: cs)) = trim (String.ofList cs) := by
  simp [trim, trimChars, trimStartChars, h]

theorem trimChars_of_forall {cs : List Char} (h : ∀ c ∈ cs, isBlank c = false) :
    trimChars cs = cs := by
  have hstart : trimStartChars cs = cs := by
    cases cs with
    | nil => rfl
    | cons c cs => exact trimStartChars_of_head (h c List.mem_cons_self)
  rw [trimChars, hstart, trimEndChars]
  have hend : cs.reverse.dropWhile isBlank = cs.reverse := by
    cases hr : cs.reverse with
    | nil => rfl
    | cons c ds =>
      have hc : c ∈ cs := List.mem_reverse.1 (by rw [hr]; exact List.mem_cons_self)
      exact trimStartChars_of_head (h c hc)
  rw [hend, List.reverse_reverse]

theorem hasBlank_eq_false {s : String} :
    hasBlank s = false ↔ ∀ c ∈ s.toList, isBlank c = false := by
  simp [hasBlank]

theorem trim_of_hasBlank {s : String} (h : hasBlank s = false) : trim s = s := by
  rw [trim, trimChars_of_forall (hasBlank_eq_false.1 h), String.ofList_toList]

/-! ## Text with nothing to trim behind -/

theorem trimEndChars_eq_self_iff {cs : List Char} :
    trimEndChars cs = cs ↔ ∀ c ∈ cs.getLast?, isBlank c = false := by
  have hrev : trimEndChars cs = cs ↔ cs.reverse.dropWhile isBlank = cs.reverse := by
    rw [trimEndChars, ← List.reverse_inj, List.reverse_reverse]
  rw [hrev, ← List.head?_reverse]
  cases hr : cs.reverse with
  | nil => simp
  | cons c rest =>
    simp only [List.head?_cons, Option.mem_def, Option.some.injEq, forall_eq']
    constructor
    · intro h
      exact isBlank_of_trimStartChars h
    · intro h
      exact trimStartChars_of_head h

/-- A text is trimmed behind if its last character is not white space. -/
theorem trimEnd_eq_self_iff {s : String} :
    trimEnd s = s ↔ ∀ c ∈ s.toList.getLast?, isBlank c = false := by
  rw [← trimEndChars_eq_self_iff, trimEnd, ← String.toList_inj, String.toList_ofList]

/-- Only what stands last counts for the end. -/
theorem trimEnd_append_iff {t : String} (s : String) (ht : t ≠ "") :
    trimEnd (s ++ t) = s ++ t ↔ trimEnd t = t := by
  have hne : t.toList ≠ [] := by
    intro h
    exact ht (String.toList_eq_nil_iff.1 h)
  have hlast : (s ++ t).toList.getLast? = t.toList.getLast? := by
    rw [String.toList_append, List.getLast?_append, List.getLast?_eq_some_getLast hne,
      Option.some_or]
  rw [trimEnd_eq_self_iff, trimEnd_eq_self_iff, hlast]

theorem trimEnd_trim (s : String) : trimEnd (trim s) = trim s := by
  rw [trimEnd, trim, String.toList_ofList, trimChars, trimEndChars_trimEndChars]

/-- White space in front is all that is taken off a text that is trimmed behind. -/
theorem trim_append_of_blank {s t : String} (hs : ∀ c ∈ s.toList, isBlank c = true)
    (hhead : ∀ c ∈ t.toList.head?, isBlank c = false) (ht : trimEnd t = t) :
    trim (s ++ t) = t := by
  have hstart : trimStartChars (s ++ t).toList = t.toList := by
    rw [String.toList_append, trimStartChars, List.dropWhile_append_of_pos hs]
    cases hc : t.toList with
    | nil => rfl
    | cons c cs =>
      rw [hc] at hhead
      exact trimStartChars_of_head (hhead c rfl)
  rw [trim, trimChars, hstart]
  exact ht

theorem trim_eq_self {t : String} (hhead : ∀ c ∈ t.toList.head?, isBlank c = false)
    (ht : trimEnd t = t) : trim t = t := by
  have h := trim_append_of_blank (s := "") (by simp) hhead ht
  rwa [String.empty_append] at h

/-- A text is trimmed if it neither begins nor ends with white space. -/
theorem trim_eq_self_iff {t : String} :
    trim t = t ↔
      (∀ c ∈ t.toList.head?, isBlank c = false) ∧ ∀ c ∈ t.toList.getLast?, isBlank c = false := by
  constructor
  · intro h
    have hends : trimEnd t = t := by
      rw [← h]
      exact trimEnd_trim t
    refine ⟨fun c hc => ?_, trimEnd_eq_self_iff.1 hends⟩
    obtain ⟨cs, hcs⟩ := List.head?_eq_some_iff.1 (Option.mem_def.1 hc)
    refine Bool.eq_false_iff.2 fun hblank => ?_
    -- without its first character the text would be no shorter
    have hshort : t.toList = trimChars cs := by
      have htail : trim (String.ofList (c :: cs)) = trim (String.ofList cs) := trim_cons hblank
      rw [← hcs, String.ofList_toList, h] at htail
      rw [htail, trim, String.toList_ofList, String.toList_ofList]
    have hle := (trimChars_sublist cs).length_le
    rw [← hshort, hcs, List.length_cons] at hle
    omega
  · rintro ⟨hhead, hlast⟩
    exact trim_eq_self hhead (trimEnd_eq_self_iff.2 hlast)

/-- A text is what is left of it trimmed, with the white space around that. -/
theorem exists_trim (s : String) :
    ∃ front behind, s = front ++ trim s ++ behind ∧ (∀ c ∈ front.toList, isBlank c = true) ∧
      ∀ c ∈ behind.toList, isBlank c = true := by
  have hfront := List.takeWhile_append_dropWhile (p := isBlank) (l := s.toList)
  have hbehind := List.takeWhile_append_dropWhile (p := isBlank)
    (l := (trimStartChars s.toList).reverse)
  refine ⟨String.ofList (s.toList.takeWhile isBlank),
    String.ofList ((trimStartChars s.toList).reverse.takeWhile isBlank).reverse, ?_, ?_, ?_⟩
  · have hend : trimChars s.toList ++
        ((trimStartChars s.toList).reverse.takeWhile isBlank).reverse =
          trimStartChars s.toList := by
      rw [trimChars, trimEndChars, ← List.reverse_append, hbehind, List.reverse_reverse]
    rw [trim, ← String.ofList_append, ← String.ofList_append, List.append_assoc, hend,
      ← String.toList_inj, String.toList_ofList]
    exact hfront.symm
  · rw [String.toList_ofList]
    exact List.all_eq_true.1 List.all_takeWhile
  · intro c hc
    rw [String.toList_ofList, List.mem_reverse] at hc
    exact List.all_eq_true.1 List.all_takeWhile c hc

/-- A text is the white space in front of it and what trimming behind goes on with. -/
theorem exists_front (s : String) :
    ∃ front t, s = front ++ t ∧ (∀ c ∈ front.toList, isBlank c = true) ∧
      (∀ c ∈ t.toList.head?, isBlank c = false) ∧ trimEnd t = trim s := by
  refine ⟨String.ofList (s.toList.takeWhile isBlank),
    String.ofList (trimStartChars s.toList), ?_, ?_, ?_, ?_⟩
  · rw [← String.ofList_append, trimStartChars, List.takeWhile_append_dropWhile,
      String.ofList_toList]
  · rw [String.toList_ofList]
    exact List.all_eq_true.1 List.all_takeWhile
  · intro c hc
    rw [String.toList_ofList] at hc
    obtain ⟨cs, hcs⟩ := List.head?_eq_some_iff.1 (Option.mem_def.1 hc)
    exact isBlank_of_trimStartChars hcs
  · rw [trimEnd, String.toList_ofList]
    rfl

/-- A space behind a text is nothing that trimming behind keeps. -/
theorem trimEnd_append_space (s : String) : trimEnd (s ++ " ") = trimEnd s := by
  have hlist : (s ++ " ").toList = s.toList ++ [' '] := by
    rw [String.toList_append]
    rfl
  rw [trimEnd, trimEnd, hlist, trimEndChars, trimEndChars, List.reverse_concat]
  rfl

/-- A text that does not begin with white space is not trimmed away. -/
theorem trimEnd_ne_empty {t : String} (hne : t ≠ "")
    (hhead : ∀ c ∈ t.toList.head?, isBlank c = false) : trimEnd t ≠ "" := by
  intro hempty
  have hnil := congrArg String.toList hempty
  rw [trimEnd, String.toList_ofList] at hnil
  -- then every character is white space, the first one too
  have hsplit := List.takeWhile_append_dropWhile (p := isBlank) (l := t.toList.reverse)
  rw [List.reverse_eq_nil_iff.1 hnil, List.append_nil] at hsplit
  cases hcs : t.toList with
  | nil => exact hne (String.toList_eq_nil_iff.1 hcs)
  | cons c cs =>
    have hmem : c ∈ t.toList.reverse.takeWhile isBlank := by
      rw [hsplit, hcs]
      simp
    have hblank := List.all_eq_true.1 List.all_takeWhile c hmem
    rw [hhead c (by rw [hcs]; rfl)] at hblank
    cases hblank

/-! ## Words -/

/-- Between white space stands none. -/
theorem isBlank_of_mem_splitOnP {cs piece : List Char} (h : piece ∈ cs.splitOnP isBlank) :
    (∀ c ∈ piece, isBlank c = false) ∧ ∀ c ∈ piece, c ∈ cs := by
  induction cs generalizing piece with
  | nil =>
    rw [List.splitOnP_nil, List.mem_singleton] at h
    simp [h]
  | cons d cs ih =>
    rw [List.splitOnP_cons_eq_if_modifyHead] at h
    split at h
    · rcases List.mem_cons.1 h with rfl | h
      · simp
      · exact ⟨(ih h).1, fun c hc => List.mem_cons_of_mem d ((ih h).2 c hc)⟩
    · rename_i hd
      cases hs : cs.splitOnP isBlank with
      | nil => exact absurd hs (List.splitOnP_ne_nil isBlank cs)
      | cons first rest =>
        rw [hs, List.modifyHead_cons, List.mem_cons] at h
        have hfirst := @ih first (by rw [hs]; exact List.mem_cons_self)
        rcases h with rfl | h
        · constructor
          · intro c hc
            rcases List.mem_cons.1 hc with rfl | hc
            · simpa using hd
            · exact hfirst.1 c hc
          · intro c hc
            rcases List.mem_cons.1 hc with rfl | hc
            · exact List.mem_cons_self
            · exact List.mem_cons_of_mem d (hfirst.2 c hc)
        · have hrest := @ih piece (by rw [hs]; exact List.mem_cons_of_mem _ h)
          exact ⟨hrest.1, fun c hc => List.mem_cons_of_mem d (hrest.2 c hc)⟩

/-- A word is not empty, holds no white space and is part of the text. -/
theorem of_mem_words {s word : String} (h : word ∈ words s) :
    word ≠ "" ∧ hasBlank word = false ∧ ∀ c ∈ word.toList, c ∈ s.toList := by
  obtain ⟨piece, hp, rfl⟩ := List.mem_map.1 h
  obtain ⟨hmem, hne⟩ := List.mem_filter.1 hp
  obtain ⟨hblank, hsub⟩ := isBlank_of_mem_splitOnP hmem
  refine ⟨?_, ?_, ?_⟩
  · rintro he
    have hnil := congrArg String.toList he
    rw [String.toList_ofList] at hnil
    simp [hnil] at hne
  · rw [hasBlank_eq_false, String.toList_ofList]
    exact hblank
  · rw [String.toList_ofList]
    exact hsub

/-- Three words with a space between each two of them are read back. -/
theorem words_of_three {a b c : String} (ha : a ≠ "" ∧ hasBlank a = false)
    (hb : b ≠ "" ∧ hasBlank b = false) (hc : c ≠ "" ∧ hasBlank c = false) :
    words (a ++ " " ++ b ++ " " ++ c) = [a, b, c] := by
  have hne : ∀ {w : String}, w ≠ "" → w.toList.isEmpty = false := by
    intro w hw
    rw [List.isEmpty_eq_false_iff]
    intro h
    exact hw (String.toList_eq_nil_iff.1 h)
  have hlist : (a ++ " " ++ b ++ " " ++ c).toList =
      a.toList ++ ' ' :: (b.toList ++ ' ' :: c.toList) := by
    simp
  have hsplit : (a ++ " " ++ b ++ " " ++ c).toList.splitOnP isBlank =
      [a.toList, b.toList, c.toList] := by
    rw [hlist,
      List.splitOnP_append_cons_of_forall_mem (hasBlank_eq_false.1 ha.2) ' ' rfl,
      List.splitOnP_append_cons_of_forall_mem (hasBlank_eq_false.1 hb.2) ' ' rfl,
      List.splitOnP_eq_singleton (hasBlank_eq_false.1 hc.2)]
  rw [words, hsplit]
  simp [hne ha.1, hne hb.1, hne hc.1]

end SipProxy.Text
