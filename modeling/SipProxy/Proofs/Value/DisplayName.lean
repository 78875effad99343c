import SipProxy.Proofs.Value.NameAddress

/-!
# What a name-address keeps of its display name

A name-address is written as text that is read again with the same URI, whatever stands in its
display name (`NameAddress.parse_text`). Of the name nothing but spaces at its ends can be lost
(`NameAddress.keepsName_settledName`), and they are lost exactly if the name is made of token octets
and spaces (`NameAddress.settledName_eq_self_iff`): such a name is written without quotes, as if the
spaces at its ends could not be read as the gaps around it.
-/

namespace SipProxy

open Lexeme Reader Utf8

variable {t name : String} {a : NameAddress}

namespace NameAddress

/-! ## Names -/

/-- A name of token octets and spaces that begins or ends with a space. -/
structure IsPadded (name : String) : Prop where
  unquoted : ∀ b ∈ encode name, isTokenOctet b = true ∨ b = 0x20
  space : name.toList.head? = some ' ' ∨ name.toList.getLast? = some ' '

/-- A name is kept, or loses spaces at its ends; one of spaces alone may be lost as a whole. -/
inductive KeepsName : Option String → Option String → Prop
  | absent : KeepsName none none
  | name {front name behind : String} (hfront : ∀ c ∈ front.toList, c = ' ')
      (hbehind : ∀ c ∈ behind.toList, c = ' ') :
      KeepsName (some (front ++ name ++ behind)) (some name)
  | blank {name : String} (hname : ∀ c ∈ name.toList, c = ' ') : KeepsName (some name) none

theorem needsQuotes_eq_false_iff :
    needsQuotes name = false ↔
      name ≠ "" ∧ ∀ b ∈ encode name, isTokenOctet b = true ∨ b = 0x20 := by
  unfold needsQuotes
  rw [Bool.or_eq_false_iff, Bool.not_eq_false', List.all_eq_true]
  simp only [String.isEmpty_eq_false_iff, Bool.or_eq_true, beq_iff_eq]

/-- The white space of a name without quotes is spaces. -/
theorem isBlank_iff_of_unquoted {c : Char}
    (h : ∀ b ∈ encode name, isTokenOctet b = true ∨ b = 0x20) (hc : c ∈ name.toList) :
    Text.isBlank c = true ↔ c = ' ' := by
  constructor
  · intro hblank
    obtain ⟨b, hb⟩ := List.exists_mem_of_ne_nil _ (String.utf8EncodeChar_ne_nil (c := c))
    rcases h b (mem_encode.2 ⟨c, hc, hb⟩) with htoken | rfl
    · obtain ⟨hascii, hink⟩ := isInk_of_isTokenOctet b htoken
      rw [ofNat_eq_of_mem_encodeChar hascii hb, hblank] at hink
      cases hink
    · exact (ofNat_eq_of_mem_encodeChar (by decide) hb).symm
  · rintro rfl
    rfl

/-- A name that is written without quotes is trimmed if spaces stand at its ends. -/
theorem trim_eq_self_iff_of_unquoted (h : ∀ b ∈ encode name, isTokenOctet b = true ∨ b = 0x20) :
    Text.trim name = name ↔
      ¬(name.toList.head? = some ' ' ∨ name.toList.getLast? = some ' ') := by
  have hend : ∀ o : Option Char, (∀ c ∈ o, c ∈ name.toList) →
      ((∀ c ∈ o, Text.isBlank c = false) ↔ o ≠ some ' ') := by
    intro o ho
    cases o with
    | none => simp
    | some c =>
      simp only [Option.mem_def, Option.some.injEq, forall_eq', ← Bool.not_eq_true, ne_eq,
        isBlank_iff_of_unquoted h (ho c rfl)]
  rw [Text.trim_eq_self_iff, hend _ fun c hc => List.mem_of_mem_head? hc,
    hend _ fun c hc => List.mem_of_mem_getLast? hc, not_or]

/-- A padded name is written without quotes. -/
theorem IsPadded.needsQuotes_eq_false (h : IsPadded name) : needsQuotes name = false := by
  refine needsQuotes_eq_false_iff.2 ⟨?_, h.unquoted⟩
  rintro rfl
  rcases h.space with hspace | hspace <;> cases hspace

theorem settledName_of_quoted (h : needsQuotes name = true) :
    settledName (some name) = some name := by
  rw [settledName, h, if_pos rfl]

theorem settledName_of_unquoted (h : needsQuotes name = false) :
    settledName (some name) = if Text.trim name = "" then none else some (Text.trim name) := by
  rw [settledName, h, if_neg Bool.false_ne_true]

/-- A name comes back as it was unless it is padded. -/
theorem settledName_eq_self_iff {name : Option String} :
    settledName name = name ↔ ∀ n ∈ name, ¬IsPadded n := by
  cases name with
  | none => exact ⟨fun _ n hn => absurd hn (Option.not_mem_none n), fun _ => rfl⟩
  | some n =>
    simp only [Option.mem_def, Option.some.injEq, forall_eq']
    cases hq : needsQuotes n with
    | true =>
      refine ⟨fun _ hpadded => ?_, fun _ => settledName_of_quoted hq⟩
      rw [hpadded.needsQuotes_eq_false] at hq
      cases hq
    | false =>
      obtain ⟨hne, hclass⟩ := needsQuotes_eq_false_iff.1 hq
      have hself : settledName (some n) = some n ↔ Text.trim n = n := by
        rw [settledName_of_unquoted hq]
        split
        · rename_i hempty
          rw [hempty]
          exact ⟨fun h => absurd h (Option.some_ne_none n).symm, fun h => absurd h.symm hne⟩
        · rw [Option.some.injEq]
      rw [hself, trim_eq_self_iff_of_unquoted hclass]
      exact not_congr ⟨fun h => ⟨hclass, h⟩, fun h => h.space⟩

/-- Nothing but spaces is lost of a name. -/
theorem keepsName_settledName (name : Option String) : KeepsName name (settledName name) := by
  cases name with
  | none => exact .absent
  | some n =>
    cases hq : needsQuotes n with
    | true =>
      have hnone : ∀ c ∈ "".toList, c = ' ' := fun c hc => absurd hc List.not_mem_nil
      have hkeep : KeepsName (some ("" ++ n ++ "")) (some n) := .name hnone hnone
      rw [String.empty_append, String.append_empty] at hkeep
      rwa [settledName_of_quoted hq]
    | false =>
      have hclass := (needsQuotes_eq_false_iff.1 hq).2
      obtain ⟨front, behind, hsplit, hfront, hbehind⟩ := Text.exists_trim n
      have hspace : ∀ c ∈ n.toList, Text.isBlank c = true → c = ' ' :=
        fun c hc => (isBlank_iff_of_unquoted hclass hc).1
      rw [hsplit] at hspace
      simp only [String.toList_append, List.mem_append] at hspace
      have hfront' : ∀ c ∈ front.toList, c = ' ' :=
        fun c hc => hspace c (.inl (.inl hc)) (hfront c hc)
      have hbehind' : ∀ c ∈ behind.toList, c = ' ' :=
        fun c hc => hspace c (.inr hc) (hbehind c hc)
      rw [settledName_of_unquoted hq]
      split
      · rename_i hempty
        refine .blank fun c hc => ?_
        rw [hsplit, hempty, String.append_empty, String.toList_append, List.mem_append] at hc
        exact hc.elim (hfront' c) (hbehind' c)
      · have hkeep : KeepsName (some (front ++ Text.trim n ++ behind)) (some (Text.trim n)) :=
          .name hfront' hbehind'
        rwa [← hsplit] at hkeep

/-! ## Reading back -/

theorem parse_eq_ok :
    parse t = .ok a ↔ ∃ parts rest, bracketed (encode t) = some (parts, rest) ∧
      rest.all isAsciiBlank = true ∧ ofParts parts = .ok a := by
  unfold parse
  constructor
  · intro h
    split at h
    · rename_i parts rest hread
      split at h
      · rename_i hblank
        exact ⟨parts, rest, hread, hblank, h⟩
      · cases h
    · cases h
  · rintro ⟨parts, rest, hread, hblank, hmake⟩
    rw [hread]
    simp only [hblank, if_true, hmake]

/-- A name-address is read back from the text it makes, with its display name settled. -/
theorem parse_text (h : a.IsLegible) : parse a.text = .ok a.settled := by
  have hread := bracketed_text h []
  rw [List.append_nil] at hread
  exact parse_eq_ok.2 ⟨_, _, hread, rfl, ofParts_text h⟩

theorem isLegible_of_parse (h : parse t = .ok a) : a.IsLegible := by
  obtain ⟨parts, rest, hread, -, hmake⟩ := parse_eq_ok.1 h
  obtain ⟨w, -, -, hreadOf⟩ := makes_bracketed (isText_encode t) hread
  exact (hreadOf a hmake).legible

/-- What was read as a name-address is read again from the text it is written as: the URI always,
and the display name exactly if it is not padded. -/
theorem parse_text_eq_iff (h : parse t = .ok a) :
    parse a.text = .ok a.settled ∧
      (parse a.text = .ok a ↔ ∀ name ∈ a.displayName, ¬IsPadded name) := by
  have hread := parse_text (isLegible_of_parse h)
  refine ⟨hread, ?_⟩
  rw [hread, Except.ok.injEq, ← settledName_eq_self_iff]
  constructor
  · intro hsame
    exact congrArg NameAddress.displayName hsame
  · intro hsame
    rw [settled, hsame]

/-- A name with spaces at its ends is kept if it needs its quotes, here around a quote and a
backslash. -/
theorem parse_text_eq_iff_of_escapes :
    ∃ a, parse "\" \\\"ä\\\" \\\\ \"<sips:b:@[::1]:007> " = .ok a ∧
      a.displayName = some " \"ä\" \\ " ∧ parse a.text = .ok a := by
  have hread : parse "\" \\\"ä\\\" \\\\ \"<sips:b:@[::1]:007> " =
      .ok ⟨some " \"ä\" \\ ", .sip ⟨.sips, some "b", some "", "[::1]", 7, [], []⟩⟩ := by
    decide +kernel
  refine ⟨_, hread, rfl, (parse_text_eq_iff hread).2.2 ?_⟩
  rintro name hname hpadded
  cases Option.some.inj hname
  -- the quotes inside the name are no octets of a token
  have hquote := hpadded.unquoted 0x22 (by decide +kernel)
  exact absurd hquote (by decide)

/-- The spaces of a quoted name that needs no quotes are lost. -/
theorem exists_name_lost : ∃ t a, parse t = .ok a ∧ parse a.text ≠ .ok a := by
  let u : Uri := .sip ⟨.sip, some "a", none, "b", 0, [], []⟩
  have hread : parse "\" Bob \" <sip:a@b>" = .ok ⟨some " Bob ", u⟩ := by decide +kernel
  have hagain : parse (text ⟨some " Bob ", u⟩) = .ok ⟨some "Bob", u⟩ := by decide +kernel
  refine ⟨_, _, hread, ?_⟩
  rw [hagain, ne_eq, Except.ok.injEq, NameAddress.mk.injEq]
  exact fun h => absurd h.1 (by decide)

end NameAddress

end SipProxy
