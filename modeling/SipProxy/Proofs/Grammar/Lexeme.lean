import SipProxy.Proofs.Grammar.Quoted
import SipProxy.Proofs.Grammar.Reading
import SipProxy.Proofs.Message.Line
import SipProxy.Proofs.Text.Boundary

/-!
# Lexemes in a header value

The octets of a header value spell a text, and every lexeme that is taken off the front leaves such
octets behind, because it is cut off at an ASCII octet. So what is read of a part of a header value
is made of that part alone (`Lexeme.Makes`), and what was trimmed behind still is
(`Lexeme.trimEnd_decode_of_append`).

The other direction is about what is written: a text of a class (`Lexeme.IsRun`) is taken off again
whole, as long as what follows does not go on with it.
-/

namespace SipProxy.Lexeme

open Reader Utf8

variable {p : UInt8 → Bool} {s w rest : Octets} {t : String}

/-! ## Octets -/

theorem CutsText.cut (hp : CutsText p) (hs : IsText (w ++ rest)) (hw : ∀ b ∈ w, p b = true)
    (hr : Stops p rest) : IsText w ∧ IsText rest := by
  apply hs.cut
  rcases hp with hin | hout
  · exact .inl fun b hb => hin b (hw b (List.mem_of_getLast? hb))
  · exact .inr fun b hb => hout b (hr b hb)

/-- A text that ends with such an octet is trimmed behind. -/
theorem trimEnd_of_isInk {b : UInt8} (hlast : (encode t).getLast? = some b) (hb : IsInk b) :
    Text.trimEnd t = t := by
  rw [Text.trimEnd_eq_self_iff]
  intro c hc
  obtain ⟨cs, hcs⟩ := List.getLast?_eq_some_iff.1 (Option.mem_def.1 hc)
  -- the octet is one of the last character, and so is that character
  have hchar : (String.utf8EncodeChar c).getLast? = some b := by
    rw [encode, hcs, List.flatMap_append, List.flatMap_singleton, List.getLast?_append] at hlast
    cases hl : (String.utf8EncodeChar c).getLast? with
    | none =>
      rw [List.getLast?_eq_none_iff] at hl
      exact absurd hl String.utf8EncodeChar_ne_nil
    | some x => rwa [hl, Option.some_or] at hlast
  have hblank := hb.2
  rwa [ofNat_eq_of_mem_encodeChar hb.1 (List.mem_of_getLast? hchar)] at hblank

/-- The first octet of a text is one of its first character. -/
theorem exists_head_of_encode {b : UInt8} (h : (encode t).head? = some b) :
    ∃ c ∈ t.toList.head?, b ∈ String.utf8EncodeChar c := by
  unfold encode at h
  cases hcs : t.toList with
  | nil =>
    rw [hcs] at h
    cases h
  | cons c cs =>
    refine ⟨c, rfl, ?_⟩
    rw [hcs, List.flatMap_cons, List.head?_append] at h
    cases hl : (String.utf8EncodeChar c).head? with
    | none =>
      rw [List.head?_eq_none_iff] at hl
      exact absurd hl String.utf8EncodeChar_ne_nil
    | some x =>
      rw [hl, Option.some_or] at h
      cases h
      exact List.mem_of_head? hl

/-- Text that is trimmed behind is so wherever it is cut. -/
theorem trimEnd_decode_of_append (hw : IsText w) (hr : IsText rest)
    (h : Text.trimEnd (decode (w ++ rest)) = decode (w ++ rest)) :
    Text.trimEnd (decode rest) = decode rest := by
  by_cases hnil : decode rest = ""
  · rw [hnil]
    rfl
  · rw [decode_append hw hr] at h
    exact (Text.trimEnd_append_iff _ hnil).1 h

/-- A text that begins with such an octet does not begin with white space. -/
theorem head_of_isInk {b : UInt8} (hfirst : (encode t).head? = some b) (hb : IsInk b) :
    ∀ c ∈ t.toList.head?, Text.isBlank c = false := by
  intro c hc
  obtain ⟨d, hd, hchar⟩ := exists_head_of_encode hfirst
  rw [Option.mem_def.1 hc] at hd
  cases hd
  have hblank := hb.2
  rwa [ofNat_eq_of_mem_encodeChar hb.1 hchar] at hblank

/-! ## Values -/

/-- The reader takes octets off a text and leaves a text, and the value that is made of what it
returns stands in `S` to those octets. -/
def Makes {α β ε : Type} (q : Reader α) (f : α → Except ε β) (S : β → Octets → Prop) : Prop :=
  ∀ ⦃s a rest⦄, IsText s → q s = some (a, rest) →
    ∃ w, s = w ++ rest ∧ IsText rest ∧ ∀ b, f a = .ok b → S b w

/-! ## Spaces and separators -/

theorem spaces_of_stops (h : Stops isSpace s) : spaces s = s := by
  cases s with
  | nil => rfl
  | cons b s =>
    unfold spaces
    rw [List.dropWhile_cons, stops_cons.1 h]
    rfl

theorem spaces_spaces (s : Octets) : spaces (spaces s) = spaces s :=
  spaces_of_stops (stops_dropWhile isSpace s)

theorem length_spaces_le (s : Octets) : (spaces s).length ≤ s.length :=
  (List.dropWhile_sublist isSpace).length_le

theorem separator_spaces (c : Char) (s : Octets) : separator c (spaces s) = separator c s := by
  unfold separator
  rw [spaces_spaces]

theorem length_lt_of_separator {c : Char} (h : separator c s = some rest) :
    rest.length < s.length := by
  obtain ⟨s', hs', rfl⟩ := Option.map_eq_some_iff.1 h
  have hlen := length_spaces_le s
  rw [octet_eq_some.1 hs', List.length_cons] at hlen
  have hle := length_spaces_le s'
  omega

theorem consumes_after_separator {α : Type} {q : Reader α} (c : Char)
    (hq : ∀ {s a rest}, q s = some (a, rest) → rest.length ≤ s.length) :
    (after (separator c) q).Consumes := by
  intro s a rest h
  obtain ⟨s', hsep, hs'⟩ := after_eq_some.1 h
  have hlt := length_lt_of_separator hsep
  have hle := hq hs'
  omega

theorem spaces_append (hw : ∀ b ∈ w, isSpace b = true) (s : Octets) :
    spaces (w ++ s) = spaces s := by
  unfold spaces
  rw [List.dropWhile_append_of_pos hw]

theorem spaces1_eq_some : spaces1 s = some rest ↔ ∃ w, run1 isSpace s = some (w, rest) := by
  unfold spaces1
  rw [Option.map_eq_some_iff]
  constructor
  · rintro ⟨r, hr, rfl⟩
    exact ⟨r.1, hr⟩
  · rintro ⟨w, hw⟩
    exact ⟨(w, rest), hw, rfl⟩

theorem spaces_space (h : Stops isSpace s) : spaces (0x20 :: s) = s :=
  (spaces_append (List.all_eq_true.1 rfl : ∀ b ∈ [0x20], isSpace b = true) s).trans
    (spaces_of_stops h)

theorem spaces1_space (h : Stops isSpace s) : spaces1 (0x20 :: s) = some s := by
  have hrun : run1 isSpace ([0x20] ++ s) = some ([0x20], s) :=
    run1_append (List.cons_ne_nil _ _) (List.all_eq_true.1 rfl) h
  exact spaces1_eq_some.2 ⟨[0x20], hrun⟩

/-- Nothing but spaces stands in front of the first character that is not white space, and there is
such a character. -/
def IsIndented (t : String) : Prop :=
  ∃ front core, t = front ++ core ∧ (∀ b ∈ encode front, isSpace b = true) ∧ core ≠ "" ∧
    ∀ c ∈ core.toList.head?, Text.isBlank c = false

theorem isIndented_of_cons {c : Char} {cs : List Char} (ht : t.toList = c :: cs)
    (hc : Text.isBlank c = false) : IsIndented t := by
  refine ⟨"", t, String.empty_append.symm, (fun b hb => nomatch hb), ?_, ?_⟩
  · rintro rfl
    cases ht
  · rw [ht]
    rintro _ ⟨⟩
    exact hc

theorem IsIndented.indent {front : String} (h : IsIndented t)
    (hfront : ∀ b ∈ encode front, isSpace b = true) : IsIndented (front ++ t) := by
  obtain ⟨outer, core, rfl, houter, hcore⟩ := h
  refine ⟨front ++ outer, core, (String.append_assoc ..).symm, ?_, hcore⟩
  intro b hb
  rw [encode_append, List.mem_append] at hb
  exact hb.elim (hfront b) (houter b)

theorem IsIndented.append (h : IsIndented t) (u : String) : IsIndented (t ++ u) := by
  obtain ⟨front, core, rfl, hfront, hne, hhead⟩ := h
  refine ⟨front, core ++ u, String.append_assoc, hfront, ?_, ?_⟩
  · intro hempty
    exact hne (String.append_eq_empty_iff.1 hempty).1
  · intro c hc
    apply hhead
    rw [String.toList_append, List.head?_append] at hc
    cases hcore : core.toList with
    | nil => exact absurd (String.toList_eq_nil_iff.1 hcore) hne
    | cons d ds =>
      rw [hcore] at hc
      exact hc

theorem IsIndented.ne_empty (h : IsIndented t) : t ≠ "" := by
  obtain ⟨front, core, rfl, -, hne, -⟩ := h
  intro hempty
  exact hne (String.append_eq_empty_iff.1 hempty).2

/-- Then the spaces are all that trimming takes off in front. -/
theorem IsIndented.spaces_trim (h : IsIndented t) (hends : Text.trimEnd t = t) :
    spaces (encode (Text.trim t)) = spaces (encode t) := by
  obtain ⟨front, core, rfl, hfront, hne, hhead⟩ := h
  have hspace : ∀ c ∈ front.toList, Text.isBlank c = true := by
    intro c hc
    obtain ⟨b, hb⟩ := List.exists_mem_of_ne_nil _ (String.utf8EncodeChar_ne_nil (c := c))
    obtain ⟨hascii, hb'⟩ := isBlank_of_isSpace (hfront b (mem_encode.2 ⟨c, hc, hb⟩))
    rwa [ofNat_eq_of_mem_encodeChar hascii hb] at hb'
  rw [Text.trim_append_of_blank hspace hhead ((Text.trimEnd_append_iff _ hne).1 hends),
    encode_append, spaces_append hfront]

/-! ## What follows -/

/-- One of these characters follows, or nothing. -/
def Ends (cs : List Char) (rest : Octets) : Prop := ∀ b ∈ rest.head?, ∃ c ∈ cs, b = ascii c

theorem ends_nil (cs : List Char) : Ends cs [] := by
  intro b hb
  cases hb

theorem ends_cons {cs : List Char} {c : Char} (hc : c ∈ cs) (rest : Octets) :
    Ends cs (ascii c :: rest) := by
  intro b hb
  cases hb
  exact ⟨c, hc, rfl⟩

theorem Ends.mono {cs ds : List Char} (h : Ends cs rest) (hs : ∀ c ∈ cs, c ∈ ds) :
    Ends ds rest := by
  intro b hb
  obtain ⟨c, hc, rfl⟩ := h b hb
  exact ⟨c, hs c hc, rfl⟩

/-- A text that such a character cuts off another ends as that does. -/
theorem Ends.trimEnd {cs : List Char} {tail : String} (h : Ends cs (encode tail))
    (hcs : cs.all (fun c => c.toNat < 0x80) = true) (hsplit : encode t = w ++ encode tail)
    (hends : Text.trimEnd t = t) : Text.trimEnd tail = tail := by
  by_cases hne : tail = ""
  · rw [hne]
    rfl
  · have htext := isText_encode t
    rw [hsplit] at htext
    obtain ⟨hw, -⟩ := htext.cut (.inr fun b hb => by
      obtain ⟨c, hc, rfl⟩ := h b hb
      exact isAscii_isOneOf hcs _ (isOneOf_iff.2 ⟨c, hc, rfl⟩))
    have hwhole : t = decode w ++ tail := by
      rw [← decode_encode t, hsplit, decode_append hw (isText_encode tail), decode_encode]
    rw [hwhole] at hends
    exact (Text.trimEnd_append_iff _ hne).1 hends

/-- No run goes on there whose class has none of the characters. -/
theorem Ends.stops {cs : List Char} (h : Ends cs rest)
    (hp : cs.any (fun c => p (ascii c)) = false) : Stops p rest := by
  intro b hb
  obtain ⟨c, hc, rfl⟩ := h b hb
  simpa using List.any_eq_false.1 hp c hc

/-- Another character does not follow. -/
theorem Ends.octet_eq_none {cs : List Char} {b : UInt8} (h : Ends cs rest)
    (hb : b ∉ cs.map ascii) : Reader.octet b rest = none := by
  refine Reader.octet_eq_none.2 fun x hx => ?_
  obtain ⟨c, hc, rfl⟩ := h x hx
  rintro rfl
  exact hb (List.mem_map.2 ⟨c, hc, rfl⟩)

/-! ## Runs of a class -/

/-- A text that is not empty and all of whose octets are of a class. -/
def IsRun (p : UInt8 → Bool) (t : String) : Prop := t ≠ "" ∧ ∀ b ∈ encode t, p b = true

instance (p : UInt8 → Bool) (t : String) : Decidable (IsRun p t) :=
  decidable_of_iff (t ≠ "" ∧ (encode t).all p = true) (and_congr_right' List.all_eq_true)

theorem encode_ne_nil (h : t ≠ "") : encode t ≠ [] := by
  intro hnil
  have hdec := decode_encode t
  rw [hnil] at hdec
  exact h (hdec.symm.trans (decode_encode ""))

theorem IsRun.run1 (h : IsRun p t) (hr : Stops p rest) :
    Reader.run1 p (encode t ++ rest) = some (encode t, rest) :=
  run1_append (encode_ne_nil h.1) h.2 hr

/-- The octets in front are of the class. -/
theorem IsRun.head (h : IsRun p t) (rest : Octets) :
    ∃ b s, encode t ++ rest = b :: s ∧ p b = true := by
  obtain ⟨b, s, hs⟩ := List.exists_cons_of_ne_nil (encode_ne_nil h.1)
  refine ⟨b, s ++ rest, by rw [hs, List.cons_append], h.2 b ?_⟩
  rw [hs]
  exact List.mem_cons_self

/-- In front of a run of the class, a run of another class ends. -/
theorem IsRun.stops {q : UInt8 → Bool} (h : IsRun p t) (hq : ∀ b, p b = true → q b = false)
    (rest : Octets) : Stops q (encode t ++ rest) := by
  obtain ⟨b, s, hs, hb⟩ := h.head rest
  rw [hs]
  exact stops_cons.2 (hq b hb)

theorem IsRun.trimEnd (h : IsRun p t) (hp : ∀ b, p b = true → IsInk b) : Text.trimEnd t = t := by
  have hlast := List.getLast?_eq_some_getLast (encode_ne_nil h.1)
  exact trimEnd_of_isInk hlast (hp _ (h.2 _ (List.getLast_mem _)))

/-- What is read of a run is a run of the class, whether its octets spell a text or not. -/
theorem isRun_decode (hp : CutsText p) (hne : w ≠ []) (hw : ∀ b ∈ w, p b = true) :
    IsRun p (decode w) := by
  refine ⟨fun hempty => hne (decode_eq_empty hempty), fun b hb => ?_⟩
  by_cases hascii : b.toNat < 0x80
  · exact hw b (mem_of_mem_encode_decode hascii hb)
  · rcases hp with hin | hout
    · have htext : IsText w := isText_of_ascii fun x hx => hin x (hw x hx)
      rw [htext] at hb
      exact hw b hb
    · rw [← Bool.not_eq_false]
      exact fun hnot => hascii (hout b hnot)

/-- What a run takes off a text is a run of text, and a text is left. -/
theorem run1_spec (hs : IsText s) (hp : CutsText p) (h : Reader.run1 p s = some (w, rest)) :
    s = w ++ rest ∧ IsText w ∧ IsRun p (decode w) ∧ Stops p rest ∧ IsText rest := by
  obtain ⟨rfl, hne, hw, hstop⟩ := run1_eq_some.1 h
  obtain ⟨htext, hrest⟩ := hp.cut hs hw hstop
  exact ⟨rfl, htext, isRun_decode hp hne hw, hstop, hrest⟩

end SipProxy.Lexeme
