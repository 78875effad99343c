import SipProxy.Proofs.Text.Utf8

/-!
# Where octets of text can be cut

A reader of octets cuts text without looking at characters. What it cuts off spells a part of the
text nevertheless, as long as one of the two octets at the cut is ASCII, since the octets of a
longer character are all above ASCII (`IsText.cut`). Every separator of the grammar is ASCII, so
every cut of the grammar is of this kind, and the text of the parts is the text of the whole
(`decode_append`).
-/

namespace SipProxy.Utf8

/-- The octets spell a text, none of them being replaced. -/
def IsText (s : Octets) : Prop := encode (decode s) = s

variable {a b s : Octets}

theorem isText_encode (t : String) : IsText (encode t) := by
  rw [IsText, decode_encode]

theorem isText_nil : IsText [] := isText_encode ""

theorem IsText.append (ha : IsText a) (hb : IsText b) : IsText (a ++ b) := by
  rw [← ha, ← hb, ← encode_append]
  exact isText_encode _

theorem decode_append (ha : IsText a) (hb : IsText b) : decode (a ++ b) = decode a ++ decode b := by
  conv => lhs; rw [← ha, ← hb, ← encode_append, decode_encode]

/-- A cut between octets is one between characters if the octet in front of it or the one behind it
is ASCII. -/
theorem exists_cut {cs : List Char} (h : cs.flatMap String.utf8EncodeChar = a ++ b)
    (hcut : (∀ x ∈ a.getLast?, x.toNat < 0x80) ∨ ∀ x ∈ b.head?, x.toNat < 0x80) :
    ∃ ds es : List Char, a = ds.flatMap String.utf8EncodeChar ∧
      b = es.flatMap String.utf8EncodeChar := by
  induction cs generalizing a with
  | nil =>
    obtain ⟨rfl, rfl⟩ := List.append_eq_nil_iff.1 h.symm
    exact ⟨[], [], rfl, rfl⟩
  | cons c cs ih =>
    rw [List.flatMap_cons] at h
    -- the cut is behind the first character, or it is inside it
    rcases List.append_eq_append_iff.1 h with ⟨a', rfl, h'⟩ | ⟨c', hc, rfl⟩
    · by_cases hnil : a' = []
      · subst hnil
        exact ⟨[c], cs, by simp, h'.symm⟩
      · have hlast : (String.utf8EncodeChar c ++ a').getLast? = a'.getLast? := by
          rw [List.getLast?_append, List.getLast?_eq_some_getLast hnil, Option.some_or]
        rw [hlast] at hcut
        obtain ⟨ds, es, rfl, rfl⟩ := ih h' hcut
        exact ⟨c :: ds, es, rfl, rfl⟩
    · by_cases ha : a = []
      · subst ha
        rw [List.nil_append] at hc
        exact ⟨[], c :: cs, rfl, by rw [List.flatMap_cons, hc]⟩
      by_cases hc' : c' = []
      · subst hc'
        rw [List.append_nil] at hc
        exact ⟨[c], cs, by simp [hc], rfl⟩
      -- both sides of the cut are octets of one character, so it is no ASCII character
      exfalso
      have hmem : ∀ x : UInt8, x ∈ a ++ c' → x.toNat < 0x80 → False := by
        intro x hx hlt
        have hone := toNat_eq_of_mem_encodeChar hlt (hc ▸ hx)
        rw [encodeChar_of_one (by omega)] at hc
        have hlen := congrArg List.length hc
        have hpos := List.length_pos_iff.2 ha
        have hpos' := List.length_pos_iff.2 hc'
        rw [List.length_append, List.length_singleton] at hlen
        omega
      rcases hcut with hlast | hhead
      · refine hmem (a.getLast ha) (List.mem_append_left _ (List.getLast_mem ha)) ?_
        exact hlast _ (List.getLast?_eq_some_getLast ha)
      · obtain ⟨x, rest, rfl⟩ := List.exists_cons_of_ne_nil hc'
        exact hmem x (by simp) (hhead x (by simp))

/-- Both parts of a text that is cut at an ASCII octet are texts. -/
theorem IsText.cut (h : IsText (a ++ b))
    (hcut : (∀ x ∈ a.getLast?, x.toNat < 0x80) ∨ ∀ x ∈ b.head?, x.toNat < 0x80) :
    IsText a ∧ IsText b := by
  have hab : (decode (a ++ b)).toList.flatMap String.utf8EncodeChar = a ++ b := h
  obtain ⟨ds, es, rfl, rfl⟩ := exists_cut hab hcut
  have htext : ∀ cs : List Char, IsText (cs.flatMap String.utf8EncodeChar) := by
    intro cs
    have hcs := isText_encode (String.ofList cs)
    rwa [encode, String.toList_ofList] at hcs
  exact ⟨htext ds, htext es⟩

theorem IsText.cut_of_getLast {x : UInt8} (h : IsText (a ++ b)) (hlast : a.getLast? = some x)
    (hx : x.toNat < 0x80) : IsText a ∧ IsText b := by
  refine h.cut (.inl fun y hy => ?_)
  rw [hlast] at hy
  cases hy
  exact hx

theorem IsText.tail {x : UInt8} (h : IsText (x :: s)) (hx : x.toNat < 0x80) : IsText s := by
  have hcons : IsText ([x] ++ s) := h
  exact (hcons.cut_of_getLast rfl hx).2

/-- Octets that are all ASCII spell a text. -/
theorem isText_of_ascii (h : ∀ x ∈ s, x.toNat < 0x80) : IsText s := by
  induction s with
  | nil => exact isText_nil
  | cons x s ih =>
    have hs : encode (decode s) = s := ih fun y hy => h y (List.mem_cons_of_mem x hy)
    rw [IsText, encode_decode_ascii (h x List.mem_cons_self), hs]

end SipProxy.Utf8
