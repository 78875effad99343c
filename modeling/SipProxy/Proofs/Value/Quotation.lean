import SipProxy.NameAddress
import SipProxy.Proofs.Grammar.Lexeme

/-!
# Text between quotes

A text is written between quotes with a backslash before every backslash and every quote in it. It
is read from there piece by piece: a backslash takes one octet, octets without one are taken
together, and every piece is decoded on its own. That gives the text again
(`Lexeme.quotedText_quote`), because what a piece ends in front of is ASCII, so no character is in
two pieces.

The rule may be said in two passes over the text, backslashes first (`NameAddress.quote_eq`). In
the other order it would not be undone: the second pass would take the backslashes of the first for
backslashes of the text.
-/

namespace SipProxy

open Lexeme Reader Utf8

variable {s w rest : Octets}

/-! ## Pieces -/

namespace Lexeme

theorem piecesToQuote_escape (b : UInt8) (s : Octets) :
    piecesToQuote (0x5C :: b :: s) = (piecesToQuote s).map fun p => ([b] :: p.1, p.2) := by
  rw [piecesToQuote]

/-- A run of plain octets is one piece. -/
theorem piecesToQuote_plain (hne : w ≠ []) (hw : ∀ b ∈ w, isPlain b = true)
    (hr : Stops isPlain rest) :
    piecesToQuote (w ++ rest) = (piecesToQuote rest).map fun p => (w :: p.1, p.2) := by
  obtain ⟨b, w, rfl⟩ := List.exists_cons_of_ne_nil hne
  have hb := hw b List.mem_cons_self
  have htail : ∀ x ∈ w, isPlain x = true := fun x hx => hw x (List.mem_cons_of_mem b hx)
  rw [List.cons_append, piecesToQuote, takeWhile_append htail hr, dropWhile_append htail hr]
  · rintro rfl
    cases hb
  · rintro _ _ rfl
    cases hb
  · rintro rfl
    cases hb

end Lexeme

namespace NameAddress

/-- Is a character its own spelling between quotes? -/
def isPlainChar (c : Char) : Bool := !(c = '\\' || c = '"')

theorem escapeChar_of_plain {c : Char} (h : isPlainChar c = true) : escapeChar c = [c] := by
  unfold isPlainChar at h
  unfold escapeChar
  rw [Bool.not_eq_true'] at h
  rw [if_neg]
  simpa using h

theorem isPlain_of_isPlainChar {c : Char} {b : UInt8} (h : isPlainChar c = true)
    (hb : b ∈ String.utf8EncodeChar c) : isPlain b = true := by
  unfold isPlain
  rw [Bool.not_eq_true', ← Bool.not_eq_true]
  intro hquote
  obtain ⟨d, hd, rfl⟩ := isOneOf_iff.1 hquote
  -- an octet of a quote or a backslash is in no other character
  have hc : c = d := by
    simp only [List.mem_cons, List.not_mem_nil, or_false] at hd
    rcases hd with rfl | rfl
    · exact (ofNat_eq_of_mem_encodeChar (by decide) hb).symm
    · exact (ofNat_eq_of_mem_encodeChar (by decide) hb).symm
  have hnot : ['"', '\\'].any isPlainChar = false := by decide
  rw [hc] at h
  exact List.any_eq_false.1 hnot d hd h

/-- The octets of characters as they stand between quotes. -/
def escaped (cs : List Char) : Octets := (cs.flatMap escapeChar).flatMap String.utf8EncodeChar

theorem escaped_append (cs ds : List Char) : escaped (cs ++ ds) = escaped cs ++ escaped ds := by
  simp [escaped]

theorem escaped_of_plain {cs : List Char} (h : ∀ c ∈ cs, isPlainChar c = true) :
    escaped cs = encode (String.ofList cs) := by
  have hself : cs.flatMap escapeChar = cs := by
    induction cs with
    | nil => rfl
    | cons c cs ih =>
      rw [List.flatMap_cons, escapeChar_of_plain (h c List.mem_cons_self),
        ih fun d hd => h d (List.mem_cons_of_mem c hd)]
      rfl
  rw [escaped, hself, encode, String.toList_ofList]

/-- Characters that are their own spelling stand in front of one that is not, or of the end. -/
theorem exists_plain_front (cs : List Char) :
    ∃ run more, cs = run ++ more ∧ (∀ c ∈ run, isPlainChar c = true) ∧
      ∀ c ∈ more.head?, isPlainChar c = false := by
  refine ⟨cs.takeWhile isPlainChar, cs.dropWhile isPlainChar,
    List.takeWhile_append_dropWhile.symm, List.all_eq_true.1 List.all_takeWhile, ?_⟩
  intro c hc
  have hnot := List.head?_dropWhile_not isPlainChar cs
  rw [Option.mem_def.1 hc] at hnot
  simpa using hnot

theorem escaped_cons_of_not_plain {c : Char} (h : isPlainChar c = false) (cs : List Char) :
    ∃ b, escaped (c :: cs) = 0x5C :: b :: escaped cs ∧ decode [b] = String.ofList [c] := by
  have hc : c = '\\' ∨ c = '"' := by
    rw [Decidable.or_iff_not_imp_left]
    simpa [isPlainChar] using h
  rcases hc with rfl | rfl
  · exact ⟨0x5C, rfl, by decide +kernel⟩
  · exact ⟨0x22, rfl, by decide +kernel⟩

end NameAddress

namespace Lexeme

open NameAddress

/-- Characters that are their own spelling are one piece. -/
theorem piecesToQuote_escaped_plain {cs : List Char} (hne : cs ≠ [])
    (hcs : ∀ c ∈ cs, isPlainChar c = true) (hr : Stops isPlain rest) :
    piecesToQuote (escaped cs ++ rest) =
      (piecesToQuote rest).map fun p => (encode (String.ofList cs) :: p.1, p.2) := by
  have hnotNil : encode (String.ofList cs) ≠ [] := by
    apply encode_ne_nil
    intro hempty
    have hnil := congrArg String.toList hempty
    rw [String.toList_ofList] at hnil
    exact hne hnil
  have hoctets : ∀ b ∈ encode (String.ofList cs), isPlain b = true := by
    intro b hb
    obtain ⟨c, hc, hb⟩ := mem_encode.1 hb
    rw [String.toList_ofList] at hc
    exact isPlain_of_isPlainChar (hcs c hc) hb
  rw [escaped_of_plain hcs, piecesToQuote_plain hnotNil hoctets hr]

/-- A piece ends in front of a character that is escaped, and of the closing quote. -/
theorem stops_escaped {cs : List Char} (h : ∀ c ∈ cs.head?, isPlainChar c = false)
    (rest : Octets) : Stops isPlain (escaped cs ++ 0x22 :: rest) := by
  cases cs with
  | nil => exact stops_cons.2 (by decide)
  | cons c cs =>
    obtain ⟨b, hb, -⟩ := escaped_cons_of_not_plain (h c rfl) cs
    rw [hb]
    exact stops_cons.2 (by decide)

/-- What stands between quotes is read as the text that was written there. -/
theorem piecesToQuote_escaped (cs : List Char) (rest : Octets) :
    ∃ pieces, piecesToQuote (escaped cs ++ 0x22 :: rest) = some (pieces, rest) ∧
      String.join (pieces.map decode) = String.ofList cs := by
  -- a piece takes one character or more, so the induction is on the length
  induction hn : cs.length using Nat.strongRecOn generalizing cs with
  | ind n ih =>
    cases cs with
    | nil =>
      refine ⟨[], ?_, rfl⟩
      show piecesToQuote (0x22 :: rest) = _
      rw [piecesToQuote]
    | cons c cs =>
      cases hc : isPlainChar c with
      | false =>
        obtain ⟨b, hb, hchar⟩ := escaped_cons_of_not_plain hc cs
        obtain ⟨pieces, hread, hjoin⟩ := ih cs.length (by rw [← hn]; simp) cs rfl
        refine ⟨[b] :: pieces, ?_, ?_⟩
        · rw [hb, List.cons_append, List.cons_append, piecesToQuote_escape, hread]
          rfl
        · rw [List.map_cons, String.join_cons, hjoin, hchar, ← String.ofList_append]
          rfl
      | true =>
        obtain ⟨run, more, hsplit, hplain, hhead⟩ := exists_plain_front (c :: cs)
        have hne : run ≠ [] := by
          rintro rfl
          rw [List.nil_append] at hsplit
          rw [← hsplit] at hhead
          have hnot := hhead c rfl
          rw [hc] at hnot
          cases hnot
        have hlt : more.length < n := by
          have hpos := List.length_pos_iff.2 hne
          rw [← hn, hsplit, List.length_append]
          omega
        obtain ⟨pieces, hread, hjoin⟩ := ih more.length hlt more rfl
        refine ⟨encode (String.ofList run) :: pieces, ?_, ?_⟩
        · rw [hsplit, escaped_append, List.append_assoc,
            piecesToQuote_escaped_plain hne hplain (stops_escaped hhead rest), hread]
          rfl
        · rw [List.map_cons, String.join_cons, hjoin, decode_encode, ← String.ofList_append,
            hsplit]

/-- A text between quotes is read back. -/
theorem quotedText_quote (name : String) (rest : Octets) :
    quotedText (encode (quote name) ++ rest) = some (name, rest) := by
  obtain ⟨pieces, hread, hjoin⟩ := piecesToQuote_escaped name.toList rest
  have hquote : encode "\"" = [0x22] := by decide
  have htext : encode (quote name) ++ rest = 0x22 :: (escaped name.toList ++ 0x22 :: rest) := by
    have hinner : encode (String.ofList (name.toList.flatMap escapeChar)) =
        escaped name.toList := by
      rw [encode, String.toList_ofList]
      rfl
    rw [quote, encode_append, encode_append, hquote, hinner]
    simp
  rw [htext]
  show (piecesToQuote _).map _ = _
  rw [hread, Option.map_some, hjoin, String.ofList_toList]

end Lexeme

/-! ## Two passes -/

namespace NameAddress

/-- A character with a backslash in front of it if it is `c`. -/
def mark (c d : Char) : List Char := if d = c then ['\\', d] else [d]

/-- A text with a backslash before every `c`. -/
def backslashed (c : Char) (s : String) : String := String.ofList (s.toList.flatMap (mark c))

/-- The backslash in front of a quote is not marked again, since quotes are marked last. -/
theorem escapeChar_eq (c : Char) : escapeChar c = (mark '\\' c).flatMap (mark '"') := by
  by_cases hbackslash : c = '\\'
  · subst hbackslash
    rfl
  by_cases hquote : c = '"'
  · subst hquote
    rfl
  · simp [escapeChar, mark, hbackslash, hquote]

/-- One pass that marks both characters is a pass over the backslashes and one over the quotes. -/
theorem quote_eq (s : String) :
    quote s = "\"" ++ backslashed '"' (backslashed '\\' s) ++ "\"" := by
  have hpasses : s.toList.flatMap escapeChar =
      (s.toList.flatMap (mark '\\')).flatMap (mark '"') := by
    rw [List.flatMap_assoc, ← funext escapeChar_eq]
  rw [quote, hpasses, backslashed, backslashed, String.toList_ofList]

end NameAddress

namespace Lexeme

open NameAddress

/-- A text with a backslash before every backslash, and then one before every quote, is what is
written between quotes. It is read from there as it was, and what follows the closing quote is
left. -/
theorem quotedText_backslashed (s : String) (rest : Octets) :
    quote s = "\"" ++ backslashed '"' (backslashed '\\' s) ++ "\"" ∧
      quotedText (encode ("\"" ++ backslashed '"' (backslashed '\\' s) ++ "\"") ++ rest) =
        some (s, rest) := by
  refine ⟨quote_eq s, ?_⟩
  rw [← quote_eq]
  exact quotedText_quote s rest

-- Marked in the other order, a quote would become two backslashes and a quote, and end the text.
example : quotedText (encode "\"\\\\\"\"") = some ("\\", encode "\"") := by
  decide +kernel

/-! ## What is taken off -/

theorem quotedText_of_ne (h : ∀ b ∈ s.head?, b ≠ 0x22) : quotedText s = none := by
  unfold quotedText
  split
  · exact absurd rfl (h 0x22 rfl)
  · rfl

theorem piecesToQuote_spec {pieces : List Octets} (h : piecesToQuote s = some (pieces, rest)) :
    ∃ w, s = w ++ rest ∧ w.getLast? = some 0x22 ∧ ∀ piece ∈ pieces, ∀ b ∈ piece, b ∈ w := by
  fun_induction piecesToQuote s generalizing pieces with
  | case1 s =>
    cases h
    refine ⟨[0x22], rfl, rfl, ?_⟩
    intro piece hpiece
    cases hpiece
  | case2 b s ih =>
    obtain ⟨r, hr, heq⟩ := Option.map_eq_some_iff.1 h
    cases heq
    obtain ⟨w, rfl, hlast, hmem⟩ := ih hr
    refine ⟨0x5C :: b :: w, rfl, ?_, ?_⟩
    · rw [List.getLast?_cons, List.getLast?_cons, hlast]
      rfl
    · intro piece hpiece x hx
      rcases List.mem_cons.1 hpiece with rfl | hpiece
      · rw [List.mem_singleton.1 hx]
        simp
      · exact List.mem_cons_of_mem _ (List.mem_cons_of_mem b (hmem piece hpiece x hx))
  | case3 => cases h
  | case4 b s hquote hescape hlone ih =>
    obtain ⟨r, hr, heq⟩ := Option.map_eq_some_iff.1 h
    cases heq
    obtain ⟨w, hs, hlast, hmem⟩ := ih hr
    have hsplit := List.takeWhile_append_dropWhile (p := isPlain) (l := s)
    refine ⟨b :: (s.takeWhile isPlain ++ w), ?_, ?_, ?_⟩
    · rw [List.cons_append, List.append_assoc, ← hs, hsplit]
    · rw [List.getLast?_cons, List.getLast?_append, hlast]
      rfl
    · intro piece hpiece x hx
      rcases List.mem_cons.1 hpiece with rfl | hpiece
      · rcases List.mem_cons.1 hx with rfl | hx
        · exact List.mem_cons_self
        · exact List.mem_cons_of_mem b (List.mem_append_left w hx)
      · exact List.mem_cons_of_mem b (List.mem_append_right _ (hmem piece hpiece x hx))
  | case5 => cases h

/-- A quoted string is cut off a text, and without line breaks it is a text without them. -/
theorem isLine_of_quotedText {name : String} (hs : IsText s)
    (h : quotedText s = some (name, rest)) :
    ∃ w, s = w ++ rest ∧ IsText w ∧ IsText rest ∧
      ((∀ b ∈ w, Line.isInside b = true) → Text.IsLine name) := by
  unfold quotedText at h
  split at h
  · rename_i s
    obtain ⟨r, hr, heq⟩ := Option.map_eq_some_iff.1 h
    cases heq
    obtain ⟨w, rfl, hlast, hmem⟩ := piecesToQuote_spec hr
    obtain ⟨htext, hrest⟩ := hs.cut_of_getLast (a := 0x22 :: w)
      (by rw [List.getLast?_cons, hlast, Option.getD_some]) (by decide)
    refine ⟨0x22 :: w, rfl, htext, hrest, fun hl => ?_⟩
    have hline : ∀ piece ∈ r.1, Text.IsLine (decode piece) := by
      intro piece hpiece
      exact .decode fun b hb => hl b (List.mem_cons_of_mem _ (hmem piece hpiece b hb))
    generalize r.1 = pieces at hline
    induction pieces with
    | nil => decide
    | cons piece pieces ih =>
      rw [List.map_cons, String.join_cons]
      exact (hline piece List.mem_cons_self).append
        (ih fun q hq => hline q (List.mem_cons_of_mem piece hq))
  · cases h

end Lexeme

end SipProxy
