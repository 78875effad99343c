import SipProxy.Proofs.Grammar.Params
import SipProxy.Proofs.Uri.Text
import SipProxy.Proofs.Value.Quotation

/-!
# Name-addresses that are written and read again

The URI of a name-address comes back from between its brackets, as long as none of its octets closes
them, and none does that was read from between brackets. A display name that is quoted comes back as
it was (`Lexeme.quotedText_quote`). One that needs no quotes loses the spaces at its ends, and a
name of nothing but spaces is lost with them (`NameAddress.settledName`); nothing of a message but
the name depends on it.
-/

namespace SipProxy

open Lexeme Reader Utf8

variable {s w rest : Octets} {a : NameAddress}

/-! ## Display names -/

namespace NameAddress

/-- The display name that is read of one that is written: quoted it is kept, and otherwise it loses
the spaces at its ends. -/
def settledName (name : Option String) : Option String :=
  match name with
  | some name =>
    if needsQuotes name then some name
    else if Text.trim name = "" then none else some (Text.trim name)
  | none => none

/-- Octets of a name that needs no quotes. -/
def isNameOctet (b : UInt8) : Bool := isTokenOctet b || isSpace b

theorem isNameOctet_of_needsQuotes {name : String} (h : needsQuotes name = false) :
    ∀ b ∈ encode name, isNameOctet b = true := by
  have hclass : ∀ b, (isTokenOctet b || b == 0x20) = true → isNameOctet b = true := by
    intro b hb
    rcases Bool.or_eq_true_iff.1 hb with hb | hb
    · simp [isNameOctet, hb]
    · simp [isNameOctet, isSpace, hb]
  unfold needsQuotes at h
  rw [Bool.or_eq_false_iff, Bool.not_eq_false'] at h
  intro b hb
  exact hclass b (List.all_eq_true.1 h.2 b hb)

end NameAddress

namespace Lexeme

open NameAddress

theorem displayName_openAngle (s : Octets) : displayName (ascii '<' :: s) = none := rfl

/-- A name that does not begin with white space begins with a token. -/
theorem isTokenOctet_of_head {t : String} (hclass : ∀ b ∈ encode t, isNameOctet b = true)
    (hhead : ∀ c ∈ t.toList.head?, Text.isBlank c = false) :
    ∀ b ∈ (encode t).head?, isTokenOctet b = true := by
  have hink : ∀ b, isNameOctet b = true → ¬isTokenOctet b = true →
      b.toNat < 0x80 ∧ Text.isBlank (Char.ofNat b.toNat) = true := by
    intro b hb hnot
    exact isBlank_of_isSpace ((Bool.or_eq_true_iff.1 hb).resolve_left hnot)
  intro b hb
  refine Decidable.byContradiction fun hnot => ?_
  obtain ⟨hascii, hblank⟩ := hink b (hclass b (List.mem_of_head? hb)) hnot
  obtain ⟨c, hc, hbc⟩ := exists_head_of_encode (Option.mem_def.1 hb)
  rw [ofNat_eq_of_mem_encodeChar hascii hbc, hhead c hc] at hblank
  cases hblank

/-- Tokens are read up to what cannot go on with them. -/
theorem displayName_run {t : String} (hne : t ≠ "")
    (htoken : ∀ b ∈ (encode t).head?, isTokenOctet b = true)
    (hclass : ∀ b ∈ encode t, isNameOctet b = true) (hr : Stops isNameOctet rest) :
    displayName (encode t ++ rest) = some (Text.trimEnd t, rest) := by
  obtain ⟨b, w, hw⟩ := List.exists_cons_of_ne_nil (encode_ne_nil hne)
  have hb : isTokenOctet b = true := htoken b (by rw [hw]; rfl)
  have hquoted : quotedText (encode t ++ rest) = none := by
    refine quotedText_of_ne fun x hx => ?_
    rw [hw] at hx
    cases hx
    rintro rfl
    cases hb
  have hrun : run isNameOctet (encode t ++ rest) = (encode t, rest) :=
    run_eq_iff.2 ⟨rfl, hclass, hr⟩
  have hread : tokenRun (encode t ++ rest) = some (encode t, rest) := by
    rw [← hrun, hw]
    show (if isTokenOctet b then some (run isNameOctet _) else _) = _
    rw [if_pos hb]
  unfold displayName
  rw [hquoted, hread]
  simp only [decode_encode]

/-- What stands in front of a name that needs no quotes and is trimmed off is spaces. -/
theorem exists_front_of_isNameOctet {name : String}
    (hclass : ∀ b ∈ encode name, isNameOctet b = true) :
    ∃ front t, name = front ++ t ∧ (∀ b ∈ encode front, isSpace b = true) ∧
      (∀ b ∈ encode t, isNameOctet b = true) ∧ (∀ c ∈ t.toList.head?, Text.isBlank c = false) ∧
        Text.trimEnd t = Text.trim name := by
  have hspace : ∀ b, isNameOctet b = true →
      b.toNat < 0x80 ∧ (Text.isBlank (Char.ofNat b.toNat) = true → isSpace b = true) := by
    intro b hb
    rcases Bool.or_eq_true_iff.1 hb with hb | hb
    · obtain ⟨hascii, hink⟩ := isInk_of_isTokenOctet b hb
      exact ⟨hascii, fun hblank => absurd (hink.symm.trans hblank) Bool.false_ne_true⟩
    · exact ⟨isAscii_isSpace b hb, fun _ => hb⟩
  obtain ⟨front, t, rfl, hfront, hhead, htrim⟩ := Text.exists_front name
  rw [encode_append] at hclass
  refine ⟨front, t, rfl, ?_, fun b hb => hclass b (List.mem_append_right _ hb), hhead, htrim⟩
  intro b hb
  obtain ⟨c, hc, hbc⟩ := mem_encode.1 hb
  obtain ⟨hascii, hblank⟩ := hspace b (hclass b (List.mem_append_left _ hb))
  apply hblank
  rw [ofNat_eq_of_mem_encodeChar hascii hbc]
  exact hfront c hc

/-- A name that needs no quotes is read without the spaces at its ends. -/
theorem displayName_unquoted {name : String} (hclass : ∀ b ∈ encode name, isNameOctet b = true)
    (s : Octets) :
    optional displayName (spaces (encode (name ++ " ") ++ ascii '<' :: s)) =
      (if Text.trim name = "" then none else some (Text.trim name), ascii '<' :: s) := by
  obtain ⟨front, t, rfl, hspaces, htoken, hhead, htrim⟩ := exists_front_of_isNameOctet hclass
  rw [String.append_assoc, encode_append, List.append_assoc, spaces_append hspaces, ← htrim]
  by_cases hempty : t = ""
  · subst hempty
    have hnone : Text.trimEnd "" = "" := rfl
    rw [if_pos hnone]
    have hangle : spaces (encode ("" ++ " ") ++ ascii '<' :: s) = ascii '<' :: s :=
      spaces_space (stops_cons.2 (by decide))
    rw [hangle]
    exact optional_of_none (displayName_openAngle s)
  · rw [if_neg (Text.trimEnd_ne_empty hempty hhead)]
    have hspace : encode " " = [0x20] := by decide
    obtain ⟨b, w, hw⟩ := List.exists_cons_of_ne_nil (encode_ne_nil hempty)
    have hb : isTokenOctet b = true :=
      isTokenOctet_of_head htoken hhead b (by rw [hw]; rfl)
    have hread : displayName (encode (t ++ " ") ++ ascii '<' :: s) =
        some (Text.trimEnd (t ++ " "), ascii '<' :: s) := by
      apply displayName_run
      · intro hnil
        exact hempty (String.append_eq_empty_iff.1 hnil).1
      · intro x hx
        rw [encode_append, hw] at hx
        cases hx
        exact hb
      · intro x hx
        rw [encode_append, hspace] at hx
        rcases List.mem_append.1 hx with hx | hx
        · exact htoken x hx
        · rw [List.mem_singleton.1 hx]
          decide
      · exact stops_cons.2 (by decide)
    have hstops : Stops isSpace (encode (t ++ " ") ++ ascii '<' :: s) := by
      rw [encode_append, hw]
      exact stops_cons.2 (isSpace_eq_false_of_isTokenOctet b hb)
    rw [spaces_of_stops hstops, ← Text.trimEnd_append_space]
    exact optional_of_some hread

/-- A name between quotes is read as it was. -/
theorem displayName_quote (name : String) (s : Octets) :
    optional displayName (spaces (encode (quote name ++ " ") ++ ascii '<' :: s)) =
      (some name, ascii '<' :: s) := by
  have hspace : encode " " = [0x20] := by decide
  have hquote : encode "\"" = [0x22] := by decide
  have hstops : Stops isSpace (encode (quote name) ++ ([0x20] ++ ascii '<' :: s)) := by
    rw [quote, encode_append, encode_append, hquote]
    exact stops_cons.2 (by decide)
  have hangle : spaces ([0x20] ++ ascii '<' :: s) = ascii '<' :: s :=
    spaces_space (stops_cons.2 (by decide))
  rw [encode_append, hspace, List.append_assoc, spaces_of_stops hstops]
  apply optional_of_some
  unfold displayName
  rw [quotedText_quote]
  exact congrArg (fun s => some (name, s)) hangle

/-- The display name is read up to the bracket. -/
theorem displayName_nameText (name : Option String) (s : Octets) :
    optional displayName (spaces (encode (nameText name) ++ ascii '<' :: s)) =
      (settledName name, ascii '<' :: s) := by
  cases name with
  | none =>
    have hangle : spaces (ascii '<' :: s) = ascii '<' :: s :=
      spaces_of_stops (stops_cons.2 (by decide))
    show optional displayName (spaces (ascii '<' :: s)) = (none, ascii '<' :: s)
    rw [hangle]
    exact optional_of_none (displayName_openAngle s)
  | some name =>
    cases hq : needsQuotes name with
    | true =>
      have htext : nameText (some name) = quote name ++ " " := by
        rw [nameText, if_pos hq]
      have hsettled : settledName (some name) = some name := by
        rw [settledName, if_pos hq]
      rw [htext, hsettled]
      exact displayName_quote name s
    | false =>
      have hne : ¬needsQuotes name = true := by
        rw [hq]
        exact Bool.false_ne_true
      have htext : nameText (some name) = name ++ " " := by
        rw [nameText, if_neg hne]
      have hsettled : settledName (some name) =
          if Text.trim name = "" then none else some (Text.trim name) := by
        rw [settledName, if_neg hne]
      rw [htext, hsettled]
      exact displayName_unquoted (isNameOctet_of_needsQuotes hq) s

/-- A display name is cut off a text with the spaces behind it, and has no line break if those
octets have none. -/
theorem isLine_of_displayName {name : String} (hs : IsText s)
    (h : displayName s = some (name, rest)) :
    ∃ w, s = w ++ rest ∧ IsText w ∧ IsText rest ∧
      ((∀ b ∈ w, Line.isInside b = true) → Text.IsLine name) := by
  unfold displayName at h
  split at h
  · rename_i s' hq
    cases h
    obtain ⟨w, rfl, hw, hs', hline⟩ := isLine_of_quotedText hs hq
    obtain ⟨behind, hbehind, hsplit⟩ := exists_spaces s'
    refine ⟨w ++ behind, ?_, hw.append hbehind.isText, ?_, ?_⟩
    · rw [List.append_assoc, ← hsplit]
    · rw [hsplit] at hs'
      exact hbehind.isText_behind hs'
    · exact fun hl => hline fun b hb => hl b (List.mem_append_left behind hb)
  · split at h
    · rename_i w s' hrun
      cases h
      unfold tokenRun at hrun
      split at hrun
      · split at hrun
        · obtain ⟨hsplit, hw, hstops⟩ := run_eq_iff.1 (Option.some.inj hrun)
          have hcut : CutsText fun b => isTokenOctet b || isSpace b :=
            .inl (isAscii_isTokenOctet.or isAscii_isSpace)
          rw [hsplit] at hs ⊢
          obtain ⟨htext, hrest⟩ := hcut.cut hs hw hstops
          refine ⟨w, rfl, htext, hrest, fun hl => .of_subset (.decode hl) fun c hc => ?_⟩
          rw [Text.trimEnd, String.toList_ofList] at hc
          exact (Text.trimEndChars_sublist _).subset hc
        · cases hrun
      · cases hrun
    · cases h

theorem isLine_of_optional_displayName {name : Option String} (hs : IsText s)
    (h : optional displayName s = (name, rest)) :
    ∃ w, s = w ++ rest ∧ IsText w ∧ IsText rest ∧
      ((∀ b ∈ w, Line.isInside b = true) → ∀ n ∈ name, Text.IsLine n) := by
  rcases optional_eq_iff.1 h with ⟨n, rfl, hn⟩ | ⟨rfl, -, rfl⟩
  · obtain ⟨w, hsplit, hw, hrest, hline⟩ := isLine_of_displayName hs hn
    refine ⟨w, hsplit, hw, hrest, fun hl => ?_⟩
    rintro _ ⟨⟩
    exact hline hl
  · exact ⟨[], rfl, isText_nil, hs, fun _ n hn => nomatch hn⟩

end Lexeme

/-! ## Name-addresses -/

/-- The name-address that is read of one that is written. -/
def NameAddress.settled (a : NameAddress) : NameAddress := ⟨settledName a.displayName, a.uri⟩

/-- A name-address that is read as it is written, but for spaces around its display name: no octet
of its URI closes the brackets. -/
structure NameAddress.IsLegible (a : NameAddress) : Prop where
  uri : a.uri.IsWritable
  angle : ∀ b ∈ encode a.uri.text, b ≠ ascii '>'

/-- A name-address that can be written into a header: it is legible, and its display name has no
line break. -/
structure NameAddress.IsWritable (a : NameAddress) : Prop where
  uri : a.uri.IsWritable
  angle : ∀ b ∈ encode a.uri.text, b ≠ ascii '>'
  name : ∀ n ∈ a.displayName, Text.IsLine n

theorem NameAddress.IsWritable.isLegible (h : a.IsWritable) : a.IsLegible := ⟨h.uri, h.angle⟩

namespace NameAddress

/-- Nothing but spaces of the display name stands in front of a name-address. -/
theorem isIndented_text (a : NameAddress) : IsIndented a.text := by
  have hangle : IsIndented "<" := isIndented_of_cons rfl (by decide)
  have hquote : IsIndented "\"" := isIndented_of_cons rfl (by decide)
  have hname : IsIndented (nameText a.displayName ++ "<") := by
    cases a.displayName with
    | none => exact hangle
    | some name =>
      cases hq : needsQuotes name with
      | true =>
        rw [nameText, if_pos hq]
        exact (((hquote.append _).append _).append _).append _
      | false =>
        rw [nameText, if_neg (by rw [hq]; exact Bool.false_ne_true)]
        obtain ⟨front, t, rfl, hspaces, -, hhead, -⟩ :=
          exists_front_of_isNameOctet (isNameOctet_of_needsQuotes hq)
        by_cases hempty : t = ""
        · subst hempty
          have hspace : ∀ b ∈ encode " ", isSpace b = true := List.all_eq_true.1 (by decide)
          rw [String.append_empty, String.append_assoc]
          exact (hangle.indent hspace).indent hspaces
        · have hfront : IsIndented (front ++ t) := ⟨front, t, rfl, hspaces, hempty, hhead⟩
          exact (hfront.append _).append _
  exact (hname.append _).append _

theorem isLine_quote {name : String} (h : Text.IsLine name) : Text.IsLine (quote name) := by
  have hquote : Text.IsLine "\"" := by decide
  have hinner : Text.IsLine (String.ofList (name.toList.flatMap escapeChar)) := by
    have hmem : ∀ c, c ≠ '\\' → c ∈ name.toList.flatMap escapeChar → c ∈ name.toList := by
      intro c hne hc
      obtain ⟨d, hd, hc⟩ := List.mem_flatMap.1 hc
      unfold escapeChar at hc
      split at hc
      · rcases List.mem_cons.1 hc with rfl | hc
        · exact absurd rfl hne
        · rwa [List.mem_singleton.1 hc]
      · rwa [List.mem_singleton.1 hc]
    unfold Text.IsLine
    rw [String.toList_ofList]
    exact ⟨fun hc => h.1 (hmem _ (by decide) hc), fun hc => h.2 (hmem _ (by decide) hc)⟩
  unfold quote
  exact (hquote.append hinner).append hquote

theorem isLine_nameText {name : Option String} (h : ∀ n ∈ name, Text.IsLine n) :
    Text.IsLine (nameText name) := by
  unfold nameText
  split
  · rename_i n
    have hn := h n rfl
    refine Text.IsLine.append ?_ .space
    split
    · exact isLine_quote hn
    · exact hn
  · decide

theorem IsWritable.isLine (h : a.IsWritable) : Text.IsLine a.text := by
  have hopen : Text.IsLine "<" := by decide
  have hclose : Text.IsLine ">" := by decide
  unfold text
  exact (((isLine_nameText h.name).append hopen).append h.uri.isLine).append hclose

theorem trimEnd_text (a : NameAddress) : Text.trimEnd a.text = a.text :=
  (Text.trimEnd_append_iff _ (by decide)).2 (by decide)

end NameAddress

namespace Lexeme

open NameAddress

theorem bracketed_spaces (s : Octets) : bracketed (spaces s) = bracketed s := by
  unfold bracketed
  rw [spaces_spaces]

theorem encode_nameAddress (a : NameAddress) (rest : Octets) :
    encode a.text ++ rest =
      encode (nameText a.displayName) ++
        ascii '<' :: (encode a.uri.text ++ ascii '>' :: rest) := by
  have hopen : encode "<" = [ascii '<'] := by decide
  have hclose : encode ">" = [ascii '>'] := by decide
  rw [NameAddress.text, encode_append, encode_append, encode_append, hopen, hclose]
  simp

/-- A name-address is read back, up to the spaces behind it. -/
theorem bracketed_text (h : a.IsLegible) (rest : Octets) :
    bracketed (encode a.text ++ rest) =
      some ((settledName a.displayName, encode a.uri.text), spaces rest) := by
  have hopen : openAngle (ascii '<' :: (encode a.uri.text ++ ascii '>' :: rest)) =
      some (encode a.uri.text ++ ascii '>' :: rest) := by
    unfold openAngle
    rw [spaces_of_stops (stops_cons.2 (by decide))]
    exact octet_eq_some.2 rfl
  have hrun : run (fun b => b != ascii '>') (encode a.uri.text ++ ascii '>' :: rest) =
      (encode a.uri.text, ascii '>' :: rest) := by
    refine run_eq_iff.2 ⟨rfl, ?_, stops_cons.2 (by decide)⟩
    intro b hb
    exact bne_iff_ne.2 (h.angle b hb)
  have hread : toCloseAngle (encode a.uri.text ++ ascii '>' :: rest) =
      some (encode a.uri.text, ascii '>' :: rest) := by
    unfold toCloseAngle
    rw [hrun]
    rfl
  have hclose : closeAngle (ascii '>' :: rest) = some (spaces rest) := by
    unfold closeAngle
    rw [octet_eq_some.2 rfl]
    rfl
  unfold bracketed
  rw [encode_nameAddress, displayName_nameText]
  simp only [hopen, hread, hclose]
  rfl

/-- The steps by which a name-address is read. -/
theorem bracketed_eq_some {name : Option String} {uri : Octets}
    (h : bracketed s = some ((name, uri), rest)) :
    ∃ s₁ s₂ s₃, optional displayName (spaces s) = (name, s₁) ∧
      spaces s₁ = ascii '<' :: s₂ ∧ s₂ = uri ++ ascii '>' :: s₃ ∧
        (∀ b ∈ uri, b ≠ ascii '>') ∧ rest = spaces s₃ := by
  unfold bracketed at h
  simp only at h
  split at h
  · rename_i s₂ hopen
    split at h
    · rename_i uri' s₃ hread
      obtain ⟨s₄, hclose, heq⟩ := Option.map_eq_some_iff.1 h
      cases heq
      obtain ⟨s₅, hoctet, rfl⟩ := Option.map_eq_some_iff.1 hclose
      rw [octet_eq_some.1 hoctet] at hread
      unfold toCloseAngle at hread
      simp only at hread
      split at hread
      · cases hread
      · obtain ⟨heq, hrun, -⟩ := run_eq_iff.1 (Option.some.inj hread)
        refine ⟨_, s₂, s₅, rfl, octet_eq_some.1 hopen, heq, ?_, rfl⟩
        intro b hb
        exact bne_iff_ne.1 (hrun b hb)
    · cases h
  · cases h

theorem length_le_of_displayName {name : String} (h : displayName s = some (name, rest)) :
    rest.length ≤ s.length := by
  unfold displayName at h
  split at h
  · rename_i s' hq
    cases h
    unfold quotedText at hq
    split at hq
    · obtain ⟨r, hr, heq⟩ := Option.map_eq_some_iff.1 hq
      cases heq
      obtain ⟨w, rfl, -, -⟩ := piecesToQuote_spec hr
      have hlen := length_spaces_le r.2
      simp only [List.length_cons, List.length_append]
      omega
    · cases hq
  · split at h
    · rename_i hrun
      cases h
      unfold tokenRun at hrun
      split at hrun
      · split at hrun
        · rw [(run_eq_iff.1 (Option.some.inj hrun)).1, List.length_append]
          omega
        · cases hrun
      · cases hrun
    · cases h

theorem length_le_of_bracketed {parts : Option String × Octets}
    (h : bracketed s = some (parts, rest)) : rest.length ≤ s.length := by
  obtain ⟨s₁, s₂, s₃, hname, hopen, rfl, -, rfl⟩ := bracketed_eq_some h
  have hs₁ : s₁.length ≤ (spaces s).length := by
    rcases optional_eq_iff.1 hname with ⟨n, -, hn⟩ | ⟨-, -, rfl⟩
    · exact length_le_of_displayName hn
    · exact Nat.le_refl _
  have hs := length_spaces_le s
  have hopenLen := length_spaces_le s₁
  have hrest := length_spaces_le s₃
  rw [hopen] at hopenLen
  simp only [List.length_cons, List.length_append] at hopenLen
  omega

end Lexeme

namespace NameAddress

theorem ofParts_eq_ok {parts : Option String × Octets} :
    ofParts parts = .ok a ↔ a.displayName = parts.1 ∧ Uri.parse (decode parts.2) = .ok a.uri := by
  unfold ofParts
  constructor
  · intro h
    obtain ⟨u, hu, heq⟩ := Outcome.bind_eq_ok.1 h
    cases heq
    exact ⟨rfl, hu⟩
  · rintro ⟨hname, huri⟩
    rw [huri, ← hname]
    rfl

/-- What is read back makes the name-address that was written, with its display name settled. -/
theorem ofParts_text (h : a.IsLegible) :
    ofParts (settledName a.displayName, encode a.uri.text) = .ok a.settled := by
  refine ofParts_eq_ok.2 ⟨rfl, ?_⟩
  show Uri.parse (decode (encode a.uri.text)) = .ok a.uri
  rw [decode_encode]
  exact Uri.parse_text h.uri

/-- What is known of a name-address that was read of these octets. -/
structure IsReadOf (a : NameAddress) (w : Octets) : Prop where
  text : IsText w
  legible : a.IsLegible
  line : (∀ b ∈ w, Line.isInside b = true) → ∀ n ∈ a.displayName, Text.IsLine n

theorem IsReadOf.isWritable (h : a.IsReadOf w) (hl : ∀ b ∈ w, Line.isInside b = true) :
    a.IsWritable :=
  ⟨h.legible.uri, h.legible.angle, h.line hl⟩

theorem isLegible_of_ofParts {name : Option String} {uri : Octets} (huri : IsText uri)
    (hangle : ∀ b ∈ uri, b ≠ ascii '>') (h : ofParts (name, uri) = .ok a) : a.IsLegible := by
  obtain ⟨-, hu⟩ := ofParts_eq_ok.1 h
  obtain ⟨hw, hoctets⟩ := Uri.spec_of_parse hu
  have halnum : ∀ b, isAlnum b = true → b ≠ ascii '>' := ne_ascii_of (by decide)
  refine ⟨hw, fun b hb => ?_⟩
  rcases hoctets b hb with hb | hb
  · rw [huri] at hb
    exact hangle b hb
  · exact halnum b hb

/-- A name-address is cut off a text, and what is read of that part makes a legible one. -/
theorem makes_bracketed : Makes bracketed ofParts IsReadOf := by
  rintro s ⟨name, uri⟩ rest hs h
  obtain ⟨s₁, s₂, s₃, hname, hopen, rfl, hangle, rfl⟩ := bracketed_eq_some h
  clear h
  obtain ⟨front, hfront, hsplit⟩ := exists_spaces s
  rw [hsplit] at hs ⊢
  obtain ⟨v, hv, hvtext, hs₁, hline⟩ :=
    isLine_of_optional_displayName (hfront.isText_behind hs) hname
  obtain ⟨gap, hgap, hsplit₁⟩ := exists_spaces s₁
  rw [hv, hsplit₁, hopen]
  rw [hsplit₁, hopen] at hs₁
  obtain ⟨huri, hclose⟩ := ((hgap.isText_behind hs₁).tail (by decide)).cut
    (.inr fun b hb => by cases hb; decide)
  obtain ⟨behind, hbehind, hsplit₃⟩ := exists_spaces s₃
  generalize spaces s₃ = rest at hsplit₃ ⊢
  subst hsplit₃
  have hbracket : IsText (ascii '<' :: (uri ++ ascii '>' :: behind)) := by
    have hmark : ∀ c : Char, (ascii c).toNat < 0x80 → IsText [ascii c] :=
      fun c hc => isText_of_ascii (by simpa using hc)
    exact (hmark '<' (by decide)).append (huri.append
      ((hmark '>' (by decide)).append hbehind.isText))
  refine ⟨front ++ (v ++ (gap ++ ascii '<' :: (uri ++ ascii '>' :: behind))), by simp,
    hbehind.isText_behind (hclose.tail (by decide)), fun a ha => ?_⟩
  refine ⟨hfront.isText.append (hvtext.append (hgap.isText.append hbracket)),
    isLegible_of_ofParts huri hangle ha, fun hl => ?_⟩
  rw [(ofParts_eq_ok.1 ha).1]
  exact hline fun b hb => hl b (by simp [hb])

end NameAddress

end SipProxy
