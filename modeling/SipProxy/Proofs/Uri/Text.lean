import SipProxy.Proofs.Uri.Sip

/-!
# URIs that are written and read again

A URI that was read is written as text that is read as the same URI (`Uri.parse_text`,
`Uri.spec_of_parse`). The text that was read spells the same parts in the same order, with its
scheme and its port perhaps in other letters and digits (`Uri.SpelledBy`); a URI that is no SIP URI
is written exactly as it was read.
-/

namespace SipProxy

open Lexeme Reader Utf8

/-! ## URIs of any scheme -/

/-- A URI of another scheme that is read as it is written. -/
structure AbsoluteUri.IsWritable (u : AbsoluteUri) : Prop where
  scheme : IsScheme u.scheme
  not_sip : Text.sameIgnoringCase u.scheme "sip" = false
  not_sips : Text.sameIgnoringCase u.scheme "sips" = false
  opaque_ne : u.opaquePart ≠ ""
  opaque_blank : ∀ b ∈ encode u.opaquePart, isAsciiBlank b = false
  ends : Text.trimEnd u.text = u.text

namespace AbsoluteUri

theorem encode_text (u : AbsoluteUri) :
    encode u.text = encode u.scheme ++ ascii ':' :: encode u.opaquePart :=
  encode_append_mark (by decide) _ _

end AbsoluteUri

namespace Uri

variable {u : Uri} {t : String}

/-- A URI that is read as it is written. -/
def IsWritable : Uri → Prop
  | sip u => u.IsWritable
  | absolute u => u.IsWritable

/-- A URI begins with its scheme and a colon. -/
theorem IsWritable.exists_scheme (h : u.IsWritable) :
    ∃ scheme rest, IsScheme scheme ∧ encode u.text = encode scheme ++ ascii ':' :: rest := by
  cases u with
  | sip u => exact ⟨_, _, u.scheme.isScheme_text, u.encode_text⟩
  | absolute u => exact ⟨_, _, AbsoluteUri.IsWritable.scheme h, u.encode_text⟩

theorem IsWritable.ends (h : u.IsWritable) : Text.trimEnd u.text = u.text := by
  cases u with
  | sip u => exact SipUri.IsWritable.ends h
  | absolute u => exact AbsoluteUri.IsWritable.ends h

theorem IsWritable.isLine (h : u.IsWritable) : Text.IsLine u.text := by
  rw [Text.isLine_iff]
  cases u with
  | sip u =>
    have hclass : ∀ b, isBreak b = false → Line.isInside b = true := by
      intro b hb
      exact isInside_of (p := fun b => !isBreak b) (by decide) b (by simp [hb])
    intro b hb
    exact hclass b (SipUri.IsWritable.isBreak_eq_false h b hb)
  | absolute u =>
    have hscheme : ∀ b, isSchemeOctet b = true → Line.isInside b = true := isInside_of (by decide)
    have hblank : ∀ b, isAsciiBlank b = false → Line.isInside b = true := by
      intro b hb
      exact isInside_of (p := fun b => !isAsciiBlank b) (by decide) b (by simp [hb])
    intro b hb
    rw [show (Uri.absolute u).text = u.text from rfl, u.encode_text] at hb
    rcases List.mem_append.1 hb with hb | hb
    · exact hscheme b ((AbsoluteUri.IsWritable.scheme h).1.2 b hb)
    · rcases List.mem_cons.1 hb with rfl | hb
      · decide
      · exact hblank b (AbsoluteUri.IsWritable.opaque_blank h b hb)

theorem IsWritable.exists_head (h : u.IsWritable) :
    ∃ b s, encode u.text = b :: s ∧ isAlpha b = true := by
  obtain ⟨scheme, rest, hscheme, htext⟩ := h.exists_scheme
  obtain ⟨b, w, hw⟩ := List.exists_cons_of_ne_nil (encode_ne_nil hscheme.1.1)
  refine ⟨b, w ++ ascii ':' :: rest, by rw [htext, hw, List.cons_append], ?_⟩
  exact hscheme.2 b (by rw [hw]; rfl)

theorem IsWritable.trim_text (h : u.IsWritable) : Text.trim u.text = u.text := by
  obtain ⟨b, s, hs, hb⟩ := h.exists_head
  exact Text.trim_eq_self (head_of_isInk (by rw [hs]; rfl) (isInk_of_isAlpha b hb)) h.ends

/-! ### Reading by scheme -/

end Uri

theorem AbsoluteUri.parse_eq_ok {t : String} {u : AbsoluteUri} :
    AbsoluteUri.parse t = .ok u ↔
      ∃ rest, Uri.cutScheme (Text.trim t) = .ok (u.scheme, rest) ∧ rest ≠ [] ∧
        (∀ b ∈ rest, isAsciiBlank b = false) ∧ u.opaquePart = decode rest := by
  unfold AbsoluteUri.parse
  simp only
  constructor
  · intro h
    obtain ⟨⟨scheme, rest⟩, hcut, h⟩ := Outcome.bind_eq_ok.1 h
    simp only at h
    split at h
    · cases h
    · rename_i hblank
      cases h
      rw [Bool.or_eq_true, not_or, List.isEmpty_iff, List.any_eq_true, not_exists] at hblank
      refine ⟨rest, hcut, hblank.1, fun b hb => ?_, rfl⟩
      rw [← Bool.not_eq_true]
      exact fun hb' => hblank.2 b ⟨hb, hb'⟩
  · rintro ⟨rest, hcut, hne, hblank, hbehind⟩
    refine Outcome.bind_eq_ok.2 ⟨_, hcut, ?_⟩
    have hgood : ¬ (rest.isEmpty || rest.any isAsciiBlank) = true := by
      rw [Bool.or_eq_true, not_or, List.isEmpty_iff, List.any_eq_true, not_exists]
      refine ⟨hne, ?_⟩
      rintro b ⟨hb, hb'⟩
      rw [hblank b hb] at hb'
      cases hb'
    simp only
    rw [if_neg hgood, ← hbehind]
    rfl

namespace Uri

variable {u : Uri} {t : String}

/-- The scheme decides how the rest is read. -/
theorem parse_eq_ok :
    Uri.parse t = .ok u ↔
      ∃ scheme rest, cutScheme (Text.trim t) = .ok (scheme, rest) ∧
        if Text.sameIgnoringCase scheme "sip" = true then
          ∃ v, SipUri.parseBody .sip (Text.trim t) rest = .ok v ∧ u = .sip v
        else if Text.sameIgnoringCase scheme "sips" = true then
          ∃ v, SipUri.parseBody .sips (Text.trim t) rest = .ok v ∧ u = .sip v
        else ∃ v, AbsoluteUri.parse (Text.trim t) = .ok v ∧ u = .absolute v := by
  have hreturn : ∀ {α : Type} {x : Except SipError α} {f : α → Uri},
      (do return f (← x)) = Except.ok u ↔ ∃ v, x = .ok v ∧ u = f v := by
    intro α x f
    rw [Outcome.bind_eq_ok]
    constructor
    · rintro ⟨v, hv, h⟩
      cases h
      exact ⟨v, hv, rfl⟩
    · rintro ⟨v, hv, rfl⟩
      exact ⟨v, hv, rfl⟩
  unfold Uri.parse
  simp only
  rw [Outcome.bind_eq_ok, Prod.exists]
  refine exists_congr fun scheme => exists_congr fun rest => and_congr_right' ?_
  by_cases hsip : Text.sameIgnoringCase scheme "sip" = true
  · simp only [if_pos hsip]
    exact hreturn
  · by_cases hsips : Text.sameIgnoringCase scheme "sips" = true
    · simp only [if_neg hsip, if_pos hsips]
      exact hreturn
    · simp only [if_neg hsip, if_neg hsips]
      exact hreturn

/-- A URI is read back from its text. -/
theorem parse_text (h : u.IsWritable) : Uri.parse u.text = .ok u := by
  have htrim := h.trim_text
  rw [parse_eq_ok, htrim]
  cases u with
  | sip u =>
    have hread := SipUri.parseBody_text h u.text
    refine ⟨u.scheme.text, encode u.bodyText,
      cutScheme_eq_ok.2 ⟨u.scheme.isScheme_text, u.encode_text⟩, ?_⟩
    cases hs : u.scheme with
    | sip =>
      have hsip : Text.sameIgnoringCase (Scheme.text .sip) "sip" = true := by decide +kernel
      rw [hs] at hread
      rw [if_pos hsip]
      exact ⟨u, hread, rfl⟩
    | sips =>
      have hsip : ¬ Text.sameIgnoringCase (Scheme.text .sips) "sip" = true := by decide +kernel
      have hsips : Text.sameIgnoringCase (Scheme.text .sips) "sips" = true := by decide +kernel
      rw [hs] at hread
      rw [if_neg hsip, if_pos hsips]
      exact ⟨u, hread, rfl⟩
  | absolute u =>
    have hu : u.IsWritable := h
    have htrim' : Text.trim u.text = u.text := htrim
    have hcut : cutScheme u.text = .ok (u.scheme, encode u.opaquePart) :=
      cutScheme_eq_ok.2 ⟨hu.scheme, u.encode_text⟩
    refine ⟨u.scheme, encode u.opaquePart, hcut, ?_⟩
    rw [if_neg (by rw [hu.not_sip]; exact Bool.false_ne_true),
      if_neg (by rw [hu.not_sips]; exact Bool.false_ne_true)]
    refine ⟨u, AbsoluteUri.parse_eq_ok.2 ⟨encode u.opaquePart, ?_, encode_ne_nil hu.opaque_ne,
      hu.opaque_blank, (decode_encode _).symm⟩, rfl⟩
    show cutScheme (Text.trim u.text) = _
    rw [htrim', hcut]

theorem mem_encode_trim {b : UInt8} (h : b ∈ encode (Text.trim t)) : b ∈ encode t := by
  obtain ⟨c, hc, hb⟩ := mem_encode.1 h
  exact mem_encode.2 ⟨c, Text.mem_of_mem_trim hc, hb⟩

theorem isText_of_cutScheme {scheme : String} {rest : Octets}
    (h : cutScheme t = .ok (scheme, rest)) : IsText rest := by
  have htext := isText_encode t
  rw [(cutScheme_eq_ok.1 h).2, List.append_cons] at htext
  exact (htext.cut_of_getLast List.getLast?_concat (by decide)).2

end Uri

/-- What is read as a URI of another scheme is written exactly as it was read. -/
theorem AbsoluteUri.spec_of_parse {t : String} {u : AbsoluteUri}
    (h : AbsoluteUri.parse t = .ok u) :
    IsScheme u.scheme ∧ u.opaquePart ≠ "" ∧ (∀ b ∈ encode u.opaquePart, isAsciiBlank b = false) ∧
      u.text = Text.trim t := by
  obtain ⟨rest, hcut, hne, hblank, hbehind⟩ := AbsoluteUri.parse_eq_ok.1 h
  obtain ⟨hscheme, htext⟩ := Uri.cutScheme_eq_ok.1 hcut
  have hencode : encode u.opaquePart = rest := by
    rw [hbehind]
    exact Uri.isText_of_cutScheme hcut
  refine ⟨hscheme, ?_, ?_, ?_⟩
  · intro hempty
    rw [hempty] at hencode
    exact hne hencode.symm
  · rw [hencode]
    exact hblank
  · rw [← decode_encode u.text, u.encode_text, hencode, ← htext, decode_encode]

/-- What is read as a SIP URI can be written, and the text that is written has no octets that were
not read but letters and digits. -/
theorem SipUri.spec_of_parseBody {t scheme : String} {rest : Octets} {x : Scheme} {u : SipUri}
    (hcut : Uri.cutScheme (Text.trim t) = .ok (scheme, rest))
    (h : parseBody x (Text.trim t) rest = .ok u) :
    u.IsWritable ∧ ∀ b ∈ encode u.text, b ∈ encode t ∨ isAlnum b = true := by
  have htext := (Uri.cutScheme_eq_ok.1 hcut).2
  have hfront : encode (Text.trim t) = encode (scheme ++ ":") ++ rest := by
    rw [htext, encode_append, List.append_cons]
    rfl
  have hmem : ∀ b, b ∈ rest ∨ b = ascii ':' → b ∈ encode t := by
    intro b hb
    apply Uri.mem_encode_trim
    rw [htext, List.mem_append, List.mem_cons]
    exact .inr hb.symm
  obtain ⟨hwritable, hoctets⟩ :=
    isWritable_of_parseBody hfront (Uri.isText_of_cutScheme hcut) (Text.trimEnd_trim t) h
  refine ⟨hwritable, fun b hb => ?_⟩
  rcases hoctets b hb with hb | hb | hb
  · exact .inl (hmem b (.inl hb))
  · exact .inr hb
  · exact .inl (hmem b (.inr hb))

/-- What is read as a URI can be written, and the text that is written has no octets that were not
read but letters and digits. -/
theorem Uri.spec_of_parse {t : String} {u : Uri} (h : Uri.parse t = .ok u) :
    u.IsWritable ∧ ∀ b ∈ encode u.text, b ∈ encode t ∨ isAlnum b = true := by
  obtain ⟨scheme, rest, hcut, hread⟩ := parse_eq_ok.1 h
  split at hread
  · obtain ⟨v, hv, rfl⟩ := hread
    exact SipUri.spec_of_parseBody hcut hv
  · rename_i hnotSip
    split at hread
    · obtain ⟨v, hv, rfl⟩ := hread
      exact SipUri.spec_of_parseBody hcut hv
    · rename_i hnotSips
      obtain ⟨v, hv, rfl⟩ := hread
      obtain ⟨hscheme, hne, hblank, htext⟩ := AbsoluteUri.spec_of_parse hv
      have hsame : v.scheme = scheme := by
        obtain ⟨rest', hcut', -⟩ := AbsoluteUri.parse_eq_ok.1 hv
        rw [Text.trim_trim, hcut] at hcut'
        cases hcut'
        rfl
      rw [Text.trim_trim] at htext
      refine ⟨⟨hscheme, ?_, ?_, hne, hblank, ?_⟩, ?_⟩
      · rw [hsame]
        simpa using hnotSip
      · rw [hsame]
        simpa using hnotSips
      · rw [htext]
        exact Text.trimEnd_trim t
      · intro b hb
        have hb : b ∈ encode v.text := hb
        rw [htext] at hb
        exact .inl (mem_encode_trim hb)

/-! ## What a text says -/

/-- The texts that spell a URI. The letters of a SIP scheme may be of either case and its port may
be written in other digits; all else stands there as the URI is written. -/
inductive Uri.SpelledBy : Uri → String → Prop
  | sip {u : SipUri} {scheme port : String}
      (hscheme : Text.sameIgnoringCase scheme u.scheme.text = true)
      (hport : IsPortText u.port port) :
      SpelledBy (.sip u) (scheme ++ ":" ++ (u.userText ++ u.host ++ port ++ u.params.text ++
        SipUri.headersText u.headers))
  | absolute (u : AbsoluteUri) : SpelledBy (.absolute u) u.text

theorem SipUri.spelledBy_of_parseBody {t scheme : String} {rest : Octets} {x : Scheme} {u : SipUri}
    (hcut : Uri.cutScheme (Text.trim t) = .ok (scheme, rest))
    (hscheme : Text.sameIgnoringCase scheme x.text = true)
    (h : parseBody x (Text.trim t) rest = .ok u) : (Uri.sip u).SpelledBy (Text.trim t) := by
  obtain ⟨rfl, port, hport, hbody⟩ := exists_port_of_parseBody (Uri.isText_of_cutScheme hcut) h
  have hcolon : encode ":" = [ascii ':'] := by decide
  have htext := (Uri.cutScheme_eq_ok.1 hcut).2
  rw [hbody, ← encode_append_mark hcolon] at htext
  have hsplit := congrArg decode htext
  rw [decode_encode, decode_encode] at hsplit
  rw [hsplit]
  exact .sip hscheme hport

/-- A text that is read as a URI spells it. -/
theorem Uri.spelledBy_of_parse {t : String} {u : Uri} (h : Uri.parse t = .ok u) :
    u.SpelledBy (Text.trim t) := by
  obtain ⟨scheme, rest, hcut, hread⟩ := parse_eq_ok.1 h
  split at hread
  · rename_i hsip
    obtain ⟨v, hv, rfl⟩ := hread
    exact @SipUri.spelledBy_of_parseBody t scheme rest .sip v hcut hsip hv
  · split at hread
    · rename_i hsips
      obtain ⟨v, hv, rfl⟩ := hread
      exact @SipUri.spelledBy_of_parseBody t scheme rest .sips v hcut hsips hv
    · obtain ⟨v, hv, rfl⟩ := hread
      obtain ⟨-, -, -, htext⟩ := AbsoluteUri.spec_of_parse hv
      rw [← Text.trim_trim, ← htext]
      exact .absolute v

/-- Nothing of a URI is lost between texts and values: a text that is read as a URI spells each part
of it, and the text that is written of the URI is read as the same URI. -/
theorem Uri.spelledBy_and_parse_text {t : String} {u : Uri} (h : Uri.parse t = .ok u) :
    u.SpelledBy (Text.trim t) ∧ Uri.parse u.text = .ok u :=
  ⟨spelledBy_of_parse h, parse_text (spec_of_parse h).1⟩

/-- An empty password, a port with zeros in front, a flag, an empty value, and at signs in a
parameter and a header. -/
theorem Uri.spelledBy_and_parse_text_of_marks :
    let t := " sip:a:@[::1]:0050;x=c@d;lr?y=&z=e=f@g"
    let u : Uri := .sip ⟨.sip, some "a", some "", "[::1]", 50, [.of "x" "c@d", .flag "lr"],
      [.of "y" "", .of "z" "e=f@g"]⟩
    u.SpelledBy (Text.trim t) ∧ Uri.parse u.text = .ok u := by
  intro t u
  have hread : Uri.parse t = .ok u := by decide +kernel
  exact spelledBy_and_parse_text hread

end SipProxy
