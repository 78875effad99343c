import SipProxy.Proofs.Grammar.Entries
import SipProxy.Proofs.Uri.Spelling
import SipProxy.Value.Via

/-!
# The grammar of a Via line

A Via entry is three tokens with slashes between them, a gap, a host, a port if one is named, and
parameters. Spaces may stand around every separator and in front of the colon of a port
(`ViaEntry.SpelledBy`). A Via value is accepted exactly if it spells entries with commas between
them, and what is read are the entries that it spells (`Via.parse_eq_ok_iff`). The text a list is
written as is one of its spellings, so every field of an entry comes back as it was
(`Via.parse_text`), and so does all that was read.

A line that was read can be written (`Via.isWritable_of_parse`), and so can what is left of it
without its first entry.
-/

namespace SipProxy

open Lexeme Reader Utf8

variable {t : String} {v : ViaEntry} {vs : List ViaEntry} {s w rest : Octets}

/-! ## One entry -/

/-- A Via entry that is read as it is written. -/
structure ViaEntry.IsLegible (v : ViaEntry) : Prop where
  name : IsRun isTokenOctet v.protocolName
  version : IsRun isTokenOctet v.protocolVersion
  transport : IsRun isTokenOctet v.transport
  host : IsHost v.host
  params : ∀ p ∈ v.params, p.IsLegible

/-- A Via entry that can be written into a header: it is legible and has no line break. -/
structure ViaEntry.IsWritable (v : ViaEntry) : Prop where
  name : IsRun isTokenOctet v.protocolName
  version : IsRun isTokenOctet v.protocolVersion
  transport : IsRun isTokenOctet v.transport
  host : IsHost v.host
  params : ∀ p ∈ v.params, p.IsWritable

namespace ViaEntry

/-- The spellings of the port of an entry: nothing, or digits behind a colon with any spaces in
front of it. -/
inductive PortSpelledBy : UInt16 → Octets → Prop
  | unnamed : PortSpelledBy 0 []
  | named {n : UInt16} {front : Octets} {digits : String} (hfront : IsSpaces front)
      (hdigits : IsNumeral n digits) : PortSpelledBy n (front ++ ascii ':' :: encode digits)

/-- The spellings of an entry. The gap in front of the host is the only place where spaces have to
stand. -/
inductive SpelledBy : ViaEntry → Octets → Prop
  | intro {v : ViaEntry} {slash slash' gap port params : Octets}
      (hname : IsRun isTokenOctet v.protocolName) (hslash : IsSpaced '/' slash)
      (hversion : IsRun isTokenOctet v.protocolVersion) (hslash' : IsSpaced '/' slash')
      (htransport : IsRun isTokenOctet v.transport) (hgap : IsSpaces gap) (hne : gap ≠ [])
      (hhost : IsHost v.host) (hport : PortSpelledBy v.port port)
      (hparams : Params.SpelledBy v.params params) :
      SpelledBy v (encode v.protocolName ++ slash ++ encode v.protocolVersion ++ slash' ++
        encode v.transport ++ gap ++ encode v.host ++ port ++ params)

theorem IsWritable.isLegible (h : v.IsWritable) : v.IsLegible :=
  ⟨h.name, h.version, h.transport, h.host, fun p hp => (h.params p hp).isLegible⟩

theorem IsWritable.isLine (h : v.IsWritable) : Text.IsLine v.text := by
  have hslash : Text.IsLine "/" := by decide
  have hhost : Text.IsLine v.host :=
    Text.isLine_iff.2 (h.host.forall_octets (isInside_of (by decide)))
  have hport : Text.IsLine (SipUri.portText v.port) := by
    unfold SipUri.portText
    split
    · decide
    · exact Text.IsLine.append (by decide) .of_digits
  have htoken : ∀ {t}, IsRun isTokenOctet t → Text.IsLine t :=
    fun ht => ht.isLine isInside_of_isTokenOctet
  unfold text
  exact (((((((htoken h.name).append hslash).append (htoken h.version)).append hslash).append
    (htoken h.transport)).append .space).append hhost |>.append hport).append
      (Params.isLine_text h.params)

theorem encode_text (v : ViaEntry) :
    encode v.text = encode v.protocolName ++ [ascii '/'] ++ encode v.protocolVersion ++
      [ascii '/'] ++ encode v.transport ++ [0x20] ++ encode v.host ++
        encode (SipUri.portText v.port) ++ encode v.params.text := by
  have hslash : encode "/" = [ascii '/'] := by decide
  have hspace : encode " " = [0x20] := by decide
  unfold text
  simp only [encode_append, hslash, hspace]

/-- What a port is written as is a spelling of it. -/
theorem portSpelledBy_text (n : UInt16) : PortSpelledBy n (encode (SipUri.portText n)) := by
  rw [encode_portText]
  unfold portOctets
  split
  · rename_i h
    rw [h]
    exact .unnamed
  · exact .named isSpaces_nil (isNumeral_toString n)

/-- What an entry is written as is a spelling of it. -/
theorem IsLegible.spelledBy_text (h : v.IsLegible) : v.SpelledBy (encode v.text) := by
  rw [v.encode_text]
  exact .intro h.name (isSpaced_bare '/') h.version (isSpaced_bare '/') h.transport
    (List.all_eq_true.1 rfl) (List.cons_ne_nil _ _) h.host (portSpelledBy_text v.port)
    (Params.spelledBy_text h.params)

/-- An entry ends with its parameters, or with its host and port. -/
theorem IsLegible.trimEnd (h : v.IsLegible)
    (hends : v.params ≠ [] → Text.trimEnd v.params.text = v.params.text) :
    Text.trimEnd v.text = v.text :=
  Params.trimEnd_append (trimEnd_hostPort _ h.host v.port) hends

theorem IsLegible.text_ne_empty (h : v.IsLegible) : v.text ≠ "" := by
  intro hempty
  have hnil := v.encode_text
  rw [hempty] at hnil
  simp only [List.append_assoc] at hnil
  exact encode_ne_nil h.name.1 (List.append_eq_nil_iff.1 hnil.symm).1

theorem PortSpelledBy.isText {n : UInt16} (h : PortSpelledBy n w) : IsText w := by
  cases h with
  | unnamed => exact isText_nil
  | @named n front digits hfront _ =>
    have hcolon : IsText [ascii ':'] := (isSpaced_bare ':').isText (by decide)
    exact hfront.isText.append (hcolon.append (isText_encode digits))

namespace SpelledBy

theorem isLegible (h : v.SpelledBy w) : v.IsLegible := by
  cases h with
  | intro hname _ hversion _ htransport _ _ hhost _ hparams =>
    exact ⟨hname, hversion, htransport, hhost, hparams.isLegible⟩

/-- An entry ends with its parameters. -/
theorem exists_params (h : v.SpelledBy w) :
    ∃ front params, w = front ++ params ∧ IsText front ∧ Params.SpelledBy v.params params := by
  cases h with
  | intro _ hslash _ hslash' _ hgap _ _ hport hparams =>
    exact ⟨_, _, rfl, ((((((((isText_encode _).append (hslash.isText (by decide))).append
      (isText_encode _)).append (hslash'.isText (by decide))).append (isText_encode _)).append
        hgap.isText).append (isText_encode _)).append hport.isText), hparams⟩

theorem isText (h : v.SpelledBy w) : IsText w := by
  obtain ⟨front, params, rfl, hfront, hparams⟩ := h.exists_params
  exact hfront.append hparams.isText

/-- An entry without line breaks can be written. -/
theorem isWritable (h : v.SpelledBy w) (hl : ∀ b ∈ w, Line.isInside b = true) :
    v.IsWritable := by
  have hv := h.isLegible
  obtain ⟨front, params, rfl, -, hparams⟩ := h.exists_params
  exact ⟨hv.name, hv.version, hv.transport, hv.host,
    hparams.isWritable fun b hb => hl b (List.mem_append_right front hb)⟩

/-- An entry ends as its spelling does. -/
theorem trimEnd (h : v.SpelledBy w) (hends : Text.trimEnd (decode w) = decode w) :
    Text.trimEnd v.text = v.text := by
  have hv := h.isLegible
  obtain ⟨front, params, rfl, hfront, hparams⟩ := h.exists_params
  exact hv.trimEnd fun hne =>
    hparams.trimEnd hne (trimEnd_decode_of_append hfront hparams.isText hends)

end SpelledBy

end ViaEntry

/-! ### Reading an entry -/

namespace Lexeme

theorem sentProtocol_eq_some {name version transport : Octets} :
    sentProtocol s = some ((name, version, transport), rest) ↔
      ∃ s₁ s₂, token s = some (name, s₁) ∧ after slash token s₁ = some (version, s₂) ∧
        after slash token s₂ = some (transport, rest) := by
  unfold sentProtocol
  cases token s with
  | none => simp
  | some r =>
    obtain ⟨name', s₁⟩ := r
    simp only
    cases hversion : after slash token s₁ with
    | none =>
      simp only [reduceCtorEq, false_iff, not_exists, not_and]
      rintro s₁' s₂ heq hsome
      cases heq
      rw [hversion] at hsome
      cases hsome
    | some r =>
      obtain ⟨version', s₂⟩ := r
      simp only [Option.map_eq_some_iff]
      constructor
      · rintro ⟨r, hr, heq⟩
        cases heq
        exact ⟨s₁, s₂, rfl, hversion, hr⟩
      · rintro ⟨s₁', s₂', heq, hversion', htransport⟩
        cases heq
        rw [hversion] at hversion'
        cases hversion'
        exact ⟨_, htransport, rfl⟩

theorem viaEntry_eq_some {parts : ViaParts} :
    viaEntry s = some (parts, rest) ↔
      ∃ s₁ s₂ s₃, sentProtocol s = some ((parts.name, parts.version, parts.transport), s₁) ∧
        after spaces1 host s₁ = some (parts.host, s₂) ∧
          optional spacedPort s₂ = (parts.port, s₃) ∧ params s₃ = (parts.params, rest) := by
  unfold viaEntry
  cases sentProtocol s with
  | none => simp
  | some r =>
    obtain ⟨⟨name, version, transport⟩, s₁⟩ := r
    simp only
    cases hhost : after spaces1 host s₁ with
    | none =>
      simp only [reduceCtorEq, false_iff, not_exists, not_and]
      rintro s₁' s₂ s₃ heq hsome
      cases heq
      rw [hhost] at hsome
      cases hsome
    | some r =>
      obtain ⟨host', s₂⟩ := r
      constructor
      · intro h
        cases h
        exact ⟨s₁, s₂, _, rfl, hhost, rfl, rfl⟩
      · rintro ⟨s₁', s₂', s₃, heq, hhost', hport, hparams⟩
        cases heq
        rw [hhost] at hhost'
        cases hhost'
        obtain ⟨name, version, transport, host, port, ps⟩ := parts
        simp only at hport hparams
        simp only [hport, hparams]

theorem length_lt_of_host {w : Octets} (h : host s = some (w, rest)) : rest.length < s.length := by
  unfold host at h
  cases href : hostReference s with
  | some r =>
    rw [href] at h
    cases h
    unfold hostReference at href
    split at href
    · split at href
      · rename_i hinside
        cases href
        have hlt := consumes_run1 _ hinside
        simp only [List.length_cons] at hlt ⊢
        omega
      · cases href
    · cases href
  | none =>
    rw [href] at h
    exact consumes_run1 _ h

theorem length_lt_of_slash_token {w : Octets} (h : after slash token s = some (w, rest)) :
    rest.length < s.length := by
  obtain ⟨s', hslash, hread⟩ := after_eq_some.1 h
  have hlt := length_lt_of_separator hslash
  have hlt' := consumes_run1 _ hread
  omega

theorem length_le_of_spacedPort {digits : Option Octets}
    (h : optional spacedPort s = (digits, rest)) : rest.length ≤ s.length := by
  rcases optional_eq_iff.1 h with ⟨w, -, hread⟩ | ⟨-, -, rfl⟩
  · obtain ⟨s', hcolon, hdigits⟩ := after_eq_some.1 hread
    have hlen := length_spaces_le s
    rw [octet_eq_some.1 hcolon, List.length_cons] at hlen
    have hlt := consumes_run1 _ hdigits
    omega
  · exact Nat.le_refl _

theorem consumes_comma_viaEntry : (after comma viaEntry).Consumes := by
  refine consumes_after_separator ',' fun {s parts rest} h => ?_
  obtain ⟨s₁, s₂, s₃, hprotocol, hhost, hport, hparams⟩ := viaEntry_eq_some.1 h
  obtain ⟨t₁, t₂, hname, hversion, htransport⟩ := sentProtocol_eq_some.1 hprotocol
  obtain ⟨s', hspace, hread⟩ := after_eq_some.1 hhost
  obtain ⟨w, hrun⟩ := spaces1_eq_some.1 hspace
  have h₁ := consumes_run1 _ hname
  have h₂ := length_lt_of_slash_token hversion
  have h₃ := length_lt_of_slash_token htransport
  have h₄ := consumes_run1 _ hrun
  have h₅ := length_lt_of_host hread
  have h₆ := length_le_of_spacedPort hport
  have h₇ := length_le_of_params hparams
  omega

/-- A token behind a slash with spaces around it. -/
theorem slash_token {slash : Octets} (hslash : IsSpaced '/' slash) (h : IsRun isTokenOctet t)
    (hr : Stops isTokenOctet rest) :
    after Lexeme.slash token (slash ++ (encode t ++ rest)) = some (encode t, rest) :=
  after_eq_some.2 ⟨encode t ++ rest, (separator_eq_some (by decide)).2
    ⟨slash, hslash, rfl, h.stops isSpace_eq_false_of_isTokenOctet rest⟩, h.run1 hr⟩

theorem exists_slash (hs : IsText s) (h : after slash token s = some (w, rest)) :
    ∃ slash, IsSpaced '/' slash ∧ s = slash ++ w ++ rest ∧ IsText w ∧
      IsRun isTokenOctet (decode w) ∧ IsText rest := by
  obtain ⟨s', hslash, hread⟩ := after_eq_some.1 h
  obtain ⟨slash, hspaced, rfl, -⟩ := (separator_eq_some (by decide)).1 hslash
  obtain ⟨rfl, hw, hrun, -, hrest⟩ :=
    run1_spec (hspaced.isText_behind (by decide) hs) cutsText_isTokenOctet hread
  exact ⟨slash, hspaced, (List.append_assoc ..).symm, hw, hrun, hrest⟩

end Lexeme

namespace ViaEntry

/-- A port may be there or not, so a colon follows, or what follows a port. -/
theorem PortSpelledBy.follows {n : UInt16} (h : PortSpelledBy n w) (hr : Follows [';', ','] rest) :
    Follows [':', ';', ','] (w ++ rest) := by
  cases h with
  | unnamed => exact hr.mono (by simp)
  | @named n front digits hfront _ =>
    rw [Follows, List.append_assoc, List.cons_append, spaces_append hfront,
      spaces_of_stops (stops_cons.2 (by decide))]
    exact ends_cons (by simp) _

/-- Every spelling of a port is read as it, in front of what may follow a port. -/
theorem PortSpelledBy.spacedPort {n : UInt16} (h : PortSpelledBy n w)
    (hr : Follows [';', ','] rest) :
    ∃ digits, optional Lexeme.spacedPort (w ++ rest) = (digits, rest) ∧
      ∀ whole, SipUri.checkPort digits whole = .ok n := by
  cases h with
  | unnamed =>
    refine ⟨none, optional_of_none ?_, fun whole => rfl⟩
    show (octet (ascii ':') (spaces rest)).bind digits = none
    rw [hr.octet_eq_none (by decide)]
    rfl
  | @named n front digits hfront hdigits =>
    obtain ⟨hrun, hword⟩ := isNumeral_iff.1 hdigits
    refine ⟨some (encode digits), optional_of_some ?_, fun whole => ?_⟩
    · refine after_eq_some.2 ⟨encode digits ++ rest, octet_eq_some.2 ?_, ?_⟩
      · rw [List.append_assoc, List.cons_append, spaces_append hfront,
          spaces_of_stops (stops_cons.2 (by decide))]
      · exact hrun.run1 (hr.stops (by decide))
    · refine checkPort_eq_ok.2 (.inr ⟨encode digits, rfl, ?_⟩)
      rwa [decode_encode]

/-- What is read as a port spells it. -/
theorem makes_spacedPort (whole : String) :
    Makes (fun s => some (optional Lexeme.spacedPort s)) (SipUri.checkPort · whole)
      PortSpelledBy := by
  intro s digits rest hs h
  rcases optional_eq_iff.1 (Option.some.inj h) with ⟨w, rfl, hread⟩ | ⟨rfl, -, rfl⟩
  · obtain ⟨s', hcolon, hdigits⟩ := after_eq_some.1 hread
    obtain ⟨front, hfront, hsplit⟩ := exists_spaces s
    rw [octet_eq_some.1 hcolon] at hsplit
    rw [hsplit] at hs ⊢
    obtain ⟨rfl, hw, hrun, -, hrest⟩ :=
      run1_spec ((hfront.isText_behind hs).tail (by decide)) cutsText_isDigit hdigits
    refine ⟨front ++ ascii ':' :: w, by simp, hrest, fun n hn => ?_⟩
    rcases checkPort_eq_ok.1 hn with ⟨hnone, -⟩ | ⟨w', hsome, hword⟩
    · cases hnone
    · cases hsome
      have hspelled := PortSpelledBy.named hfront (isNumeral_iff.2 ⟨hrun, hword⟩)
      rwa [hw] at hspelled
  · refine ⟨[], rfl, hs, fun n hn => ?_⟩
    rcases checkPort_eq_ok.1 hn with ⟨-, rfl⟩ | ⟨w, hsome, -⟩
    · exact .unnamed
    · cases hsome

/-- What the parts of an entry make: the entry of their texts. -/
theorem ofParts_eq_ok {whole : String} {parts : ViaParts} :
    ofParts whole parts = .ok v ↔ ∃ port, SipUri.checkPort parts.port whole = .ok port ∧
      v = ⟨decode parts.name, decode parts.version, decode parts.transport, decode parts.host,
        port, parts.params⟩ := by
  unfold ofParts
  cases SipUri.checkPort parts.port whole with
  | error e => simp
  | ok port => simp [eq_comm]

/-- Every spelling of an entry is read as it, in front of what may follow an entry. -/
theorem SpelledBy.viaEntry (h : v.SpelledBy w) (hr : Follows [','] rest) (whole : String) :
    ∃ parts, Lexeme.viaEntry (w ++ rest) = some (parts, rest) ∧ ofParts whole parts = .ok v := by
  cases h with
  | @intro slash slash' gap port params hname hslash hversion hslash' htransport hgap hne hhost
      hport hparams =>
    have hparamsEnd := hparams.follows hr
    have hportEnd := hport.follows hparamsEnd
    obtain ⟨digits, hread, hcheck⟩ := hport.spacedPort hparamsEnd
    have hhostStops : Stops isSpace (encode v.host ++ (port ++ (params ++ rest))) := by
      obtain ⟨b, w, hw⟩ := List.exists_cons_of_ne_nil (encode_ne_nil hhost.ne_empty)
      rw [hw]
      exact stops_cons.2 (hhost.forall_octets (isSpace_eq_false_of (by decide)) b
        (by rw [hw]; exact List.mem_cons_self))
    have hgapStops : Stops isTokenOctet (gap ++ (encode v.host ++ (port ++ (params ++ rest)))) := by
      obtain ⟨b, w, rfl⟩ := List.exists_cons_of_ne_nil hne
      have hb : b = 0x20 ∨ b = 0x09 := isSpace_iff.1 (hgap b List.mem_cons_self)
      exact stops_cons.2 (by rcases hb with rfl | rfl <;> decide)
    simp only [List.append_assoc]
    refine ⟨⟨encode v.protocolName, encode v.protocolVersion, encode v.transport, encode v.host,
      digits, v.params⟩, ?_, ofParts_eq_ok.2 ⟨v.port, hcheck whole, by simp only [decode_encode]⟩⟩
    refine viaEntry_eq_some.2 ⟨_, _, _, sentProtocol_eq_some.2 ⟨_, _, hname.run1 ?_,
      slash_token hslash hversion ?_, slash_token hslash' htransport hgapStops⟩,
      after_eq_some.2 ⟨_, spaces1_eq_some.2 ⟨gap, run1_append hne hgap hhostStops⟩,
        host_text hhost (hportEnd.stops (by decide))⟩, hread, hparams.params hr⟩
    · exact hslash.stops (by decide) (by decide) _
    · exact hslash'.stops (by decide) (by decide) _

theorem SpelledBy.stops (h : v.SpelledBy w) (rest : Octets) : Stops isSpace (w ++ rest) := by
  cases h with
  | intro hname _ _ _ _ _ _ _ _ _ =>
    simp only [List.append_assoc]
    exact hname.stops isSpace_eq_false_of_isTokenOctet _

/-- What is read as an entry spells it. -/
theorem makes_viaEntry (whole : String) : Makes Lexeme.viaEntry (ofParts whole) SpelledBy := by
  rintro s ⟨name, version, transport, host, port, ps⟩ rest hs h
  obtain ⟨s₁, s₂, s₃, hprotocol, hhost, hport, hparams⟩ := viaEntry_eq_some.1 h
  obtain ⟨t₁, t₂, hname, hversion, htransport⟩ := sentProtocol_eq_some.1 hprotocol
  obtain ⟨s', hspace, hread⟩ := after_eq_some.1 hhost
  obtain ⟨gap, hrun⟩ := spaces1_eq_some.1 hspace
  obtain ⟨rfl, hn, hnameRun, -, ht₁⟩ := run1_spec hs cutsText_isTokenOctet hname
  obtain ⟨slash, hslash, rfl, hv, hversionRun, ht₂⟩ := exists_slash ht₁ hversion
  obtain ⟨slash', hslash', rfl, ht, htransportRun, hs₁⟩ := exists_slash ht₂ htransport
  obtain ⟨rfl, hne, hgap, -⟩ := run1_eq_some.1 hrun
  obtain ⟨rfl, ⟨hh, hhostRun⟩, hs₂⟩ := spells_host (IsSpaces.isText_behind hgap hs₁) hread
  obtain ⟨w, rfl, hs₃, hspelled⟩ := makes_spacedPort whole hs₂ (congrArg some hport)
  obtain ⟨ws, rfl, hps, hrest⟩ := spelledBy_of_params hs₃ hparams
  refine ⟨name ++ slash ++ version ++ slash' ++ transport ++ gap ++ host ++ w ++ ws, by simp,
    hrest, fun v hmake => ?_⟩
  obtain ⟨n, hn', rfl⟩ := ofParts_eq_ok.1 hmake
  have hentry := SpelledBy.intro
    (v := ⟨decode name, decode version, decode transport, decode host, n, ps⟩)
    hnameRun hslash hversionRun hslash' htransportRun hgap hne hhostRun (hspelled n hn') hps
  rwa [hn, hv, ht, hh] at hentry

end ViaEntry

/-! ## The entries of a line -/

namespace Via

/-- The spellings of a Via value: commas with any spaces around them between spellings of its
entries. -/
abbrev SpelledBy (vs : List ViaEntry) (w : Octets) : Prop :=
  Entries.SpelledBy ViaEntry.SpelledBy vs w

/-- Entries that a Via line can list. -/
abbrev IsWritable (vs : List ViaEntry) : Prop :=
  Entries.IsWritable ViaEntry.text ViaEntry.IsWritable vs

theorem parse_eq_ok :
    parse t = .ok vs ↔
      ∃ parts, sepBy1 comma viaEntry (encode (Text.trim t)) = some (parts, []) ∧
        parts.mapM (ViaEntry.ofParts t) = .ok vs := by
  unfold parse
  constructor
  · intro h
    split at h
    · rename_i parts hread
      exact ⟨parts, hread, h⟩
    · cases h
    · cases h
  · rintro ⟨parts, hread, h⟩
    rw [hread]
    exact h

/-- A Via value is accepted if and only if it spells entries, and those are read. -/
theorem parse_eq_ok_iff : parse t = .ok vs ↔ SpelledBy vs (encode (Text.trim t)) := by
  rw [parse_eq_ok]
  constructor
  · rintro ⟨parts, hread, hmap⟩
    obtain ⟨w, hw, hspelled⟩ := (ViaEntry.makes_viaEntry t).spelledBy consumes_comma_viaEntry
      (isText_encode _) hread hmap
    rwa [hw, List.append_nil]
  · intro h
    have hspaces : spaces (encode (Text.trim t)) = encode (Text.trim t) := by
      refine spaces_of_stops ?_
      generalize encode (Text.trim t) = w at h
      cases h with
      | one hv => simpa using hv.stops []
      | more hv _ _ =>
        rw [List.append_assoc]
        exact hv.stops _
    have hentry : ∀ {v w rest}, ViaEntry.SpelledBy v w → Follows [','] rest →
        ∃ parts rest', viaEntry (spaces (w ++ rest)) = some (parts, rest') ∧
          (rest' = rest ∨ rest' = spaces rest) ∧ ViaEntry.ofParts t parts = .ok (id v) := by
      intro v w rest hv hr
      obtain ⟨parts, hread, hmake⟩ := hv.viaEntry hr t
      exact ⟨parts, rest, by rw [spaces_of_stops (hv.stops rest), hread], .inl rfl, hmake⟩
    have hread := h.sepBy1 consumes_comma_viaEntry hentry
    rwa [hspaces, List.map_id] at hread

/-- What a list is written as is a spelling of it. -/
theorem spelledBy_text (hne : vs ≠ []) (h : ∀ v ∈ vs, v.IsLegible) :
    SpelledBy vs (encode (text vs)) :=
  Entries.spelledBy_text hne fun v hv => (h v hv).spelledBy_text

/-- A list begins with a token, so it is trimmed if it is behind. -/
theorem trim_text (hne : vs ≠ []) (h : ∀ v ∈ vs, v.IsLegible)
    (hends : Text.trimEnd (text vs) = text vs) : Text.trim (text vs) = text vs := by
  obtain ⟨v, vs, rfl⟩ := List.exists_cons_of_ne_nil hne
  obtain ⟨b, w, hw, hb⟩ : ∃ b w, encode (Entries.text ViaEntry.text (v :: vs)) = b :: w ∧
      isTokenOctet b = true := by
    rw [Entries.encode_text, v.encode_text]
    simp only [List.append_assoc]
    exact (h v List.mem_cons_self).name.head _
  have hhead := head_of_isInk (congrArg List.head? hw) (isInk_of_isTokenOctet b hb)
  exact Text.trim_eq_self hhead hends

theorem IsWritable.isLine (h : IsWritable vs) : Text.IsLine (text vs) :=
  Entries.isLine_text fun v hv => (h.all v hv).isLine

theorem IsWritable.isLegible (h : IsWritable vs) : ∀ v ∈ vs, v.IsLegible :=
  fun v hv => (h.all v hv).isLegible

/-- Entries are read back from the line they make. -/
theorem parse_text (h : IsWritable vs) (ht : Text.trim t = Text.trim (text vs)) :
    parse t = .ok vs := by
  rw [parse_eq_ok_iff, ht, trim_text h.ne h.isLegible h.ends]
  exact spelledBy_text h.ne h.isLegible

/-- What is read of a line can be written. -/
theorem isWritable_of_parse (hl : Text.IsLine t) (h : parse t = .ok vs) : IsWritable vs :=
  (parse_eq_ok_iff.1 h).isWritable hl (fun hv => hv.isText) (fun hv => hv.isWritable)
    (fun hv => hv.trimEnd) fun _ hv => hv.isLegible.text_ne_empty

/-- The grammar of a Via value, in both directions: exactly the texts that spell entries are
accepted, and they are read as those entries. So every list of entries that can be spelled is read
back from the text it is written as, unless that text is trimmed, and every value that was read is.
-/
theorem grammar_exact :
    (∀ t vs, parse t = .ok vs ↔ SpelledBy vs (encode (Text.trim t))) ∧
      (∀ vs, vs ≠ [] → (∀ v ∈ vs, ∃ w, v.SpelledBy w) → Text.trim (text vs) = text vs →
        parse (text vs) = .ok vs) ∧
      ∀ t vs, parse t = .ok vs → parse (text vs) = .ok vs := by
  have hback : ∀ vs, vs ≠ [] → (∀ v ∈ vs, v.IsLegible) → Text.trim (text vs) = text vs →
      parse (text vs) = .ok vs := by
    intro vs hne hall htrim
    rw [parse_eq_ok_iff, htrim]
    exact spelledBy_text hne hall
  refine ⟨fun t vs => parse_eq_ok_iff, fun vs hne hall htrim => ?_, fun t vs h => ?_⟩
  · refine hback vs hne (fun v hv => ?_) htrim
    obtain ⟨w, hw⟩ := hall v hv
    exact hw.isLegible
  · have hspelled := parse_eq_ok_iff.1 h
    have hall : ∀ v ∈ vs, v.IsLegible := by
      intro v hv
      obtain ⟨w, hw, -⟩ := hspelled.exists_spelling v hv
      exact hw.isLegible
    have hends : Text.trimEnd (text vs) = text vs :=
      hspelled.trimEnd_text (fun hv => hv.isText) (fun hv => hv.trimEnd)
        fun v hv => (hall v hv).text_ne_empty
    exact hback vs hspelled.ne_nil hall (trim_text hspelled.ne_nil hall hends)

/-- Spaces stand wherever they may, a comma and a semicolon between quotes separate nothing, and a
port has a zero in front. -/
theorem grammar_exact_spaced :
    let t := "SIP / 2.0/UDP \t[2001:db8::1] :05060 ;a = \"x, y;z\" ; b , SIP/2.0/TCP h_1"
    let vs : List ViaEntry :=
      [⟨"SIP", "2.0", "UDP", "[2001:db8::1]", 5060, [.of "a" "\"x, y;z\"", .flag "b"]⟩,
        ⟨"SIP", "2.0", "TCP", "h_1", 0, []⟩]
    SpelledBy vs (encode t) ∧ parse (text vs) = .ok vs := by
  intro t vs
  have htrim : Text.trim t = t := by decide +kernel
  have hread : parse t = .ok vs := by decide +kernel
  have hspelled := (grammar_exact.1 t vs).1 hread
  rw [htrim] at hspelled
  refine ⟨hspelled, grammar_exact.2.1 vs (by decide) (fun v hv => ?_) (by decide +kernel)⟩
  obtain ⟨w, hw, -⟩ := hspelled.exists_spelling v hv
  exact ⟨w, hw⟩

end Via

end SipProxy
