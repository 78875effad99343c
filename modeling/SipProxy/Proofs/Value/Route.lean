import SipProxy.Proofs.Grammar.Entries
import SipProxy.Proofs.Value.NameAddress
import SipProxy.Value.Route

/-!
# Route entries that are written and read again

The entries of a Route or Record-Route line come back with their URIs and parameters, in their order
(`Route.parse_text`); of their display names only spaces are lost. What is known of an entry that
was read is known from the octets it was read of (`RouteEntry.IsReadOf`), so every line that was
read can be written (`Route.isWritable_of_parse`), and so can what is left of it without its first
entry.
-/

namespace SipProxy

open Lexeme Reader Utf8

variable {header t : String} {e : RouteEntry} {es : List RouteEntry} {s w rest : Octets}

/-! ## One entry -/

/-- An entry that is read as it is written, but for spaces around its display name. -/
structure RouteEntry.IsLegible (e : RouteEntry) : Prop where
  address : e.address.IsLegible
  params : ∀ p ∈ e.params, p.IsLegible

/-- An entry that can be written into a header: it is legible and has no line break. -/
structure RouteEntry.IsWritable (e : RouteEntry) : Prop where
  address : e.address.IsWritable
  params : ∀ p ∈ e.params, p.IsWritable

namespace RouteEntry

theorem IsWritable.isLegible (h : e.IsWritable) : e.IsLegible :=
  ⟨h.address.isLegible, fun p hp => (h.params p hp).isLegible⟩

/-- The entry that is read of one that is written. -/
def settled (e : RouteEntry) : RouteEntry := ⟨e.address.settled, e.params⟩

theorem isIndented_text (e : RouteEntry) : IsIndented e.text := e.address.isIndented_text.append _

/-- The parts that are read of an entry that is written. -/
def parts (e : RouteEntry) : (Option String × Octets) × Params :=
  ((NameAddress.settledName e.address.displayName, encode e.address.uri.text), e.params)

theorem ofParts_eq_ok {parts : (Option String × Octets) × Params} :
    ofParts parts = .ok e ↔ NameAddress.ofParts parts.1 = .ok e.address ∧ e.params = parts.2 := by
  unfold ofParts
  constructor
  · intro h
    obtain ⟨address, haddress, heq⟩ := Outcome.bind_eq_ok.1 h
    cases heq
    exact ⟨haddress, rfl⟩
  · rintro ⟨haddress, hparams⟩
    rw [haddress, ← hparams]
    rfl

theorem ofParts_parts (h : e.IsLegible) : ofParts e.parts = .ok e.settled :=
  ofParts_eq_ok.2 ⟨NameAddress.ofParts_text h.address, rfl⟩

/-- An entry ends with its parameters, or with the bracket behind its URI. -/
theorem trimEnd_text (hends : e.params ≠ [] → Text.trimEnd e.params.text = e.params.text) :
    Text.trimEnd e.text = e.text :=
  Params.trimEnd_append e.address.trimEnd_text hends

theorem IsWritable.isLine (h : e.IsWritable) : Text.IsLine e.text :=
  h.address.isLine.append (Params.isLine_text h.params)

/-- What is known of an entry that was read of these octets. -/
structure IsReadOf (e : RouteEntry) (w : Octets) : Prop where
  text : IsText w
  legible : e.IsLegible
  writable : (∀ b ∈ w, Line.isInside b = true) → e.IsWritable
  ends : Text.trimEnd (decode w) = decode w → Text.trimEnd e.text = e.text

end RouteEntry

namespace Lexeme

theorem routeEntry_eq_some {parts : (Option String × Octets) × Params} :
    routeEntry s = some (parts, rest) ↔
      ∃ s', bracketed s = some (parts.1, s') ∧ params s' = (parts.2, rest) := by
  unfold routeEntry
  cases bracketed s with
  | none => simp
  | some r =>
    obtain ⟨address, s'⟩ := r
    constructor
    · intro h
      cases h
      exact ⟨s', rfl, rfl⟩
    · rintro ⟨s'', heq, hparams⟩
      cases heq
      simp only [hparams]

theorem routeEntry_spaces (s : Octets) : routeEntry (spaces s) = routeEntry s := by
  unfold routeEntry
  rw [bracketed_spaces]

/-- An entry is read back in front of what may follow it, with the spaces behind it if they follow
the bracket. -/
theorem routeEntry_text (h : e.IsLegible) (hr : Follows [','] rest) :
    ∃ rest', routeEntry (encode e.text ++ rest) = some (e.parts, rest') ∧
      (rest' = rest ∨ rest' = spaces rest) := by
  obtain ⟨rest', hspaces, hrest'⟩ := Params.spaces_text e.params rest
  have hread := bracketed_text h.address (encode e.params.text ++ rest)
  have hfollows : Follows [','] rest' := by
    rcases hrest' with rfl | rfl
    · exact hr
    · exact hr.spaces
  rw [hspaces] at hread
  refine ⟨rest', ?_, hrest'⟩
  rw [RouteEntry.text, encode_append, List.append_assoc]
  exact routeEntry_eq_some.2 ⟨_, hread, (Params.spelledBy_text h.params).params hfollows⟩

theorem consumes_comma_routeEntry : (after comma routeEntry).Consumes := by
  refine consumes_after_separator ',' fun {s parts rest} h => ?_
  obtain ⟨s', hread, hparams⟩ := routeEntry_eq_some.1 h
  have hle := length_le_of_bracketed hread
  have hle' := length_le_of_params hparams
  omega

/-- An entry is cut off a text, and what is read of that part makes a legible one. -/
theorem makes_routeEntry : Makes routeEntry RouteEntry.ofParts RouteEntry.IsReadOf := by
  intro s parts rest hs h
  obtain ⟨s', hread, hparams⟩ := routeEntry_eq_some.1 h
  obtain ⟨w, rfl, hs', hmake⟩ := NameAddress.makes_bracketed hs hread
  obtain ⟨ws, rfl, hps, hrest⟩ := spelledBy_of_params hs' hparams
  refine ⟨w ++ ws, by simp, hrest, fun e he => ?_⟩
  obtain ⟨haddress, hsame⟩ := RouteEntry.ofParts_eq_ok.1 he
  rw [← hsame] at hps
  have ha := hmake e.address haddress
  constructor
  · exact ha.text.append hps.isText
  · exact ⟨ha.legible, hps.isLegible⟩
  · intro hl
    exact ⟨ha.isWritable fun b hb => hl b (List.mem_append_left ws hb),
      hps.isWritable fun b hb => hl b (List.mem_append_right w hb)⟩
  · intro hends
    exact RouteEntry.trimEnd_text fun hne =>
      hps.trimEnd hne (trimEnd_decode_of_append ha.text hps.isText hends)

end Lexeme

/-! ## The entries of a line -/

namespace Route

/-- Entries that a Route or Record-Route line can list. -/
abbrev IsWritable (es : List RouteEntry) : Prop :=
  Entries.IsWritable RouteEntry.text RouteEntry.IsWritable es

/-- Entries that are read back from the text of a list. -/
abbrev IsLegible (es : List RouteEntry) : Prop :=
  Entries.IsWritable RouteEntry.text RouteEntry.IsLegible es

theorem parse_eq_ok :
    parse header t = .ok es ↔
      ∃ parts, sepBy1 comma routeEntry (encode (Text.trim t)) = some (parts, []) ∧
        parts.mapM RouteEntry.ofParts = .ok es := by
  unfold parse
  constructor
  · intro h
    split at h
    · rename_i parts hread
      exact ⟨parts, hread, h⟩
    · cases h
    · cases h
  · rintro ⟨parts, hread, h⟩
    rw [hread]
    exact h

/-- A Route or Record-Route value that is read holds an entry. -/
theorem parse_ne_nil (header value : String) : parse header value ≠ .ok [] := by
  intro h
  obtain ⟨parts, hread, hmap⟩ := parse_eq_ok.1 h
  exact Outcome.ne_nil_of_mapM hmap (ne_nil_of_sepBy1 hread) rfl

theorem IsWritable.isLine (h : IsWritable es) : Text.IsLine (text es) :=
  Entries.isLine_text fun e he => (h.all e he).isLine

theorem IsWritable.isLegible (h : IsWritable es) : IsLegible es := h.mono fun _ he => he.isLegible

/-- Entries are read back from the text they make, with their display names settled. -/
theorem parse_text (h : IsLegible es) (ht : Text.trim t = Text.trim (text es)) :
    parse header t = .ok (es.map RouteEntry.settled) := by
  have hindented : IsIndented (text es) :=
    Entries.isIndented_text h.ne fun e _ => e.isIndented_text
  have hspelled : Entries.SpelledBy (fun e w => e.IsLegible ∧ w = encode e.text) es
      (encode (text es)) := Entries.spelledBy_text h.ne fun e he => ⟨h.all e he, rfl⟩
  have hspaces : ∀ s, sepBy1 comma routeEntry (spaces s) = sepBy1 comma routeEntry s := by
    intro s
    unfold sepBy1
    rw [routeEntry_spaces]
  rw [parse_eq_ok, ht, ← hspaces, hindented.spaces_trim h.ends]
  refine hspelled.sepBy1 consumes_comma_routeEntry ?_
  rintro e _ rest ⟨he, rfl⟩ hr
  obtain ⟨rest', hread, hrest'⟩ := routeEntry_text he hr
  exact ⟨e.parts, rest', by rw [routeEntry_spaces, hread], hrest', RouteEntry.ofParts_parts he⟩

/-- The entries that are read of a value are spelled there, one behind another. -/
theorem spelledBy_of_parse (h : parse header t = .ok es) :
    Entries.SpelledBy RouteEntry.IsReadOf es (encode (Text.trim t)) := by
  obtain ⟨parts, hread, hmap⟩ := parse_eq_ok.1 h
  obtain ⟨w, hw, hspelled⟩ :=
    makes_routeEntry.spelledBy consumes_comma_routeEntry (isText_encode _) hread hmap
  rw [hw, List.append_nil]
  exact hspelled

/-- What is read of a line can be written. -/
theorem isWritable_of_parse (hl : Text.IsLine t) (h : parse header t = .ok es) : IsWritable es :=
  (spelledBy_of_parse h).isWritable hl (fun he => he.text) (fun he => he.writable)
    (fun he => he.ends) fun e _ => e.isIndented_text.ne_empty

end Route

end SipProxy
