import SipProxy.Proofs.Value.NameAddress
import SipProxy.Value.Party

/-!
# Parties that are written and read again

A party comes back in the form in which it was written, with its URI and parameters
(`Party.parse_text`). A bare URI is never taken for a name-address, because what could be its
display name ends at the colon behind its scheme; and its parameters are those of the header,
because nothing that was read as a bare URI has a semicolon.
-/

namespace SipProxy

open Lexeme Reader Utf8

variable {header t : String} {a : PartyAddress} {p : Party} {u : Uri} {s w rest : Octets}

/-! ## The two forms of an address -/

/-- An address that is read as it is written, but for spaces around its display name. -/
def PartyAddress.IsLegible : PartyAddress → Prop
  | nameAddress a => a.IsLegible
  | bare u => u.IsWritable ∧ ∀ b ∈ encode u.text, isBareOctet b = true

/-- An address that can be written into a header: it is legible and has no line break. -/
def PartyAddress.IsWritable : PartyAddress → Prop
  | nameAddress a => a.IsWritable
  | bare u => u.IsWritable ∧ ∀ b ∈ encode u.text, isBareOctet b = true

namespace PartyAddress

/-- The address that is read of one that is written. -/
def settled : PartyAddress → PartyAddress
  | nameAddress a => nameAddress a.settled
  | bare u => bare u

@[simp] theorem uri_settled (a : PartyAddress) : a.settled.uri = a.uri := by
  cases a <;> rfl

theorem IsWritable.isLegible (h : a.IsWritable) : a.IsLegible := by
  cases a with
  | nameAddress a => exact NameAddress.IsWritable.isLegible h
  | bare u => exact h

theorem IsWritable.isLine (h : a.IsWritable) : Text.IsLine a.text := by
  cases a with
  | nameAddress a => exact NameAddress.IsWritable.isLine h
  | bare u => exact Uri.IsWritable.isLine h.1

theorem IsLegible.trimEnd (h : a.IsLegible) : Text.trimEnd a.text = a.text := by
  cases a with
  | nameAddress a => exact a.trimEnd_text
  | bare u => exact Uri.IsWritable.ends h.1

/-- What is known of an address that was read of these octets. -/
structure IsReadOf (a : PartyAddress) (w : Octets) : Prop where
  text : IsText w
  legible : a.IsLegible
  writable : (∀ b ∈ w, Line.isInside b = true) → a.IsWritable

end PartyAddress

namespace Lexeme

/-- Before the colon of a bare URI stands no angle bracket. -/
theorem bracketed_bare (h : u.IsWritable) (rest : Octets) :
    bracketed (encode u.text ++ rest) = none := by
  obtain ⟨scheme, body, hscheme, htext⟩ := h.exists_scheme
  have hsplit : encode u.text ++ rest = encode scheme ++ ascii ':' :: (body ++ rest) := by
    rw [htext, List.append_assoc]
    rfl
  have hspaces : spaces (encode scheme ++ ascii ':' :: (body ++ rest)) =
      encode scheme ++ ascii ':' :: (body ++ rest) :=
    spaces_of_stops (hscheme.1.stops (isSpace_eq_false_of (by decide)) _)
  have hname : displayName (encode scheme ++ ascii ':' :: (body ++ rest)) =
      some (Text.trimEnd scheme, ascii ':' :: (body ++ rest)) := by
    have htoken : ∀ b ∈ encode scheme, isTokenOctet b = true := by
      intro b hb
      exact isAlnum_or_mono (by simp) (hscheme.1.2 b hb)
    exact displayName_run hscheme.1.1 (fun b hb => htoken b (List.mem_of_mem_head? hb))
      (fun b hb => Bool.or_eq_true_iff.2 (.inl (htoken b hb))) (stops_cons.2 (by decide))
  unfold bracketed
  rw [hsplit, hspaces, optional_of_some hname]
  rfl

end Lexeme

/-! ## Reading an address -/

namespace Party

theorem takeAddress_of_some {parts : Option String × Octets}
    (h : bracketed s = some (parts, rest)) :
    takeAddress s = some ((NameAddress.ofParts parts).map .nameAddress, rest) := by
  unfold takeAddress
  rw [h]

theorem takeAddress_of_none {w : Octets} (h : bracketed s = none)
    (hrun : run1 isBareOctet s = some (w, rest)) :
    takeAddress s = some ((Uri.parse (decode w)).map .bare, rest) := by
  unfold takeAddress
  rw [h]
  simp only [hrun]

/-- An address is read back in front of its parameters. -/
theorem takeAddress_text (h : a.IsLegible) (hr : EndsParam rest) :
    takeAddress (encode a.text ++ rest) = some (.ok a.settled, rest) := by
  cases a with
  | nameAddress a =>
    have hread := @bracketed_text a h rest
    rw [spaces_of_stops (hr.stops (by decide))] at hread
    refine (takeAddress_of_some hread).trans ?_
    rw [NameAddress.ofParts_text h]
    rfl
  | bare u =>
    obtain ⟨hu, hbare⟩ := h
    have hne : encode u.text ≠ [] := by
      obtain ⟨b, s, hs, -⟩ := hu.exists_head
      rw [hs]
      exact List.cons_ne_nil b s
    have hrun : run1 isBareOctet (encode u.text ++ rest) = some (encode u.text, rest) :=
      run1_append hne hbare (hr.stops (by decide))
    refine (takeAddress_of_none (bracketed_bare hu rest) hrun).trans ?_
    rw [decode_encode, Uri.parse_text hu]
    rfl

/-- Spaces in front of an address do not matter if they are those of a display name, and a bare URI
has none. -/
theorem takeAddress_trim {t : String} (h : a.IsLegible)
    (hends : Text.trimEnd (a.text ++ t) = a.text ++ t) :
    takeAddress (encode (Text.trim (a.text ++ t))) = takeAddress (encode (a.text ++ t)) := by
  cases a with
  | nameAddress a =>
    have hindented : IsIndented (a.text ++ t) := a.isIndented_text.append t
    have hsame : bracketed (encode (Text.trim (a.text ++ t))) =
        bracketed (encode (a.text ++ t)) := by
      rw [← bracketed_spaces, hindented.spaces_trim hends, bracketed_spaces]
    have hread := @bracketed_text a h (encode t)
    rw [← encode_append] at hread
    exact (takeAddress_of_some (hsame.trans hread)).trans (takeAddress_of_some hread).symm
  | bare u =>
    obtain ⟨b, s, hs, hb⟩ := Uri.IsWritable.exists_head h.1
    have hhead : (encode (u.text ++ t)).head? = some b := by
      rw [encode_append, hs]
      rfl
    have htrim : Text.trim (u.text ++ t) = u.text ++ t :=
      Text.trim_eq_self (head_of_isInk hhead (isInk_of_isAlpha b hb)) hends
    show takeAddress (encode (Text.trim (u.text ++ t))) = takeAddress (encode (u.text ++ t))
    rw [htrim]

/-- An address is cut off a text, and what is read of that part is legible. -/
theorem isReadOf_of_takeAddress (hs : IsText s) (h : takeAddress s = some (.ok a, rest)) :
    ∃ w, s = w ++ rest ∧ IsText rest ∧ a.IsReadOf w := by
  unfold takeAddress at h
  split at h
  · rename_i parts s' hread
    obtain ⟨hmap, rfl⟩ := Prod.mk.inj (Option.some.inj h)
    obtain ⟨address, haddress, rfl⟩ := Outcome.map_eq_ok.1 hmap
    obtain ⟨w, rfl, hrest, hmake⟩ := NameAddress.makes_bracketed hs hread
    have ha := hmake address haddress
    exact ⟨w, rfl, hrest, ha.text, ha.legible, ha.isWritable⟩
  · split at h
    · rename_i w s' hrun
      have hcut : CutsText isBareOctet :=
        .inr ((isAscii_isOneOf (by decide)).or isAscii_isAsciiBlank).not
      obtain ⟨hsplit, htext, hclass, -, hs'⟩ := run1_spec hs hcut hrun
      obtain ⟨hmap, rfl⟩ := Prod.mk.inj (Option.some.inj h)
      obtain ⟨u, hu, rfl⟩ := Outcome.map_eq_ok.1 hmap
      obtain ⟨hw, hoctets⟩ := Uri.spec_of_parse hu
      have halnum : ∀ b, isAlnum b = true → isBareOctet b = true := by
        refine not_or_of (isOneOf_eq_false_of (by decide)) fun b hb => ?_
        rw [isAsciiBlank_eq]
        exact isOneOf_eq_false_of (by decide) b hb
      have hbare : ∀ b ∈ encode u.text, isBareOctet b = true := by
        intro b hb
        rcases hoctets b hb with hb | hb
        · exact hclass.2 b hb
        · exact halnum b hb
      exact ⟨w, hsplit, hs', htext, ⟨hw, hbare⟩, fun _ => ⟨hw, hbare⟩⟩
    · cases h

/-! ## Parties -/

/-- A party that is read as it is written, but for spaces around its display name. -/
structure IsLegible (p : Party) : Prop where
  address : p.address.IsLegible
  params : ∀ q ∈ p.params, q.IsLegible
  ends : Text.trimEnd p.text = p.text

/-- A party that can be written into a header: it is legible and has no line break. -/
structure IsWritable (p : Party) : Prop where
  address : p.address.IsWritable
  params : ∀ q ∈ p.params, q.IsWritable
  ends : Text.trimEnd p.text = p.text

/-- The party that is read of one that is written. -/
def settled (p : Party) : Party := ⟨p.address.settled, p.params⟩

theorem IsWritable.isLegible (h : p.IsWritable) : p.IsLegible :=
  ⟨h.address.isLegible, fun q hq => (h.params q hq).isLegible, h.ends⟩

theorem IsWritable.isLine (h : p.IsWritable) : Text.IsLine p.text :=
  h.address.isLine.append (Params.isLine_text h.params)

theorem parse_eq_ok :
    parse header t = .ok p ↔
      ∃ rest, takeAddress (encode (Text.trim t)) = some (.ok p.address, rest) ∧
        Lexeme.params rest = (p.params, []) := by
  unfold parse
  constructor
  · intro h
    split at h
    · rename_i address rest haddress
      split at h
      · rename_i ps hparams
        cases h
        exact ⟨rest, haddress, hparams⟩
      · cases h
    · cases h
    · cases h
  · rintro ⟨rest, haddress, hparams⟩
    rw [haddress]
    simp only [hparams]

/-- A party is read back from the text it makes, with its display name settled. -/
theorem parse_text (h : p.IsLegible) (ht : Text.trim t = Text.trim p.text) :
    parse header t = .ok p.settled := by
  have hread := takeAddress_text h.address (p.params.endsParam_text (ends_nil _))
  have hparams := (Params.spelledBy_text h.params).params (follows_nil _)
  rw [List.append_nil] at hread hparams
  rw [← encode_append] at hread
  refine parse_eq_ok.2 ⟨encode p.params.text, ?_, hparams⟩
  rw [ht]
  exact (takeAddress_trim h.address h.ends).trans hread

/-- What is known of a party that was read of these octets. -/
structure IsReadOf (p : Party) (w : Octets) : Prop where
  legible : p.IsLegible
  writable : (∀ b ∈ w, Line.isInside b = true) → p.IsWritable

theorem isReadOf_of_parse (h : parse header t = .ok p) : p.IsReadOf (encode (Text.trim t)) := by
  obtain ⟨rest, haddress, hparams⟩ := parse_eq_ok.1 h
  obtain ⟨w, hsplit, hrest, ha⟩ := isReadOf_of_takeAddress (isText_encode _) haddress
  obtain ⟨ws, rfl, hps, -⟩ := spelledBy_of_params hrest hparams
  rw [List.append_nil] at hsplit
  have hends : Text.trimEnd p.text = p.text := by
    have htrim : Text.trimEnd (decode (w ++ ws)) = decode (w ++ ws) := by
      rw [← hsplit, decode_encode, Text.trimEnd_trim]
    exact Params.trimEnd_append ha.legible.trimEnd fun hne =>
      hps.trimEnd hne (trimEnd_decode_of_append ha.text hps.isText htrim)
  rw [hsplit]
  refine ⟨⟨ha.legible, hps.isLegible, hends⟩, fun hl => ⟨ha.writable ?_, hps.isWritable ?_, hends⟩⟩
  · exact fun b hb => hl b (List.mem_append_left ws hb)
  · exact fun b hb => hl b (List.mem_append_right w hb)

/-- What is read of a line can be written. -/
theorem isWritable_of_parse (hl : Text.IsLine t) (h : parse header t = .ok p) : p.IsWritable := by
  have hline : Text.IsLine (Text.trim t) := hl.of_subset fun _ hc => Text.mem_of_mem_trim hc
  exact (isReadOf_of_parse h).writable fun b hb => hline.isInside_of_mem_encode hb

end Party

end SipProxy
