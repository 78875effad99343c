import Mathlib.Data.List.Forall2
import SipProxy.Proofs.Value.DisplayName
import SipProxy.Proofs.Value.Party
import SipProxy.Proofs.Value.Route
import SipProxy.Proofs.Value.ViaLine

/-!
# Display names are confined to their entries

Whoever sends a request chooses the display names in it, and where the request goes is decided by
splitting header values at commas, semicolons and angle brackets. A name cannot move any of these
splits: entries with any names whatever are read back one for one, with their URIs and parameters,
and a bare URI is read back as a bare URI (`displayName_confined`). URIs and parameters are not
free, since neither is quoted when it is written; they are those that a name-address or a header
value was read with (`Uri.IsBracketed`, `Param.IsRead`).
-/

namespace SipProxy

open Lexeme Reader Utf8

variable {p : Param} {ps : Params} {u : Uri} {e : RouteEntry} {es : List RouteEntry}

/-! ## What entries are made of -/

/-- A URI that some name-address was read with. -/
def Uri.IsBracketed (u : Uri) : Prop := ∃ t a, NameAddress.parse t = .ok a ∧ a.uri = u

/-- A parameter that some header value was read with. -/
inductive Param.IsRead : Param → Prop
  | via {t : String} {vs : List ViaEntry} {v : ViaEntry} {p : Param} (h : Via.parse t = .ok vs)
      (hv : v ∈ vs) (hp : p ∈ v.params) : IsRead p
  | route {header t : String} {es : List RouteEntry} {e : RouteEntry} {p : Param}
      (h : Route.parse header t = .ok es) (he : e ∈ es) (hp : p ∈ e.params) : IsRead p
  | party {header t : String} {party : Party} {p : Param} (h : Party.parse header t = .ok party)
      (hp : p ∈ party.params) : IsRead p

/-- White space stands in the value of a parameter only if the value is quoted. -/
def Param.IsUnspaced (p : Param) : Prop :=
  ∀ v ∈ p.value, v.toList.head? = some '"' ∨ ∀ c ∈ v.toList, Text.isBlank c = false

theorem Uri.IsBracketed.isLegible {a : NameAddress} (h : a.uri.IsBracketed) : a.IsLegible := by
  obtain ⟨t, b, hread, huri⟩ := h
  have hb := NameAddress.isLegible_of_parse hread
  refine ⟨?_, ?_⟩
  · rw [← huri]
    exact hb.uri
  · rw [← huri]
    exact hb.angle

namespace Param

theorem IsRead.isLegible (h : p.IsRead) : p.IsLegible := by
  cases h with
  | via h hv hp =>
    obtain ⟨w, hw, -⟩ := (Via.parse_eq_ok_iff.1 h).exists_spelling _ hv
    exact hw.isLegible.params p hp
  | route h he hp =>
    obtain ⟨w, hw, -⟩ := (Route.spelledBy_of_parse h).exists_spelling _ he
    exact hw.legible.params p hp
  | party h hp => exact (Party.isReadOf_of_parse h).legible.params p hp

/-- Nothing is trimmed off behind a parameter whose white space is quoted. -/
theorem IsUnspaced.trimEnd_text (hs : p.IsUnspaced) (h : p.IsLegible) :
    Text.trimEnd p.text = p.text := by
  obtain ⟨name, value⟩ := p
  cases value with
  | none => exact h.name.trimEnd isInk_of_isTokenOctet
  | some v =>
    have hv := h.value v rfl
    refine (Text.trimEnd_append_iff _ hv.ne_empty).2 ?_
    rcases hv with hrun | hquoted
    · rcases hs v rfl with hquote | hink
      · -- no octet of a run is a quote
        obtain ⟨cs, hcs⟩ := List.head?_eq_some_iff.1 hquote
        have hmem : (0x22 : UInt8) ∈ encode v :=
          mem_encode.2 ⟨'"', by rw [hcs]; exact List.mem_cons_self, by decide⟩
        exact absurd (hrun.2 _ hmem) (by decide)
      · exact Text.trimEnd_eq_self_iff.2 fun c hc => hink c (List.mem_of_getLast? hc)
    · exact trimEnd_of_isInk hquoted.getLast? (by decide)

end Param

theorem Params.trimEnd_text (hps : ∀ p ∈ ps, p.IsRead ∧ p.IsUnspaced) (hne : ps ≠ []) :
    Text.trimEnd ps.text = ps.text := by
  have hlast := hps _ (List.getLast_mem hne)
  have hlegible := hlast.1.isLegible
  rw [← List.dropLast_concat_getLast hne, Params.text_concat]
  exact (Text.trimEnd_append_iff _ hlegible.text_ne_empty).2 (hlast.2.trimEnd_text hlegible)

/-! ## Entries with any names -/

namespace RouteEntry

/-- An entry is read as another one: with the same URI and the same parameters, and a display name
that has lost nothing but spaces at its ends. -/
structure ReadAs (e e' : RouteEntry) : Prop where
  uri : e'.address.uri = e.address.uri
  params : e'.params = e.params
  name : NameAddress.KeepsName e.address.displayName e'.address.displayName

theorem readAs_settled (e : RouteEntry) : e.ReadAs e.settled :=
  ⟨rfl, rfl, NameAddress.keepsName_settledName _⟩

end RouteEntry

/-- Entries of read URIs and parameters are read back from the text they make. -/
theorem Route.isLegible_of_read (hne : es ≠ []) (huri : ∀ e ∈ es, e.address.uri.IsBracketed)
    (hparams : ∀ e ∈ es, ∀ p ∈ e.params, p.IsRead ∧ p.IsUnspaced) : Route.IsLegible es := by
  refine ⟨hne, ?_, ?_⟩
  · intro e he
    exact ⟨(huri e he).isLegible, fun p hp => (hparams e he p hp).1.isLegible⟩
  · refine Entries.trimEnd_text ?_ fun e _ => e.isIndented_text.ne_empty
    intro e he
    exact e.trimEnd_text (Params.trimEnd_text (hparams e (List.mem_of_getLast? he)))

theorem Party.isLegible_of_read {a : NameAddress} (huri : a.uri.IsBracketed)
    (hparams : ∀ p ∈ ps, p.IsRead ∧ p.IsUnspaced) :
    (Party.mk (.nameAddress a) ps).IsLegible where
  address := huri.isLegible
  params p hp := (hparams p hp).1.isLegible
  ends := Params.trimEnd_append a.trimEnd_text (Params.trimEnd_text hparams)

/-- Display names neither forge entries nor hide them. A list of entries with any display names is
read back from its text one for one, with the same URIs and parameters, and so is a party that is a
name-address; and a party that was read as a bare URI stays one. -/
theorem displayName_confined :
    (∀ header es, es ≠ [] → (∀ e ∈ es, e.address.uri.IsBracketed) →
        (∀ e ∈ es, ∀ p ∈ e.params, p.IsRead ∧ p.IsUnspaced) →
          ∃ es', Route.parse header (Route.text es) = .ok es' ∧
            List.Forall₂ RouteEntry.ReadAs es es') ∧
      (∀ header (a : NameAddress) (ps : Params), a.uri.IsBracketed →
        (∀ p ∈ ps, p.IsRead ∧ p.IsUnspaced) →
          ∃ name, Party.parse header (Party.text ⟨.nameAddress a, ps⟩) =
              .ok ⟨.nameAddress ⟨name, a.uri⟩, ps⟩ ∧
            NameAddress.KeepsName a.displayName name) ∧
      ∀ header header' t u ps, Party.parse header t = .ok ⟨.bare u, ps⟩ →
        Party.parse header' (Party.text ⟨.bare u, ps⟩) = .ok ⟨.bare u, ps⟩ := by
  refine ⟨?_, ?_, ?_⟩
  · intro header es hne huri hparams
    refine ⟨es.map RouteEntry.settled,
      Route.parse_text (Route.isLegible_of_read hne huri hparams) rfl, ?_⟩
    rw [List.forall₂_map_right_iff, List.forall₂_same]
    exact fun e _ => e.readAs_settled
  · intro header a ps huri hparams
    exact ⟨NameAddress.settledName a.displayName,
      Party.parse_text (Party.isLegible_of_read huri hparams) rfl,
      NameAddress.keepsName_settledName _⟩
  · intro header header' t u ps h
    exact Party.parse_text (Party.isReadOf_of_parse h).legible rfl

/-- A name that spells the end of its entry and another one, in front of a parameter with a comma
and brackets between its quotes, and a blank name behind it. -/
theorem displayName_confined_of_forged_entry :
    let u : Uri := .sip ⟨.sip, some "a", none, "b", 0, [], []⟩
    let ps : Params := [.of "tag" "\"1, <2>\""]
    let forged := "\" <sip:x>, <sip:y>;tag=z, \\"
    let es : List RouteEntry := [⟨⟨some forged, u⟩, ps⟩, ⟨⟨some "  ", u⟩, []⟩]
    (∃ es', Route.parse "Route" (Route.text es) = .ok es' ∧
        List.Forall₂ RouteEntry.ReadAs es es') ∧
      (∃ name, Party.parse "From" (Party.text ⟨.nameAddress ⟨some forged, u⟩, ps⟩) =
          .ok ⟨.nameAddress ⟨name, u⟩, ps⟩ ∧ NameAddress.KeepsName (some forged) name) ∧
      Party.parse "To" (Party.text ⟨.bare u, ps⟩) = .ok ⟨.bare u, ps⟩ := by
  intro u ps forged es
  have hread : Party.parse "From" "sip:a@b ; tag=\"1, <2>\"" = .ok ⟨.bare u, ps⟩ := by
    decide +kernel
  have huri : u.IsBracketed := ⟨"<sip:a@b>", ⟨none, u⟩, by decide +kernel, rfl⟩
  have hps : ∀ p ∈ ps, p.IsRead ∧ p.IsUnspaced := by
    intro p hp
    refine ⟨.party hread hp, ?_⟩
    cases List.mem_singleton.1 hp
    rintro _ ⟨⟩
    exact .inl (by decide)
  refine ⟨displayName_confined.1 "Route" es (List.cons_ne_nil _ _) ?_ ?_,
    displayName_confined.2.1 "From" ⟨some forged, u⟩ ps huri hps,
    displayName_confined.2.2 "From" "To" _ u ps hread⟩
  · intro e he
    rcases List.mem_pair.1 he with rfl | rfl
    · exact huri
    · exact huri
  · intro e he p hp
    rcases List.mem_pair.1 he with rfl | rfl
    · exact hps p hp
    · cases hp

end SipProxy
