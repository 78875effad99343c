import SipProxy.Header.Value
import SipProxy.Proofs.Outcome

/-!
# Faults of header values

A value that cannot be read is at fault itself, whatever it is a value of
(`HeaderKind.parse_failsIn`): no reader answers that an entry or a header is missing, which is said
of messages that can be read. So the two kinds of fault tell a caller whether there was nothing to
take or nothing that could be read.

A reader of a value is made of a reader of octets, whose failure it puts into words, and of readers
of the parts; it is enough to go through it from the parts to the whole.
-/

namespace SipProxy

open Outcome

/-- If it fails, it is at what was received. -/
abbrev BlamesInput {α : Type} (x : Except SipError α) : Prop :=
  FailsIn (fun e => e.isParseError = true) x

/-! ## URIs -/

namespace SipUri

theorem checkParam_failsIn (p : Octets × Option Octets) : BlamesInput (checkParam p) := by
  unfold checkParam
  simp only
  split
  · exact .ok _
  · split
    · exact .ok _
    · exact .error rfl

theorem checkHeader_failsIn (p : Octets × Option Octets) : BlamesInput (checkHeader p) := by
  unfold checkHeader
  split
  · exact .ok _
  · exact .error rfl

theorem checkPort_failsIn (digits : Option Octets) (whole : String) :
    BlamesInput (checkPort digits whole) := by
  unfold checkPort
  repeat' split
  · exact .ok _
  · exact .ok _
  · exact .error rfl

theorem parseBody_failsIn (scheme : Scheme) (whole : String) (body : Octets) :
    BlamesInput (parseBody scheme whole body) := by
  unfold parseBody
  split
  · rename_i parts _
    exact (FailsIn.mapM checkParam_failsIn parts.params).bind fun params =>
      (FailsIn.mapM checkHeader_failsIn _).bind fun headers =>
        (checkPort_failsIn parts.port whole).bind fun port => .ok _
  · exact .error rfl
  · exact .error rfl

end SipUri

theorem Uri.cutScheme_failsIn (text : String) : BlamesInput (cutScheme text) := by
  unfold cutScheme
  split
  · exact .ok _
  · exact .error rfl
  · exact .error rfl

theorem AbsoluteUri.parse_failsIn (s : String) : BlamesInput (parse s) := by
  refine (Uri.cutScheme_failsIn _).bind fun cut => ?_
  obtain ⟨scheme, rest⟩ := cut
  exact .ite (.bind (.error rfl) fun _ => .ok _) (.ok _)

theorem Uri.parse_failsIn (s : String) : BlamesInput (parse s) := by
  refine (cutScheme_failsIn _).bind fun cut => ?_
  obtain ⟨scheme, rest⟩ := cut
  exact .ite ((SipUri.parseBody_failsIn _ _ _).bind fun _ => .ok _)
    (.ite ((SipUri.parseBody_failsIn _ _ _).bind fun _ => .ok _)
      ((AbsoluteUri.parse_failsIn _).bind fun _ => .ok _))

/-! ## Values -/

theorem NameAddress.ofParts_failsIn (parts : Option String × Octets) :
    BlamesInput (ofParts parts) := by
  unfold ofParts
  exact (Uri.parse_failsIn _).bind fun _ => .ok _

theorem RouteEntry.ofParts_failsIn (parts : (Option String × Octets) × Params) :
    BlamesInput (ofParts parts) := by
  unfold ofParts
  exact (NameAddress.ofParts_failsIn _).bind fun _ => .ok _

theorem Via.parse_failsIn (value : String) : BlamesInput (parse value) := by
  unfold parse
  split
  · refine FailsIn.mapM (fun parts => ?_) _
    unfold ViaEntry.ofParts
    split
    · exact .ok _
    · exact .error rfl
  · exact .error rfl
  · exact .error rfl

theorem Route.parse_failsIn (header value : String) : BlamesInput (parse header value) := by
  unfold parse
  split
  · exact FailsIn.mapM RouteEntry.ofParts_failsIn _
  · exact .error rfl
  · exact .error rfl

theorem Party.takeAddress_failsIn {s rest : Octets} {address : Except SipError PartyAddress}
    (h : takeAddress s = some (address, rest)) : BlamesInput address := by
  unfold takeAddress at h
  split at h
  · rw [Option.some.injEq, Prod.mk.injEq] at h
    rw [← h.1]
    exact (NameAddress.ofParts_failsIn _).map _
  · split at h
    · rw [Option.some.injEq, Prod.mk.injEq] at h
      rw [← h.1]
      exact (Uri.parse_failsIn _).map _
    · cases h

theorem Party.parse_failsIn (header value : String) : BlamesInput (parse header value) := by
  unfold parse
  split
  · split
    · exact .ok _
    · exact .error rfl
  · rename_i htake
    exact .error (takeAddress_failsIn htake _ rfl)
  · exact .error rfl

theorem CSeq.parse_failsIn (value : String) : BlamesInput (parse value) := by
  unfold parse
  simp only
  split
  · split
    · exact .ok _
    · exact .error rfl
  · exact .error rfl
  · exact .error rfl

theorem Hops.parse_failsIn (value : String) : BlamesInput (parse value) := by
  unfold parse
  simp only
  split
  · exact .ok _
  · exact .error rfl

/-- Whatever header a text is read as, a fault is one of the text. -/
theorem HeaderKind.parse_failsIn (k : HeaderKind) (text : String) : BlamesInput (k.parse text) := by
  cases k with
  | via => exact Via.parse_failsIn text
  | route => exact Route.parse_failsIn "Route" text
  | recordRoute => exact Route.parse_failsIn "Record-Route" text
  | toParty => exact Party.parse_failsIn "To" text
  | fromParty => exact Party.parse_failsIn "From" text
  | cSeq => exact CSeq.parse_failsIn text
  | maxForwards => exact Hops.parse_failsIn text

end SipProxy
