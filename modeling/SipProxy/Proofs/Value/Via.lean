import SipProxy.Proofs.Grammar.Reading
import SipProxy.Proofs.Outcome
import SipProxy.Proofs.Text.Decimal
import SipProxy.Value.Via

/-!
# What a Via entry remembers of a source

`noteSource` writes two parameters into an entry that may hold any others, some of them twice or
without sense. All that matters later is what the first of each name says, and `Params.set` changes
that for its own name alone (`Params.named?_set`). So an entry that noted a source gives the address
back as it is written, and the port as far as the sender asked for it (`responsePort_noteSource`).
-/

namespace SipProxy

/-! ## Parameters by name -/

theorem Param.isNamed_iff {p : Param} {name : String} :
    p.isNamed name = true ↔ p.name.toLower = name.toLower := Text.sameIgnoringCase_iff

/-- Two parameters that both have a name have each other's. -/
theorem Param.isNamed_name {p q : Param} {name : String} (hp : p.isNamed name = true)
    (hq : q.isNamed name = true) : q.isNamed p.name = true := by
  rw [isNamed_iff] at hp hq ⊢
  rw [hq, hp]

namespace Params

variable {p : Param} {ps qs : Params} {name : String}

theorem named?_cons (q : Param) (ps : Params) (name : String) :
    named? (q :: ps) name = if q.isNamed name then some q else ps.named? name := by
  unfold named?
  rw [List.find?_cons]
  split <;> simp_all

theorem named?_replace? (h : replace? p ps = some qs) :
    qs.named? name = if p.isNamed name then some p else ps.named? name := by
  induction ps generalizing qs with
  | nil => cases h
  | cons q ps ih =>
    unfold replace? at h
    split at h
    · rename_i hq
      cases h
      -- the parameter that goes has the name of the one that comes
      have hsame : q.isNamed name = p.isNamed name := by
        rw [Bool.eq_iff_iff, Param.isNamed_iff, Param.isNamed_iff, Param.isNamed_iff.1 hq]
      rw [named?_cons, named?_cons, hsame]
      split <;> rfl
    · rename_i hq
      obtain ⟨rest, hrest, rfl⟩ := Option.map_eq_some_iff.1 h
      rw [named?_cons, named?_cons, ih hrest]
      by_cases hp : p.isNamed name = true
      · have hne : ¬ q.isNamed name = true := by
          intro hqn
          exact hq (Param.isNamed_name hp hqn)
        rw [if_neg hne, if_pos hp, if_pos hp]
      · rw [if_neg hp, if_neg hp]

theorem replace?_eq_none (h : replace? p ps = none) (hp : p.isNamed name = true) :
    ps.named? name = none := by
  induction ps with
  | nil => rfl
  | cons q ps ih =>
    unfold replace? at h
    split at h
    · cases h
    · rename_i hq
      have hne : ¬ q.isNamed name = true := by
        intro hqn
        exact hq (Param.isNamed_name hp hqn)
      rw [named?_cons, if_neg hne]
      exact ih (Option.map_eq_none_iff.1 h)

/-- A parameter that is set is the first of its name, and the first of any other name stays. -/
theorem named?_set (p : Param) (ps : Params) (name : String) :
    (ps.set p).named? name = if p.isNamed name then some p else ps.named? name := by
  unfold set
  cases h : replace? p ps with
  | some qs => exact named?_replace? h
  | none =>
    -- it goes behind the others, none of which has its name
    have happend : named? (ps ++ [p]) name = (ps.named? name).or (named? [p] name) :=
      List.find?_append
    rw [Option.getD_none, happend, named?_cons]
    by_cases hp : p.isNamed name = true
    · rw [replace?_eq_none h hp, if_pos hp, if_pos hp]
      rfl
    · rw [if_neg hp, if_neg hp]
      exact Option.or_none

end Params

namespace ViaEntry

variable {v : ViaEntry}

/-! ## Noting a source -/

@[simp] theorem noteSource_transport (v : ViaEntry) (source : Endpoint) :
    (v.noteSource source).transport = v.transport := by
  unfold noteSource
  simp only
  split <;> rfl

@[simp] theorem noteSource_port (v : ViaEntry) (source : Endpoint) :
    (v.noteSource source).port = v.port := by
  unfold noteSource
  simp only
  split <;> rfl

theorem resolvedPort_noteSource (v : ViaEntry) (source : Endpoint) :
    (v.noteSource source).resolvedPort = v.resolvedPort := by
  unfold resolvedPort
  rw [noteSource_port, noteSource_transport]

theorem named?_setReceived (v : ViaEntry) (ip : IpAddress) :
    (v.setReceived ip).params.named? "rport" = v.params.named? "rport" := by
  have hother : (Param.of "received" ip.text).isNamed "rport" = false := by
    show Text.sameIgnoringCase "received" "rport" = false
    decide +kernel
  show (v.params.set (.of "received" ip.text)).named? "rport" = _
  rw [Params.named?_set, hother]
  rfl

theorem returnPort_setReceived (v : ViaEntry) (ip : IpAddress) :
    (v.setReceived ip).returnPort = v.returnPort := by
  unfold returnPort
  rw [named?_setReceived]

theorem received?_setReceived (v : ViaEntry) (ip : IpAddress) :
    (v.setReceived ip).received? = some ip.text := by
  have hself : (Param.of "received" ip.text).isNamed "received" = true :=
    Text.sameIgnoringCase_self "received"
  show ((v.params.set (.of "received" ip.text)).named? "received").bind Param.value = _
  rw [Params.named?_set, if_pos hself]
  rfl

theorem returnPort_setReturnPort (v : ViaEntry) (port : UInt16) :
    (v.setReturnPort (some port)).returnPort = .known port := by
  have hself : (Param.of "rport" (toString port.toNat)).isNamed "rport" = true :=
    Text.sameIgnoringCase_self "rport"
  have hnamed : (v.setReturnPort (some port)).params.named? "rport" =
      some (.of "rport" (toString port.toNat)) := by
    show (v.params.set (.of "rport" (toString port.toNat))).named? "rport" = _
    rw [Params.named?_set, if_pos hself]
  unfold returnPort
  simp only [hnamed, Param.of, Option.bind_some, Decimal.word16?_toString]

theorem received?_setReturnPort (v : ViaEntry) (port : UInt16) :
    (v.setReturnPort (some port)).received? = v.received? := by
  have hother : (Param.of "rport" (toString port.toNat)).isNamed "received" = false := by
    show Text.sameIgnoringCase "rport" "received" = false
    decide +kernel
  show ((v.params.set (.of "rport" (toString port.toNat))).named? "received").bind Param.value = _
  rw [Params.named?_set, hother]
  rfl

/-- The address of the source is what an entry that noted it gives back. -/
theorem responseHost_noteSource (v : ViaEntry) (source : Endpoint) :
    (v.noteSource source).responseHost = source.ip.text := by
  have hreceived : (v.noteSource source).received? = some source.ip.text := by
    unfold noteSource
    simp only
    -- whether the port is written as well has no part in it
    split
    · rw [received?_setReturnPort, received?_setReceived]
    · exact received?_setReceived v source.ip
  rw [responseHost, hreceived]
  rfl

/-- The port of the source is noted if it was asked for, and otherwise the entry says what it
said. -/
theorem responsePort_noteSource (v : ViaEntry) (source : Endpoint) :
    (v.noteSource source).responsePort =
      match v.returnPort with
      | .asked => source.port
      | .known port => port
      | .absent => v.resolvedPort := by
  unfold responsePort
  rw [resolvedPort_noteSource]
  unfold noteSource
  simp only [returnPort_setReceived]
  cases hr : v.returnPort with
  | asked => simp only [returnPort_setReturnPort]
  | known port => simp only [returnPort_setReceived, hr]
  | absent => simp only [returnPort_setReceived, hr]

end ViaEntry

/-! ## Reading -/

/-- A Via value that is read holds an entry. -/
theorem Via.parse_ne_nil (value : String) : Via.parse value ≠ .ok [] := by
  intro h
  unfold Via.parse at h
  split at h
  · rename_i parts hparts
    exact Outcome.ne_nil_of_mapM h (Reader.ne_nil_of_sepBy1 hparts) rfl
  · cases h
  · cases h

end SipProxy
