import SipProxy.Proofs.Text.Blank
import SipProxy.Proofs.Text.Decimal
import SipProxy.Transport.Hop

/-!
# Hops that are written and read again

A hop is read back from its text, as a backend and as a next hop, whatever its host is made of
(`Hop.parse_written`), as long as the host has no brackets of its own and no white space around it.
Three separators are looked for in a text whose host may hold all three. The protocol comes before
the first `://`, since no protocol holds a colon. A bracketed host ends at the first closing
bracket, since it holds none. A bare host ends at the last colon, and it has to be the only one:
that is why a host with a colon is written in brackets, and refused without them.
-/

namespace SipProxy

/-! ## Hosts -/

/-- A host that a hop can be at: there is one, without brackets and without white space around
it. -/
structure Host.IsPlain (host : String) : Prop where
  ne : host ≠ ""
  noOpen : '[' ∉ host.toList
  noClose : ']' ∉ host.toList
  trimmed : Text.trim host = host

namespace Host.IsPlain

variable {host : String}

theorem unbracket (h : IsPlain host) : Host.unbracket host = host := by
  unfold Host.unbracket
  split
  · rename_i rest hrest
    exact absurd (hrest ▸ List.mem_cons_self) h.noOpen
  · rfl

theorem toList_ne_nil (h : IsPlain host) : host.toList ≠ [] :=
  fun hnil => h.ne (String.toList_eq_nil_iff.1 hnil)

theorem isEmpty_toList (h : IsPlain host) : host.toList.isEmpty = false :=
  List.isEmpty_eq_false_iff.2 h.toList_ne_nil

/-- What begins with the host begins with no white space. -/
theorem isBlank_head (h : IsPlain host) (rest : List Char) :
    ∀ c ∈ (host.toList ++ rest).head?, Text.isBlank c = false := by
  have hhead := (Text.trim_eq_self_iff.1 h.trimmed).1
  obtain ⟨c, host', hhost⟩ := List.exists_cons_of_ne_nil h.toList_ne_nil
  rw [hhost] at hhead ⊢
  exact hhead

theorem ne_open_head (h : IsPlain host) (rest : List Char) :
    ∀ cs, host.toList ++ rest ≠ '[' :: cs := by
  intro cs hcs
  obtain ⟨c, host', hhost⟩ := List.exists_cons_of_ne_nil h.toList_ne_nil
  rw [hhost, List.cons_append, List.cons.injEq] at hcs
  exact h.noOpen (by rw [hhost, hcs.1]; exact List.mem_cons_self)

end Host.IsPlain

/-! ## Where a text is cut -/

theorem Decimal.colon_notMem_toString (n : Nat) : ':' ∉ (toString n).toList := fun h =>
  absurd (isDigit_of_mem_toString h) (by decide)

/-- A text that ends in a number ends in no white space. -/
theorem Text.trimEnd_append_toString (s : String) (n : Nat) :
    trimEnd (s ++ toString n) = s ++ toString n := by
  have hne : toString n ≠ "" := by
    intro h
    have hnil := congrArg String.toList h
    rw [Decimal.toList_toString] at hnil
    exact Nat.toDigits_ne_nil hnil
  rw [trimEnd_append_iff s hne, trimEnd_eq_self_iff]
  intro c hc
  exact Decimal.not_isBlank_of_isDigit (Decimal.isDigit_of_mem_toString (List.mem_of_getLast? hc))

namespace Hop

variable {host port : List Char}

theorem cutPort?_of_bare {s : List Char} (hs : ∀ cs, s ≠ '[' :: cs) :
    cutPort? s =
      match Text.cutLast ':' s with
      | some (host, port) => if host.contains ':' then none else some (host, some port)
      | none => some (s, none) := by
  unfold cutPort?
  split
  · exact absurd rfl (hs _)
  · rfl

theorem cutPort?_bracketed (hc : ']' ∉ host) :
    cutPort? ('[' :: (host ++ [']'])) = some (host, none) := by
  unfold cutPort?
  simp only [Text.cutFirst_eq_some.2 ⟨rfl, hc⟩]

theorem cutPort?_bracketed_port (hc : ']' ∉ host) :
    cutPort? ('[' :: (host ++ ']' :: ':' :: port)) = some (host, some port) := by
  unfold cutPort?
  simp only [Text.cutFirst_eq_some.2 ⟨rfl, hc⟩]

theorem cutPort?_bare (hb : ∀ cs, host ≠ '[' :: cs) (hc : ':' ∉ host) :
    cutPort? host = some (host, none) := by
  rw [cutPort?_of_bare hb, Text.cutLast_eq_none.2 hc]

/-- Of a bare host and a port the host must have no colon. -/
theorem cutPort?_bare_port (hb : ∀ cs, host ++ ':' :: port ≠ '[' :: cs) (hp : ':' ∉ port) :
    cutPort? (host ++ ':' :: port) =
      if host.contains ':' then none else some (host, some port) := by
  rw [cutPort?_of_bare hb, Text.cutLast_eq_some.2 ⟨rfl, hp⟩]

/-! ## Next hops -/

variable {h : Hop}

theorem ofChars?_of_port {s : List Char} (hh : Host.IsPlain h.host)
    (hs : cutPort? s = some (h.host.toList, some (toString h.port.toNat).toList)) :
    ofChars? h.protocol s = some h := by
  unfold ofChars?
  simp only [hs, hh.isEmpty_toList, Bool.false_eq_true, if_false, String.ofList_toList,
    Decimal.word16?_toString, Option.map_some, of, hh.unbracket]

theorem ofChars?_of_no_port {s : List Char} (hh : Host.IsPlain h.host)
    (hs : cutPort? s = some (h.host.toList, none)) :
    ofChars? h.protocol s = some { h with port := h.protocol.defaultPort } := by
  unfold ofChars?
  simp only [hs, hh.isEmpty_toList, Bool.false_eq_true, if_false, String.ofList_toList, of,
    hh.unbracket]

theorem parse_of_trimmed {p : Protocol} {s : String} (hs : Text.trim s = s) :
    parse p s =
      (ofChars? p s.toList).elim (.error (.config s!"invalid next hop '{s}'")) .ok := by
  unfold parse
  simp only [hs]
  cases ofChars? p s.toList <;> rfl

theorem toList_bare (host : String) (n : Nat) :
    (host ++ ":" ++ toString n).toList = host.toList ++ ':' :: (toString n).toList := by
  rw [String.toList_append, String.toList_append, List.append_assoc]
  rfl

theorem toList_bracketed (host : String) (n : Nat) :
    ("[" ++ host ++ "]:" ++ toString n).toList =
      '[' :: (host.toList ++ ']' :: ':' :: (toString n).toList) := by
  simp only [String.toList_append, List.append_assoc]
  rfl

theorem trim_bare (hh : Host.IsPlain h.host) :
    Text.trim (h.host ++ ":" ++ toString h.port.toNat) =
      h.host ++ ":" ++ toString h.port.toNat := by
  refine Text.trim_eq_self ?_ (Text.trimEnd_append_toString _ _)
  rw [toList_bare]
  exact hh.isBlank_head _

theorem trim_bracketed (host : String) (n : Nat) :
    Text.trim ("[" ++ host ++ "]:" ++ toString n) = "[" ++ host ++ "]:" ++ toString n := by
  refine Text.trim_eq_self ?_ (Text.trimEnd_append_toString _ _)
  rw [toList_bracketed]
  rintro c ⟨⟩
  decide

theorem ofChars?_bare (hh : Host.IsPlain h.host) :
    ofChars? h.protocol (h.host ++ ":" ++ toString h.port.toNat).toList =
      if ':' ∈ h.host.toList then none else some h := by
  have hcut := cutPort?_bare_port (hh.ne_open_head _)
    (Decimal.colon_notMem_toString h.port.toNat)
  rw [toList_bare]
  split
  · rename_i hc
    rw [if_pos (List.contains_iff_mem.2 hc)] at hcut
    unfold ofChars?
    rw [hcut]
  · rename_i hc
    rw [if_neg (mt List.contains_iff_mem.1 hc)] at hcut
    exact ofChars?_of_port hh hcut

theorem ofChars?_bracketed (hh : Host.IsPlain h.host) :
    ofChars? h.protocol ("[" ++ h.host ++ "]:" ++ toString h.port.toNat).toList = some h := by
  rw [toList_bracketed]
  exact ofChars?_of_port hh (cutPort?_bracketed_port hh.noClose)

/-! ## Backends -/

theorem hostPortText_eq (h : Hop) :
    h.hostPortText =
      if ':' ∈ h.host.toList then "[" ++ h.host ++ "]:" ++ toString h.port.toNat
      else h.host ++ ":" ++ toString h.port.toNat := by
  unfold hostPortText
  split
  · rename_i hc
    rw [if_pos (List.contains_iff_mem.1 hc)]
    rfl
  · rename_i hc
    rw [if_neg (mt List.contains_iff_mem.2 hc)]
    rfl

theorem ofChars?_hostPortText (hh : Host.IsPlain h.host) :
    ofChars? h.protocol h.hostPortText.toList = some h := by
  rw [hostPortText_eq]
  split
  · exact ofChars?_bracketed hh
  · rename_i hc
    rw [ofChars?_bare hh, if_neg hc]

theorem trim_hostPortText (hh : Host.IsPlain h.host) :
    Text.trim h.hostPortText = h.hostPortText := by
  rw [hostPortText_eq]
  split
  · exact trim_bracketed _ _
  · exact trim_bare hh

/-- The protocol of a backend is what stands before the first `://`, whatever the host holds. -/
theorem cutFirstText_protocol (p : Protocol) (rest : List Char) :
    Text.cutFirstText [':', '/', '/'] (p.lowerText.toList ++ ':' :: '/' :: '/' :: rest) =
      some (p.lowerText.toList, rest) := by
  cases p <;> rfl

theorem parse_lowerText (p : Protocol) : Protocol.parse p.lowerText = .ok p := by
  have hread : Protocol.ofText? p.lowerText = some p := by
    cases p <;> decide +kernel
  rw [Protocol.parse, hread]

theorem trim_targetText (h : Hop) : Text.trim h.targetText = h.targetText := by
  have hend : Text.trimEnd h.targetText = h.targetText := by
    rw [targetText, hostPortText_eq]
    split
    · simp only [← String.append_assoc]
      exact Text.trimEnd_append_toString _ _
    · simp only [← String.append_assoc]
      exact Text.trimEnd_append_toString _ _
  refine Text.trim_eq_self ?_ hend
  simp only [targetText, String.toList_append]
  cases h.protocol <;> (rintro c ⟨⟩; decide)

theorem parseTarget_targetText (hh : Host.IsPlain h.host) : parseTarget h.targetText = .ok h := by
  have hlist : h.targetText.toList =
      h.protocol.lowerText.toList ++ ':' :: '/' :: '/' :: h.hostPortText.toList := by
    rw [targetText, String.toList_append, String.toList_append, List.append_assoc]
    rfl
  have htrim : Text.trimChars h.hostPortText.toList = h.hostPortText.toList := by
    have ht := congrArg String.toList (trim_hostPortText hh)
    rwa [Text.trim, String.toList_ofList] at ht
  unfold parseTarget
  simp only [trim_targetText, hlist, cutFirstText_protocol, String.ofList_toList, parse_lowerText,
    bind, Except.bind, pure, Except.pure, htrim, ofChars?_hostPortText hh]

/-! ## What is read back -/

/-- The port of a hop that names none. -/
theorem defaultPort_eq (p : Protocol) : p.defaultPort = if p = .tls then 5061 else 5060 := by
  have hlower : p.text.toLower = p.lowerText := by
    cases p <;> decide +kernel
  have htls : "tls".toLower = "tls" := by decide +kernel
  unfold Protocol.defaultPort portFor Text.sameIgnoringCase
  simp only [hlower, htls]
  cases p <;> rfl

theorem parse_bare (hh : Host.IsPlain h.host) :
    let bare := h.host ++ ":" ++ toString h.port.toNat
    parse h.protocol bare =
      if ':' ∈ h.host.toList then .error (.config s!"invalid next hop '{bare}'") else .ok h := by
  intro bare
  rw [parse_of_trimmed (trim_bare hh), ofChars?_bare hh]
  split
  · rw [Option.elim_none]
  · rw [Option.elim_some]

theorem parse_bare_of_no_port (hh : Host.IsPlain h.host) (hc : ':' ∉ h.host.toList) :
    parse h.protocol h.host = .ok { h with port := if h.protocol = .tls then 5061 else 5060 } := by
  have hhead : ∀ cs, h.host.toList ≠ '[' :: cs := by
    simpa using hh.ne_open_head []
  rw [parse_of_trimmed hh.trimmed, ofChars?_of_no_port hh (cutPort?_bare hhead hc),
    Option.elim_some, defaultPort_eq]

theorem parse_bracketed (hh : Host.IsPlain h.host) :
    parse h.protocol ("[" ++ h.host ++ "]:" ++ toString h.port.toNat) = .ok h := by
  rw [parse_of_trimmed (trim_bracketed _ _), ofChars?_bracketed hh, Option.elim_some]

theorem parse_bracketed_of_no_port (hh : Host.IsPlain h.host) :
    parse h.protocol ("[" ++ h.host ++ "]") =
      .ok { h with port := if h.protocol = .tls then 5061 else 5060 } := by
  have hlist : ("[" ++ h.host ++ "]").toList = '[' :: (h.host.toList ++ [']']) := by
    simp only [String.toList_append, List.append_assoc]
    rfl
  have htrim : Text.trim ("[" ++ h.host ++ "]") = "[" ++ h.host ++ "]" := by
    rw [Text.trim_eq_self_iff, hlist]
    refine ⟨?_, ?_⟩
    · rintro c ⟨⟩
      decide
    · rw [← List.cons_append, List.getLast?_concat]
      rintro c ⟨⟩
      decide
  rw [parse_of_trimmed htrim, hlist, ofChars?_of_no_port hh (cutPort?_bracketed hh.noClose),
    Option.elim_some, defaultPort_eq]

/-- Hops are read back from what is written. A backend is read back from its text. A next hop is
read back from its host and its port, the host in brackets if it has a colon, and from its host
alone with the port of its protocol. A host with a colon, a colon and a port are refused. -/
theorem parse_written (hh : Host.IsPlain h.host) :
    parseTarget h.targetText = .ok h ∧
    (':' ∉ h.host.toList →
      parse h.protocol (h.host ++ ":" ++ toString h.port.toNat) = .ok h ∧
      parse h.protocol h.host =
        .ok { h with port := if h.protocol = .tls then 5061 else 5060 }) ∧
    (':' ∈ h.host.toList →
      parse h.protocol ("[" ++ h.host ++ "]:" ++ toString h.port.toNat) = .ok h ∧
      parse h.protocol ("[" ++ h.host ++ "]") =
        .ok { h with port := if h.protocol = .tls then 5061 else 5060 } ∧
      let bare := h.host ++ ":" ++ toString h.port.toNat
      parse h.protocol bare = .error (.config s!"invalid next hop '{bare}'")) := by
  refine ⟨parseTarget_targetText hh, fun hc => ⟨?_, parse_bare_of_no_port hh hc⟩,
    fun hc => ⟨parse_bracketed hh, parse_bracketed_of_no_port hh, ?_⟩⟩
  · exact (parse_bare hh).trans (if_neg hc)
  · exact (parse_bare hh).trans (if_pos hc)

/-- A host that holds the separator of the protocol and that of the port. -/
theorem parse_written_of_separators :
    Host.IsPlain "a://b:1" ∧ ':' ∈ "a://b:1".toList ∧
      targetText ⟨.tls, "a://b:1", 65535⟩ = "tls://[a://b:1]:65535" ∧
      parseTarget (targetText ⟨.tls, "a://b:1", 65535⟩) = .ok ⟨.tls, "a://b:1", 65535⟩ ∧
      parse .tls ("[" ++ "a://b:1" ++ "]") = .ok ⟨.tls, "a://b:1", 5061⟩ := by
  have hh : Host.IsPlain "a://b:1" := ⟨by decide, by decide, by decide, by decide +kernel⟩
  have hc : ':' ∈ "a://b:1".toList := by decide
  obtain ⟨htarget, -, hcolon⟩ := @parse_written ⟨.tls, "a://b:1", 65535⟩ hh
  obtain ⟨-, halone, -⟩ := hcolon hc
  exact ⟨hh, hc, by decide +kernel, htarget, halone⟩

end Hop

end SipProxy
