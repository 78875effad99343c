import SipProxy.Proofs.Uri.Spelling

/-!
# SIP URIs that are written and read again

A SIP URI that was read is written as text that is read as the same URI (`SipUri.parseBody_text`,
`SipUri.isWritable_of_parseBody`). It is not the text that was read: the scheme is written in lower
case, and a port of zero or with leading zeros otherwise than it was. So what is kept is stated of
the value (`SipUri.IsWritable`), and of the text that the value is written as no more than what a
bracket or a header needs to know of it: which octets it has, and that no white space stands at its
end.
-/

namespace SipProxy

open Lexeme Reader Utf8

variable {rest : Octets}

/-! ## Schemes -/

/-- A letter, then letters, digits and marks. -/
def Lexeme.IsScheme (t : String) : Prop :=
  IsRun isSchemeOctet t ∧ ∀ b ∈ (encode t).head?, isAlpha b = true

instance (t : String) : Decidable (IsScheme t) :=
  decidable_of_iff (IsRun isSchemeOctet t ∧ (encode t).head?.all isAlpha = true)
    (and_congr_right' (Option.all_eq_true isAlpha _))

namespace Lexeme

theorem scheme_text {t : String} (h : IsScheme t) (hr : Stops isSchemeOctet rest) :
    scheme (encode t ++ rest) = some (encode t, rest) := by
  obtain ⟨b, w, hw⟩ := List.exists_cons_of_ne_nil (encode_ne_nil h.1.1)
  have hb : isAlpha b = true := h.2 b (by rw [hw]; rfl)
  have hread : run isSchemeOctet (encode t ++ rest) = (encode t, rest) :=
    run_eq_iff.2 ⟨rfl, h.1.2, hr⟩
  rw [hw, List.cons_append] at hread ⊢
  unfold scheme
  simp only [hb, hread, if_true]

theorem spells_scheme : Spells scheme id fun w => IsText w ∧ IsScheme (decode w) := by
  have hcut : CutsText isSchemeOctet := .inl (isAscii_isAlnum.or (isAscii_isOneOf (by decide)))
  intro s w rest hs h
  unfold scheme at h
  split at h
  · rename_i b s'
    split at h
    · rename_i hb
      obtain ⟨hsplit, ⟨hw, hrun⟩, hrest⟩ := spells_run hcut hs h
      -- the letter in front is of the class too, so it is the first octet of the run
      obtain ⟨w', rfl⟩ : ∃ w', w = b :: w' := by
        cases w with
        | nil =>
          obtain ⟨hnil, -, hstop⟩ := run_eq_iff.1 (Option.some.inj h)
          rw [List.nil_append] at hnil
          rw [← hnil, stops_cons, isSchemeOctet, isAlnum, hb] at hstop
          cases hstop
        | cons b' w' => exact ⟨w', by rw [(List.cons.inj hsplit).1]⟩
      refine ⟨hsplit, ⟨hw, ⟨?_, hrun⟩, ?_⟩, hrest⟩
      · intro hempty
        cases decode_eq_empty hempty
      · rw [hw]
        rintro x ⟨⟩
        exact hb
    · cases h
  · cases h

end Lexeme

theorem Uri.cutScheme_eq_ok {text scheme : String} :
    cutScheme text = .ok (scheme, rest) ↔
      IsScheme scheme ∧ encode text = encode scheme ++ ascii ':' :: rest := by
  unfold cutScheme
  constructor
  · intro h
    split at h
    · rename_i w rest' hread
      cases h
      obtain ⟨hsplit, ⟨hw, hscheme⟩, -⟩ := spells_scheme (isText_encode text) hread
      refine ⟨hscheme, ?_⟩
      rw [hw]
      exact hsplit
    · cases h
    · cases h
  · rintro ⟨hscheme, hsplit⟩
    rw [hsplit, scheme_text hscheme (stops_cons.2 (by decide))]
    show Except.ok (decode (encode scheme), rest) = _
    rw [decode_encode]

theorem Scheme.isScheme_text (scheme : Scheme) : IsScheme scheme.text := by
  cases scheme
  · decide
  · decide

theorem Scheme.isAlnum_of_mem_text (scheme : Scheme) :
    ∀ b ∈ encode scheme.text, isAlnum b = true := by
  cases scheme
  · exact List.all_eq_true.1 (by decide)
  · exact List.all_eq_true.1 (by decide)

/-! ## SIP URIs -/

/-- A URI parameter that is read as it is written. -/
structure Param.IsUriParam (q : Param) : Prop where
  name : IsRun isParamOctet q.name
  value : ∀ v ∈ q.value, IsRun isParamOctet v
  flag : q.value = none → Uri.flagNames.any (Text.sameIgnoringCase q.name) = true

/-- A URI header that is read as it is written. -/
structure Param.IsUriHeader (q : Param) : Prop where
  name : IsRun isHeaderNameOctet q.name
  value : ∃ v, q.value = some v ∧ IsHeaderValue v

namespace SipUri

variable {u : SipUri}

/-- A SIP URI each part of which is read as it is written, and which ends with no white space. -/
structure IsWritable (u : SipUri) : Prop where
  user : ∀ x ∈ u.user, IsRun isUserOctet x
  password : ∀ x ∈ u.password, u.user ≠ none ∧ ∀ b ∈ encode x, isPasswordOctet b = true
  host : IsHost u.host
  params : ∀ q ∈ u.params, q.IsUriParam
  headers : ∀ q ∈ u.headers, q.IsUriHeader
  ends : Text.trimEnd u.text = u.text

/-- What stands behind the scheme. -/
def bodyText (u : SipUri) : String :=
  u.userText ++ u.host ++ portText u.port ++ u.params.text ++ headersText u.headers

theorem text_eq (u : SipUri) : u.text = u.scheme.text ++ ":" ++ u.bodyText := by
  simp [text, bodyText, String.append_assoc]

theorem encode_text (u : SipUri) :
    encode u.text = encode u.scheme.text ++ ascii ':' :: encode u.bodyText := by
  rw [text_eq]
  exact encode_append_mark (by decide) _ _

theorem encode_userText (u : SipUri) :
    encode u.userText = u.user.elim [] fun x =>
      encode x ++ (u.password.elim [] fun y => ascii ':' :: encode y) ++ [ascii '@'] := by
  have hcolon : encode ":" = [ascii ':'] := by decide
  have hat : encode "@" = [ascii '@'] := by decide
  unfold userText
  cases u.user with
  | none => rfl
  | some x =>
    cases u.password with
    | none => simp [encode_append, hat]
    | some y => simp [encode_append, hcolon, hat]

/-- The parts that a URI is written in. -/
def parts (u : SipUri) : SipUriParts where
  user := u.user.map fun x => (encode x, u.password.map encode)
  host := encode u.host
  port := portOctets u.port
  params := u.params.map Param.octets
  headers := if u.headers = [] then none else some (u.headers.map Param.octets)

/-- What stands behind the host ends a host, a port and the at sign that there may be. -/
theorem ends_headersText (hs : Params) : Ends ['?'] (encode (headersText hs)) := by
  rw [encode_headersText]
  split
  · exact ends_nil _
  · exact ends_cons (by simp) _

theorem ends_paramsText (u : SipUri) :
    Ends [';', '?'] (encode u.params.text ++ encode (headersText u.headers)) := by
  cases hps : u.params with
  | nil => exact (ends_headersText u.headers).mono (by simp)
  | cons p ps =>
    rw [encode_paramsText, List.map_cons, List.flatMap_cons, List.append_assoc, List.cons_append]
    exact ends_cons (by simp) _

theorem isPasswordOctet_of_host {t : String} (h : IsHost t) :
    ∀ b ∈ encode t, isPasswordOctet b = true :=
  h.forall_octets
    (not_or_of (isOneOf_eq_false_of (by decide)) (isOneOf_eq_false_of (by decide)))

theorem isPasswordOctet_of_portText (n : UInt16) :
    ∀ b ∈ encode (portText n), isPasswordOctet b = true := by
  have hdigit : ∀ b, isDigit b = true → isPasswordOctet b = true :=
    not_or_of (isOneOf_eq_false_of (by decide)) (isOneOf_eq_false_of (by decide))
  intro b hb
  rcases mem_portText hb with rfl | hb
  · decide
  · exact hdigit b hb

/-- A user is read if there is one, and nothing is taken for a user if there is none. -/
theorem optional_userInfo_text (h : u.IsWritable) (hr : Ends [';', '?'] rest) :
    optional userInfo (encode u.userText ++ (encode u.host ++ (encode (portText u.port) ++ rest))) =
      (u.parts.user, encode u.host ++ (encode (portText u.port) ++ rest)) := by
  rw [encode_userText]
  unfold parts
  cases hu : u.user with
  | none =>
    apply optional_of_none
    rw [Option.elim_none, List.nil_append, ← List.append_assoc]
    refine userInfo_eq_none ?_ hr
    intro b hb
    rcases List.mem_append.1 hb with hb | hb
    · exact isPasswordOctet_of_host h.host b hb
    · exact isPasswordOctet_of_portText u.port b hb
  | some x =>
    apply optional_of_some
    rw [Option.elim_some, List.append_assoc (_ ++ _) [ascii '@'], List.singleton_append]
    exact userInfo_text (h.user x hu) (fun y hy => (h.password y hy).2) _

theorem optional_uriHeaders_text (h : u.IsWritable) :
    optional (after (octet (ascii '?')) uriHeaders) (encode (headersText u.headers)) =
      (u.parts.headers, []) := by
  have hall := h.headers
  rw [encode_headersText]
  unfold parts
  cases hhs : u.headers with
  | nil => rfl
  | cons q qs =>
    rw [hhs] at hall
    rw [if_neg (List.cons_ne_nil q qs), if_neg (List.cons_ne_nil q qs)]
    apply optional_of_some
    refine after_eq_some.2 ⟨_, octet_eq_some.2 rfl, ?_⟩
    refine uriHeaders_text (fun x hx => (hall x hx).name) ?_
    intro x hx v hv
    obtain ⟨v', hv', hclass⟩ := (hall x hx).value
    rw [hv'] at hv
    cases hv
    exact hclass

/-- A SIP URI is taken apart as it was put together. -/
theorem sipUriParts_text (h : u.IsWritable) :
    sipUriParts (encode u.bodyText) = some (u.parts, []) := by
  have hparams := ends_paramsText u
  have hbody : encode u.bodyText = encode u.userText ++ (encode u.host ++
      (encode (portText u.port) ++ (encode u.params.text ++ encode (headersText u.headers)))) := by
    simp only [bodyText, encode_append, List.append_assoc]
  have huser := optional_userInfo_text h hparams
  have hhost := host_text h.host
    ((ends_portText u.port hparams).stops (p := isHostOctet) (by decide))
  have hport := optional_port_text u.port (hparams.stops (p := isDigit) (by decide))
    (hparams.octet_eq_none (by decide))
  have hreadParams := many_uriParam_text (fun q hq => (h.params q hq).name)
    (fun q hq => (h.params q hq).value) (ends_headersText u.headers)
  unfold sipUriParts
  rw [hbody, huser]
  simp only [hhost, hport, hreadParams, optional_uriHeaders_text h]
  rfl

theorem checkParam_octets {q : Param} (h : q.IsUriParam) : checkParam q.octets = .ok q := by
  have hname := decode_encode q.name
  obtain ⟨name, v⟩ := q
  unfold checkParam Param.octets
  cases v with
  | none =>
    have hflag := h.flag rfl
    simp only at hname hflag
    simp only [Option.map_none, hname, hflag, if_true]
    rfl
  | some v =>
    simp only at hname
    simp only [Option.map_some, hname, decode_encode]
    rfl

theorem checkHeader_octets {q : Param} (h : q.IsUriHeader) : checkHeader q.octets = .ok q := by
  obtain ⟨v, hv, -⟩ := h.value
  obtain ⟨name, value⟩ := q
  simp only at hv
  subst hv
  unfold checkHeader Param.octets
  simp only [Option.map_some, decode_encode]
  rfl

theorem ofParts_parts (h : u.IsWritable) (whole : String) :
    ofParts u.scheme whole u.parts = .ok u := by
  have hparams : u.parts.params.mapM checkParam = .ok u.params := by
    have hmap : (u.params.map Param.octets).mapM checkParam = .ok (u.params.map id) :=
      Outcome.mapM_map fun q hq => checkParam_octets (h.params q hq)
    rwa [List.map_id] at hmap
  have hheaders : (u.parts.headers.getD []).mapM checkHeader = .ok u.headers := by
    have hget : u.parts.headers.getD [] = u.headers.map Param.octets := by
      unfold parts
      split
      · rename_i hnil
        rw [hnil]
        rfl
      · rfl
    have hmap : (u.headers.map Param.octets).mapM checkHeader = .ok (u.headers.map id) :=
      Outcome.mapM_map fun q hq => checkHeader_octets (h.headers q hq)
    rw [List.map_id] at hmap
    rwa [hget]
  have huser : (u.parts.user.map fun x => decode x.1) = u.user := by
    unfold parts
    cases u.user with
    | none => rfl
    | some x => simp [decode_encode]
  have hpassword : (u.parts.user.bind fun x => x.2.map decode) = u.password := by
    unfold parts
    cases hu : u.user with
    | none =>
      cases hp : u.password with
      | none => rfl
      | some y => exact absurd hu (h.password y hp).1
    | some x => cases u.password <;> simp [decode_encode]
  unfold ofParts
  rw [hparams, hheaders]
  show (do
    let port ← checkPort (portOctets u.port) whole
    return _) = _
  rw [checkPort_portOctets, huser, hpassword]
  show Except.ok (SipUri.mk u.scheme u.user u.password (decode (encode u.host)) u.port u.params
    u.headers) = _
  rw [decode_encode]

theorem parseBody_text (h : u.IsWritable) (whole : String) :
    parseBody u.scheme whole (encode u.bodyText) = .ok u := by
  unfold parseBody
  rw [sipUriParts_text h]
  exact ofParts_parts h whole

/-! ### The octets of a SIP URI -/

/-- What is known of name, value and equals sign is known of a parameter. -/
theorem forall_mem_paramText {P : UInt8 → Prop} {q : Param} (hname : ∀ b ∈ encode q.name, P b)
    (hvalue : ∀ v ∈ q.value, ∀ b ∈ encode v, P b) (hequal : P (ascii '=')) :
    ∀ b ∈ encode q.text, P b := by
  intro b hb
  rw [← assigned_octets] at hb
  unfold assigned Param.octets at hb
  rcases List.mem_append.1 hb with hb | hb
  · exact hname b hb
  · cases hv : q.value with
    | none =>
      rw [hv] at hb
      cases hb
    | some v =>
      rw [hv] at hb
      rcases List.mem_cons.1 hb with rfl | hb
      · exact hequal
      · exact hvalue v hv b hb

theorem isBreak_of_user {x : String} (h : IsRun isUserOctet x) :
    ∀ b ∈ encode x, isBreak b = false := by
  have hclass : ∀ b, isUserOctet b = true → isBreak b = false := isOneOf_eq_false_of (by decide)
  intro b hb
  exact hclass b (h.2 b hb)

theorem isBreak_userText (h : u.IsWritable) : ∀ b ∈ encode u.userText, isBreak b = false := by
  have hclass : ∀ b, isPasswordOctet b = true → isBreak b = false :=
    isOneOf_eq_false_of (by decide)
  intro b hb
  rw [encode_userText] at hb
  cases hu : u.user with
  | none =>
    rw [hu] at hb
    cases hb
  | some x =>
    rw [hu, Option.elim_some] at hb
    rcases List.mem_append.1 hb with hb | hb
    · rcases List.mem_append.1 hb with hb | hb
      · exact isBreak_of_user (h.user x hu) b hb
      · cases hp : u.password with
        | none =>
          rw [hp] at hb
          cases hb
        | some y =>
          rw [hp, Option.elim_some] at hb
          rcases List.mem_cons.1 hb with rfl | hb
          · decide
          · exact hclass b ((h.password y hp).2 b hb)
    · rw [List.mem_singleton.1 hb]
      decide

theorem isBreak_portText (n : UInt16) : ∀ b ∈ encode (portText n), isBreak b = false := by
  have hclass : ∀ b, isPasswordOctet b = true → isBreak b = false :=
    isOneOf_eq_false_of (by decide)
  intro b hb
  exact hclass b (isPasswordOctet_of_portText n b hb)

theorem isBreak_paramsText (h : u.IsWritable) :
    ∀ b ∈ encode u.params.text, isBreak b = false := by
  have hclass : ∀ b, isParamOctet b = true → isBreak b = false := isOneOf_eq_false_of (by decide)
  intro b hb
  rw [encode_paramsText] at hb
  obtain ⟨p, hp, hb⟩ := List.mem_flatMap.1 hb
  obtain ⟨q, hq, rfl⟩ := List.mem_map.1 hp
  rcases List.mem_cons.1 hb with rfl | hb
  · decide
  · have hequal : isBreak (ascii '=') = false := by decide
    rw [assigned_octets] at hb
    refine forall_mem_paramText (P := fun b => isBreak b = false) ?_ ?_ hequal b hb
    · intro x hx
      exact hclass x ((h.params q hq).name.2 x hx)
    · intro v hv x hx
      exact hclass x (((h.params q hq).value v hv).2 x hx)

theorem isBreak_headersText (h : u.IsWritable) :
    ∀ b ∈ encode (headersText u.headers), isBreak b = false := by
  have hname : ∀ b, isHeaderNameOctet b = true → isBreak b = false :=
    isOneOf_eq_false_of (by decide)
  have hvalue : ∀ b, isHeaderValueOctet b = true → isBreak b = false :=
    isOneOf_eq_false_of (by decide)
  have hheader : ∀ q ∈ u.headers, ∀ b ∈ assigned q.octets, isBreak b = false := by
    intro q hq
    obtain ⟨v, hv, hclass⟩ := (h.headers q hq).value
    have hequal : isBreak (ascii '=') = false := by decide
    rw [assigned_octets]
    refine forall_mem_paramText (P := fun b => isBreak b = false) ?_ ?_ hequal
    · intro x hx
      exact hname x ((h.headers q hq).name.2 x hx)
    · intro v' hv' x hx
      rw [hv] at hv'
      cases hv'
      exact hvalue x (hclass x hx)
  intro b hb
  rw [encode_headersText] at hb
  split at hb
  · cases hb
  · rcases List.mem_cons.1 hb with rfl | hb
    · decide
    · cases hhs : u.headers with
      | nil =>
        rw [hhs] at hb
        cases hb
      | cons q qs =>
        rw [hhs] at hb hheader
        rcases List.mem_append.1 hb with hb | hb
        · exact hheader q List.mem_cons_self b hb
        · obtain ⟨p, hp, hb⟩ := List.mem_flatMap.1 hb
          obtain ⟨r, hr, rfl⟩ := List.mem_map.1 hp
          rcases List.mem_cons.1 hb with rfl | hb
          · decide
          · exact hheader r (List.mem_cons_of_mem q hr) b hb

/-- Nothing in a SIP URI ends an unquoted part of a header. -/
theorem IsWritable.isBreak_eq_false (h : u.IsWritable) :
    ∀ b ∈ encode u.text, isBreak b = false := by
  have hhost : ∀ b ∈ encode u.host, isBreak b = false :=
    h.host.forall_octets (isOneOf_eq_false_of (by decide))
  have hscheme : ∀ b, isSchemeOctet b = true → isBreak b = false :=
    isOneOf_eq_false_of (by decide)
  intro b hb
  rw [encode_text, List.mem_append, List.mem_cons] at hb
  rcases hb with hb | rfl | hb
  · exact hscheme b (u.scheme.isScheme_text.1.2 b hb)
  · decide
  · unfold bodyText at hb
    simp only [encode_append, List.mem_append] at hb
    rcases hb with (((hb | hb) | hb) | hb) | hb
    · exact isBreak_userText h b hb
    · exact hhost b hb
    · exact isBreak_portText u.port b hb
    · exact isBreak_paramsText h b hb
    · exact isBreak_headersText h b hb

end SipUri

/-! ### What is read of a SIP URI -/

/-- The octets that parts of a SIP URI were read from. -/
def Lexeme.SipUriParts.octets (parts : SipUriParts) : Octets :=
  parts.user.elim [] userOctets ++ parts.host ++ parts.port.elim [] (ascii ':' :: ·) ++
    (parts.params.flatMap fun p => ascii ';' :: assigned p) ++
    parts.headers.elim [] fun ps => ascii '?' :: joined ps

/-- The parts of a SIP URI are text, and each keeps to its classes. -/
structure Lexeme.SipUriParts.IsSpelled (parts : SipUriParts) : Prop where
  user : ∀ x ∈ parts.user, IsUser x
  host : IsText parts.host ∧ IsHost (decode parts.host)
  port : ∀ w ∈ parts.port, IsText w ∧ IsRun isDigit (decode w)
  params : ∀ p ∈ parts.params, IsAssigned isParamOctet (IsRun isParamOctet) p
  headers : ∀ ps ∈ parts.headers, ps ≠ [] ∧
    ∀ p ∈ ps, IsAssigned isHeaderNameOctet IsHeaderValue p

theorem Lexeme.spells_sipUriParts :
    Spells sipUriParts SipUriParts.octets SipUriParts.IsSpelled := by
  intro s parts rest hs h
  unfold sipUriParts at h
  cases huser : optional userInfo s with
  | mk user s₁ =>
    obtain ⟨rfl, husers, hs₁⟩ := spells_userInfo.optional hs huser
    simp only [huser] at h
    split at h
    · rename_i host s₂ hhost
      obtain ⟨rfl, hhostText, hs₂⟩ := spells_host hs₁ hhost
      cases hport : optional port s₂ with
      | mk digits s₃ =>
        obtain ⟨rfl, hdigits, hs₃⟩ := spells_port.optional hs₂ hport
        cases hparams : many uriParam s₃ with
        | mk params s₄ =>
          obtain ⟨rfl, hps, hs₄⟩ :=
            spells_uriParam.reads hs₃ ((many_eq_iff consumes_uriParam).1 hparams)
          cases hheaders : optional (after (octet (ascii '?')) uriHeaders) s₄ with
          | mk headers s₅ =>
            obtain ⟨rfl, hall, hrest⟩ :=
              (spells_uriHeaders.after_octet (by decide)).optional hs₄ hheaders
            simp only [hport, hparams, hheaders] at h
            cases h
            exact ⟨by simp [SipUriParts.octets], ⟨husers, hhostText, hdigits, hps, hall⟩, hrest⟩
    · cases h

namespace SipUri

variable {u : SipUri} {parts : SipUriParts} {scheme : Scheme} {whole : String}

theorem checkParam_eq_ok {p : Octets × Option Octets} {q : Param} (h : checkParam p = .ok q) :
    q = Param.ofOctets p ∧
      (q.value = none → Uri.flagNames.any (Text.sameIgnoringCase q.name) = true) := by
  obtain ⟨n, v⟩ := p
  unfold checkParam at h
  cases v with
  | some v =>
    cases h
    refine ⟨rfl, ?_⟩
    intro hv
    cases hv
  | none =>
    simp only at h
    split at h
    · rename_i hflag
      cases h
      exact ⟨rfl, fun _ => hflag⟩
    · cases h

theorem checkHeader_eq_ok {p : Octets × Option Octets} {q : Param} (h : checkHeader p = .ok q) :
    q = Param.ofOctets p ∧ q.value ≠ none := by
  obtain ⟨n, v⟩ := p
  unfold checkHeader at h
  cases v with
  | some v =>
    cases h
    refine ⟨rfl, ?_⟩
    intro hv
    cases hv
  | none => cases h

/-- What is made of the parts, as far as the text that is written tells. -/
structure IsMadeOf (scheme : Scheme) (parts : SipUriParts) (u : SipUri) : Prop where
  scheme : u.scheme = scheme
  user : u.user = parts.user.map fun x => decode x.1
  password : u.password = parts.user.bind fun x => x.2.map decode
  host : u.host = decode parts.host
  port : ∃ whole, checkPort parts.port whole = .ok u.port
  params : u.params = parts.params.map Param.ofOctets
  flags : ∀ q ∈ u.params, q.value = none →
    Uri.flagNames.any (Text.sameIgnoringCase q.name) = true
  headers : u.headers = (parts.headers.getD []).map Param.ofOctets
  values : ∀ q ∈ u.headers, q.value ≠ none

theorem ofParts_eq_ok (h : ofParts scheme whole parts = .ok u) : u.IsMadeOf scheme parts := by
  unfold ofParts at h
  obtain ⟨params, hparams, h⟩ := Outcome.bind_eq_ok.1 h
  obtain ⟨headers, hheaders, h⟩ := Outcome.bind_eq_ok.1 h
  obtain ⟨port, hport, h⟩ := Outcome.bind_eq_ok.1 h
  cases h
  have hall : ∀ p ∈ parts.params, True := fun _ _ => trivial
  have hall' : ∀ p ∈ parts.headers.getD [], True := fun _ _ => trivial
  exact {
    scheme := rfl
    user := rfl
    password := rfl
    host := rfl
    port := ⟨whole, hport⟩
    params := Outcome.eq_map_of_mapM hparams fun h => (checkParam_eq_ok h).1
    flags := Outcome.forall_of_mapM hparams hall fun _ h => (checkParam_eq_ok h).2
    headers := Outcome.eq_map_of_mapM hheaders fun h => (checkHeader_eq_ok h).1
    values := Outcome.forall_of_mapM hheaders hall' fun _ h => (checkHeader_eq_ok h).2 }

namespace IsMadeOf

variable (h : u.IsMadeOf scheme parts) (hparts : parts.IsSpelled)

include h hparts

theorem encode_userText : encode u.userText = parts.user.elim [] userOctets := by
  rw [SipUri.encode_userText, h.user, h.password]
  cases hu : parts.user with
  | none => rfl
  | some x =>
    have hx : encode (decode x.1) = x.1 := (hparts.user x hu).text
    unfold userOctets
    simp only [Option.map_some, Option.elim_some, Option.bind_some, hx]
    cases hx₂ : x.2 with
    | none => rfl
    | some y =>
      have hy : encode (decode y) = y := ((hparts.user x hu).password y hx₂).1
      simp only [Option.map_some, Option.elim_some, hy]

theorem encode_host : encode u.host = parts.host := by
  rw [h.host]
  exact hparts.host.1

theorem octets_params : u.params.map Param.octets = parts.params := by
  rw [h.params]
  exact map_octets_ofOctets hparts.params

theorem encode_headersText :
    encode (headersText u.headers) = parts.headers.elim [] fun ps => ascii '?' :: joined ps := by
  rw [Lexeme.encode_headersText, h.headers]
  cases hhs : parts.headers with
  | none => rfl
  | some ps =>
    obtain ⟨hne, hall⟩ := hparts.headers ps hhs
    rw [Option.getD_some, if_neg (by simpa using hne), Option.elim_some, map_octets_ofOctets hall]

/-- The URI is written as it was read, but for its scheme and its port. -/
theorem octets :
    parts.octets = encode u.userText ++ encode u.host ++ parts.port.elim [] (ascii ':' :: ·) ++
      encode (u.params.text ++ headersText u.headers) := by
  rw [encode_userText h hparts, encode_host h hparts, encode_append, encode_paramsText,
    octets_params h hparts, encode_headersText h hparts]
  simp [SipUriParts.octets]

theorem isUserOctet : ∀ x ∈ u.user, IsRun isUserOctet x := by
  intro x hx
  rw [h.user] at hx
  obtain ⟨y, hy, rfl⟩ := Option.map_eq_some_iff.1 (Option.mem_def.1 hx)
  exact (hparts.user y hy).run

theorem isPasswordOctet :
    ∀ x ∈ u.password, u.user ≠ none ∧ ∀ b ∈ encode x, isPasswordOctet b = true := by
  intro x hx
  rw [h.password] at hx
  obtain ⟨y, hy, hpass⟩ := Option.bind_eq_some_iff.1 (Option.mem_def.1 hx)
  obtain ⟨z, hz, rfl⟩ := Option.map_eq_some_iff.1 hpass
  refine ⟨?_, ((hparts.user y hy).password z hz).2⟩
  rw [h.user, hy]
  exact Option.some_ne_none _

theorem isUriParam : ∀ q ∈ u.params, q.IsUriParam := by
  intro q hq
  have hflag := h.flags q hq
  rw [h.params] at hq
  obtain ⟨p, hp, rfl⟩ := List.mem_map.1 hq
  refine ⟨(hparts.params p hp).name_run, ?_, hflag⟩
  intro v hv
  obtain ⟨w, hw, rfl⟩ := Option.map_eq_some_iff.1 (Option.mem_def.1 hv)
  exact ((hparts.params p hp).value w hw).2

theorem isUriHeader : ∀ q ∈ u.headers, q.IsUriHeader := by
  intro q hq
  obtain ⟨v, hv⟩ := Option.ne_none_iff_exists'.1 (h.values q hq)
  rw [h.headers] at hq
  obtain ⟨p, hp, rfl⟩ := List.mem_map.1 hq
  cases hhs : parts.headers with
  | none =>
    rw [hhs] at hp
    cases hp
  | some ps =>
    rw [hhs] at hp
    have hall := (hparts.headers ps hhs).2 p hp
    obtain ⟨w, hw, rfl⟩ := Option.map_eq_some_iff.1 hv
    exact ⟨hall.name_run, decode w, hv, (hall.value w hw).2⟩

/-- The end is that of the text that was read, unless nothing is read behind the port. -/
theorem ends {text front : String}
    (htext : encode text = encode front ++ parts.octets) (hends : Text.trimEnd text = text) :
    Text.trimEnd u.text = u.text := by
  have hwhole : u.text = u.scheme.text ++ ":" ++ u.userText ++ u.host ++ portText u.port ++
      (u.params.text ++ headersText u.headers) := by
    simp [SipUri.text, String.append_assoc]
  rw [hwhole]
  by_cases htail : u.params.text ++ headersText u.headers = ""
  · -- then the URI ends with its host or with a port
    have hhost : IsHost u.host := by
      rw [h.host]
      exact hparts.host.2
    rw [htail, String.append_empty]
    exact trimEnd_hostPort _ hhost u.port
  · -- otherwise both texts end with parameters or headers
    rw [octets h hparts, ← List.append_assoc] at htext
    have hfirst : Ends [';', '?'] (encode (u.params.text ++ headersText u.headers)) := by
      rw [encode_append]
      exact ends_paramsText u
    exact (Text.trimEnd_append_iff _ htail).2 (hfirst.trimEnd (by decide) htext hends)

/-- The URI has no octets that were not read but those of a scheme and a port. -/
theorem mem_text {b : UInt8} (hb : b ∈ encode u.text) :
    b ∈ parts.octets ∨ isAlnum b = true ∨ b = ascii ':' := by
  rw [octets h hparts, encode_append]
  rw [encode_text] at hb
  unfold bodyText at hb
  simp only [encode_append, List.mem_append, List.mem_cons] at hb ⊢
  rcases hb with hb | rfl | (((hb | hb) | hb) | hb) | hb
  · exact .inr (.inl (u.scheme.isAlnum_of_mem_text b hb))
  · exact .inr (.inr rfl)
  · exact .inl (.inl (.inl (.inl hb)))
  · exact .inl (.inl (.inl (.inr hb)))
  · rcases mem_portText hb with rfl | hb
    · exact .inr (.inr rfl)
    · exact .inr (.inl (Bool.or_eq_true_iff.2 (.inr hb)))
  · exact .inl (.inr (.inl hb))
  · exact .inl (.inr (.inr hb))

end IsMadeOf

/-- What is read behind a scheme can be written, and has no octets that were not read but those of
a scheme and a port. -/
theorem isWritable_of_parseBody {text front : String} {body : Octets}
    (htext : encode text = encode front ++ body) (hbody : IsText body)
    (hends : Text.trimEnd text = text) (h : parseBody scheme whole body = .ok u) :
    u.IsWritable ∧ ∀ b ∈ encode u.text, b ∈ body ∨ isAlnum b = true ∨ b = ascii ':' := by
  unfold parseBody at h
  split at h
  · rename_i parts hread
    obtain ⟨hsplit, hparts, -⟩ := spells_sipUriParts hbody hread
    have hmade := ofParts_eq_ok h
    rw [List.append_nil] at hsplit
    have hwritable : u.IsWritable := {
      user := hmade.isUserOctet hparts
      password := hmade.isPasswordOctet hparts
      host := by
        rw [hmade.host]
        exact hparts.host.2
      params := hmade.isUriParam hparts
      headers := hmade.isUriHeader hparts
      ends := hmade.ends hparts (hsplit ▸ htext) hends }
    refine ⟨hwritable, fun b hb => ?_⟩
    rw [hsplit]
    exact hmade.mem_text hparts hb
  · cases h
  · cases h

/-- What is read behind a scheme is spelled there as it is written, but for the port. -/
theorem exists_port_of_parseBody {body : Octets} (hbody : IsText body)
    (h : parseBody scheme whole body = .ok u) :
    u.scheme = scheme ∧ ∃ port, IsPortText u.port port ∧
      body = encode (u.userText ++ u.host ++ port ++ u.params.text ++ headersText u.headers) := by
  unfold parseBody at h
  split at h
  · rename_i parts hread
    obtain ⟨hsplit, hparts, -⟩ := spells_sipUriParts hbody hread
    have hmade := ofParts_eq_ok h
    obtain ⟨whole, hcheck⟩ := hmade.port
    obtain ⟨port, hport, htext⟩ := exists_portText hparts.port hcheck
    refine ⟨hmade.scheme, port, hport, ?_⟩
    rw [hsplit, hmade.octets hparts, List.append_nil, ← htext]
    simp only [encode_append, List.append_assoc]
  · cases h
  · cases h

end SipUri

end SipProxy
