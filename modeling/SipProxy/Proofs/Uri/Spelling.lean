import SipProxy.Proofs.Grammar.Params
import SipProxy.Proofs.Outcome
import SipProxy.Uri.Parse

/-!
# How a SIP URI is spelled

Every part of a SIP URI is a run of octets of a class, and none of these classes has the octet that
ends the part. So each part is read in front of what may follow it, and what is read of it is text
that can be written again. The one place where this takes an argument is a URI without a user, since
its host and port could be a user and a password: what tells them apart is an at sign, which neither
holds (`Lexeme.userInfo_eq_none`).

There are two laws for each reader. One says that what is written is read, in front of what may
follow it. The other says what was there if something was read: text that spells what is returned
(`Lexeme.Spells`), and that passes from a reader to those that are made of it.
-/

namespace SipProxy

open Lexeme Reader Utf8

namespace Lexeme

variable {p : UInt8 → Bool} {s w rest : Octets} {t : String}

/-! ## What is read of a text -/

theorem lacksAscii_isPasswordOctet : LacksAscii isPasswordOctet :=
  (isAscii_isBreak.or (isAscii_isOneOf (by decide))).not

theorem lacksAscii_isUserOctet : LacksAscii isUserOctet :=
  lacksAscii_isPasswordOctet.and (isAscii_beq (by decide)).not

theorem lacksAscii_isHeaderValueOctet : LacksAscii isHeaderValueOctet :=
  (isAscii_isBreak.or (isAscii_beq (by decide))).not

theorem lacksAscii_isHeaderNameOctet : LacksAscii isHeaderNameOctet :=
  lacksAscii_isHeaderValueOctet.and (isAscii_isOneOf (by decide)).not

theorem octet_spec {c : Char} (hs : IsText s) (hc : (ascii c).toNat < 0x80)
    (h : octet (ascii c) s = some rest) : s = ascii c :: rest ∧ IsText rest := by
  have hsplit := octet_eq_some.1 h
  rw [hsplit] at hs
  exact ⟨hsplit, hs.tail hc⟩

/-- What the reader takes off a text spells what it returns, and leaves a text. -/
def Spells {α : Type} (q : Reader α) (octets : α → Octets) (W : α → Prop) : Prop :=
  ∀ ⦃s a rest⦄, IsText s → q s = some (a, rest) → s = octets a ++ rest ∧ W a ∧ IsText rest

theorem spells_run1 (hp : CutsText p) :
    Spells (run1 p) id fun w => IsText w ∧ IsRun p (decode w) := by
  intro s w rest hs h
  obtain ⟨hsplit, htext, hrun, -, hrest⟩ := run1_spec hs hp h
  exact ⟨hsplit, ⟨htext, hrun⟩, hrest⟩

theorem spells_run (hp : CutsText p) :
    Spells (fun s => some (run p s)) id fun w =>
      IsText w ∧ ∀ b ∈ encode (decode w), p b = true := by
  intro s w rest hs h
  obtain ⟨rfl, hw, hstop⟩ := run_eq_iff.1 (Option.some.inj h)
  obtain ⟨htext, hrest⟩ := hp.cut hs hw hstop
  refine ⟨rfl, ⟨htext, ?_⟩, hrest⟩
  rw [htext]
  exact hw

namespace Spells

variable {α : Type} {q : Reader α} {octets : α → Octets} {W : α → Prop} {as : List α}
  (hq : Spells q octets W)

include hq

theorem after_octet {c : Char} (hc : (ascii c).toNat < 0x80) :
    Spells (after (octet (ascii c)) q) (fun a => ascii c :: octets a) W := by
  intro s a rest hs h
  obtain ⟨s', hoctet, hread⟩ := after_eq_some.1 h
  obtain ⟨rfl, hs'⟩ := octet_spec hs hc hoctet
  obtain ⟨rfl, ha, hrest⟩ := hq hs' hread
  exact ⟨rfl, ha, hrest⟩

theorem optional {o : Option α} (hs : IsText s) (h : Reader.optional q s = (o, rest)) :
    s = o.elim [] octets ++ rest ∧ (∀ a ∈ o, W a) ∧ IsText rest := by
  rcases optional_eq_iff.1 h with ⟨a, rfl, hread⟩ | ⟨rfl, -, rfl⟩
  · obtain ⟨rfl, ha, hrest⟩ := hq hs hread
    refine ⟨rfl, ?_, hrest⟩
    rintro _ ⟨⟩
    exact ha
  · refine ⟨rfl, ?_, hs⟩
    rintro _ ⟨⟩

theorem reads (hs : IsText s) (h : Reads q s as rest) :
    s = as.flatMap octets ++ rest ∧ (∀ a ∈ as, W a) ∧ IsText rest :=
  h.sound hs fun hs h => hq hs h

end Spells

/-! ## Users -/

/-- The password of a URI, behind a colon. -/
abbrev passwordInfo : Reader Octets :=
  after (octet (ascii ':')) fun s => some (run isPasswordOctet s)

theorem userInfo_eq_some {user : Octets} {password : Option Octets} :
    userInfo s = some ((user, password), rest) ↔
      ∃ s' s'', run1 isUserOctet s = some (user, s') ∧
        optional passwordInfo s' = (password, s'') ∧ s'' = ascii '@' :: rest := by
  unfold userInfo
  cases run1 isUserOctet s with
  | none => simp
  | some r =>
    obtain ⟨user', s'⟩ := r
    simp only [Option.map_eq_some_iff, Prod.mk.injEq, octet_eq_some, Option.some.injEq]
    constructor
    · rintro ⟨tail, hat, ⟨rfl, rfl⟩, rfl⟩
      exact ⟨s', _, ⟨rfl, rfl⟩, rfl, hat⟩
    · rintro ⟨s₁, s₂, ⟨rfl, rfl⟩, hpass, rfl⟩
      refine ⟨rest, ?_, ⟨rfl, ?_⟩, rfl⟩
      · rw [hpass]
      · rw [hpass]

/-- A user and a password are read up to the at sign. -/
theorem userInfo_text {user : String} {password : Option String} (hu : IsRun isUserOctet user)
    (hp : ∀ x ∈ password, ∀ b ∈ encode x, isPasswordOctet b = true) (rest : Octets) :
    userInfo (encode user ++ (password.elim [] fun x => ascii ':' :: encode x) ++
        ascii '@' :: rest) =
      some ((encode user, password.map encode), rest) := by
  refine userInfo_eq_some.2 ⟨(password.elim [] fun x => ascii ':' :: encode x) ++
    ascii '@' :: rest, ascii '@' :: rest, ?_, ?_, rfl⟩
  · rw [List.append_assoc]
    apply hu.run1
    cases password with
    | none => exact stops_cons.2 (by decide)
    | some x => exact stops_cons.2 (by decide)
  · cases password with
    | none => rfl
    | some x =>
      apply optional_of_some
      refine after_eq_some.2 ⟨_, octet_eq_some.2 rfl, congrArg some ?_⟩
      exact run_eq_iff.2 ⟨rfl, hp x rfl, stops_cons.2 (by decide)⟩

/-- A user, a password behind a colon if there is one, and the at sign. -/
def userOctets (x : Octets × Option Octets) : Octets :=
  x.1 ++ x.2.elim [] (ascii ':' :: ·) ++ [ascii '@']

/-- The octets of a user and a password are text, and both keep to their classes. -/
structure IsUser (x : Octets × Option Octets) : Prop where
  text : IsText x.1
  run : IsRun isUserOctet (decode x.1)
  password : ∀ y ∈ x.2, IsText y ∧ ∀ b ∈ encode (decode y), isPasswordOctet b = true

theorem spells_userInfo : Spells userInfo userOctets IsUser := by
  rintro s ⟨user, password⟩ rest hs h
  obtain ⟨s', s'', huser, hpass, rfl⟩ := userInfo_eq_some.1 h
  obtain ⟨rfl, ⟨htext, hrun⟩, hs'⟩ := spells_run1 (.inr lacksAscii_isUserOctet) hs huser
  have hpassword : Spells passwordInfo _ _ :=
    (spells_run (.inr lacksAscii_isPasswordOctet)).after_octet (by decide)
  obtain ⟨rfl, hall, hs''⟩ := hpassword.optional hs' hpass
  exact ⟨by simp [userOctets], ⟨htext, hrun, hall⟩, hs''.tail (by decide)⟩

theorem isPasswordOctet_of_isUserOctet {b : UInt8} (h : isUserOctet b = true) :
    isPasswordOctet b = true := by
  unfold isUserOctet at h
  rw [Bool.and_eq_true] at h
  exact h.1

/-- Without an at sign behind a run of octets that may stand in front of one, there is no user. -/
theorem userInfo_eq_none (hw : ∀ b ∈ w, isPasswordOctet b = true) (hr : Ends [';', '?'] rest) :
    userInfo (w ++ rest) = none := by
  cases h : userInfo (w ++ rest) with
  | none => rfl
  | some r =>
    obtain ⟨⟨user, password⟩, tail⟩ := r
    exfalso
    -- a user and a password are a run of that class as well, which ends at the at sign
    obtain ⟨front, hfront, hall⟩ : ∃ front, w ++ rest = front ++ ascii '@' :: tail ∧
        ∀ b ∈ front, isPasswordOctet b = true := by
      obtain ⟨s', s'', huser, hpass, rfl⟩ := userInfo_eq_some.1 h
      obtain ⟨hsplit, -, hrun, -⟩ := run1_eq_some.1 huser
      have huser' : ∀ b ∈ user, isPasswordOctet b = true := by
        intro b hb
        exact isPasswordOctet_of_isUserOctet (hrun b hb)
      rcases optional_eq_iff.1 hpass with ⟨x, -, hafter⟩ | ⟨-, -, rfl⟩
      · obtain ⟨s₁, hcolon, hx⟩ := after_eq_some.1 hafter
        obtain ⟨rfl, hxrun, -⟩ := run_eq_iff.1 (Option.some.inj hx)
        refine ⟨user ++ ascii ':' :: x, ?_, ?_⟩
        · rw [hsplit, octet_eq_some.1 hcolon]
          simp
        · intro b hb
          rcases List.mem_append.1 hb with hb | hb
          · exact huser' b hb
          · rcases List.mem_cons.1 hb with rfl | hb
            · decide
            · exact hxrun b hb
      · exact ⟨user, hsplit, huser'⟩
    have hstop : Stops isPasswordOctet rest := hr.stops (by decide)
    have hrest := dropWhile_append hw hstop
    rw [hfront, dropWhile_append hall (stops_cons.2 (by decide))] at hrest
    obtain ⟨c, hc, heq⟩ := hr (ascii '@') (by rw [← hrest]; rfl)
    have hmem := List.mem_map.2 ⟨c, hc, heq.symm⟩
    exact absurd hmem (by decide)

/-! ## Hosts -/

/-- A host as it is written: a name or a dotted quad, or an address in brackets. -/
def IsHost (t : String) : Prop :=
  IsRun isHostOctet t ∨ ∃ inside, IsRun isHostReferenceOctet inside ∧ t = "[" ++ inside ++ "]"

theorem encode_brackets (inside : String) :
    encode ("[" ++ inside ++ "]") = 0x5B :: encode inside ++ [0x5D] := by
  have hopen : encode "[" = [0x5B] := by decide
  have hclose : encode "]" = [0x5D] := by decide
  rw [encode_append, encode_append, hopen, hclose]
  rfl

theorem isAscii_isHostOctet : IsAscii isHostOctet :=
  isAscii_isAlnum.or (isAscii_isOneOf (by decide))

theorem isInk_of_isHostOctet : ∀ b, isHostOctet b = true → IsInk b :=
  isInk_of isAscii_isHostOctet (by decide)

theorem IsHost.trimEnd (h : IsHost t) : Text.trimEnd t = t := by
  rcases h with h | ⟨inside, -, rfl⟩
  · exact h.trimEnd isInk_of_isHostOctet
  · refine trimEnd_of_isInk (b := 0x5D) ?_ (by decide)
    rw [encode_brackets, List.getLast?_concat]

theorem IsHost.ne_empty (h : IsHost t) : t ≠ "" := by
  rcases h with h | ⟨inside, -, rfl⟩
  · exact h.1
  · intro hempty
    have hlist := congrArg String.toList hempty
    simp at hlist

/-- The octets of a host. -/
theorem IsHost.octets (h : IsHost t) :
    ∀ b ∈ encode t, isHostOctet b = true ∨ isHostReferenceOctet b = true ∨ b = 0x5B ∨ b = 0x5D := by
  rcases h with h | ⟨inside, h, rfl⟩
  · intro b hb
    exact .inl (h.2 b hb)
  · intro b hb
    rw [encode_brackets, List.cons_append, List.mem_cons, List.mem_append,
      List.mem_singleton] at hb
    rcases hb with hb | hb | hb
    · exact .inr (.inr (.inl hb))
    · exact .inr (.inl (h.2 b hb))
    · exact .inr (.inr (.inr hb))

/-- A host has what a class has that its octets are of. -/
theorem IsHost.forall_octets {P : UInt8 → Prop} (h : IsHost t)
    (hP : ∀ b, (isHostOctet b || isHostReferenceOctet b || b == 0x5B || b == 0x5D) = true → P b) :
    ∀ b ∈ encode t, P b := by
  intro b hb
  refine hP b ?_
  rcases h.octets b hb with h | h | rfl | rfl
  · simp [h]
  · simp [h]
  · rfl
  · rfl

theorem host_text (h : IsHost t) (hr : Stops isHostOctet rest) :
    host (encode t ++ rest) = some (encode t, rest) := by
  unfold host
  rcases h with h | ⟨inside, h, rfl⟩
  · -- no name begins with a bracket
    have hnone : hostReference (encode t ++ rest) = none := by
      obtain ⟨b, s, hs, hb⟩ := h.head rest
      rw [hs]
      unfold hostReference
      split
      · rename_i heq
        cases heq
        exact absurd hb (by decide)
      · rfl
    rw [hnone]
    exact h.run1 hr
  · have hinside : run1 isHostReferenceOctet (encode inside ++ 0x5D :: rest) =
        some (encode inside, 0x5D :: rest) := h.run1 (stops_cons.2 (by decide))
    have hread : hostReference (encode ("[" ++ inside ++ "]") ++ rest) =
        some (encode ("[" ++ inside ++ "]"), rest) := by
      rw [encode_brackets, List.append_assoc, List.cons_append, List.singleton_append]
      unfold hostReference
      simp only [hinside]
    rw [hread]

theorem spells_host : Spells host id fun w => IsText w ∧ IsHost (decode w) := by
  have hcutReference : CutsText isHostReferenceOctet :=
    .inl (isAscii_isHexDigit.or (isAscii_isOneOf (by decide)))
  intro s w rest hs h
  unfold host at h
  cases href : hostReference s with
  | some r =>
    rw [href] at h
    cases h
    unfold hostReference at href
    split at href
    · rename_i s'
      split at href
      · rename_i inside s'' hinside
        cases href
        obtain ⟨rfl, ⟨htext, hrun⟩, hs''⟩ := spells_run1 hcutReference (hs.tail (by decide)) hinside
        have hw : encode ("[" ++ decode inside ++ "]") = 0x5B :: inside ++ [0x5D] := by
          rw [encode_brackets, htext]
        refine ⟨by simp, ⟨?_, .inr ⟨decode inside, hrun, ?_⟩⟩, hs''.tail (by decide)⟩
        · rw [← hw]
          exact isText_encode _
        · rw [← hw, decode_encode]
      · cases href
    · cases href
  | none =>
    rw [href] at h
    obtain ⟨hsplit, ⟨htext, hrun⟩, hrest⟩ := spells_run1 (.inl isAscii_isHostOctet) hs h
    exact ⟨hsplit, ⟨htext, .inl hrun⟩, hrest⟩

/-! ## Ports -/

/-- A digit is one octet, and that octet a digit. -/
theorem isDigit_iff_of_mem_encodeChar {c : Char} {b : UInt8} (hb : b ∈ String.utf8EncodeChar c) :
    isDigit b = true ↔ c.isDigit = true := by
  have hchar : c.isDigit = true ↔ 48 ≤ c.toNat ∧ c.toNat ≤ 57 := by
    simp only [Char.isDigit, Bool.and_eq_true, decide_eq_true_eq, UInt32.le_iff_toNat_le]
    exact Iff.rfl
  have hoctet : isDigit b = true ↔ 48 ≤ b.toNat ∧ b.toNat ≤ 57 := by
    simp only [isDigit, Bool.and_eq_true, decide_eq_true_eq, UInt8.le_iff_toNat_le,
      UInt8.reduceToNat]
  rw [hchar, hoctet]
  constructor
  · intro h
    rwa [toNat_eq_of_mem_encodeChar (by omega) hb]
  · intro h
    have hlt : c.toNat < 256 := by omega
    have hnat : (UInt8.ofNat c.toNat).toNat = c.toNat := UInt8.toNat_ofNat_of_lt hlt
    rw [encodeChar_of_one (by omega), List.mem_singleton] at hb
    rwa [hb, hnat]

theorem isRun_isDigit_iff : IsRun isDigit t ↔ t ≠ "" ∧ ∀ c ∈ t.toList, c.isDigit = true := by
  refine and_congr_right fun _ => ⟨fun h c hc => ?_, fun h b hb => ?_⟩
  · obtain ⟨b, hb⟩ := List.exists_mem_of_ne_nil _ (String.utf8EncodeChar_ne_nil (c := c))
    exact (isDigit_iff_of_mem_encodeChar hb).1 (h b (mem_encode.2 ⟨c, hc, hb⟩))
  · obtain ⟨c, hc, hbc⟩ := mem_encode.1 hb
    exact (isDigit_iff_of_mem_encodeChar hbc).2 (h c hc)

theorem isRun_toString (n : Nat) : IsRun isDigit (toString n) := by
  refine isRun_isDigit_iff.2 ⟨?_, fun c hc => Decimal.isDigit_of_mem_toString hc⟩
  intro hempty
  have hlist := Decimal.toList_toString n
  rw [hempty] at hlist
  exact Nat.toDigits_ne_nil hlist.symm

/-- Digits that spell a port, with any zeros in front. -/
def IsNumeral (n : UInt16) (t : String) : Prop :=
  IsRun isDigit t ∧ Nat.ofDigitChars 10 t.toList 0 = n.toNat

instance (n : UInt16) (t : String) : Decidable (IsNumeral n t) :=
  inferInstanceAs (Decidable (_ ∧ _))

/-- Digits are read as the port that they spell. -/
theorem isNumeral_iff {n : UInt16} :
    IsNumeral n t ↔ IsRun isDigit t ∧ Decimal.word16? t = some n := by
  refine and_congr_right fun h => ?_
  obtain ⟨hne, hdigits⟩ := isRun_isDigit_iff.1 h
  exact (Decimal.word16?_eq_some_iff hne hdigits).symm

theorem isNumeral_toString (n : UInt16) : IsNumeral n (toString n.toNat) :=
  isNumeral_iff.2 ⟨isRun_toString n.toNat, Decimal.word16?_toString n⟩

/-- What may stand for a port behind a host: nothing, or a colon and digits. -/
inductive IsPortText : UInt16 → String → Prop
  | unnamed : IsPortText 0 ""
  | named {n : UInt16} {digits : String} (h : IsNumeral n digits) : IsPortText n (":" ++ digits)

/-- The octets of a port as it is written. -/
def portOctets (port : UInt16) : Option Octets :=
  if port = 0 then none else some (encode (toString port.toNat))

theorem encode_portText (n : UInt16) :
    encode (SipUri.portText n) = (portOctets n).elim [] (ascii ':' :: ·) := by
  unfold SipUri.portText portOctets
  split
  · rfl
  · have hcolon : encode ":" = [ascii ':'] := by decide
    rw [encode_append, hcolon]
    rfl

theorem mem_portText {n : UInt16} {b : UInt8} (hb : b ∈ encode (SipUri.portText n)) :
    b = ascii ':' ∨ isDigit b = true := by
  rw [encode_portText] at hb
  unfold portOctets at hb
  split at hb
  · cases hb
  · exact (List.mem_cons.1 hb).imp_right ((isRun_toString n.toNat).2 b)

/-- A port may be there or not, so a colon follows, or what follows a port. -/
theorem ends_portText {cs : List Char} (n : UInt16) (hr : Ends cs rest) :
    Ends (':' :: cs) (encode (SipUri.portText n) ++ rest) := by
  rw [encode_portText]
  unfold portOctets
  split
  · exact hr.mono fun c hc => List.mem_cons_of_mem ':' hc
  · exact ends_cons List.mem_cons_self _

/-- A port is read, or found not to be there, in front of what follows it. -/
theorem optional_port_text (n : UInt16) (hdigit : Stops isDigit rest)
    (hcolon : octet (ascii ':') rest = none) :
    optional port (encode (SipUri.portText n) ++ rest) = (portOctets n, rest) := by
  rw [encode_portText]
  unfold portOctets
  split
  · apply optional_of_none
    show (octet (ascii ':') rest).bind digits = none
    rw [hcolon]
    rfl
  · apply optional_of_some
    exact after_eq_some.2 ⟨_, octet_eq_some.2 rfl, (isRun_toString n.toNat).run1 hdigit⟩

/-- No white space stands behind a host and a port. -/
theorem trimEnd_hostPort (front : String) {host : String} (h : IsHost host) (n : UInt16) :
    Text.trimEnd (front ++ host ++ SipUri.portText n) = front ++ host ++ SipUri.portText n := by
  unfold SipUri.portText
  split
  · rw [String.append_empty]
    exact (Text.trimEnd_append_iff _ h.ne_empty).2 h.trimEnd
  · have hdigits := isRun_toString n.toNat
    rw [← String.append_assoc]
    exact (Text.trimEnd_append_iff _ hdigits.1).2 (hdigits.trimEnd isInk_of_isDigit)

theorem checkPort_eq_ok {digits : Option Octets} {whole : String} {n : UInt16} :
    SipUri.checkPort digits whole = .ok n ↔
      digits = none ∧ n = 0 ∨ ∃ w, digits = some w ∧ Decimal.word16? (decode w) = some n := by
  cases digits with
  | none => simp [SipUri.checkPort, eq_comm]
  | some w =>
    unfold SipUri.checkPort
    cases hw : Decimal.word16? (decode w) with
    | none => simp [hw]
    | some m => simp [hw]

/-- What is accepted as a port is the text of one. -/
theorem exists_portText {digits : Option Octets} {whole : String} {n : UInt16}
    (hdigits : ∀ w ∈ digits, IsText w ∧ IsRun isDigit (decode w))
    (h : SipUri.checkPort digits whole = .ok n) :
    ∃ port, IsPortText n port ∧ encode port = digits.elim [] (ascii ':' :: ·) := by
  rcases checkPort_eq_ok.1 h with ⟨rfl, rfl⟩ | ⟨w, rfl, hword⟩
  · exact ⟨"", .unnamed, rfl⟩
  · obtain ⟨hw, hrun⟩ := hdigits w rfl
    refine ⟨":" ++ decode w, .named (isNumeral_iff.2 ⟨hrun, hword⟩), ?_⟩
    have hcolon : encode ":" = [ascii ':'] := by decide
    rw [encode_append, hcolon, hw]
    rfl

theorem checkPort_portOctets (n : UInt16) (whole : String) :
    SipUri.checkPort (portOctets n) whole = .ok n := by
  unfold portOctets
  split
  · rename_i h
    rw [h]
    rfl
  · unfold SipUri.checkPort
    simp only [decode_encode, Decimal.word16?_toString]

theorem spells_port :
    Spells port (fun w => ascii ':' :: w) fun w => IsText w ∧ IsRun isDigit (decode w) :=
  (spells_run1 cutsText_isDigit).after_octet (by decide)

end Lexeme

/-! ## Names with values -/

/-- A parameter in octets. -/
def Param.octets (q : Param) : Octets × Option Octets := (encode q.name, q.value.map encode)

/-- The parameter that octets spell. -/
def Param.ofOctets (p : Octets × Option Octets) : Param := ⟨decode p.1, p.2.map decode⟩

namespace Lexeme

variable {name : UInt8 → Bool} {value : Reader Octets} {V : String → Prop} {s rest : Octets}
  {p : Octets × Option Octets} {q : Param}

/-- A name, and a value behind an equals sign if there is one. -/
def assigned (p : Octets × Option Octets) : Octets := p.1 ++ p.2.elim [] (ascii '=' :: ·)

theorem assigned_octets (q : Param) : assigned q.octets = encode q.text := by
  obtain ⟨name, v⟩ := q
  cases v with
  | none =>
    show encode name ++ [] = encode name
    rw [List.append_nil]
  | some v =>
    exact (encode_append_mark (by decide) name v).symm

theorem assignment_text (hname : IsRun name q.name) (hstop : name (ascii '=') = false)
    (hr : Stops name rest) (hequal : octet (ascii '=') rest = none)
    (hvalue : ∀ v ∈ q.value, value (encode v ++ rest) = some (encode v, rest)) :
    assignment name value (encode q.text ++ rest) = some (q.octets, rest) := by
  rw [← assigned_octets]
  obtain ⟨n, v⟩ := q
  unfold assignment assigned Param.octets
  cases v with
  | none =>
    have hnone : after (octet (ascii '=')) value rest = none := by
      show (octet (ascii '=') rest).bind value = none
      rw [hequal]
      rfl
    simp only [Option.map_none, Option.elim_none, List.append_nil, hname.run1 hr,
      optional_of_none hnone]
  | some v =>
    have hsome : after (octet (ascii '=')) value (ascii '=' :: (encode v ++ rest)) =
        some (encode v, rest) :=
      after_eq_some.2 ⟨_, octet_eq_some.2 rfl, hvalue v rfl⟩
    have hrun : run1 name (encode n ++ ascii '=' :: (encode v ++ rest)) =
        some (encode n, ascii '=' :: (encode v ++ rest)) := hname.run1 (stops_cons.2 hstop)
    simp only [Option.map_some, Option.elim_some, List.append_assoc, List.cons_append, hrun,
      optional_of_some hsome]

/-- The octets of a name and a value are text, and both keep to their classes. -/
structure IsAssigned (name : UInt8 → Bool) (V : String → Prop) (p : Octets × Option Octets) :
    Prop where
  name_text : IsText p.1
  name_run : IsRun name (decode p.1)
  value : ∀ v ∈ p.2, IsText v ∧ V (decode v)

/-- Nothing is lost between octets that are text and the parameter that they spell. -/
theorem IsAssigned.octets_ofOctets (h : IsAssigned name V p) : (Param.ofOctets p).octets = p := by
  obtain ⟨n, v⟩ := p
  have hn : encode (decode n) = n := h.name_text
  cases v with
  | none => simp [Param.octets, Param.ofOctets, hn]
  | some v =>
    have hv : encode (decode v) = v := (h.value v rfl).1
    simp [Param.octets, Param.ofOctets, hn, hv]

theorem map_octets_ofOctets {ps : List (Octets × Option Octets)}
    (h : ∀ p ∈ ps, IsAssigned name V p) : (ps.map Param.ofOctets).map Param.octets = ps := by
  rw [List.map_map]
  exact (List.map_congr_left fun p hp => (h p hp).octets_ofOctets).trans (List.map_id ps)

theorem spells_assignment (hname : CutsText name)
    (hvalue : Spells value id fun v => IsText v ∧ V (decode v)) :
    Spells (assignment name value) assigned (IsAssigned name V) := by
  intro s p rest hs h
  unfold assignment at h
  split at h
  · rename_i n s' hn
    obtain ⟨rfl, ⟨htext, hrun⟩, hs'⟩ := spells_run1 hname hs hn
    cases hopt : optional (after (octet (ascii '=')) value) s' with
    | mk v s'' =>
      obtain ⟨rfl, hv, hrest⟩ := (hvalue.after_octet (by decide)).optional hs' hopt
      simp only [hopt] at h
      cases h
      exact ⟨by simp [assigned], ⟨htext, hrun, hv⟩, hrest⟩
  · cases h

theorem length_lt_of_assignment
    (hvalue : ∀ {s v rest}, value s = some (v, rest) → rest.length ≤ s.length)
    (h : assignment name value s = some (p, rest)) : rest.length < s.length := by
  unfold assignment at h
  split at h
  · rename_i n s' hn
    have hlt := consumes_run1 name hn
    cases h
    cases hopt : optional (after (octet (ascii '=')) value) s' with
    | mk v s'' =>
      rcases optional_eq_iff.1 hopt with ⟨x, -, hafter⟩ | ⟨-, -, rfl⟩
      · obtain ⟨s₁, hequal, hread⟩ := after_eq_some.1 hafter
        have hle := hvalue hread
        have hlen := congrArg List.length (octet_eq_some.1 hequal)
        rw [List.length_cons] at hlen
        show s''.length < s.length
        omega
      · exact hlt
  · cases h

/-! ## URI parameters -/

theorem uriParam_text (hname : IsRun isParamOctet q.name)
    (hvalue : ∀ v ∈ q.value, IsRun isParamOctet v) (hr : Ends [';', '?'] rest) :
    uriParam (ascii ';' :: encode q.text ++ rest) = some (q.octets, rest) := by
  refine after_eq_some.2 ⟨encode q.text ++ rest, octet_eq_some.2 rfl, ?_⟩
  refine assignment_text hname (by decide) (hr.stops (by decide))
    (hr.octet_eq_none (by decide)) ?_
  intro v hv
  exact (hvalue v hv).run1 (hr.stops (by decide))

theorem spells_uriParam :
    Spells uriParam (fun p => ascii ';' :: assigned p)
      (IsAssigned isParamOctet (IsRun isParamOctet)) :=
  (spells_assignment cutsText_isParamOctet (spells_run1 cutsText_isParamOctet)).after_octet
    (by decide)

theorem consumes_uriParam : uriParam.Consumes := by
  intro s p rest h
  obtain ⟨s', hsemi, hread⟩ := after_eq_some.1 h
  have hlt := length_lt_of_assignment (fun h => Nat.le_of_lt (consumes_run1 _ h)) hread
  rw [octet_eq_some.1 hsemi, List.length_cons]
  omega

theorem encode_paramsText (ps : Params) :
    encode ps.text = (ps.map Param.octets).flatMap fun p => ascii ';' :: assigned p := by
  rw [Params.encode_text, List.flatMap_map]
  simp only [assigned_octets]

theorem many_uriParam_text {ps : Params} (hname : ∀ q ∈ ps, IsRun isParamOctet q.name)
    (hvalue : ∀ q ∈ ps, ∀ v ∈ q.value, IsRun isParamOctet v) (hr : Ends ['?'] rest) :
    many uriParam (encode ps.text ++ rest) = (ps.map Param.octets, rest) := by
  rw [encode_paramsText, List.flatMap_map]
  refine (many_eq_iff consumes_uriParam).2 ?_
  refine Reads.complete (E := Ends [';', '?']) ?_ ?_ (hr.mono (by simp)) ?_
  · intro q hq rest hrest
    rw [assigned_octets]
    exact uriParam_text (hname q hq) (hvalue q hq) hrest
  · intro q _ rest
    exact ends_cons (by simp) _
  · show (octet (ascii ';') rest).bind _ = none
    rw [hr.octet_eq_none (by decide)]
    rfl

/-! ## URI headers -/

/-- One header of a URI. -/
abbrev uriHeader : Reader (Octets × Option Octets) :=
  assignment isHeaderNameOctet fun s => some (run isHeaderValueOctet s)

/-- The octets of a URI header value, which may be none. -/
def IsHeaderValue (t : String) : Prop := ∀ b ∈ encode t, isHeaderValueOctet b = true

theorem uriHeader_text (hname : IsRun isHeaderNameOctet q.name)
    (hvalue : ∀ v ∈ q.value, IsHeaderValue v) (hr : Ends ['&'] rest) :
    uriHeader (encode q.text ++ rest) = some (q.octets, rest) := by
  refine assignment_text hname (by decide) (hr.stops (by decide))
    (hr.octet_eq_none (by decide)) ?_
  intro v hv
  exact congrArg some (run_eq_iff.2 ⟨rfl, hvalue v hv, hr.stops (by decide)⟩)

theorem spells_uriHeader :
    Spells uriHeader assigned (IsAssigned isHeaderNameOctet IsHeaderValue) :=
  spells_assignment (.inr lacksAscii_isHeaderNameOctet)
    (spells_run (.inr lacksAscii_isHeaderValueOctet))

theorem consumes_and_uriHeader : (after (octet (ascii '&')) uriHeader).Consumes := by
  intro s p rest h
  obtain ⟨s', hand, hread⟩ := after_eq_some.1 h
  have hlt := length_lt_of_assignment (fun {s v rest} h => by
    rw [(run_eq_iff.1 (Option.some.inj h)).1, List.length_append]
    omega) hread
  rw [octet_eq_some.1 hand, List.length_cons]
  omega

/-- URI headers as they are written, without the question mark. -/
def joined : List (Octets × Option Octets) → Octets
  | [] => []
  | p :: ps => assigned p ++ ps.flatMap fun p => ascii '&' :: assigned p

theorem encode_headersText (hs : Params) :
    encode (SipUri.headersText hs) =
      if hs = [] then [] else ascii '?' :: joined (hs.map Param.octets) := by
  have hquestion : encode "?" = [ascii '?'] := by decide
  have hand : encode "&" = [ascii '&'] := by decide
  have hrest : ∀ hs : Params, encode (String.join (hs.map fun h => "&" ++ h.text)) =
      (hs.map Param.octets).flatMap fun p => ascii '&' :: assigned p := by
    intro hs
    induction hs with
    | nil => rfl
    | cons h hs ih =>
      rw [List.map_cons, String.join_cons, encode_append, encode_append, hand, ih, List.map_cons,
        List.flatMap_cons, assigned_octets]
      rfl
  cases hs with
  | nil => rfl
  | cons h hs =>
    unfold SipUri.headersText
    rw [if_neg (List.cons_ne_nil h hs), encode_append, encode_append, hquestion, hrest,
      List.map_cons, joined, assigned_octets]
    rfl

theorem uriHeaders_text {h : Param} {hs : Params}
    (hname : ∀ q ∈ h :: hs, IsRun isHeaderNameOctet q.name)
    (hvalue : ∀ q ∈ h :: hs, ∀ v ∈ q.value, IsHeaderValue v) :
    uriHeaders (joined ((h :: hs).map Param.octets)) = some ((h :: hs).map Param.octets, []) := by
  have hfollow : ∀ ps : Params,
      Ends ['&'] ((ps.map Param.octets).flatMap fun p => ascii '&' :: assigned p) := by
    intro ps
    cases ps with
    | nil => exact ends_nil _
    | cons p ps => exact ends_cons (by simp) _
  refine (sepBy1_eq_some consumes_and_uriHeader).2
    ⟨h.octets, (hs.map Param.octets).flatMap fun p => ascii '&' :: assigned p,
      hs.map Param.octets, ?_, ?_, rfl⟩
  · have hfirst := uriHeader_text (hname h List.mem_cons_self) (hvalue h List.mem_cons_self)
      (hfollow hs)
    rwa [← assigned_octets] at hfirst
  · rw [← List.append_nil ((hs.map Param.octets).flatMap fun p => ascii '&' :: assigned p),
      List.flatMap_map]
    refine Reads.complete (E := Ends ['&']) ?_ ?_ (ends_nil _) rfl
    · intro q hq rest hrest
      refine after_eq_some.2 ⟨_, octet_eq_some.2 rfl, ?_⟩
      rw [assigned_octets]
      exact uriHeader_text (hname q (List.mem_cons_of_mem h hq))
        (hvalue q (List.mem_cons_of_mem h hq)) hrest
    · intro q _ rest
      exact ends_cons (by simp) _

theorem spells_uriHeaders : Spells uriHeaders joined fun ps =>
    ps ≠ [] ∧ ∀ p ∈ ps, IsAssigned isHeaderNameOctet IsHeaderValue p := by
  intro s ps rest hs h
  obtain ⟨p, s', ps, hfirst, hreads, rfl⟩ := (sepBy1_eq_some consumes_and_uriHeader).1 h
  obtain ⟨rfl, hp, hs'⟩ := spells_uriHeader hs hfirst
  obtain ⟨rfl, hps, hrest⟩ := (spells_uriHeader.after_octet (by decide)).reads hs' hreads
  refine ⟨by simp [joined], ⟨List.cons_ne_nil _ _, ?_⟩, hrest⟩
  intro x hx
  rcases List.mem_cons.1 hx with rfl | hx
  · exact hp
  · exact hps x hx

end Lexeme

end SipProxy
