import SipProxy.Engine.Path
import SipProxy.Proofs.Ip.Text
import SipProxy.Proofs.Value.Route
import SipProxy.Proofs.Value.ViaLine

/-!
# What the proxy writes of itself

The proxy puts a Via entry and a Record-Route entry on a request that it stays on the path of. Both
can be read again, whatever listening point they name: over every protocol, at every address of
either family and at every port, and with the branch of every seed.
-/

namespace SipProxy

open Lexeme Reader Utf8

variable {c : Char} {b : UInt8}

/-! ## Addresses and branches -/

theorem IpAddress.isHostReferenceOctet_of_isTextChar (hc : isTextChar c = true)
    (hb : b ∈ String.utf8EncodeChar c) : isHostReferenceOctet b = true := by
  have hlt : c.toNat < 0x80 := by
    have hf : 'f'.val.toNat = 102 := rfl
    unfold isTextChar at hc
    simp only [Bool.or_eq_true, Bool.and_eq_true, decide_eq_true_eq, beq_iff_eq, Char.isDigit,
      Char.le_def, UInt32.le_iff_toNat_le, hf] at hc
    rcases hc with ((hc | hc) | rfl) | rfl
    · have hle : c.toNat ≤ 57 := hc.2
      omega
    · have hle : c.toNat ≤ 102 := hc.2
      omega
    · decide
    · decide
  have hall : ∀ n < 0x80, isTextChar (Char.ofNat n) = true →
      (String.utf8EncodeChar (Char.ofNat n)).all isHostReferenceOctet = true := by
    decide
  refine List.all_eq_true.1 (hall c.toNat hlt ?_) b ?_
  · rwa [Char.ofNat_toNat]
  · rwa [Char.ofNat_toNat]

/-- An address is a host as a message writes it. -/
theorem Host.isHost_ofIp (ip : IpAddress) : IsHost (ofIp ip) := by
  have hne : ip.text ≠ "" := by
    intro hempty
    have hread := IpAddress.ofText?_text ip
    rw [hempty] at hread
    cases hread
  have hreference : IsRun isHostReferenceOctet ip.text := by
    refine ⟨hne, fun b hb => ?_⟩
    obtain ⟨c, hc, hb⟩ := mem_encode.1 hb
    exact IpAddress.isHostReferenceOctet_of_isTextChar (IpAddress.isTextChar_of_mem_text hc) hb
  cases ip with
  | v6 ip => exact .inr ⟨ip.text, hreference, rfl⟩
  | v4 ip =>
    -- an IPv4 address has no colon, so it needs no brackets
    have hcolon : ∀ b, isHostReferenceOctet b = true → b ≠ ascii ':' → isHostOctet b = true :=
      forall_octet (by decide +kernel)
    refine .inl ⟨hne, fun b hb => hcolon b (hreference.2 b hb) ?_⟩
    rintro rfl
    have hc : ':' ∈ ip.text.toList := mem_of_mem_encode rfl (by decide) hb
    rcases Ipv4.isDigit_or_dot_of_mem_text hc with h | h
    · exact absurd h (by decide)
    · exact absurd h (by decide)

namespace Branch

theorem isTokenOctet_of_mem_hexPair {x : UInt8} (hc : c ∈ hexPair x)
    (hb : b ∈ String.utf8EncodeChar c) : isTokenOctet b = true := by
  have hall : ∀ x,
      ((hexPair x).all fun c => (String.utf8EncodeChar c).all isTokenOctet) = true :=
    forall_octet (by decide +kernel)
  exact List.all_eq_true.1 (List.all_eq_true.1 (hall x) c hc) b hb

/-- A branch is a token, whatever seed it is made from. -/
theorem isRun_ofSeed (seed : String) : IsRun isTokenOctet (ofSeed seed) := by
  have hcookie : ∀ b ∈ encode cookie, isTokenOctet b = true :=
    List.all_eq_true.1 (by decide)
  constructor
  · intro hempty
    exact absurd (String.append_eq_empty_iff.1 hempty).1 (by decide)
  · intro b hb
    rw [ofSeed, encode_append] at hb
    rcases List.mem_append.1 hb with hb | hb
    · exact hcookie b hb
    · obtain ⟨c, hc, hb⟩ := mem_encode.1 hb
      rw [String.toList_ofList] at hc
      obtain ⟨x, -, hc⟩ := List.mem_flatMap.1 hc
      exact isTokenOctet_of_mem_hexPair hc hb

end Branch

/-! ## The entries of a listening point -/

namespace ListeningPoint

variable {point : ListeningPoint}

/-- The URI in the Record-Route entry of a listening point. -/
def routeUri (l : ListeningPoint) : SipUri :=
  { l.uri with params := l.uri.params ++ [.flag "lr"] }

theorem recordRoute_eq (l : ListeningPoint) :
    l.recordRoute = .ofAddress (.ofUri (.sip l.routeUri)) := by
  have hloose : l.uri.isLoose = false := by
    obtain ⟨protocol, address⟩ := l
    cases protocol with
    | udp => exact (by decide : Params.has [] "lr" = false)
    | tcp => exact (by decide +kernel : Params.has [.of "transport" "tcp"] "lr" = false)
    | tls => exact (by decide +kernel : Params.has [.of "transport" "tls"] "lr" = false)
  rw [recordRoute, RouteEntry.loose, if_neg (by simp [hloose])]
  rfl

theorem uri_recordRoute (l : ListeningPoint) : l.recordRoute.address.uri = .sip l.routeUri := by
  rw [recordRoute_eq]
  rfl

theorem settled_recordRoute (l : ListeningPoint) : l.recordRoute.settled = l.recordRoute := by
  rw [recordRoute_eq]
  rfl

theorem isUriParam_of_mem (l : ListeningPoint) : ∀ q ∈ l.routeUri.params, q.IsUriParam := by
  have hlr : Param.IsUriParam (.flag "lr") := by
    refine ⟨by decide, ?_, fun _ => by decide +kernel⟩
    intro v hv
    cases hv
  have htransport : ∀ p : Protocol, Param.IsUriParam (.of "transport" p.lowerText) := by
    intro p
    refine ⟨(by decide : IsRun isParamOctet "transport"), ?_, fun h => nomatch h⟩
    intro v hv
    cases hv
    cases p <;> decide
  intro q hq
  obtain ⟨protocol, address⟩ := l
  cases protocol with
  | udp =>
    rw [List.mem_singleton.1 hq]
    exact hlr
  | tcp =>
    rcases List.mem_cons.1 hq with rfl | hq
    · exact htransport .tcp
    · rw [List.mem_singleton.1 hq]
      exact hlr
  | tls =>
    rcases List.mem_cons.1 hq with rfl | hq
    · exact htransport .tls
    · rw [List.mem_singleton.1 hq]
      exact hlr

theorem isWritable_routeUri (l : ListeningPoint) : l.routeUri.IsWritable where
  user x hx := nomatch hx
  password x hx := nomatch hx
  host := Host.isHost_ofIp l.address.ip
  params := l.isUriParam_of_mem
  headers q hq := nomatch hq
  ends := by
    have htext : l.routeUri.text = l.routeUri.scheme.text ++ ":" ++ l.routeUri.userText ++
        l.routeUri.host ++ SipUri.portText l.routeUri.port ++ l.uri.params.text ++ ";" ++ "lr" := by
      have hparams : l.routeUri.params = l.uri.params ++ [.flag "lr"] := rfl
      have hheaders : SipUri.headersText l.routeUri.headers = "" := rfl
      have hflag : (Param.flag "lr").text = "lr" := rfl
      rw [SipUri.text, hheaders, hparams, Params.text_concat, hflag, String.append_empty]
      simp only [String.append_assoc]
    rw [htext]
    exact (Text.trimEnd_append_iff _ (by decide)).2 (by decide)

/-- The Record-Route entry of a listening point can be read. -/
theorem isWritable_recordRoute (l : ListeningPoint) : Route.IsWritable [l.recordRoute] := by
  have hbreak := l.isWritable_routeUri.isBreak_eq_false
  rw [recordRoute_eq]
  refine Entries.isWritable_singleton ⟨⟨l.isWritable_routeUri, ?_, fun n hn => nomatch hn⟩,
    fun p hp => nomatch hp⟩ (RouteEntry.trimEnd_text fun hne => absurd rfl hne)
  rintro b hb rfl
  exact absurd (hbreak _ hb) (by decide)

/-- The Via entry of a listening point can be read, with the branch of every seed. -/
theorem isWritable_via (l : ListeningPoint) (seed : String) :
    Via.IsWritable [l.via (Branch.ofSeed seed)] := by
  have hbranch := Branch.isRun_ofSeed seed
  have hparam : ∀ b, isTokenOctet b = true → isParamOctet b = true :=
    not_or_of (isOneOf_eq_false_of (by decide)) (isOneOf_eq_false_of (by decide))
  have hwritable : (l.via (Branch.ofSeed seed)).IsWritable := by
    constructor
    · exact (by decide : IsRun isTokenOctet "SIP")
    · exact (by decide : IsRun isTokenOctet "2.0")
    · show IsRun isTokenOctet l.protocol.text
      cases l.protocol <;> decide
    · exact Host.isHost_ofIp l.address.ip
    · intro p hp
      obtain rfl := List.mem_singleton.1 hp
      refine ⟨(by decide : IsRun isTokenOctet "branch"), fun v hv => ?_⟩
      cases hv
      exact .inl ⟨hbranch.1, fun b hb => hparam b (hbranch.2 b hb)⟩
  refine Entries.isWritable_singleton hwritable (hwritable.isLegible.trimEnd fun _ => ?_)
  have htext : (l.via (Branch.ofSeed seed)).params.text = ";branch=" ++ Branch.ofSeed seed := by
    show Params.text ([] ++ [.of "branch" (Branch.ofSeed seed)]) = _
    rw [Params.text_concat]
    simp [Params.text, Param.text, Param.of, ← String.append_assoc]
  rw [htext]
  exact (Text.trimEnd_append_iff _ hbranch.1).2 (hbranch.trimEnd isInk_of_isTokenOctet)

end ListeningPoint

end SipProxy
