import SipProxy.Proofs.Engine.Arrival

/-!
# A request has no more hops than it says

A request passes from proxy to proxy, each with names, routes and a memory of its own. What a proxy
forwards reaches the next one as it is, inside one process, or as the text that it makes
(`Request.Journey`). One hop costs one, on each of the ways out of the engine
(`Engine.maxForwards_of_process`), and no handing over changes that number in a request whose start
line and header lines can be read (`Message.IsSendable`), so it bounds the journey of every such
request, through any proxies and round any loop of them (`Request.Journey.bounded_by_hops`). A line
that cannot be read as it is written may say another number on its way
(`Request.Journey.exists_longer_than_hops`): a header under a name that no line can have, or a start
line with a line break in it, behind which a header line stands that the request does not hold.
-/

namespace SipProxy

open Headers Message

variable {m m' : Message} {n : Hops}

/-! ## One hop -/

namespace Engine

variable {e : Engine} {source : Endpoint} {point : ListeningPoint}
  {learned learned' : LearnedRoutes} {f : Forward}

/-- A request that is forwarded has one hop less, whoever it is forwarded to. -/
theorem maxForwards_of_process (hreq : m.isRequest = true)
    (hn : (m.typed .maxForwards).1 = .ok (some n))
    (h : e.process source point m learned = (.ok f, learned')) :
    ∃ n' : Hops, (f.message.typed .maxForwards).1 = .ok (some n') ∧
      n'.left.toNat + 1 = n.left.toNat := by
  have hless := (requestRewrite_of_process hreq h).maxForwards
  rw [typed_fst] at hn
  cases hl : linesOf .maxForwards m.headers with
  | nil =>
    rw [hl] at hn
    cases hn
  | cons line rest =>
    rw [hl] at hn hless
    obtain ⟨before, n', hbefore, hlines, hcount⟩ := hless
    simp only [hbefore] at hn
    cases hn
    refine ⟨n', ?_, hcount⟩
    rw [typed_fst, hlines]
    simp only [Header.read_put]
    rfl

/-- A request without a hop left is forwarded to nobody, be it a backend or a next hop. -/
theorem not_process_of_exhausted (hreq : m.isRequest = true)
    (hn : (m.typed .maxForwards).1 = .ok (some ⟨0⟩)) :
    (e.process source point m learned).1 ≠ .ok f := by
  intro hf
  obtain ⟨n', -, hcount⟩ := maxForwards_of_process hreq hn (Prod.ext hf rfl)
  exact absurd hcount (Nat.succ_ne_zero _)

end Engine

/-! ## Journeys -/

/-- What the next proxy is given of a message that was forwarded: the message itself, or what can
be read of it. -/
def Message.HandedOver (sent received : Message) : Prop :=
  received = sent ∨ Message.parse sent.wire = .ok received

namespace Message.HandedOver

variable {sent received : Message}

theorem isSendable (h : HandedOver sent received) (hs : sent.IsSendable) : received.IsSendable := by
  rcases h with rfl | h
  · exact hs
  · exact isSendable_of_parse h

/-- The number of hops is read as it was written. -/
theorem typed_eq (h : HandedOver sent received) (hs : sent.IsSendable) :
    (received.typed .maxForwards).1 = (sent.typed .maxForwards).1 := by
  rcases h with rfl | h
  · rfl
  · rw [parse_wire_of_isSendable hs] at h
    obtain ⟨start, -, rfl⟩ := Outcome.map_eq_ok.1 h
    have hread := @typed_received_eq .maxForwards sent hs fun _ => rfl
    rw [typed_fst] at hread ⊢
    exact hread

end Message.HandedOver

namespace Request

/-- A request on its way through any proxies: what each of them forwarded, with what the next one
was given of it. -/
inductive Journey : Message → List (Message × Message) → Prop
  | here (m : Message) : Journey m []
  | hop {m received : Message} {hops : List (Message × Message)} {e : Engine} {source : Endpoint}
      {point : ListeningPoint} {learned learned' : LearnedRoutes} {f : Forward}
      (hreq : m.isRequest = true) (h : e.process source point m learned = (.ok f, learned'))
      (hnext : HandedOver f.message received) (rest : Journey received hops) :
      Journey m ((f.message, received) :: hops)

namespace Journey

variable {hops : List (Message × Message)}

/-- Each hop has cost one. -/
theorem left_at (hj : Journey m hops) (hm : m.IsSendable ∨ ∀ hop ∈ hops, hop.2 = hop.1)
    (hn : (m.typed .maxForwards).1 = .ok (some n)) (k : Nat) (hk : k < hops.length) :
    ∃ n' : Hops, (hops[k].1.typed .maxForwards).1 = .ok (some n') ∧
      n'.left.toNat + (k + 1) = n.left.toNat := by
  induction hj generalizing n k with
  | here m => exact absurd hk (Nat.not_lt_zero k)
  | @hop m received hops e source point learned learned' f hreq h hnext rest ih =>
    obtain ⟨n₁, hn₁, hcount⟩ := Engine.maxForwards_of_process hreq hn h
    cases k with
    | zero => exact ⟨n₁, hn₁, hcount⟩
    | succ k =>
      -- the next proxy is given the number that was written
      have hnext₁ : (received.IsSendable ∨ ∀ hop ∈ hops, hop.2 = hop.1) ∧
          (received.typed .maxForwards).1 = .ok (some n₁) := by
        rcases hm with hm | hm
        · have hsent := Engine.isSendable_of_process hm h
          exact ⟨.inl (hnext.isSendable hsent), (hnext.typed_eq hsent).trans hn₁⟩
        · obtain rfl : received = f.message := hm _ List.mem_cons_self
          exact ⟨.inr fun hop hmem => hm hop (List.mem_cons_of_mem _ hmem), hn₁⟩
      obtain ⟨n', hn', hcount'⟩ :=
        ih hnext₁.1 hnext₁.2 k (Nat.lt_of_succ_lt_succ hk)
      exact ⟨n', hn', by omega⟩

/-- A request has no more hops than it says: it counts them down one by one, and nobody forwards it
when none is left. That goes for every request whose start line and header lines are read back as
they are written, such as one that was received (`isSendable_of_parse`), and for every other as long
as it is not written and read on its way. -/
theorem bounded_by_hops (hj : Journey m hops) (hm : m.IsSendable ∨ ∀ hop ∈ hops, hop.2 = hop.1)
    (hn : (m.typed .maxForwards).1 = .ok (some n)) :
    hops.length ≤ n.left.toNat ∧
      (∀ k (hk : k < hops.length), ∃ n' : Hops,
        (hops[k].1.typed .maxForwards).1 = .ok (some n') ∧
          n'.left.toNat = n.left.toNat - (k + 1)) ∧
      ∀ (e : Engine) source point learned f (last : Message), last.isRequest = true →
        (last.typed .maxForwards).1 = .ok (some ⟨0⟩) →
          (e.process source point last learned).1 ≠ .ok f := by
  have hleft := hj.left_at hm hn
  refine ⟨?_, ?_, ?_⟩
  · cases hlen : hops.length with
    | zero => exact Nat.zero_le _
    | succ k =>
      obtain ⟨n', -, hcount⟩ := hleft k (by omega)
      omega
  · intro k hk
    obtain ⟨n', hn', hcount⟩ := hleft k hk
    exact ⟨n', hn', by omega⟩
  · intro e source point learned f last hreq hlast
    exact Engine.not_process_of_exhausted hreq hlast

/-- A request with two hops left goes as far as that, along its Route and through the text that the
first proxy sends of it, and no further whatever way it takes. -/
theorem bounded_by_two_hops :
    ∃ m sent received last,
      Message.parse (Utf8.encode ("INVITE sip:b SIP/2.0\r\nv: SIP/2.0/UDP a\r\n" ++
        "Route: <sip:1.2.3.4>,<sip:1.2.3.5>\r\nMax-Forwards: 2\r\nl: 0\r\n\r\n")) = .ok m ∧
      sent ≠ received ∧ Journey m [(sent, received), (last, last)] ∧
      (∃ n' : Hops, (last.typed .maxForwards).1 = .ok (some n') ∧ n'.left.toNat = 2 - 2) ∧
      ∀ hops, Journey m hops → hops.length ≤ 2 := by
  have hparse : Message.parse (Utf8.encode ("INVITE sip:b SIP/2.0\r\nv: SIP/2.0/UDP a\r\n" ++
      "Route: <sip:1.2.3.4>,<sip:1.2.3.5>\r\nMax-Forwards: 2\r\nl: 0\r\n\r\n")) =
      .ok ⟨.request ⟨"INVITE", "sip:b", "SIP/2.0"⟩, [.ofText "v" "SIP/2.0/UDP a",
        .ofText "Route" "<sip:1.2.3.4>,<sip:1.2.3.5>", .ofText "Max-Forwards" "2",
        .ofText "l" "0"], []⟩ := by
    decide +kernel
  have hfirst : (Engine.process ⟨[], Table.empty, false⟩ (.v4 ⟨10, 0, 0, 1⟩ 5060)
      ⟨.udp, .v4 ⟨10, 0, 0, 9⟩ 5060⟩
      ⟨.request ⟨"INVITE", "sip:b", "SIP/2.0"⟩, [.ofText "v" "SIP/2.0/UDP a",
        .ofText "Route" "<sip:1.2.3.4>,<sip:1.2.3.5>", .ofText "Max-Forwards" "2",
        .ofText "l" "0"], []⟩ Table.empty).1 =
      .ok (.relay ⟨.udp, "1.2.3.4", 5060⟩ ⟨.request ⟨"INVITE", "sip:b", "SIP/2.0"⟩,
        [⟨"v", .typed (.via [.of "UDP" "a" 0])⟩,
          ⟨"Route", .typed (.route [.ofAddress (.ofUri (.sip (.ofHost "1.2.3.5")))])⟩,
          ⟨"Max-Forwards", .typed (.maxForwards ⟨1⟩)⟩, .ofText "l" "0"], []⟩) := by
    decide +kernel
  have hback : Message.parse (Message.wire ⟨.request ⟨"INVITE", "sip:b", "SIP/2.0"⟩,
      [⟨"v", .typed (.via [.of "UDP" "a" 0])⟩,
        ⟨"Route", .typed (.route [.ofAddress (.ofUri (.sip (.ofHost "1.2.3.5")))])⟩,
        ⟨"Max-Forwards", .typed (.maxForwards ⟨1⟩)⟩, .ofText "l" "0"], []⟩) =
      .ok ⟨.request ⟨"INVITE", "sip:b", "SIP/2.0"⟩, [.ofText "v" "SIP/2.0/UDP a",
        .ofText "Route" "<sip:1.2.3.5>", .ofText "Max-Forwards" "1",
        .ofText "Content-Length" "0"], []⟩ := by
    decide +kernel
  have hsecond : (Engine.process ⟨[], Table.empty, false⟩ (.v4 ⟨10, 0, 0, 9⟩ 5060)
      ⟨.udp, .v4 ⟨1, 2, 3, 4⟩ 5060⟩
      ⟨.request ⟨"INVITE", "sip:b", "SIP/2.0"⟩, [.ofText "v" "SIP/2.0/UDP a",
        .ofText "Route" "<sip:1.2.3.5>", .ofText "Max-Forwards" "1",
        .ofText "Content-Length" "0"], []⟩ Table.empty).1 =
      .ok (.relay ⟨.udp, "1.2.3.5", 5060⟩ ⟨.request ⟨"INVITE", "sip:b", "SIP/2.0"⟩,
        [⟨"v", .typed (.via [.of "UDP" "a" 0])⟩, ⟨"Max-Forwards", .typed (.maxForwards ⟨0⟩)⟩,
          .ofText "Content-Length" "0"], []⟩) := by
    decide +kernel
  have hjourney := Journey.hop rfl (Prod.ext hfirst rfl) (.inr hback)
    (.hop rfl (Prod.ext hsecond rfl) (.inl rfl) (.here _))
  have hm := isSendable_of_parse hparse
  obtain ⟨-, hlast, -⟩ := bounded_by_hops hjourney (.inl hm) (n := ⟨2⟩) (by decide +kernel)
  refine ⟨_, _, _, _, hparse, ?_, hjourney, hlast 1 (by decide), fun hops h => ?_⟩
  · decide
  · exact (bounded_by_hops h (.inl hm) (n := ⟨2⟩) (by decide +kernel)).1

/-- A request that was put together with a header name that no line can have is another request once
it is written and read, and goes further than it said: the blank behind the name is lost. -/
theorem exists_longer_than_hops :
    ∃ hops, Journey ⟨.request ⟨"INVITE", "sip:b", "SIP/2.0"⟩, [.ofText "v" "SIP/2.0/UDP a",
        .ofText "Route" "<sip:1.2.3.4>,<sip:1.2.3.5>", .ofText "Max-Forwards " "9",
        .ofText "Max-Forwards" "1", .ofText "l" "0"], []⟩ hops ∧
      (Message.typed .maxForwards ⟨.request ⟨"INVITE", "sip:b", "SIP/2.0"⟩,
        [.ofText "v" "SIP/2.0/UDP a", .ofText "Route" "<sip:1.2.3.4>,<sip:1.2.3.5>",
          .ofText "Max-Forwards " "9", .ofText "Max-Forwards" "1", .ofText "l" "0"], []⟩).1 =
        .ok (some ⟨1⟩) ∧
      hops.length = 2 := by
  have hfirst : (Engine.process ⟨[], Table.empty, false⟩ (.v4 ⟨10, 0, 0, 1⟩ 5060)
      ⟨.udp, .v4 ⟨10, 0, 0, 9⟩ 5060⟩
      ⟨.request ⟨"INVITE", "sip:b", "SIP/2.0"⟩, [.ofText "v" "SIP/2.0/UDP a",
        .ofText "Route" "<sip:1.2.3.4>,<sip:1.2.3.5>", .ofText "Max-Forwards " "9",
        .ofText "Max-Forwards" "1", .ofText "l" "0"], []⟩ Table.empty).1 =
      .ok (.relay ⟨.udp, "1.2.3.4", 5060⟩ ⟨.request ⟨"INVITE", "sip:b", "SIP/2.0"⟩,
        [⟨"v", .typed (.via [.of "UDP" "a" 0])⟩,
          ⟨"Route", .typed (.route [.ofAddress (.ofUri (.sip (.ofHost "1.2.3.5")))])⟩,
          .ofText "Max-Forwards " "9", ⟨"Max-Forwards", .typed (.maxForwards ⟨0⟩)⟩,
          .ofText "l" "0"], []⟩) := by
    decide +kernel
  have hback : Message.parse (Message.wire ⟨.request ⟨"INVITE", "sip:b", "SIP/2.0"⟩,
      [⟨"v", .typed (.via [.of "UDP" "a" 0])⟩,
        ⟨"Route", .typed (.route [.ofAddress (.ofUri (.sip (.ofHost "1.2.3.5")))])⟩,
        .ofText "Max-Forwards " "9", ⟨"Max-Forwards", .typed (.maxForwards ⟨0⟩)⟩,
        .ofText "l" "0"], []⟩) =
      .ok ⟨.request ⟨"INVITE", "sip:b", "SIP/2.0"⟩, [.ofText "v" "SIP/2.0/UDP a",
        .ofText "Route" "<sip:1.2.3.5>", .ofText "Max-Forwards" "9", .ofText "Max-Forwards" "0",
        .ofText "Content-Length" "0"], []⟩ := by
    decide +kernel
  have hsecond : (Engine.process ⟨[], Table.empty, false⟩ (.v4 ⟨10, 0, 0, 9⟩ 5060)
      ⟨.udp, .v4 ⟨1, 2, 3, 4⟩ 5060⟩
      ⟨.request ⟨"INVITE", "sip:b", "SIP/2.0"⟩, [.ofText "v" "SIP/2.0/UDP a",
        .ofText "Route" "<sip:1.2.3.5>", .ofText "Max-Forwards" "9", .ofText "Max-Forwards" "0",
        .ofText "Content-Length" "0"], []⟩ Table.empty).1 =
      .ok (.relay ⟨.udp, "1.2.3.5", 5060⟩ ⟨.request ⟨"INVITE", "sip:b", "SIP/2.0"⟩,
        [⟨"v", .typed (.via [.of "UDP" "a" 0])⟩, ⟨"Max-Forwards", .typed (.maxForwards ⟨8⟩)⟩,
          .ofText "Max-Forwards" "0", .ofText "Content-Length" "0"], []⟩) := by
    decide +kernel
  have hjourney := Journey.hop rfl (Prod.ext hfirst rfl) (.inr hback)
    (.hop rfl (Prod.ext hsecond rfl) (.inl rfl) (.here _))
  exact ⟨_, hjourney, by decide +kernel, rfl⟩

end Journey

end Request

end SipProxy
