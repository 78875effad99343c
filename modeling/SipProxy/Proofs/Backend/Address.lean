import SipProxy.Proofs.Backend.Following
import SipProxy.Proofs.Ip.Text
import SipProxy.Proofs.Outcome
import SipProxy.Server.Start

/-!
# The address of a backend

A backend is opened at an endpoint, and known by the endpoint that its connection reaches. In
between, the endpoint is a host and a port: its address is written, read again and given the port.
What is written comes back (`HostTable.resolver_text`), but no zone is written, so a backend is
always opened in none (`Connection.openBackend_eq`).

At an endpoint in no zone, which every IPv4 endpoint is, the backend is found again. In any other
zone it stands in its pool under an endpoint that nobody asks for: no removal takes it out, and the
watch that opened it does not close it (`Connection.found_iff_zone_eq_zero`). Nothing but the zone
can be lost, because no endpoint that the proxy comes by has a flow label (see `Endpoint`); a label
would be lost in the same way.
-/

namespace SipProxy

variable {net : Network} {shares : Bool} {p : Protocol} {a : Endpoint} {c : Connection}

/-! ## Endpoints without their zones -/

namespace Endpoint

/-- The zone in which the address is meant, 0 for none. -/
def zone : Endpoint → UInt32
  | v4 _ _ => 0
  | v6 _ _ zone => zone

/-- Address and port tell an endpoint in no zone, and no other. -/
theorem of_ip_port_eq_iff : of a.ip a.port = a ↔ a.zone = 0 := by
  cases a with
  | v4 ip port => exact iff_of_true rfl rfl
  | v6 ip port zone =>
    show v6 ip port 0 = v6 ip port zone ↔ zone = 0
    simp only [v6.injEq, true_and]
    exact eq_comm

end Endpoint

/-! ## Resolving what was written -/

namespace HostTable

theorem bare_eq_self {host : String} (ho : '[' ∉ host.toList) (hc : ']' ∉ host.toList) :
    bare host = host := by
  have hdrop : ∀ {b : Char} {l : List Char}, b ∉ l → l.dropWhile (· == b) = l := by
    intro b l hb
    cases l with
    | nil => rfl
    | cons x l =>
      have hx : x ≠ b := fun h => hb (h ▸ List.mem_cons_self)
      rw [List.dropWhile_cons_of_neg (by simpa using hx)]
  unfold bare
  rw [hdrop ho, hdrop (mt List.mem_reverse.1 hc), List.reverse_reverse, String.ofList_toList]

/-- The text of an address resolves to the address in no zone, whatever the table and the network
say of other hosts. -/
theorem resolver_text (hosts : HostTable) (lookup : String → Except String (List Endpoint))
    (ip : IpAddress) (port : UInt16) : hosts.resolver lookup ip.text port = .ok [.of ip port] := by
  have hplain : ∀ {b : Char}, IpAddress.isTextChar b = false → b ∉ ip.text.toList := by
    intro b hb hmem
    rw [IpAddress.isTextChar_of_mem_text hmem] at hb
    cases hb
  have hbare : bare ip.text = ip.text := bare_eq_self (hplain (by decide)) (hplain (by decide))
  unfold resolver
  simp only [hbare, IpAddress.ofText?_text]

end HostTable

namespace Connection

/-- A backend is opened at the address and port of an endpoint, in no zone. -/
theorem openBackend_eq (net : Network) (shares : Bool) (p : Protocol) (a : Endpoint) :
    openBackend net shares p a =
      (reach net shares p (.of a.ip a.port)).map fun _ =>
        ⟨⟨p, a.ip.text, a.port⟩, .of a.ip a.port, true⟩ := by
  unfold openBackend connect
  rw [HostTable.resolver_text]
  show (reach net shares p (.of a.ip a.port) >>= fun _ => pure _) = _
  cases reach net shares p (.of a.ip a.port) <;> rfl

theorem address_of_openBackend (h : openBackend net shares p a = .ok c) :
    Addressed.address c = .of a.ip a.port := by
  rw [openBackend_eq] at h
  obtain ⟨-, -, rfl⟩ := Outcome.map_eq_ok.1 h
  rfl

theorem address_eq_iff (h : openBackend net shares p a = .ok c) :
    Addressed.address c = a ↔ a.zone = 0 := by
  rw [address_of_openBackend h, Endpoint.of_ip_port_eq_iff]

end Connection

/-! ## Being found again -/

section

variable {β : Type} [Addressed β] {pool : Pool β}

/-- The backend that was added last leaves if it alone can be meant. -/
theorem Pool.remove_add_fst (ha : a ∉ pool.addresses) (b : β) :
    ((pool.add b).remove a).1 = if Addressed.address b = a then some b else none := by
  have hnone : pool.backends.filter (fun x => Addressed.address x = a) = [] := by
    rw [List.filter_eq_nil_iff]
    intro x hx hxa
    exact ha (List.mem_map.2 ⟨x, hx, of_decide_eq_true hxa⟩)
  rw [Pool.remove_fst, Pool.backendsAt, Pool.add, List.filter_append, hnone, List.nil_append]
  split
  · rename_i hb
    rw [List.filter_cons_of_pos (by simpa using hb), List.head?_cons]
  · rename_i hb
    rw [List.filter_cons_of_neg (by simpa using hb)]
    rfl

/-- A name that resolves to one address which is new to its watch. -/
theorem Membership.follow_singleton {openAt : Endpoint → Option β} {known : List Endpoint} {b : β}
    (hk : a ∉ known) (ho : openAt a = some b) (p : Pool β) :
    (follow openAt [a] known p).pool = (removeAll known p).2.add b ∧
      (follow openAt [a] known p).known = [a] ∧ (follow openAt [a] known p).opened = [b] := by
  have hgone : (known.filter fun x => !List.contains [a] x) = known := by
    rw [List.filter_eq_self]
    intro x hx
    have hxa : x ≠ a := fun h => hk (h ▸ hx)
    simpa using hxa
  have hstayed : (known.filter fun x => [a].contains x) = [] := by
    rw [List.filter_eq_nil_iff]
    intro x hx hxa
    exact hk (List.mem_singleton.1 (List.contains_iff_mem.1 hxa) ▸ hx)
  have hnew : ((ascending [a]).filter fun x => !known.contains x) = [a] := by
    have hone : ascending [a] = [a] := by simp [ascending, List.eraseDups_cons]
    rw [hone, List.filter_cons_of_pos (by simpa using hk), List.filter_nil]
  unfold follow
  simp only [hgone, hstayed, hnew, List.nil_append, List.filterMap_cons_some ho,
    List.filterMap_nil, List.foldl_cons, List.foldl_nil, List.filter_cons, ho, Option.isSome_some,
    if_true, List.filter_nil, true_and]

theorem Membership.notMem_addresses_removeAll (ha : a ∉ pool.addresses) (as : List Endpoint) :
    a ∉ (removeAll as pool).2.addresses := by
  intro hmem
  obtain ⟨b, hb, hba⟩ := List.mem_map.1 hmem
  have hin : b ∈ pool.backends := (removeAll_perm as pool).subset (List.mem_append_right _ hb)
  exact ha (List.mem_map.2 ⟨b, hin, hba⟩)

end

namespace Connection

/-- What a backend is known by. It is opened at the address and the port of its endpoint, and has
that endpoint if and only if it is in no zone. Then, and only then, a removal at the endpoint takes
it out of its pool, and a watch that opened it for the endpoint closes it when its name no longer
resolves there. The watch knows the endpoint in any case. -/
theorem found_iff_zone_eq_zero (h : openBackend net shares p a = .ok c) :
    Addressed.address c = .of a.ip a.port ∧
    (Addressed.address c = a ↔ a.zone = 0) ∧
    (∀ pool : Pool Connection, a ∉ pool.addresses →
      ((pool.add c).remove a).1 = if a.zone = 0 then some c else none) ∧
    ∀ (r : Relay) (w : Watch) (pool : Pool Connection) (later : List Endpoint),
      r.udp.isSome = shares → w.target.protocol = p →
      a ∉ w.known → a ∉ pool.addresses → a ∉ later →
      let opened := WatchedPool.follow (r.opener net) w [a] pool
      let left := WatchedPool.follow (r.opener net) opened.2.1 later opened.1
      opened.2.1.known = [a] ∧ opened.2.2.opened = [c] ∧ a ∉ left.2.1.known ∧
        left.2.2.closed = if a.zone = 0 then [c] else [] := by
  have hremove : ∀ pool : Pool Connection, a ∉ pool.addresses →
      ((pool.add c).remove a).1 = if a.zone = 0 then some c else none := by
    intro pool ha
    simp only [Pool.remove_add_fst ha, address_eq_iff h]
  refine ⟨address_of_openBackend h, address_eq_iff h, hremove, ?_⟩
  intro r w pool later hr hw hk ha hlater
  have ho : r.opener net w.target.protocol a = some c := by
    rw [Relay.opener, hr, hw, h]
    rfl
  obtain ⟨hpool, hknown, hopened⟩ := Membership.follow_singleton hk ho pool
  refine ⟨hknown, hopened, ?_, ?_⟩
  · intro hmem
    rw [WatchedPool.follow, Membership.mem_known_follow] at hmem
    exact hlater hmem.1
  · have hgone : Membership.vanished later [a] = [a] :=
      List.filter_cons_of_pos (by simpa using hlater)
    show (Membership.removeAll (Membership.vanished later
      (Membership.follow (r.opener net w.target.protocol) [a] w.known pool).known)
      (Membership.follow (r.opener net w.target.protocol) [a] w.known pool).pool).1 = _
    rw [hknown, hpool, hgone]
    show (Pool.remove a _).1.toList ++ [] = _
    rw [hremove _ (Membership.notMem_addresses_removeAll ha _)]
    split <;> rfl

/-- A backend at a link-local address, in zone 7. It is removed with nothing in zone 7, and the
watch that opened it leaves it in the pool. -/
theorem found_iff_zone_eq_zero_of_link_local :
    let ip : Ipv6 := ⟨[0xfe80, 0, 0, 0, 0, 0, 0, 1], rfl⟩
    let a : Endpoint := .v6 ip 5060 7
    let c : Connection := ⟨⟨.udp, "fe80::1", 5060⟩, .v6 ip 5060 0, true⟩
    let r : Relay :=
      Relay.ofConfig { udpPort := some 5060 } ⟨[], .empty, false⟩ (.v4 ⟨127, 0, 0, 1⟩)
    let w : Watch := ⟨⟨.udp, "link.test", 5060⟩, 30, 0, []⟩
    let opened := WatchedPool.follow (r.opener .isolated) w [a] .empty
    let left := WatchedPool.follow (r.opener .isolated) opened.2.1 [] opened.1
    openBackend .isolated true .udp a = .ok c ∧ ¬ Addressed.address c = a ∧
      (((Pool.empty : Pool Connection).add c).remove a).1 = none ∧
      opened.2.1.known = [a] ∧ a ∉ left.2.1.known ∧ left.2.2.closed = [] := by
  intro ip a c r w opened left
  have h : openBackend .isolated true .udp a = .ok c := by decide +kernel
  have hzone : a.zone ≠ 0 := by decide
  obtain ⟨-, haddress, hremove, hwatch⟩ := found_iff_zone_eq_zero h
  obtain ⟨hknown, -, hgone, hclosed⟩ :=
    hwatch r w .empty [] rfl rfl List.not_mem_nil List.not_mem_nil List.not_mem_nil
  rw [if_neg hzone] at hclosed
  refine ⟨h, mt haddress.1 hzone, ?_, hknown, hgone, hclosed⟩
  rw [hremove .empty List.not_mem_nil, if_neg hzone]

/-- Not every backend is known by the endpoint that it was opened for. -/
theorem exists_address_ne :
    ¬ ∀ (net : Network) (shares : Bool) (p : Protocol) (a : Endpoint) (c : Connection),
      openBackend net shares p a = .ok c → Addressed.address c = a := by
  intro hall
  have h : openBackend .isolated true .udp (.v6 ⟨[0xfe80, 0, 0, 0, 0, 0, 0, 1], rfl⟩ 5060 7) =
      .ok ⟨⟨.udp, "fe80::1", 5060⟩, .v6 ⟨[0xfe80, 0, 0, 0, 0, 0, 0, 1], rfl⟩ 5060 0, true⟩ := by
    decide +kernel
  exact absurd (hall _ _ _ _ _ h) (by decide)

end Connection

end SipProxy
