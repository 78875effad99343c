import SipProxy.Ip.Address

/-!
# Endpoints

Where datagrams and streams come from and go to: an address with a port, and for IPv6 the zone in
which a link-local address is meant. Two endpoints that differ in the zone alone are different.

An IPv6 socket address has a flow label, too, which is left out. No text spells it, and it is 0 in
every endpoint that the proxy comes by, be it read from a text or the configuration, resolved from a
name or given by a socket. So address, port and zone are all that tells two endpoints apart.

`Endpoint.key` fixes the order in which new backends are opened: IPv4 before IPv6, then by address,
port and zone.
-/

namespace SipProxy

inductive Endpoint where
  | v4 (ip : Ipv4) (port : UInt16)
  | v6 (ip : Ipv6) (port : UInt16) (zone : UInt32)
deriving DecidableEq, Repr

namespace Endpoint

/-- The endpoint at an address, in no zone. -/
def of (ip : IpAddress) (port : UInt16) : Endpoint :=
  match ip with
  | .v4 ip => v4 ip port
  | .v6 ip => v6 ip port 0

def ip : Endpoint → IpAddress
  | v4 ip _ => .v4 ip
  | v6 ip _ _ => .v6 ip

def port : Endpoint → UInt16
  | v4 _ port => port
  | v6 _ port _ => port

/-- The endpoint at another port of the same address and zone. -/
def withPort : Endpoint → UInt16 → Endpoint
  | v4 ip _, port => v4 ip port
  | v6 ip _ zone, port => v6 ip port zone

def text : Endpoint → String
  | v4 ip port => s!"{ip.text}:{port.toNat}"
  | v6 ip port zone =>
    if zone = 0 then s!"[{ip.text}]:{port.toNat}"
    else s!"[{ip.text}%{zone.toNat}]:{port.toNat}"

/-- Compared entry by entry, the order of endpoints. -/
def key : Endpoint → List Nat
  | v4 ip port => [0, ip.a.toNat, ip.b.toNat, ip.c.toNat, ip.d.toNat, port.toNat]
  | v6 ip port zone => 1 :: ip.groups.map UInt16.toNat ++ [port.toNat, zone.toNat]

/-- Is the first list no later than the second, compared by the first entry that differs? -/
def leEntries : List Nat → List Nat → Bool
  | [], _ => true
  | _ :: _, [] => false
  | a :: as, b :: bs => a.blt b || a.beq b && leEntries as bs

/-- Does `a` come before `b`, or are they equal? -/
def le (a b : Endpoint) : Bool := leEntries a.key b.key

/-- The address and zone between the brackets. -/
def zoned? (cs : List Char) : Option (Ipv6 × UInt32) :=
  match Text.cutFirst '%' cs with
  | some (ip, zone) =>
    match Ipv6.ofChars? ip, Decimal.ofDigitsBelow? UInt32.size zone with
    | some ip, some zone => some (ip, UInt32.ofNat zone)
    | _, _ => none
  | none => (Ipv6.ofChars? cs).map fun ip => (ip, 0)

/-- The endpoint that the whole text spells, as `text` writes it. -/
def ofText? (s : String) : Option Endpoint :=
  match s.toList with
  | '[' :: rest =>
    match Text.cutFirst ']' rest with
    | some (inside, ':' :: port) =>
      match zoned? inside, Decimal.ofDigitsBelow? UInt16.size port with
      | some (ip, zone), some port => some (v6 ip (UInt16.ofNat port) zone)
      | _, _ => none
    | _ => none
  | cs =>
    match Text.cutFirst ':' cs with
    | some (ip, port) =>
      match Ipv4.ofChars? ip, Decimal.ofDigitsBelow? UInt16.size port with
      | some ip, some port => some (v4 ip (UInt16.ofNat port))
      | _, _ => none
    | none => none

@[simp] theorem ip_of (ip : IpAddress) (port : UInt16) : (of ip port).ip = ip := by
  cases ip <;> rfl

@[simp] theorem port_of (ip : IpAddress) (p : UInt16) : (of ip p).port = p := by
  cases ip <;> rfl

theorem leEntries_refl (as : List Nat) : leEntries as as = true := by
  induction as with
  | nil => rfl
  | cons a as ih => simp [leEntries, ih]

theorem leEntries_trans {as bs cs : List Nat} (h : leEntries as bs = true)
    (h' : leEntries bs cs = true) : leEntries as cs = true := by
  induction as generalizing bs cs with
  | nil => rfl
  | cons a as ih =>
    match bs, cs with
    | b :: bs, c :: cs =>
      simp only [leEntries, Bool.or_eq_true, Bool.and_eq_true, Nat.blt_eq, Nat.beq_eq] at h h' ⊢
      rcases h with h | ⟨rfl, h⟩ <;> rcases h' with h' | ⟨rfl, h'⟩
      · exact .inl (by omega)
      · exact .inl h
      · exact .inl h'
      · exact .inr ⟨rfl, ih h h'⟩

theorem leEntries_total (as bs : List Nat) : (leEntries as bs || leEntries bs as) = true := by
  induction as generalizing bs with
  | nil => simp [leEntries]
  | cons a as ih =>
    match bs with
    | [] => simp [leEntries]
    | b :: bs =>
      have := ih bs
      simp only [leEntries, Bool.or_eq_true, Bool.and_eq_true, Nat.blt_eq, Nat.beq_eq] at this ⊢
      by_cases a < b
      · simp_all
      · by_cases b < a
        · simp_all
        · have : a = b := by omega
          simp_all

@[simp] theorem le_refl (a : Endpoint) : le a a = true := leEntries_refl a.key

theorem le_trans {a b c : Endpoint} : le a b = true → le b c = true → le a c = true :=
  leEntries_trans

theorem le_total (a b : Endpoint) : (le a b || le b a) = true := leEntries_total a.key b.key

end Endpoint

end SipProxy
