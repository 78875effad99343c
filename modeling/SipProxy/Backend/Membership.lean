import SipProxy.Backend.Pool

/-!
# Membership by resolution

A backend that is given by a host name stands for all addresses that the name resolves to, now and
later. `Membership.follow` brings a pool in line with a resolution: backends of addresses that
vanished leave, and a backend is opened for every new address, in ascending order. An address whose
backend cannot be opened stays unknown, so the next resolution tries it again.

Each watched name keeps the addresses it has a backend for apart from the pool, since a pool may
also hold backends of other names and of fixed addresses.
-/

namespace SipProxy

/-- What a change of membership leaves behind. -/
structure Membership (β : Type) where
  pool : Pool β
  /-- The addresses that a backend was opened for. -/
  known : List Endpoint
  /-- The backends that left the pool and are to be closed, in order. -/
  closed : List β
  /-- The backends that were opened, in order. -/
  opened : List β

namespace Membership

variable {β : Type} [Addressed β]

/-- Takes one backend of every address out of the pool. -/
def removeAll : List Endpoint → Pool β → List β × Pool β
  | [], p => ([], p)
  | a :: as, p =>
    let first := p.remove a
    let rest := removeAll as first.2
    (first.1.toList ++ rest.1, rest.2)

/-- The addresses in ascending order, each once. -/
def ascending (addresses : List Endpoint) : List Endpoint :=
  addresses.eraseDups.mergeSort Endpoint.le

/-- Brings the pool in line with the addresses that a name resolves to. -/
def follow (openAt : Endpoint → Option β) (addresses known : List Endpoint) (p : Pool β) :
    Membership β :=
  let vanished := removeAll (known.filter fun a => !addresses.contains a) p
  let stayed := known.filter fun a => addresses.contains a
  let added := (ascending addresses).filter fun a => !known.contains a
  let opened := added.filterMap openAt
  { pool := opened.foldl (fun p b => p.add b) vanished.2
    known := stayed ++ added.filter fun a => (openAt a).isSome
    closed := vanished.1
    opened }

end Membership

end SipProxy
