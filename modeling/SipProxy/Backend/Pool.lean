import SipProxy.ProxyError

/-!
# Pools of backends

Owned requests are balanced over the backends of a pool in rotation. A pool is the list of its
backends with the position of the one that is next. Adding appends to the list and removing keeps
the order of the rest, so the rotation goes on where it was: what has been selected in this round is
in front of the position, what has not is behind it.

A pool does not look into its backends. Each has an address, by which it is removed, and two
backends may have the same one; `Addressed` is all that the operations ask for.
-/

namespace SipProxy

/-- Something that is known by an address. -/
class Addressed (β : Type) where
  address : β → Endpoint

structure Pool (β : Type) where
  backends : List β
  /-- The position of the backend that is selected next. -/
  index : Nat
deriving DecidableEq, Repr

namespace Pool

variable {β : Type}

def empty : Pool β := ⟨[], 0⟩

def size (p : Pool β) : Nat := p.backends.length

def isEmpty (p : Pool β) : Bool := p.backends.isEmpty

/-- Selects the next backend in rotation. -/
def next (p : Pool β) : Except ProxyError (β × Pool β) :=
  match p.backends[p.index]? with
  | some b => .ok (b, { p with index := (p.index + 1) % p.backends.length })
  | none => .error .noBackend

/-- Appends a backend to the rotation. -/
def add (b : β) (p : Pool β) : Pool β := { p with backends := p.backends ++ [b] }

/-- The index after the backend at a position is gone and `size` are left. -/
def indexAfterRemoval (position index size : Nat) : Nat :=
  let index := if position < index then index - 1 else index
  if index < size then index else 0

/-- Takes the backend at a position out of the rotation. -/
def removeAt (position : Nat) (p : Pool β) : Pool β where
  backends := p.backends.eraseIdx position
  index := indexAfterRemoval position p.index (p.backends.eraseIdx position).length

/-- Takes all backends out of the rotation, to be closed. -/
def clear (p : Pool β) : List β × Pool β := (p.backends, empty)

variable [Addressed β]

def addresses (p : Pool β) : List Endpoint := p.backends.map Addressed.address

/-- Takes the first backend of an address out of the rotation, to be closed. -/
def remove (a : Endpoint) (p : Pool β) : Option β × Pool β :=
  match p.backends.findIdx? fun b => Addressed.address b = a with
  | some position => (p.backends[position]?, p.removeAt position)
  | none => (none, p)

end Pool

end SipProxy
