import SipProxy.Backend.Membership
import SipProxy.Transport.Hop
import SipProxy.Transport.Resolver

/-!
# Watched pools

A pool together with the host names whose resolutions it follows. A name is resolved when the watch
on it starts, and then every `interval` seconds; a resolution that fails changes nothing. Time is
counted in seconds from outside, by `tick`, so a run of a pool is a list of ticks and operations.

Watches are kept in the order in which they are due within one second, which is the order of their
last resolutions.
-/

namespace SipProxy

/-- A watch on the host name of a backend. -/
structure Watch where
  target : Hop
  /-- Seconds from one resolution to the next. -/
  interval : Nat
  /-- Seconds since the last resolution. -/
  age : Nat
  /-- The addresses that a backend was opened for. -/
  known : List Endpoint
deriving DecidableEq, Repr

structure WatchedPool (β : Type) where
  pool : Pool β
  watches : List Watch

/-- What operations on a watched pool did to backends and asked of the resolver, in order. -/
structure Activity (β : Type) where
  closed : List β := []
  opened : List β := []
  /-- The hosts that were resolved, successfully or not. -/
  resolved : List Hop := []

def Activity.append {β : Type} (a b : Activity β) : Activity β :=
  ⟨a.closed ++ b.closed, a.opened ++ b.opened, a.resolved ++ b.resolved⟩

/-- Opens a backend of a protocol at an address, if that is possible. -/
abbrev Opener (β : Type) := Protocol → Endpoint → Option β

namespace WatchedPool

variable {β : Type} [Addressed β]

def empty : WatchedPool β := ⟨.empty, []⟩

/-- Brings the pool in line with a resolution of a watched name. -/
def follow (openAt : Opener β) (w : Watch) (addresses : List Endpoint) (p : Pool β) :
    Pool β × Watch × Activity β :=
  let m := Membership.follow (openAt w.target.protocol) addresses w.known p
  (m.pool, { w with known := m.known, age := 0 }, ⟨m.closed, m.opened, [w.target]⟩)

/-- Starts to watch a name. If it does not resolve now it is not watched. -/
def watch (resolve : Resolver) (openAt : Opener β) (target : Hop) (interval : Nat)
    (p : WatchedPool β) : Except ProxyError Unit × WatchedPool β × Activity β :=
  match resolve target.host target.port with
  | .ok addresses =>
    let r := follow openAt ⟨target, interval, 0, []⟩ addresses p.pool
    (.ok (), ⟨r.1, p.watches ++ [r.2.1]⟩, r.2.2)
  | .error e =>
    (.error (.resolve target.host e.message), p, { resolved := [target] })

/-- Is the watch due in this second? -/
def isDue (w : Watch) : Bool := w.interval ≤ w.age + 1

/-- Resolves the name of a watch that is due. -/
def renew (resolve : Resolver) (openAt : Opener β) (w : Watch) (p : Pool β) :
    Pool β × Watch × Activity β :=
  match resolve w.target.host w.target.port with
  | .ok addresses => follow openAt w addresses p
  | .error _ => (p, { w with age := 0 }, { resolved := [w.target] })

/-- Renews watches one after another. -/
def renewAll (resolve : Resolver) (openAt : Opener β) :
    List Watch → Pool β → Pool β × List Watch × Activity β
  | [], p => (p, [], {})
  | w :: ws, p =>
    let first := renew resolve openAt w p
    let rest := renewAll resolve openAt ws first.1
    (rest.1, first.2.1 :: rest.2.1, first.2.2.append rest.2.2)

/-- Lets a second pass. -/
def tick (resolve : Resolver) (openAt : Opener β) (p : WatchedPool β) :
    WatchedPool β × Activity β :=
  let r := renewAll resolve openAt (p.watches.filter isDue) p.pool
  let waiting := (p.watches.filter fun w => !isDue w).map fun w => { w with age := w.age + 1 }
  (⟨r.1, waiting ++ r.2.1⟩, r.2.2)

/-- Lets seconds pass. -/
def wait (resolve : Resolver) (openAt : Opener β) : Nat → WatchedPool β →
    WatchedPool β × Activity β
  | 0, p => (p, {})
  | n + 1, p =>
    let first := tick resolve openAt p
    let rest := wait resolve openAt n first.1
    (rest.1, first.2.append rest.2)

/-- Stops watching and takes all backends out of the rotation, to be closed. -/
def close (p : WatchedPool β) : WatchedPool β × Activity β :=
  (⟨p.pool.clear.2, []⟩, { closed := p.pool.clear.1 })

end WatchedPool

end SipProxy
