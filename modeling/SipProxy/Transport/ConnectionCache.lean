import SipProxy.Table
import SipProxy.Transport.Connection

/-!
# The cache of connections

A hop that is sent to again gets the connection that it had before, as long as that one is open and
was used within the idle time. Idle connections are looked for when a connection is asked for, and
at most once per idle time, so a connection can outlive its idle time by as much again.

All connections ever opened stay in `connections` and are known by their place there; the cache
proper is the table `cached`, which holds places. So one can say of a connection that left the cache
that it is closed. Time is an argument, in milliseconds.
-/

namespace SipProxy

/-- An entry of the cache. -/
structure CachedConnection where
  /-- The place of the connection among all connections. -/
  place : Nat
  /-- When it was asked for last. -/
  lastUsed : Nat
deriving DecidableEq, Repr

structure ConnectionCache where
  /-- The idle time. -/
  idle : Nat
  connections : List Connection
  cached : Table Hop CachedConnection
  /-- When idle connections were looked for last. -/
  lastSweep : Nat

namespace ConnectionCache

/-- Five minutes. -/
def defaultIdle : Nat := 300000

/-- The empty cache at time 0. -/
def empty (idle : Nat) : ConnectionCache := ⟨idle, [], ∅, 0⟩

def size (c : ConnectionCache) : Nat := c.cached.size

/-- Is there an open connection at the place? -/
def isOpenAt (c : ConnectionCache) (place : Nat) : Bool :=
  c.connections[place]?.any Connection.isOpen

/-- Closes the connection at a place. It stays in the cache until it is asked for. -/
def closeAt (place : Nat) (c : ConnectionCache) : ConnectionCache :=
  { c with connections := c.connections.modify place Connection.close }

def isIdle (c : ConnectionCache) (now : Nat) (e : CachedConnection) : Bool :=
  c.idle ≤ now - e.lastUsed

/-- Takes idle connections out of the cache, if it is time to; gives their places. -/
def sweep (now : Nat) (c : ConnectionCache) : List Nat × ConnectionCache :=
  if now - c.lastSweep < c.idle then ([], c)
  else
    ((c.cached.values.filter (c.isIdle now)).map CachedConnection.place,
      { c with cached := c.cached.filter fun _ e => !c.isIdle now e, lastSweep := now })

/-- Caches a connection that was opened just now; gives its place. -/
def enter (now : Nat) (hop : Hop) (opened : Connection) (c : ConnectionCache) :
    Nat × ConnectionCache :=
  (c.connections.length,
    { c with
      connections := c.connections ++ [opened]
      cached := c.cached.put hop ⟨c.connections.length, now⟩ })

/-- Opens a connection for a hop that has none. -/
def openNew (now : Nat) (connect : Hop → Except TransportError Connection) (hop : Hop)
    (c : ConnectionCache) : Except TransportError Nat × ConnectionCache :=
  match connect hop with
  | .ok opened =>
    let r := c.enter now hop opened
    (.ok r.1, r.2)
  | .error e => (.error e, c)

/-- The cached connection of a hop if it is open, else a new one. -/
def lookUp (now : Nat) (connect : Hop → Except TransportError Connection) (hop : Hop)
    (c : ConnectionCache) : Except TransportError Nat × ConnectionCache :=
  match c.cached.find? hop with
  | some e =>
    if c.isOpenAt e.place then
      (.ok e.place, { c with cached := c.cached.put hop { e with lastUsed := now } })
    else openNew now connect hop { c with cached := c.cached.erase hop }
  | none => openNew now connect hop c

/-- The place of an open connection to the hop. Connections found idle are closed afterwards. -/
def connection (now : Nat) (connect : Hop → Except TransportError Connection) (hop : Hop)
    (c : ConnectionCache) : Except TransportError Nat × ConnectionCache :=
  let swept := c.sweep now
  let found := swept.2.lookUp now connect hop
  (found.1, swept.1.foldl (fun c place => c.closeAt place) found.2)

/-- Closes all cached connections and empties the cache. -/
def closeAll (c : ConnectionCache) : ConnectionCache :=
  { c.cached.values.foldl (fun c e => c.closeAt e.place) c with cached := ∅ }

end ConnectionCache

end SipProxy
