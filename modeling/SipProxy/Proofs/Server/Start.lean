import SipProxy.Proofs.Backend.Address
import SipProxy.Proofs.Config.Check

/-!
# What a start records

A configuration that was checked starts: its hosts and its routes load, and every listener either
starts or is refused its endpoints (`ListenerConfig.StartsAs`). Whatever is recorded of a listener
or a backend is then the answer of the outside world (`IsOutside`), with one exception. A check
reads the protocol of a backend, but not whether there are connections of that protocol. A TLS
backend at an address passes it, and is refused wherever it is started
(`Hop.startFault?_of_isUnsupported`).

So what a start records comes from outside if and only if no listener that starts has such a backend
(`Server.start_of_check`).
-/

namespace SipProxy

open Outcome

variable {net : Network} {hosts : HostTable}

/-! ## Faults from outside -/

/-- Why a host name has no address. -/
def Network.lookupFault? (net : Network) (host : String) : Option String :=
  match net.lookup host with
  | .ok [] => some "no addresses"
  | .ok _ => none
  | .error reason => some reason

/-- Faults that the outside world answers for: an endpoint that cannot be held, whoever holds it, a
peer that cannot be reached, and a name without addresses. -/
inductive IsOutside (net : Network) : ProxyError → Prop where
  | bind {protocol : Protocol} {address : Endpoint} {fault : SocketFault}
      (h : net.bindFault? protocol address = some fault) :
      IsOutside net (.transport (.bindFailed address fault))
  /-- The endpoint is held already, by a listener that came first. -/
  | held (address : Endpoint) (h : address.port ≠ 0) :
      IsOutside net (.transport (.bindFailed address .addressInUse))
  | connect {peer : Endpoint} {fault : SocketFault} (h : net.peerFault? .tcp peer = some fault) :
      IsOutside net (.transport (.sendFailed peer fault))
  | resolve {host reason : String} (h : net.lookupFault? (HostTable.bare host) = some reason) :
      IsOutside net
        (.resolve host (TransportError.resolveFailed (HostTable.bare host) reason).message)

theorem not_isOutside_unsupported (name : String) :
    ¬ IsOutside net (.transport (.unsupportedProtocol name)) := nofun

/-- Looking up the hosts of hops fails for want of an address alone. -/
theorem HostTable.resolver_failsIn (hosts : HostTable) (net : Network) (host : String)
    (port : UInt16) :
    FailsIn (fun e => IsOutside net (.resolve host e.message))
      (hosts.resolver net.lookup host port) := by
  unfold resolver
  dsimp only
  split
  · exact .ok _
  · split
    · exact .ok _
    · split
      · rename_i h
        exact .error (.resolve (by rw [Network.lookupFault?, h]))
      · exact .ok _
      · rename_i h
        exact .error (.resolve (by rw [Network.lookupFault?, h]))

theorem Connection.reach_failsIn {p : Protocol} (hp : p ≠ .tls) (net : Network) (shares : Bool)
    (remote : Endpoint) :
    FailsIn (fun e => IsOutside net (.transport e)) (reach net shares p remote) := by
  unfold reach
  cases p with
  | udp =>
    refine .ite (.ok ()) ?_
    split
    · rename_i h
      exact .error (.bind h)
    · exact .ok ()
  | tcp =>
    dsimp only
    split
    · rename_i h
      exact .error (.connect h)
    · exact .ok ()
  | tls => exact absurd rfl hp

/-! ## Backends -/

namespace Hop

/-- A backend of a protocol without connections that is opened at once, since it is at an
address. -/
def IsUnsupported (t : Hop) : Prop := t.protocol = .tls ∧ t.ip?.isSome

/-- Why a backend cannot be started. -/
def startFault? (net : Network) (resolve : Resolver) (shares : Bool) (t : Hop) :
    Option ProxyError :=
  match t.ip? with
  | some ip =>
    match Connection.reach net shares t.protocol (.of ip t.port) with
    | .ok () => none
    | .error e => some (.transport e)
  | none =>
    match resolve t.host t.port with
    | .ok _ => none
    | .error e => some (.resolve t.host e.message)

variable {t : Hop} {shares : Bool} {e : ProxyError}

theorem startFault?_of_isUnsupported (h : t.IsUnsupported) (net : Network) (resolve : Resolver)
    (shares : Bool) :
    t.startFault? net resolve shares = some (.transport (.unsupportedProtocol "TLS")) := by
  obtain ⟨htls, hip⟩ := h
  obtain ⟨ip, hip⟩ := Option.isSome_iff_exists.1 hip
  unfold startFault?
  rw [hip, htls]
  rfl

/-- A backend that cannot be started is refused by the outside, or of a protocol without
connections. -/
theorem isOutside_or_isUnsupported
    (h : t.startFault? net (hosts.resolver net.lookup) shares = some e) :
    IsOutside net e ∨ t.IsUnsupported := by
  unfold startFault? at h
  cases hip : t.ip? with
  | some ip =>
    simp only [hip] at h
    by_cases htls : t.protocol = .tls
    · exact .inr ⟨htls, by rw [hip]; rfl⟩
    · left
      cases hreach : Connection.reach net shares t.protocol (.of ip t.port) with
      | ok u =>
        rw [hreach] at h
        cases h
      | error fault =>
        rw [hreach] at h
        cases h
        exact Connection.reach_failsIn htls net shares _ fault hreach
  | none =>
    left
    simp only [hip] at h
    cases hfound : hosts.resolver net.lookup t.host t.port with
    | ok found =>
      rw [hfound] at h
      cases h
    | error fault =>
      rw [hfound] at h
      cases h
      exact hosts.resolver_failsIn net t.host t.port fault hfound

end Hop

namespace Relay

variable {r : Relay}

/-- A backend is started or refused whatever was started before it. -/
theorem startBackend_fst (net : Network) (resolve : Resolver) (interval : Nat) (t : Hop)
    (r : Relay) :
    (r.startBackend net resolve interval t).1 =
      match t.startFault? net resolve r.udp.isSome with
      | some e => .error e
      | none => .ok () := by
  unfold startBackend Hop.startFault?
  cases t.ip? with
  | some ip =>
    simp only [Connection.openBackend_eq, Endpoint.ip_of, Endpoint.port_of]
    cases Connection.reach net r.udp.isSome t.protocol (.of ip t.port) <;> rfl
  | none =>
    simp only [WatchedPool.watch]
    cases resolve t.host t.port <;> rfl

theorem startBackend_udp (net : Network) (resolve : Resolver) (interval : Nat) (t : Hop)
    (r : Relay) : (r.startBackend net resolve interval t).2.udp = r.udp := by
  unfold startBackend
  cases t.ip? with
  | some ip =>
    dsimp only
    split <;> rfl
  | none => rfl

/-- A backend that cannot be started, as it is recorded. -/
def backendFault? (net : Network) (resolve : Resolver) (shares : Bool) (t : Hop) :
    Option (String × ProxyError) :=
  (t.startFault? net resolve shares).map fun e => (t.targetText, e)

/-- Of backends those are recorded that cannot be started, in order. -/
theorem startBackends_fst (net : Network) (resolve : Resolver) (interval : Nat) (ts : List Hop)
    (r : Relay) :
    (r.startBackends net resolve interval ts).1 =
      ts.filterMap (backendFault? net resolve r.udp.isSome) := by
  induction ts generalizing r with
  | nil => rfl
  | cons t ts ih =>
    have hrest := ih (r.startBackend net resolve interval t).2
    rw [startBackend_udp] at hrest
    unfold startBackends
    simp only [startBackend_fst]
    cases hfault : t.startFault? net resolve r.udp.isSome with
    | none =>
      rw [List.filterMap_cons_none (by rw [backendFault?, hfault]; rfl)]
      exact hrest
    | some e =>
      rw [List.filterMap_cons_some (by rw [backendFault?, hfault]; rfl)]
      exact congrArg ((t.targetText, e) :: ·) hrest

end Relay

/-! ## Listeners -/

/-- An endpoint is refused by the outside. -/
def IsRefusal (net : Network) (e : TransportError) : Prop :=
  ∃ address fault, e = .bindFailed address fault ∧ IsOutside net (.transport e)

theorem ListeningPoint.bind_failsIn (net : Network) (held : List ListeningPoint)
    (point : ListeningPoint) : FailsIn (IsRefusal net) (point.bind net held) := by
  unfold bind
  split
  · rename_i fault h
    exact .error ⟨_, fault, rfl, .bind h⟩
  · split
    · rename_i h
      rw [Bool.and_eq_true, decide_eq_true_eq] at h
      exact .error ⟨_, _, rfl, .held _ h.1⟩
    · exact .ok _

theorem ListeningPoint.bindAll_failsIn (net : Network) (points held : List ListeningPoint) :
    FailsIn (IsRefusal net) (bindAll net points held).1 := by
  induction points generalizing held with
  | nil => exact .ok ()
  | cons point points ih =>
    unfold bindAll
    split
    · exact ih _
    · rename_i e h
      exact .error (point.bind_failsIn net held e h)

namespace ListenerConfig

variable {l : ListenerConfig}

/-- What comes of starting a listener that was checked: it is refused an endpoint, or it is started
and the backends at fault are recorded. -/
inductive StartsAs (net : Network) (resolve : Resolver) (l : ListenerConfig) :
    Except ProxyError StartedListener → Prop where
  | refused {e : TransportError} (h : IsRefusal net e) :
      StartsAs net resolve l (.error (.transport e))
  | started {targets : List Hop} {s : StartedListener} (ht : l.targets = .ok targets)
      (hs : s.errors = targets.filterMap (Relay.backendFault? net resolve l.udpPort.isSome)) :
      StartsAs net resolve l (.ok s)

theorem startsAs_start (h : l.check = .ok ()) (net : Network) (resolve : Resolver)
    (interval : Nat) (engine : Engine) (held : List ListeningPoint) :
    l.StartsAs net resolve (l.start net resolve interval engine held).1 := by
  obtain ⟨⟨ip, hip, -⟩, -, targets, htargets⟩ := check_eq_ok_iff.1 h
  have hplan : l.plan = .ok (ip, targets) := by
    unfold plan
    rw [h, hip, htargets]
    rfl
  unfold start
  simp only [hplan]
  split
  · refine .started htargets ?_
    rw [Relay.startBackends_fst]
    simp only [Relay.ofConfig, point?, Option.isSome_map]
  · rename_i e _ hbind
    exact .refused (ListeningPoint.bindAll_failsIn net _ held e (by rw [hbind]))

end ListenerConfig

namespace Server

/-! ## The whole start -/

/-- A configured listener, and what came of starting it. -/
abbrev ListenerRun := ListenerConfig × Except ProxyError StartedListener

/-- What is recorded of a listener: the listener itself if it was not started, else its backends at
fault. -/
def ListenerRun.recorded : ListenerRun → List (String × ProxyError)
  | (_, .ok started) => started.errors
  | (l, .error e) => [(l.address, e)]

/-- The relay of a listener that was started. -/
def ListenerRun.relay? (run : ListenerRun) : Option Relay :=
  run.2.toOption.map StartedListener.relay

/-- If the listener was started, it has connections for each of its backends that is opened at
once. -/
def ListenerRun.IsSupported (run : ListenerRun) : Prop :=
  ∀ started targets, run.2 = .ok started → run.1.targets = .ok targets →
    ∀ t ∈ targets, ¬ t.IsUnsupported

variable {c : ProxyConfig}

theorem withListener_eq (run : ListenerRun) (s : Server) :
    s.withListener run.1.address run.2 =
      { s with
        relays := s.relays ++ run.relay?.toList
        startupErrors := s.startupErrors ++ run.recorded } := by
  obtain ⟨l, outcome⟩ := run
  cases outcome with
  | ok started => rfl
  | error e =>
    unfold withListener
    dsimp only [ListenerRun.relay?, ListenerRun.recorded, Except.toOption, Option.map_none,
      Option.toList]
    rw [List.append_nil]

/-- Listeners are started one after another, and what comes of each is kept in order. -/
theorem startListeners_runs (net : Network) (c : ProxyConfig) (routes : StaticRoutes)
    {ls : List ListenerConfig} (hls : ∀ l ∈ ls, l.check = .ok ()) (held : List ListeningPoint)
    (s : Server) :
    ∃ runs : List ListenerRun, runs.map Prod.fst = ls ∧
      (∀ run ∈ runs, run.1.StartsAs net s.resolve run.2) ∧
      startListeners net c routes ls held s =
        { s with
          relays := s.relays ++ runs.filterMap ListenerRun.relay?
          startupErrors := s.startupErrors ++ runs.flatMap ListenerRun.recorded } := by
  induction ls generalizing held s with
  | nil => exact ⟨[], rfl, List.forall_mem_nil _, by simp [startListeners]⟩
  | cons l ls ih =>
    rw [List.forall_mem_cons] at hls
    have hstarts := ListenerConfig.startsAs_start hls.1 net s.resolve (max c.resolveInterval 1)
      (engine c routes l) held
    unfold startListeners
    dsimp only
    -- what is held behind the first listener is whatever it is, since the rest starts from any
    generalize l.start net s.resolve (max c.resolveInterval 1) (engine c routes l) held = started
      at hstarts ⊢
    obtain ⟨outcome, held⟩ := started
    have hwith := withListener_eq (l, outcome) s
    dsimp only at hwith
    obtain ⟨runs, hruns, hall, hrest⟩ := ih hls.2 held (s.withListener l.address outcome)
    have hrelays : ((l, outcome) :: runs).filterMap ListenerRun.relay? =
        (ListenerRun.relay? (l, outcome)).toList ++ runs.filterMap ListenerRun.relay? := by
      rw [List.filterMap_cons]
      cases ListenerRun.relay? (l, outcome) <;> rfl
    refine ⟨(l, outcome) :: runs, by rw [List.map_cons, hruns], ?_, ?_⟩
    · rw [hwith] at hall
      exact List.forall_mem_cons.2 ⟨hstarts, hall⟩
    · rw [hrest, hwith, hrelays, List.flatMap_cons, List.append_assoc, List.append_assoc]

/-- The hosts load if the address of each can be read. -/
theorem exists_hostTable (h : ∀ host ∈ c.hosts, ∃ ip, host.address = .ok ip) :
    ∃ hosts, hostTable c = .ok hosts := by
  have hread : ∃ hosts, (c.hosts.mapM fun h : HostConfig =>
      h.address.map fun ip => (h.name, ip)) = .ok hosts := by
    rw [exists_mapM_iff]
    intro host hhost
    obtain ⟨ip, hip⟩ := h host hhost
    exact ⟨(host.name, ip), by rw [hip]; rfl⟩
  obtain ⟨found, hfound⟩ := hread
  exact ⟨.ofList found, by rw [hostTable, hfound]; rfl⟩

/-- The routes load if the hop of each can be read, and no pattern is too large. -/
theorem exists_staticRoutes {rs : List RouteConfig} (h : ∀ r ∈ rs, ∃ hop, r.hop = .ok hop)
    (hp : ∀ r ∈ rs, Pattern.fits (Text.trim r.destination) = true) :
    ∃ routes, StaticRoutes.ofConfig rs = .ok routes := by
  have hread : ∃ routes, rs.mapM StaticRoute.ofConfig = .ok routes := by
    rw [exists_mapM_iff]
    intro r hr
    obtain ⟨hop, hhop⟩ := h r hr
    exact ⟨⟨Text.trim r.destination, hop⟩, by
      rw [StaticRoute.ofConfig, hhop]
      exact if_pos (hp r hr)⟩
  obtain ⟨found, hfound⟩ := hread
  exact ⟨.ofList found, by rw [StaticRoutes.ofConfig, hfound]; rfl⟩

/-- What a run records comes from outside, unless a listener was started with a backend of a
protocol without connections. -/
theorem recorded_isOutside_iff {run : ListenerRun}
    (h : run.1.StartsAs net (hosts.resolver net.lookup) run.2) :
    (∀ entry ∈ run.recorded, IsOutside net entry.2) ↔ run.IsSupported := by
  obtain ⟨l, outcome⟩ := run
  cases h with
  | refused h =>
    refine iff_of_true ?_ fun _ _ h => nomatch h
    intro entry hentry
    rw [ListenerRun.recorded, List.mem_singleton] at hentry
    obtain ⟨_, _, -, houtside⟩ := h
    rw [hentry]
    exact houtside
  | @started targets s ht hs =>
    constructor
    · rintro hall _ _ ⟨⟩ ht' t hmem hunsupported
      rw [ht] at ht'
      cases ht'
      have hfault := Hop.startFault?_of_isUnsupported hunsupported net
        (hosts.resolver net.lookup) l.udpPort.isSome
      have hentry : (t.targetText, .transport (.unsupportedProtocol "TLS")) ∈ s.errors := by
        rw [hs, List.mem_filterMap]
        exact ⟨t, hmem, by rw [Relay.backendFault?, hfault]; rfl⟩
      exact not_isOutside_unsupported "TLS" (hall _ hentry)
    · intro hall entry hentry
      rw [ListenerRun.recorded, hs, List.mem_filterMap] at hentry
      obtain ⟨t, hmem, hfault⟩ := hentry
      obtain ⟨e, he, rfl⟩ := Option.map_eq_some_iff.1 hfault
      exact (Hop.isOutside_or_isUnsupported he).resolve_right (hall s targets rfl ht t hmem)

/-- What a start comes to if the configuration was checked. Hosts and routes load, and each listener
in turn is refused an endpoint by the outside or started, with its backends at fault recorded. All
that is recorded then comes from outside if and only if no listener was started with a backend of a
protocol without connections at an address. -/
theorem start_of_check (h : c.check = .ok ())
    (hp : ∀ r ∈ c.routes, Pattern.fits (Text.trim r.destination) = true) :
    ∃ (hosts : HostTable) (s : Server) (runs : List ListenerRun),
      hostTable c = .ok hosts ∧ s.resolve = hosts.resolver net.lookup ∧
      start net c = .ok s ∧ runs.map Prod.fst = c.listeners ∧
      s.relays = runs.filterMap ListenerRun.relay? ∧
      s.startupErrors = runs.flatMap ListenerRun.recorded ∧
      (∀ run ∈ runs, run.1.StartsAs net s.resolve run.2) ∧
      ((∀ entry ∈ s.startupErrors, IsOutside net entry.2) ↔
        ∀ run ∈ runs, run.IsSupported) := by
  obtain ⟨-, hlisteners, hroutes, hhosts, -⟩ := ProxyConfig.check_eq_ok_iff.1 h
  obtain ⟨hosts, hload⟩ := exists_hostTable hhosts
  obtain ⟨routes, hrouted⟩ := exists_staticRoutes hroutes hp
  obtain ⟨runs, hruns, hall, hstarted⟩ := startListeners_runs net c routes hlisteners []
    (empty (hosts.resolver net.lookup))
  have hstart : start net c = .ok (startListeners net c routes c.listeners []
      (empty (hosts.resolver net.lookup))) := by
    unfold start
    rw [hload, hrouted]
    rfl
  rw [hstarted] at hstart
  dsimp only [empty] at hstart hall
  rw [List.nil_append, List.nil_append] at hstart
  refine ⟨hosts, ⟨hosts.resolver net.lookup, runs.filterMap ListenerRun.relay?, Table.empty,
    runs.flatMap ListenerRun.recorded⟩, runs, hload, ?_, hstart, hruns, ?_, ?_, ?_, ?_⟩
  all_goals dsimp only
  · exact hall
  · constructor
    · intro houtside run hrun
      refine (recorded_isOutside_iff (hall run hrun)).1 fun entry hentry => ?_
      exact houtside entry (List.mem_flatMap.2 ⟨run, hrun, hentry⟩)
    · intro hsupported entry hentry
      obtain ⟨run, hrun, hentry⟩ := List.mem_flatMap.1 hentry
      exact (recorded_isOutside_iff (hall run hrun)).2 (hsupported run hrun) entry hentry

/-- A TLS backend is recorded, though the configuration was checked, and one over UDP is not. -/
theorem start_of_check_of_tls_backend :
    let l : ListenerConfig :=
      { udpPort := some 5060, backends := ["tls://10.0.0.1:5061", "udp://10.0.0.2"] }
    let r : RouteConfig := { destination := "*.example.com", nextHop := "10.0.0.3:5070" }
    let c : ProxyConfig := { listeners := [l], routes := [r] }
    c.check = .ok () ∧ (∀ r ∈ c.routes, Pattern.fits (Text.trim r.destination) = true) ∧
      ∃ (s : Server) (runs : List ListenerRun), start .isolated c = .ok s ∧
        runs.map Prod.fst = [l] ∧
        s.startupErrors = [("tls://10.0.0.1:5061", .transport (.unsupportedProtocol "TLS"))] ∧
        ¬ ∀ run ∈ runs, run.IsSupported := by
  intro l r c
  have hcheck : c.check = .ok () := by decide +kernel
  have hfits : ∀ r ∈ c.routes, Pattern.fits (Text.trim r.destination) = true := by decide +kernel
  have hrecorded : (start .isolated c).map Server.startupErrors =
      .ok [("tls://10.0.0.1:5061", .transport (.unsupportedProtocol "TLS"))] := by
    decide +kernel
  obtain ⟨-, s, runs, -, -, hstart, hruns, -, -, -, hiff⟩ :=
    @start_of_check .isolated c hcheck hfits
  rw [hstart] at hrecorded
  have herrors := Except.ok.inj hrecorded
  refine ⟨hcheck, hfits, s, runs, hstart, hruns, herrors, fun hnone => ?_⟩
  have houtside := hiff.2 hnone
  rw [herrors] at houtside
  exact not_isOutside_unsupported "TLS" (houtside _ List.mem_cons_self)

/-- What is wrong with a configuration that was checked can still be recorded by a start. -/
theorem exists_recorded_not_isOutside :
    ¬ ∀ (net : Network) (c : ProxyConfig), c.check = .ok () →
      (∀ r ∈ c.routes, Pattern.fits (Text.trim r.destination) = true) →
      ∀ s, start net c = .ok s → ∀ entry ∈ s.startupErrors, IsOutside net entry.2 := by
  intro hall
  let c : ProxyConfig :=
    { listeners := [{ udpPort := some 5060, backends := ["tls://10.0.0.1:5061"] }] }
  have hcheck : c.check = .ok () := by decide +kernel
  have hrecorded : (start .isolated c).map Server.startupErrors =
      .ok [("tls://10.0.0.1:5061", .transport (.unsupportedProtocol "TLS"))] := by
    decide +kernel
  obtain ⟨s, hs, herrors⟩ := map_eq_ok.1 hrecorded
  have houtside := hall .isolated c hcheck nofun s hs
  rw [herrors] at houtside
  exact not_isOutside_unsupported "TLS" (houtside _ List.mem_cons_self)

end Server

end SipProxy
