import Meshezia.Agent.Routing

/-!
# The tunnels after a call

A call of `reconcile` that returns leaves each peer of its configuration that has a pubkey, and
for whose interface no command failed, with a tunnel (`Tunnel`): an interface and a port of its
own, a device with that port, the agent's key and the parameters of the network, the AWG peer, the
mesh address on it and the route to the peer.

The turn of a peer makes its tunnel whatever there was before.  The turns of the others, the
removals and its own later turns leave it alone, whichever of their commands fail:

    turn of p without a fault  →  Tunnel … p …                          (Turn.tunnel)
    any other turn             →  Held … p … stays                      (Held.turn)
    so a call that returns has made it: reconcile_tunnel
-/

namespace Meshezia

open Kernel PolicyRoutes

/-- The tunnel to a peer: its interface, its port, and what is set up for them. -/
structure Tunnel (env : Install) (selfIpv4 : JsString) (awg : Api.Awg Api.Scalar)
    (p : PeerEndpoint) (i : IfName) (port : Nat) (m : Machine) : Prop where
  ifName : m.agent.peerToIf.get? p.id = some i
  listenPort : m.agent.peerToPort.get? p.id = some port
  interface : i ∈ m.agent.host.interfaces
  peer : m.agent.host.peers.has (i, p.pubkey) = true
  device : m.kernel.devices.get? i = some ⟨port, env.privateKey, awg⟩
  address : m.kernel.addresses.has (i, selfIpv4) = true
  up : m.kernel.up.has i = true
  route : m.kernel.routes.get? (MAIN_TABLE, .host p.meshIpv4) = some (.mza i)

/-! ## The AWG peer -/

section
variable {m m' : Machine} {existing : List IfName} {peer : PeerEndpoint} {i : IfName}

/-- An interface that is there keeps its AWG peers when another one is created. -/
theorem get?_hostWith (key : JsString) (hold : m.ifNameOf peer = i → i ∈ existing) :
    (m.hostWith existing peer).peers.get? (i, key) = m.agent.host.peers.get? (i, key) := by
  unfold Machine.hostWith
  by_cases hi : m.ifNameOf peer = i
  · rw [if_pos (List.contains_iff_mem.mpr (hi ▸ hold hi))]
  · split
    · rfl
    · show (m.agent.host.peers.filter fun k _ => !decide (k.1 = m.ifNameOf peer)).get? (i, key) = _
      rw [OMap.get?_filter, decide_eq_false (Ne.symm hi)]
      cases m.agent.host.peers.get? (i, key) <;> rfl

theorem Turn.peer_kept {env : Install} {faults : Faults} {config : MeshConfig} {draws : List Nat}
    {port : Nat} {reported : Option Nat} {key : JsString}
    (h : Turn env faults config existing draws peer m m' port reported)
    (hi : i ∈ m.agent.host.interfaces) (hhas : m.agent.host.peers.has (i, key) = true) :
    m'.agent.host.peers.has (i, key) = true := by
  by_cases hold : m.ifNameOf peer = i → i ∈ existing
  · have hwith : (m.hostWith existing peer).peers.has (i, key) = true := by
      unfold OMap.has
      rw [get?_hostWith key hold]
      exact hhas
    rcases h.setup with ⟨hhost, -⟩ | ⟨hhost | hhost, -⟩ <;> rw [hhost]
    · exact hhas
    · exact hwith
    · exact has_set_of_has _ _ hwith
  · obtain ⟨rfl, hnot⟩ := Classical.not_imp.mp hold
    rw [(h.refused hi hnot).1]
    exact hhas

end

/-! ## A turn -/

section
variable {env : Install} {faults : Faults} {config : MeshConfig} {existing : List IfName}
  {draws : List Nat} {m m' : Machine} {peer : PeerEndpoint} {port : Nat} {reported : Option Nat}

/-- **The turn of a peer** makes its tunnel, if none of its commands fails. -/
theorem Turn.tunnel (h : Turn env faults config existing draws peer m m' port reported)
    {monitor : Monitor} (hready : Ready existing monitor peer.id m)
    (hspare : faults.Spare (m.ifNameOf peer)) :
    Tunnel env config.selfIpv4 config.awg peer (m.ifNameOf peer) port m' := by
  obtain ⟨-, hhost, hthere, hinstalled⟩ := h.installed hready hspare
  refine ⟨h.get?_self.1, h.get?_self.2, hthere, ?_, hinstalled.device, hinstalled.address,
    hinstalled.up, hinstalled.route⟩
  rw [hhost]
  exact (OMap.has_set _ _ _ _).trans (by simp)

/-- **Any turn** leaves a tunnel alone: that of another peer, and that of its own peer if it gives
it what it has. -/
theorem Tunnel.turn {p : PeerEndpoint} {i : IfName} {n : Nat} {selfIpv4 : JsString}
    {awg : Api.Awg Api.Scalar} (htunnel : Tunnel env selfIpv4 awg p i n m)
    (h : Turn env faults config existing draws peer m m' port reported)
    (hbase : MAIN_TABLE < env.rtTableBase) (hinj : InjectiveMap m.agent.peerToIf)
    (hexisting : ∀ i ∈ existing, i ∈ m.agent.host.interfaces)
    (hother : peer.id ≠ p.id → peer.meshIpv4 ≠ p.meshIpv4)
    (hown : peer.id = p.id → port = n ∧ config.awg = awg) : Tunnel env selfIpv4 awg p i n m' := by
  have hport : m'.agent.peerToPort.get? p.id = some n := by
    by_cases hid : peer.id = p.id
    · rw [← hid, h.get?_self.2, (hown hid).1]
    · exact (h.get?_ne hid).2.trans htunnel.listenPort
  have hpeer := h.peer_kept htunnel.interface htunnel.peer
  rcases h.touched hexisting with hkernel | ⟨-, htouched⟩
  · exact ⟨h.get?_kept htunnel.ifName, hport, h.interface_kept htunnel.interface, hpeer,
      hkernel ▸ htunnel.device, hkernel ▸ htunnel.address, hkernel ▸ htunnel.up,
      hkernel ▸ htunnel.route⟩
  · refine ⟨h.get?_kept htunnel.ifName, hport, h.interface_kept htunnel.interface, hpeer, ?_,
      htouched.addresses _ htunnel.address, htouched.up _ htunnel.up, ?_⟩
    · rcases htouched.devices i with hsame | ⟨hi, hset⟩
      · exact hsame.trans htunnel.device
      · have hid : peer.id = p.id := by
          by_contra hid
          exact ifNameOf_ne hinj hid htunnel.ifName hi.symm
        obtain ⟨rfl, rfl⟩ := hown hid
        exact hset
    · rcases htouched.routes MAIN_TABLE (.host p.meshIpv4) with
        hsame | ⟨hset, ⟨htable, -⟩ | ⟨-, hhost⟩⟩
      · exact hsame.trans htunnel.route
      · omega
      · have hid : peer.id = p.id := by
          by_contra hid
          exact hother hid (Destination.host.inj hhost).symm
        have hi : m.ifNameOf peer = i := by
          rw [Machine.ifNameOf, hid, getIfName_of_some htunnel.ifName]
        rw [hset]
        exact congrArg (fun j => some (Link.mza j)) hi

/-! ## The endpoint -/

/-- The peer is not on relay, and not in the middle of a negotiation. -/
def Unskipped (monitor : Monitor) (p : PeerId) : Prop :=
  (monitor.peerStates.get? p).map PeerState.mode ≠ some .relay ∧ monitor.isFrozen p = false

theorem skipEndpoint_of_unskipped {s : Agent} {p : PeerId} (h : Unskipped s.monitor p)
    (isNew : Bool) : s.skipEndpoint p isNew = false := by
  unfold Agent.skipEndpoint Agent.peerStates
  rw [h.2, decide_eq_false h.1]
  simp

/-- A turn without a fault gives the AWG peer the endpoint of the configuration, if there is one. -/
theorem Turn.endpoint (h : Turn env faults config existing draws peer m m' port reported)
    {monitor : Monitor} (hready : Ready existing monitor peer.id m)
    (hspare : faults.Spare (m.ifNameOf peer)) (hskip : Unskipped monitor peer.id)
    (hendpoint : peer.endpoint ≠ []) :
    m'.agent.host.endpoint (m.ifNameOf peer) peer.pubkey = peer.endpoint := by
  have hskip : Unskipped m.agent.monitor peer.id := hready.monitor ▸ hskip
  rw [(h.installed hready hspare).2.1, Machine.hostSet, skipEndpoint_of_unskipped hskip,
    if_neg Bool.false_ne_true, Host.endpoint_awgSet]
  exact if_pos ⟨rfl, rfl, hendpoint⟩

/-- An endpoint stays in a turn for another interface, and in one that gives the same. -/
theorem Turn.endpoint_kept (h : Turn env faults config existing draws peer m m' port reported)
    {i : IfName} {key e : JsString} (he : m.agent.host.endpoint i key = e)
    (hsame : m.ifNameOf peer = i → i ∈ m.agent.host.interfaces ∧
      (peer.pubkey = key → peer.endpoint = [] ∨ peer.endpoint = e)) :
    m'.agent.host.endpoint i key = e := by
  by_cases hold : m.ifNameOf peer = i → i ∈ existing
  · have hwith : (m.hostWith existing peer).endpoint i key = e := by
      unfold Host.endpoint
      rw [get?_hostWith key hold]
      exact he
    rcases h.setup with ⟨hhost, -⟩ | ⟨hhost | hhost, -⟩ <;> rw [hhost]
    · exact he
    · exact hwith
    · -- the endpoint is skipped, or it is that of the configuration
      have hgiven : ∀ b : Bool, (if b then [] else peer.endpoint) = [] ∨
          (if b then [] else peer.endpoint) = peer.endpoint := by
        intro b
        cases b
        · exact Or.inr rfl
        · exact Or.inl rfl
      have hgiven := hgiven
        (m.agent.skipEndpoint peer.id (!existing.contains (m.ifNameOf peer)))
      rw [Machine.hostSet, Host.endpoint_awgSet]
      generalize (if m.agent.skipEndpoint peer.id (!existing.contains (m.ifNameOf peer)) then []
        else peer.endpoint) = given at hgiven ⊢
      by_cases hset : m.ifNameOf peer = i ∧ peer.pubkey = key ∧ given ≠ []
      · obtain ⟨hi, hkey, hne⟩ := hset
        rw [if_pos ⟨hi, hkey, hne⟩, hgiven.resolve_left hne]
        exact ((hsame hi).2 hkey).resolve_left (hgiven.resolve_left hne ▸ hne)
      · rw [if_neg hset]
        exact hwith
  · obtain ⟨hi, hnot⟩ := Classical.not_imp.mp hold
    rw [(h.refused (hi ▸ (hsame hi).1) (hi ▸ hnot)).1]
    exact he

end

/-! ## The loops -/

section
variable {env : Install} {faults : Faults} {config : MeshConfig} {existing : List IfName}
  {draws : PeerId → List Nat} {m m' : Machine} {ports ports' : List (PeerId × Nat)}
  {peers : List PeerEndpoint} {selfIpv4 : JsString} {awg : Api.Awg Api.Scalar} {p : PeerEndpoint}
  {i : IfName} {port : Nat} {e : Option JsString}

/-- getPort throwing leaves a tunnel alone. -/
theorem Tunnel.failed {peer : PeerEndpoint} (htunnel : Tunnel env selfIpv4 awg p i port m)
    (h : FailedTurn peer m m') : Tunnel env selfIpv4 awg p i port m' where
  ifName := h.get? htunnel.ifName
  listenPort := h.peerToPort ▸ htunnel.listenPort
  interface := h.host ▸ htunnel.interface
  peer := h.host ▸ htunnel.peer
  device := h.kernel ▸ htunnel.device
  address := h.kernel ▸ htunnel.address
  up := h.kernel ▸ htunnel.up
  route := h.kernel ▸ htunnel.route

/-- The configuration agrees with a tunnel and, where that matters, its endpoint: it has the
peer, as it is. -/
structure Agrees (config : MeshConfig) (selfIpv4 : JsString) (awg : Api.Awg Api.Scalar)
    (p : PeerEndpoint) (port : Nat) (e : Option JsString) : Prop where
  self : config.selfIpv4 = selfIpv4
  awg : config.awg = awg
  listed : Agent.isDesired config.toPeerConfig p.id = true
  same : ∀ q ∈ config.peers, q.id = p.id → q.pubkey = p.pubkey ∧ q.meshIpv4 = p.meshIpv4 ∧
    (0 < q.listenPort → q.listenPort = port) ∧ ∀ x ∈ e, q.endpoint = [] ∨ q.endpoint = x
  others : ∀ q ∈ config.peers, q.id ≠ p.id → q.meshIpv4 ≠ p.meshIpv4

/-- A tunnel, with the endpoint of its AWG peer where that matters. -/
structure Held (env : Install) (selfIpv4 : JsString) (awg : Api.Awg Api.Scalar)
    (p : PeerEndpoint) (i : IfName) (port : Nat) (e : Option JsString) (m : Machine) : Prop where
  tunnel : Tunnel env selfIpv4 awg p i port m
  endpoint : ∀ x ∈ e, m.agent.host.endpoint i p.pubkey = x
  injective : InjectiveMap m.agent.peerToIf

/-- The rest of the agent does not matter. -/
theorem Held.withAgent (h : Held env selfIpv4 awg p i port e m) {agent : Agent}
    (hpeerToIf : agent.peerToIf = m.agent.peerToIf)
    (hpeerToPort : agent.peerToPort = m.agent.peerToPort) (hhost : agent.host = m.agent.host) :
    Held env selfIpv4 awg p i port e { m with agent } where
  tunnel :=
    { h.tunnel with
      ifName := hpeerToIf ▸ h.tunnel.ifName
      listenPort := hpeerToPort ▸ h.tunnel.listenPort
      interface := hhost ▸ h.tunnel.interface
      peer := hhost ▸ h.tunnel.peer }
  endpoint := hhost ▸ h.endpoint
  injective := hpeerToIf ▸ h.injective

/-- **A turn** that agrees with it keeps it, whichever of its commands fail. -/
theorem Held.turn {draws : List Nat} {q : PeerEndpoint} {port' : Nat} {reported : Option Nat}
    (hheld : Held env selfIpv4 awg p i port e m)
    (h : Turn env faults config existing draws q m m' port' reported)
    (hbase : MAIN_TABLE < env.rtTableBase)
    (hexisting : ∀ i ∈ existing, i ∈ m.agent.host.interfaces)
    (hagrees : Agrees config selfIpv4 awg p port e) (hport : port ≠ 0) (hq : q ∈ config.peers) :
    Held env selfIpv4 awg p i port e m' := by
  -- its own turn gives it its own port again
  have hown : q.id = p.id → port' = port ∧ config.awg = awg := by
    intro hid
    obtain ⟨-, -, hlisten, -⟩ := hagrees.same q hq hid
    obtain ⟨-, -, -, hgiven, hkept⟩ := listenPortOf_spec h.listenPort
    refine ⟨?_, hagrees.awg⟩
    rcases Nat.eq_zero_or_pos q.listenPort with hzero | hpos
    · exact (hkept hzero).1 port (hid ▸ hheld.tunnel.listenPort) hport
    · exact (hgiven hpos).trans (hlisten hpos)
  refine ⟨hheld.tunnel.turn h hbase hheld.injective hexisting (hagrees.others q hq) hown,
    fun x hx => h.endpoint_kept (hheld.endpoint x hx) fun hi => ⟨hheld.tunnel.interface, fun _ => ?_⟩,
    h.injective hheld.injective⟩
  by_cases hid : q.id = p.id
  · exact (hagrees.same q hq hid).2.2.2 x hx
  · exact absurd hi (ifNameOf_ne hheld.injective hid hheld.tunnel.ifName)

theorem Held.failed {q : PeerEndpoint} (hheld : Held env selfIpv4 awg p i port e m)
    (h : FailedTurn q m m') : Held env selfIpv4 awg p i port e m' :=
  ⟨hheld.tunnel.failed h, h.host ▸ hheld.endpoint, h.injective hheld.injective⟩

/-- The first loop keeps what agrees with its configuration. -/
theorem Held.loop (hheld : Held env selfIpv4 awg p i port e m) (hbase : MAIN_TABLE < env.rtTableBase)
    (hagrees : Agrees config selfIpv4 awg p port e) (hport : port ≠ 0) (draws : PeerId → List Nat)
    (ports : List (PeerId × Nat)) (hpeers : ∀ q ∈ peers, q ∈ config.peers) :
    Held env selfIpv4 awg p i port e (.ended
      (m.reconcileLoop env faults config (m.listInterfaces faults) draws ports peers)) := by
  refine (loop_keeps (I := fun s => Held env selfIpv4 awg p i port e s ∧
    ∀ j ∈ m.listInterfaces faults, j ∈ s.agent.host.interfaces) ?_ ?_ ports
    ⟨hheld, fun _ => mem_of_mem_listInterfaces⟩).1
  · rintro q hq - m2 m3 port3 reported3 ⟨hheld2, hexisting2⟩ hturn
    exact ⟨hheld2.turn hturn hbase hexisting2 hagrees hport (hpeers q hq),
      fun j hj => hturn.interface_kept (hexisting2 j hj)⟩
  · rintro q - m2 m3 ⟨hheld2, hexisting2⟩ hfailed
    exact ⟨hheld2.failed hfailed, hfailed.host ▸ hexisting2⟩

/-- Removing the interface of another peer leaves a tunnel alone, whichever commands fail. -/
theorem Held.removeGonePeer (hheld : Held env selfIpv4 awg p i port e m)
    (hbase : MAIN_TABLE < env.rtTableBase) {x : PeerId × IfName} (hid : x.1 ≠ p.id)
    (hif : x.2 ≠ i) : Held env selfIpv4 awg p i port e (m.removeGonePeer env faults x) := by
  have htunnel := hheld.tunnel
  have hremoved := takenDown_removeInterface env.rtTableBase (faults.command x.2) x.2 m.kernel
  refine ⟨⟨?_, ?_, ?_, ?_, ?_, ?_, ?_, ?_⟩, ?_, ?_⟩
  · exact (OMap.get?_delete_ne _ hid).trans htunnel.ifName
  · exact (OMap.get?_delete_ne _ hid).trans htunnel.listenPort
  · exact mem_removeGonePeer.mpr ⟨htunnel.interface, fun _ he => hif he.symm⟩
  · show (if faults.command x.2 .linkDelete = true then m.agent.host
      else m.agent.host.linkDelete x.2).peers.has (i, p.pubkey) = true
    split
    · exact htunnel.peer
    · show (m.agent.host.peers.filter fun k _ => !decide (k.1 = x.2)).has (i, p.pubkey) = true
      rw [OMap.has_filter m.agent.host.peers (fun k => !decide (k.1 = x.2)), htunnel.peer]
      simpa using hif.symm
  · exact (hremoved.devices i hif.symm).trans htunnel.device
  · exact hremoved.addresses i _ hif.symm htunnel.address
  · exact hremoved.up i hif.symm htunnel.up
  · exact hremoved.others _ _ _ (by omega) (fun he => hif (Link.mza.inj he).symm) htunnel.route
  · intro y hy
    rw [← hheld.endpoint y hy]
    show (if faults.command x.2 .linkDelete = true then m.agent.host
      else m.agent.host.linkDelete x.2).endpoint i p.pubkey = _
    split
    · rfl
    · exact Host.endpoint_filter_ne m.agent.host (fun he => hif he.symm) _ _
  · exact fun q r j hq hr => hheld.injective q r j (OMap.get?_of_get?_delete hq).2
      (OMap.get?_of_get?_delete hr).2

/-- So does the second loop, or a part of it. -/
theorem Held.removals (hheld : Held env selfIpv4 awg p i port e m)
    (hbase : MAIN_TABLE < env.rtTableBase)
    (hlisted : Agent.isDesired config.toPeerConfig p.id = true) {l : List (PeerId × IfName)}
    (hl : ∀ x ∈ l, Agent.isDesired config.toPeerConfig x.1 = false ∧
      m.agent.peerToIf.get? x.1 = some x.2) :
    Held env selfIpv4 awg p i port e (l.foldl (Machine.removeGonePeer env faults) m) := by
  refine foldl_invariant (I := Held env selfIpv4 awg p i port e) _ _ ?_ hheld
  intro t x hx ht
  obtain ⟨hgone, hif⟩ := hl x hx
  have hid : x.1 ≠ p.id := by
    intro he
    rw [he, hlisted] at hgone
    cases hgone
  refine ht.removeGonePeer hbase hid fun he => hid ?_
  exact hheld.injective _ _ i (he ▸ hif) hheld.tunnel.ifName

theorem Held.removeGone (hheld : Held env selfIpv4 awg p i port e m)
    (hbase : MAIN_TABLE < env.rtTableBase)
    (hlisted : Agent.isDesired config.toPeerConfig p.id = true) :
    Held env selfIpv4 awg p i port e (m.removeGone env faults config) :=
  hheld.removals hbase hlisted (forall_gone m config.toPeerConfig)

theorem Held.save (hheld : Held env selfIpv4 awg p i port e m) :
    Held env selfIpv4 awg p i port e { m with agent := m.agent.saveMappings } := by
  unfold Agent.saveMappings
  split
  · exact hheld.withAgent rfl rfl rfl
  · exact hheld

/-- **A call keeps** the tunnels and endpoints that its configuration agrees with, whether it
returns or throws, and whichever commands fail. -/
theorem Held.reconcile (hheld : Held env selfIpv4 awg p i port e m)
    (hbase : MAIN_TABLE < env.rtTableBase) (hagrees : Agrees config selfIpv4 awg p port e)
    (hport : port ≠ 0) :
    Held env selfIpv4 awg p i port e (.ended (m.reconcile env faults config draws)) := by
  refine reconcile_keeps
    (@Held.loop env faults config m config.peers selfIpv4 awg p i port e hheld hbase hagrees hport
      draws [] fun q hq => hq)
    (fun _ h => h.removeGone hbase hagrees.listed) (fun _ _ _ h => h.withAgent rfl rfl rfl)

/-- What the turn of a peer makes, if no command fails for its interface: the tunnel, a port to
report, and the endpoint unless it is skipped. -/
structure Made (env : Install) (faults : Faults) (config : MeshConfig) (monitor : Monitor)
    (p : PeerEndpoint) (i : IfName) (port : Nat) (reported : Option Nat) (m : Machine) : Prop where
  ifName : m.agent.peerToIf.get? p.id = some i
  injective : InjectiveMap m.agent.peerToIf
  nonzero : port ≠ 0
  tunnel : faults.Spare i → reported = some port ∧ Tunnel env config.selfIpv4 config.awg p i port m
  endpoint : faults.Spare i → Unskipped monitor p.id → p.endpoint ≠ [] →
    m.agent.host.endpoint i p.pubkey = p.endpoint

theorem Turn.made {draws : List Nat} {monitor : Monitor} {reported : Option Nat}
    (h : Turn env faults config existing draws p m m' port reported)
    (hready : Ready existing monitor p.id m) :
    Made env faults config monitor p (m.ifNameOf p) port reported m' where
  ifName := h.get?_self.1
  injective := h.injective hready.injective
  nonzero := (listenPortOf_spec h.listenPort).1
  tunnel := fun hspare => ⟨(h.installed hready hspare).1, h.tunnel hready hspare⟩
  endpoint := fun hspare => h.endpoint hready hspare

/-- The turns of other peers leave it alone, whichever of their commands fail. -/
theorem Made.turn {draws : List Nat} {monitor : Monitor} {q : PeerEndpoint} {port' : Nat}
    {reported reported' : Option Nat} (hmade : Made env faults config monitor p i port reported m)
    (h : Turn env faults config existing draws q m m' port' reported') (hid : q.id ≠ p.id)
    (hbase : MAIN_TABLE < env.rtTableBase) (hexisting : ∀ i ∈ existing, i ∈ m.agent.host.interfaces)
    (hip : q.meshIpv4 ≠ p.meshIpv4) : Made env faults config monitor p i port reported m' where
  ifName := h.get?_kept hmade.ifName
  injective := h.injective hmade.injective
  nonzero := hmade.nonzero
  tunnel := fun hspare =>
    ⟨(hmade.tunnel hspare).1, (hmade.tunnel hspare).2.turn h hbase hmade.injective hexisting
      (fun _ => hip) fun he => absurd he hid⟩
  endpoint := fun hspare hskip hgiven => h.endpoint_kept (hmade.endpoint hspare hskip hgiven)
    fun he => absurd he (ifNameOf_ne hmade.injective hid hmade.ifName)

/-- **A call that returns** leaves every peer of its configuration that has a pubkey, and for
whose interface no command has failed, with a tunnel, reports its port, and has given it the
endpoint of the configuration, unless the peer is on relay or frozen. -/
theorem reconcile_tunnel (hbase : MAIN_TABLE < env.rtTableBase)
    (hinj : InjectiveMap m.agent.peerToIf) (hp : p ∈ config.peers) (hkey : p.pubkey ≠ [])
    (hips : ∀ q ∈ config.peers, q.id ≠ p.id → q.meshIpv4 ≠ p.meshIpv4)
    (h : m.reconcile env faults config draws = .ok (m', ports))
    (hlist : faults.listInterfaces = false) :
    ∃ i, m'.agent.peerToIf.get? p.id = some i ∧ (faults.Spare i →
      ∃ port, Held env config.selfIpv4 config.awg p i port
          (some (m'.agent.host.endpoint i p.pubkey)) m' ∧
        (p.id, port) ∈ ports ∧ port ≠ 0 ∧ (Unskipped m.agent.monitor p.id → p.endpoint ≠ [] →
          m'.agent.host.endpoint i p.pubkey = p.endpoint)) := by
  obtain ⟨m1, port, reported, ⟨i, hmade⟩, hreported, rfl⟩ := reconcile_makes
    (I := fun port reported s => ∃ i, Made env faults config m.agent.monitor p i port reported s)
    hinj hlist hp hkey (fun _ _ _ _ hs ht => ⟨_, ht.made hs⟩)
    (fun q hq hid _ _ _ _ _ _ hthere ⟨i, hmade⟩ ht =>
      ⟨i, hmade.turn ht hid hbase hthere (hips q hq hid)⟩) h
  have hget := (@get?_saved env faults config m1 _ (isDesired_of_mem hp)).trans hmade.ifName
  refine ⟨i, hget, fun hspare => ?_⟩
  obtain ⟨rfl, htunnel⟩ := hmade.tunnel hspare
  have hheld : Held env config.selfIpv4 config.awg p i port
      (some (m1.agent.host.endpoint i p.pubkey)) m1 :=
    ⟨htunnel, fun x hx => Option.some.inj hx, hmade.injective⟩
  have hend := (@Held.removeGone env faults config m1 _ _ p i port _ hheld hbase
    (isDesired_of_mem hp)).save
  refine ⟨port, ?_, hreported port rfl, hmade.nonzero, fun hskip hgiven => ?_⟩
  · rw [hend.endpoint _ rfl]
    exact hend
  · exact (hend.endpoint _ rfl).trans (hmade.endpoint hspare hskip hgiven)

/-! ## Runs -/

/-- A later call whose configuration agrees with the tunnel that a call has made. -/
def Agreeing (config : MeshConfig) (p : PeerEndpoint) (port : Nat) (e : JsString) :
    MachineEvent → Prop
  | .call later _ _ _ => Agrees later config.selfIpv4 config.awg p port (some e)
  | .restart _ => False

/-- **Tunnels.**  In every run of calls and restarts, whichever commands fail: a call that
returns has made a tunnel for each peer of its configuration with a pubkey for whose interface
no command has failed, has reported its port and, unless the peer is on relay or frozen, has
given it its endpoint; and all this stays through any number of later calls whose configurations
agree with it, whichever of their commands fail, and whether they return or throw. -/
theorem tunnels_made {env : Install} (hbase : MAIN_TABLE < env.rtTableBase) {m : Machine}
    (hinj : InjectiveMap m.agent.peerToIf) (es : List MachineEvent) {config : MeshConfig}
    (hips : ∀ p ∈ config.peers, ∀ q ∈ config.peers, q.id ≠ p.id → q.meshIpv4 ≠ p.meshIpv4)
    {draws : PeerId → List Nat} {monitor : Monitor} {faults : Faults} {m' : Machine}
    {ports : List (PeerId × Nat)} (h : (run (machineStep env) m es).reconcileWith env faults config
      draws monitor = .ok (m', ports))
    (hlist : faults.listInterfaces = false) {p : PeerEndpoint} (hp : p ∈ config.peers)
    (hkey : p.pubkey ≠ []) :
    ∃ i, m'.agent.peerToIf.get? p.id = some i ∧ (faults.Spare i →
      ∃ port e, (p.id, port) ∈ ports ∧
        (Unskipped monitor p.id → p.endpoint ≠ [] → e = p.endpoint) ∧
        ∀ es', (∀ x ∈ es', Agreeing config p port e x) →
          Tunnel env config.selfIpv4 config.awg p i port (run (machineStep env) m' es') ∧
          (run (machineStep env) m' es').agent.host.endpoint i p.pubkey = e) := by
  have hinj' : InjectiveMap (run (machineStep env) m es).agent.peerToIf :=
    run_invariant (machineStep env) (I := fun m => InjectiveMap m.agent.peerToIf)
      (fun _ e h => injective_machineStep h e) hinj es
  obtain ⟨i, hget, hmade⟩ := @reconcile_tunnel env faults config draws
    { run (machineStep env) m es with agent := { (run (machineStep env) m es).agent with monitor } }
    m' ports p hbase hinj' hp hkey (hips p hp) h hlist
  refine ⟨i, hget, fun hspare => ?_⟩
  obtain ⟨port, hheld, hmem, hport, hendpoint⟩ := hmade hspare
  refine ⟨port, _, hmem, hendpoint, fun es' hes => ?_⟩
  have hrun := run_invariant_along (machineStep env)
    (I := Held env config.selfIpv4 config.awg p i port
      (some (m'.agent.host.endpoint i p.pubkey)))
    (P := fun _ x => Agreeing config p port (m'.agent.host.endpoint i p.pubkey) x) ?_ hheld
    (along_of_mem (machineStep env) _ hes m')
  · exact ⟨hrun.tunnel, hrun.endpoint _ rfl⟩
  · intro s x hs hx
    cases x with
    | call later draws monitor faults =>
      have hs' : Held env config.selfIpv4 config.awg p i port
          (some (m'.agent.host.endpoint i p.pubkey)) { s with agent := { s.agent with monitor } } :=
        hs.withAgent rfl rfl rfl
      exact hs'.reconcile hbase hx hport
    | restart file => exact hx.elim

/-- The peer of the one-peer configuration. -/
def plainPeer : PeerEndpoint where
  id := [98]
  pubkey := [107]
  meshIpv4 := [49, 48, 46, 57, 46, 48, 46, 50]
  endpoint := []

/-- A call without a fault makes the tunnel, and one in which the rule cannot be added leaves it
alone. -/
theorem tunnels_made_onePeer : ∃ m' i port, Tunnel plainInstall
    (plainConfig (onePeerCall [107]).config).selfIpv4 plainAwg plainPeer i port
    (run (machineStep plainInstall) m' [plainCall ruleFaults]) := by
  obtain ⟨⟨m', ports⟩, h⟩ : ∃ r, (run (machineStep plainInstall) plainMachine []).reconcileWith
      plainInstall .none (plainConfig (onePeerCall [107]).config) (fun _ => [0]) .empty = .ok r :=
    ⟨_, rfl⟩
  have hinj : InjectiveMap plainMachine.agent.peerToIf := fun p q i hp => by cases hp
  have hmem : ∀ p ∈ (plainConfig (onePeerCall [107]).config).peers, p = plainPeer :=
    fun p hp => List.mem_singleton.mp hp
  obtain ⟨i, -, hmade⟩ := @tunnels_made plainInstall (by decide) plainMachine hinj [] _
    (fun p hp q hq hid => absurd (by rw [hmem p hp, hmem q hq]) hid) _ _ .none m' ports h rfl
    plainPeer (List.mem_singleton_self _) (by decide)
  obtain ⟨port, e, -, -, hlater⟩ := hmade fun _ => rfl
  refine ⟨m', i, port, (hlater [plainCall ruleFaults] ?_).1⟩
  refine List.forall_mem_singleton.mpr ⟨rfl, rfl, rfl, ?_, ?_⟩
  · intro q hq _
    obtain rfl := hmem q hq
    exact ⟨rfl, rfl, fun hpos => absurd hpos (Nat.lt_irrefl 0), fun x _ => Or.inl rfl⟩
  · exact fun q hq hid => absurd (congrArg PeerEndpoint.id (hmem q hq)) hid

end

end Meshezia
