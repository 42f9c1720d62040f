import Meshezia.Agent.Negotiate

/-!
# The agent as a state machine (`poll` of `index.ts`, `reconcile`, `ensureInterface`)

A poll is cut at its awaits: `pollStep` lets what it awaits (its `Stage`) take effect and
runs it up to the next await.  With `ok = false` the awaited command or request fails.
Polls and handlers interleave in any order (`AgentEvent`); several polls may be under way.
-/

namespace Meshezia

/-- A mapping file as an agent leaves it: no peer and no interface is in it twice. -/
structure MappingFile where
  data : List (PeerId × IfName × Nat)
  peersDistinct : (data.map Prod.fst).Nodup
  ifsDistinct : (data.map fun e => e.2.1).Nodup

/-- No file on disk. -/
def MappingFile.empty : MappingFile := ⟨[], by simp, by simp⟩

/-- `loadMappings`; a port 0 is no port. -/
def MappingFile.peerToIf (file : MappingFile) : OMap PeerId IfName :=
  file.data.foldl (fun m e => m.set e.1 e.2.1) .empty

def MappingFile.peerToPort (file : MappingFile) : OMap PeerId Nat :=
  (file.data.filter fun e => e.2.2 ≠ 0).foldl (fun m e => m.set e.1 e.2.2) .empty

namespace Agent

/-! ## `reconcile` -/

def setStage (s : Agent) (id : Nat) (poll : Poll) (stage : Stage) : Agent :=
  { s with polls := s.polls.set id { poll with stage } }

/-- The poll throws: `poll` catches and is over. -/
def failPoll (s : Agent) (id : Nat) : Agent :=
  { s with polls := s.polls.delete id, trace := .pollFailed id :: s.trace }

/-- The data that `saveMappings` writes. -/
def mappingData (s : Agent) : List (PeerId × IfName × Nat) :=
  s.peerToIf.entries.map fun e => (e.1, e.2, (s.peerToPort.get? e.1).getD 0)

/-- The end of `reconcile`. -/
def reconcileEnd (s : Agent) (id : Nat) (poll : Poll) : Agent :=
  (s.setStage id poll .reporting).note (.reconciled id)

def isDesired (config : PeerConfig) (peerId : PeerId) : Bool :=
  config.peers.any fun p => decide (p.id = peerId)

/-- The second loop: go on to the next interface to remove, or to `saveMappings`. -/
def reconcileRemovals (s : Agent) (id : Nat) (poll : Poll) : Agent :=
  match s.peerToIf.entries.find? fun e => !isDesired poll.config e.1 with
  | some (peerId, ifName) => s.setStage id poll (.removing peerId ifName)
  | none =>
    if s.dirty then s.setStage id poll (.saving s.mappingData) else s.reconcileEnd id poll

/-- The port of a peer: the one of the configuration, else its own or a new one. -/
def listenPortOf (s : Agent) (peer : PeerEndpoint) (draws : List Nat) :
    Option (Nat × OMap PeerId Nat) :=
  if peer.listenPort > 0 then some (peer.listenPort, s.peerToPort.set peer.id peer.listenPort)
  else getPort s.range s.peerToPort peer.id draws

/-- Skip the endpoint of a peer on relay or frozen, unless its interface is new. -/
def skipEndpoint (s : Agent) (peerId : PeerId) (isNew : Bool) : Bool :=
  !isNew && (decide ((s.peerStates.get? peerId).map PeerState.mode = some .relay) ||
    s.monitor.isFrozen peerId)

/-- The first loop: go on to the next peer with a pubkey, up to the first await for it. -/
def reconcilePeers (s : Agent) (id : Nat) (poll : Poll) (draws : List Nat) :
    List PeerEndpoint → Agent
  | [] => s.reconcileRemovals id poll
  | peer :: rest =>
    if peer.pubkey = [] then s.reconcilePeers id poll draws rest
    else
      let (ifName, peerToIf) := getIfName s.peerToIf peer.id
      let s := { s with peerToIf, dirty := s.dirty || !s.peerToIf.has peer.id }
      let isNew := !poll.existing.contains ifName
      match s.listenPortOf peer draws with
      | none => s.failPoll id
      | some (listenPort, peerToPort) =>
        let dirty := s.dirty || decide (s.peerToPort.get? peer.id ≠ some listenPort)
        let s := { s with peerToPort, dirty }
        let t : Target := { peer, ifName, listenPort, skipEndpoint := s.skipEndpoint peer.id isNew }
        (s.note (.decided t)).setStage id poll
          (if isNew then .creating t rest else .setting t rest)

/-- The `awg set` of `ensureInterface`. -/
def configure (s : Agent) (t : Target) : Agent :=
  let endpoint := if t.skipEndpoint then [] else t.peer.endpoint
  { s with host := s.host.awgSet t.ifName t.peer.pubkey endpoint }

/-! ## The rest of `poll` -/

/-- The last loop of `poll`: states and proxies of peers that are not active go. -/
def removeInactive (s : Agent) (activePeerIds : List PeerId) : Agent :=
  (s.peerStates.keys.filter fun p => !activePeerIds.contains p).foldl (fun s p =>
    { s with monitor := s.monitor.removePeerState p, relays := s.relays.delete p }) s

/-- Go on to the next peer with a pubkey and an interface, up to `await ensureRelayProxy`. -/
def proxyPeers (s : Agent) (id : Nat) (poll : Poll) (idx : Nat) (activePeerIds : List PeerId) :
    List PeerEndpoint → Agent
  | [] => { s.removeInactive activePeerIds with polls := s.polls.delete id }
  | peer :: rest =>
    if peer.pubkey = [] then s.proxyPeers id poll idx activePeerIds rest
    else
      let activePeerIds := activePeerIds ++ [peer.id]
      match s.peerToIf.get? peer.id with
      | none => s.proxyPeers id poll idx activePeerIds rest
      | some ifName =>
        let relayPort := (ensureRelayProxy s.relays peer.id idx).1
        s.setStage id poll (.binding peer ifName relayPort (!s.relays.has peer.id) rest idx
          activePeerIds)

/-- `ensureRelayProxy` returns: the proxy is entered, and `initPeerState` runs. -/
def initPeer (s : Agent) (peer : PeerEndpoint) (ifName : IfName) (relayPort : Nat)
    (isNew : Bool) : Agent :=
  let relays := if isNew then s.relays.set peer.id { peerId := peer.id, localPort := relayPort }
    else s.relays
  let monitor := { s.monitor with
    peerStates := initPeerState s.monitor.peerStates peer ifName relayPort }
  ({ s with relays, monitor }).note (.inited peer.id (!s.peerStates.has peer.id))

/-- What the poll awaits is over, well (`ok`) or with an error, and the poll goes on. -/
def pollStep (s : Agent) (id : Nat) (ok : Bool) (draws : List Nat) : Agent :=
  match s.polls.get? id with
  | none => s
  | some poll =>
    match poll.stage with
    | .listing =>
      let poll := { poll with existing := if ok then s.host.interfaces else [] }
      s.reconcilePeers id poll draws poll.config.peers
    | .creating t rest =>
      if ok then ({ s with host := s.host.linkAdd t.ifName }).setStage id poll (.setting t rest)
      else s.reconcilePeers id poll draws rest
    | .setting t rest =>
      if ok then (s.configure t).setStage id poll (.routing t rest)
      else s.reconcilePeers id poll draws rest
    | .routing t rest =>
      let poll := if ok then { poll with ports := poll.ports ++ [(t.peer.id, t.listenPort)] }
        else poll
      s.reconcilePeers id poll draws rest
    | .removing peerId ifName =>
      let host := if ok then s.host.linkDelete ifName else s.host
      let trace := if ok then .unlinked ifName :: s.trace else s.trace
      ({ s with host, trace }).setStage id poll (.removed peerId)
    | .removed peerId =>
      ({ s with peerToIf := s.peerToIf.delete peerId, peerToPort := s.peerToPort.delete peerId
                dirty := true }).reconcileRemovals id poll
    | .saving data =>
      if ok then ({ s with mappings := data }).setStage id poll .saved else s.failPoll id
    | .saved => ({ s with dirty := false }).reconcileEnd id poll
    | .reporting =>
      -- the ports are reported only when they have changed
      if poll.ports = [] ∨ poll.ports = s.lastPorts then s.proxyPeers id poll 0 [] poll.config.peers
      else if ok then
        ({ s with lastPorts := poll.ports }).proxyPeers id poll 0 [] poll.config.peers
      else s.failPoll id
    | .binding peer ifName relayPort isNew rest idx activePeerIds =>
      if ok || !isNew then
        (s.initPeer peer ifName relayPort isNew).proxyPeers id poll (idx + 1) activePeerIds rest
      else s.failPoll id

/-- `poll` has its configuration and calls `reconcile`. -/
def startPoll (s : Agent) (config : PeerConfig) : Agent :=
  { s with polls := s.polls.set s.nextId { config, existing := [], ports := [], stage := .listing }
           nextId := s.nextId + 1
           trace := .reconcileStarted s.nextId :: s.trace }

/-- An agent that has started on a host, with the mappings it has loaded from disk. -/
def boot (range : PortRange) (host : Host) (file : MappingFile) : Agent where
  range
  host
  monitor := .empty
  forcedModes := .empty
  peerToIf := file.peerToIf
  peerToPort := file.peerToPort
  dirty := false
  mappings := file.data
  relays := .empty
  switches := .empty
  polls := .empty
  lastPorts := []
  nextId := 0
  trace := []

end Agent

inductive AgentEvent where
  | receive (now : Int) (msg : ServerMsg)
  | awgApplied (id : Nat)
  | switchDone (id : Nat)
  | startPoll (config : PeerConfig)
  | pollStep (id : Nat) (ok : Bool) (draws : List Nat)
  | probeFailed (peerId : PeerId)
  | tick (now : Int)
  | wsClose

/-- One event: `probeFailed` is a probe socket that could not be bound. -/
def agentStep (s : Agent) : AgentEvent → Agent
  | .receive now msg => s.receive now msg
  | .awgApplied id => s.awgApplied id
  | .switchDone id => s.switchDone id
  | .startPoll config => s.startPoll config
  | .pollStep id ok draws => s.pollStep id ok draws
  | .probeFailed peerId => s.unfreezePeer peerId
  | .tick now => { s with monitor := s.monitor.unfreezeStuck now }
  | .wsClose => s.resetNegotiateState

/-! ## Lemmas -/

theorem isDesired_of_mem {config : PeerConfig} {peer : PeerEndpoint} (h : peer ∈ config.peers) :
    Agent.isDesired config peer.id = true :=
  List.any_eq_true.mpr ⟨peer, h, by simp⟩

theorem PeerConfig.eq_of_id {config : PeerConfig} {x y : PeerEndpoint} (hx : x ∈ config.peers)
    (hy : y ∈ config.peers) (h : x.id = y.id) : x = y :=
  List.inj_on_of_nodup_map config.ids_nodup hx hy h

/-! ## A first poll -/

/-- A network with one other peer. -/
def onePeer : PeerConfig := ⟨[⟨[98], [107], [10], [69], 0⟩], by simp⟩

/-- A network without another peer. -/
def noPeer : PeerConfig := ⟨[], by simp⟩

/-- An agent with nothing on its host and on its disk. -/
def freshAgent : Agent := .boot ⟨51820, 52819⟩ ⟨[], .empty⟩ .empty

def firstPoll : List AgentEvent := .startPoll onePeer :: List.replicate 8 (.pollStep 0 true [5])

end Meshezia
