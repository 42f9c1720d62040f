import Meshezia.Agent.RelayProxy
import Meshezia.Server.Negotiate

/-!
# The agent and its mode switches (`negotiate.ts` of the agent)

The dispatcher does not await its handlers.  `switchPeerMode` starts an `awg set` command
and returns (`Agent.switches`); the command takes effect later (`awgApplied`), and later
still the handler resumes and sets the mode of the peer (`switchDone`).

Of the handlers only what they do to modes, endpoints and frozen peers is here; the probe
sockets and servers they open and close are not.
-/

namespace Meshezia

/-! ## The host -/

/-- The interfaces of the host and the endpoints of their peers; a peer without an endpoint
has the empty one. -/
structure Host where
  interfaces : List IfName
  peers : OMap (IfName × JsString) JsString

namespace Host

/-- The endpoint of a peer of an interface. -/
def endpoint (h : Host) (ifName : IfName) (pubkey : JsString) : JsString :=
  (h.peers.get? (ifName, pubkey)).getD []

/-- `awg set IF peer KEY [endpoint E]`: without an endpoint (`[]`) the peer keeps its own. -/
def awgSet (h : Host) (ifName : IfName) (pubkey endpoint : JsString) : Host :=
  let kept := if endpoint = [] then h.endpoint ifName pubkey else endpoint
  { h with peers := h.peers.set (ifName, pubkey) kept }

/-- `ip link add`: a new interface has no peers. -/
def linkAdd (h : Host) (ifName : IfName) : Host where
  interfaces := h.interfaces ++ [ifName]
  peers := h.peers.filter fun k _ => !decide (k.1 = ifName)

/-- `ip link delete`. -/
def linkDelete (h : Host) (ifName : IfName) : Host where
  interfaces := h.interfaces.filter fun i => !decide (i = ifName)
  peers := h.peers.filter fun k _ => !decide (k.1 = ifName)

theorem endpoint_awgSet (h : Host) (ifName : IfName) (pubkey e : JsString) (n : IfName)
    (k : JsString) : (h.awgSet ifName pubkey e).endpoint n k =
      if ifName = n ∧ pubkey = k ∧ e ≠ [] then e else h.endpoint n k := by
  unfold awgSet
  simp only [endpoint, OMap.get?_set, Prod.mk.injEq]
  by_cases hk : ifName = n ∧ pubkey = k
  · obtain ⟨rfl, rfl⟩ := hk
    by_cases he : e = [] <;> simp [he]
  · have hk' : ¬ (ifName = n ∧ pubkey = k ∧ e ≠ []) := fun x => hk ⟨x.1, x.2.1⟩
    rw [if_neg hk, if_neg hk']

/-- An interface that is made or deleted has no endpoints. -/
theorem endpoint_filter (h : Host) (ifName n : IfName) (l : List IfName) (k : JsString) :
    Host.endpoint ⟨l, h.peers.filter fun k _ => !decide (k.1 = ifName)⟩ n k =
      if ifName = n then [] else h.endpoint n k := by
  unfold endpoint
  simp only []
  rw [OMap.get?_filter]
  by_cases hn : ifName = n
  · subst hn
    cases h.peers.get? (ifName, k) <;> simp [Option.filter]
  · have hn' : n ≠ ifName := fun e => hn e.symm
    cases h.peers.get? (n, k) <;> simp [Option.filter, hn, hn']

theorem endpoint_filter_ne (h : Host) {ifName n : IfName} (hne : n ≠ ifName) (l : List IfName)
    (k : JsString) :
    Host.endpoint ⟨l, h.peers.filter fun k _ => !decide (k.1 = ifName)⟩ n k = h.endpoint n k := by
  rw [endpoint_filter, if_neg hne.symm]

end Host

/-- `127.0.0.1:${port}`. -/
def loopback (port : Nat) : JsString :=
  [49, 50, 55, 46, 48, 46, 48, 46, 49, 58] ++
    (Nat.toDigits 10 port).map fun c => UInt16.ofNat c.toNat

theorem loopback_ne_nil (port : Nat) : loopback port ≠ [] := by simp [loopback]

/-! ## State -/

/-- A call of `switchPeerMode` that awaits its `awg set`; `applied` once that has taken effect. -/
structure Switch where
  peerId : PeerId
  target : Mode
  ifName : IfName
  pubkey : JsString
  endpoint : JsString
  applied : Bool := false
deriving DecidableEq, Repr

/-- What a poll configures: a peer, its interface and port, and whether to leave its endpoint. -/
structure Target where
  peer : PeerEndpoint
  ifName : IfName
  listenPort : Nat
  skipEndpoint : Bool
deriving DecidableEq, Repr

/-- What a poll awaits. -/
inductive Stage where
  | listing
  | creating (t : Target) (rest : List PeerEndpoint)
  | setting (t : Target) (rest : List PeerEndpoint)
  | routing (t : Target) (rest : List PeerEndpoint)
  | removing (peerId : PeerId) (ifName : IfName)
  | removed (peerId : PeerId)
  | saving (data : List (PeerId × IfName × Nat))
  | saved
  | reporting
  | binding (peer : PeerEndpoint) (ifName : IfName) (relayPort : Nat) (isNew : Bool)
      (rest : List PeerEndpoint) (idx : Nat) (activePeerIds : List PeerId)

/-- A poll under way: its configuration, the interfaces it has listed and the ports it is
going to report. -/
structure Poll where
  config : PeerConfig
  existing : List IfName
  ports : List (PeerId × Nat)
  stage : Stage

/-- The history of an agent, newest first. -/
inductive AgentItem where
  | received (msg : ServerMsg)
  | switching (t : Switch)
  | reconcileStarted (poll : Nat)
  | decided (t : Target)
  | unlinked (ifName : IfName)
  | reconciled (poll : Nat)
  | inited (peerId : PeerId) (created : Bool)
  | pollFailed (poll : Nat)
deriving DecidableEq, Repr

structure Agent where
  range : PortRange
  host : Host
  monitor : Monitor
  forcedModes : OMap PeerId ForcedMode
  peerToIf : OMap PeerId IfName
  peerToPort : OMap PeerId Nat
  dirty : Bool
  mappings : List (PeerId × IfName × Nat)
  relays : Relays
  switches : OMap Nat Switch
  polls : OMap Nat Poll
  lastPorts : List (PeerId × Nat)
  nextId : Nat
  trace : List AgentItem

namespace Agent

def note (s : Agent) (it : AgentItem) : Agent := { s with trace := it :: s.trace }

def peerStates (s : Agent) : PeerStates := s.monitor.peerStates

/-! ## Handlers -/

def setPeerMode (s : Agent) (peerId : PeerId) (mode : Mode) : Agent :=
  { s with monitor :=
      { s.monitor with peerStates := Meshezia.setPeerMode s.monitor.peerStates peerId mode } }

/-- Start `awg set … endpoint …` and await it. -/
def startSwitch (s : Agent) (t : Switch) : Agent :=
  { s with switches := s.switches.set s.nextId t, nextId := s.nextId + 1
           trace := .switching t :: s.trace }

/-- `switchPeerMode` up to its first await. -/
def switchPeerMode (s : Agent) (peerId : PeerId) (target : Mode) : Agent :=
  match s.peerStates.get? peerId with
  | none => s
  | some state =>
    match target with
    | .relay => s.startSwitch
        { peerId, target, ifName := state.ifName, pubkey := state.pubkey,
          endpoint := loopback state.relayPort }
    | .direct =>
      if state.directEndpoint ≠ [] then
        s.startSwitch { peerId, target, ifName := state.ifName, pubkey := state.pubkey,
                        endpoint := state.directEndpoint }
      else s.setPeerMode peerId .direct

def unfreezePeer (s : Agent) (peerId : PeerId) : Agent :=
  { s with monitor := s.monitor.unfreezePeer peerId }

def freezePeer (s : Agent) (peerId : PeerId) (now : Int) : Agent :=
  { s with monitor := s.monitor.freezePeer peerId now }

def handleProbeVerdict (s : Agent) (peerId : PeerId) (action : VerdictAction) : Agent :=
  let s := s.unfreezePeer peerId
  match action with
  | .switchRelay => s.switchPeerMode peerId .relay
  | .switchDirect => s.switchPeerMode peerId .direct
  | .stay => s

def handleForceMode (s : Agent) (peerId : PeerId) (mode : ForceCommand) : Agent :=
  let s := s.unfreezePeer peerId
  match mode with
  | .auto => { s with forcedModes := s.forcedModes.delete peerId }
  | .force m =>
    let s := { s with forcedModes := s.forcedModes.set peerId m }
    s.switchPeerMode peerId m.mode

def handleNegotiateMessage (s : Agent) (now : Int) (msg : ServerMsg) : Agent :=
  match msg with
  | .probeRelayServe peer => s.freezePeer peer now
  | .probeRelayCheck peer _ _ _ _ _ => s.freezePeer peer now
  | .probeDirectStart peer => s.freezePeer peer now
  | .probeDirectGo _ _ _ _ => s
  | .probeVerdict peer action => s.handleProbeVerdict peer action
  | .negotiateAbort peer _ => s.unfreezePeer peer
  | .forceMode peer mode => s.handleForceMode peer mode
  | .peerRemoved _ => s

/-- A message arrives. -/
def receive (s : Agent) (now : Int) (msg : ServerMsg) : Agent :=
  (s.note (.received msg)).handleNegotiateMessage now msg

/-- The `awg set` of a switch takes effect. -/
def awgApplied (s : Agent) (id : Nat) : Agent :=
  match s.switches.get? id with
  | none => s
  | some t =>
    if t.applied then s
    else { s with host := s.host.awgSet t.ifName t.pubkey t.endpoint
                  switches := s.switches.set id { t with applied := true } }

/-- A switch resumes after its `awg set`: it sets the mode and is over. -/
def switchDone (s : Agent) (id : Nat) : Agent :=
  match s.switches.get? id with
  | none => s
  | some t =>
    if t.applied then
      { s.setPeerMode t.peerId t.target with switches := s.switches.delete id }
    else s

/-- `resetNegotiateState`, when the WebSocket closes. -/
def resetNegotiateState (s : Agent) : Agent :=
  { s with monitor := s.monitor.clearAllFrozen, forcedModes := .empty }

end Agent

end Meshezia
