import Meshezia.Lib.History
import Meshezia.Agent.Step

/-!
# The probes of an agent (`negotiate.ts` of the agent)

The other half of the agent's negotiate handlers: the TCP servers and UDP sockets they
open, close and keep.  There is one slot for a TCP server (`tcpProbeServer`), and one
entry a peer for a UDP socket (`udpProbeSockets`).  What is open is recorded apart from
what the code remembers: `servers` are the TCP servers that have not been stopped, and an
entry stays in `entries`, open or closed, for as long as a handler may hold it.

Handlers are cut at their awaits (`ProbeHandler`).  The rest of the agent goes on in
between; of it only the frozen peers matter here.  `log` is what was received, newest
first.

`probeStep` is the agent of `agentStep` with its probes: `probeStep_agent`.
-/

namespace Meshezia

/-! ## State -/

structure TcpServer where
  peerId : PeerId
  port : Int
  nonce : JsString
deriving DecidableEq, Repr

/-- An entry for a UDP socket, with the nonce its `onData` waits for. -/
structure ProbeEntry where
  peerId : PeerId
  port : Int
  nonce : JsString
  expected : Option JsString := none
  resolved : Bool := false
  isOpen : Bool := true
deriving DecidableEq, Repr

/-- What a handler awaits: its `fetch`, its socket (and then its turn), 100 ms between two
datagrams, or 50 ms until it looks again. -/
inductive ProbeHandler where
  | checking (peerId : PeerId)
  | binding (peerId : PeerId) (nonce : JsString)
  | bound (peerId : PeerId) (entry : Nat)
  | sending (peerId : PeerId) (entry : Nat) (peerIpv4 : JsString) (peerUdpPort : Int) (sent : Nat)
  | polling (peerId : PeerId) (entry : Nat)
deriving DecidableEq, Repr

inductive ProbeItem where
  | received (msg : ServerMsg)
  | disconnected
deriving DecidableEq, Repr

inductive ProbeOutput where
  | toServer (msg : AgentMsg)
  | datagram (ip : JsString) (port : Int) (text : JsString)
deriving DecidableEq, Repr

structure Prober where
  agent : Agent
  selfMeshIpv4 : JsString
  tcpProbeServer : Option (Nat × PeerId)
  udpProbeSockets : OMap PeerId Nat
  servers : OMap Nat TcpServer
  entries : OMap Nat ProbeEntry
  handlers : OMap Nat ProbeHandler
  nextId : Nat
  outputs : List ProbeOutput
  log : List ProbeItem

namespace Prober

def sendMsg (s : Prober) (msg : AgentMsg) : Prober :=
  { s with outputs := s.outputs ++ [.toServer msg] }

/-- Await something in a new handler. -/
def await (s : Prober) (h : ProbeHandler) : Prober :=
  { s with handlers := s.handlers.set s.nextId h, nextId := s.nextId + 1 }

def unfreezePeer (s : Prober) (peerId : PeerId) : Prober :=
  { s with agent := s.agent.unfreezePeer peerId }

/-! ## Cleanup -/

/-- `closeTcpProbeServer`: an empty id matches any server. -/
def closeTcpProbeServer (s : Prober) (peerId : PeerId) : Prober :=
  match s.tcpProbeServer with
  | none => s
  | some (server, owner) =>
    if peerId = [] ∨ owner = peerId then
      { s with tcpProbeServer := none, servers := s.servers.delete server }
    else s

def closeEntry (entries : OMap Nat ProbeEntry) (entry : Nat) : OMap Nat ProbeEntry :=
  entries.mapVals fun k e => if k = entry then { e with isOpen := false } else e

def closeUdpProbeSocket (s : Prober) (peerId : PeerId) : Prober :=
  match s.udpProbeSockets.get? peerId with
  | none => s
  | some entry =>
    { s with entries := closeEntry s.entries entry
             udpProbeSockets := s.udpProbeSockets.delete peerId }

/-- The first lines of the handlers of a verdict, an abort and a force command. -/
def cleanUp (s : Prober) (peerId : PeerId) : Prober :=
  (s.closeTcpProbeServer peerId).closeUdpProbeSocket peerId

/-- The servers after `tcpProbeServer.server.stop()`. -/
def stopServer (s : Prober) : OMap Nat TcpServer :=
  match s.tcpProbeServer with
  | none => s.servers
  | some (server, _) => s.servers.delete server

/-- `resetNegotiateState`: every entry that is registered is closed. -/
def resetNegotiateState (s : Prober) : Prober :=
  { s with agent := s.agent.resetNegotiateState
           tcpProbeServer := none
           servers := s.stopServer
           entries := s.udpProbeSockets.entries.foldl (fun es e => closeEntry es e.2) s.entries
           udpProbeSockets := .empty }

/-! ## Handlers -/

/-- `Bun.serve` and what follows; `bind` is the port, or the error. -/
def handleProbeRelayServe (s : Prober) (peerId : PeerId) (nonce : JsString)
    (bind : Except JsString Int) : Prober :=
  match bind with
  | .ok port =>
    let s := { s with servers := s.servers.set s.nextId { peerId, port, nonce }
                      tcpProbeServer := some (s.nextId, peerId)
                      nextId := s.nextId + 1 }
    s.sendMsg (.probeRelayReady peerId s.selfMeshIpv4 port nonce)
  | .error text => (s.sendMsg (.probeError peerId text)).unfreezePeer peerId

/-- A datagram leaves if its socket is still open; otherwise `send` throws, and is caught. -/
def sendNonce (s : Prober) (entry : Nat) (peerIpv4 : JsString) (peerUdpPort : Int) : Prober :=
  match s.entries.get? entry with
  | none => s
  | some e =>
    if e.isOpen then
      { s with outputs := s.outputs ++ [.datagram peerIpv4 peerUdpPort e.nonce] }
    else s

def handleProbeDirectGo (s : Prober) (peerId : PeerId) (peerIpv4 : JsString) (peerUdpPort : Int)
    (peerNonce : JsString) : Prober :=
  match s.udpProbeSockets.get? peerId with
  | none => s
  | some entry =>
    let s := { s with entries := s.entries.mapVals fun k e =>
      if k = entry then { e with expected := some peerNonce } else e }
    (s.sendNonce entry peerIpv4 peerUdpPort).await (.sending peerId entry peerIpv4 peerUdpPort 1)

/-- The end of `handleProbeDirectGo`. -/
def finishDirectGo (s : Prober) (id : Nat) (peerId : PeerId) (success : Bool) : Prober :=
  let s := { s with handlers := s.handlers.delete id }
  (s.closeUdpProbeSocket peerId).sendMsg (.probeDirectResult peerId success)

/-- One look at `entry.resolved`: the end, or 50 ms more. -/
def lookResolved (s : Prober) (id : Nat) (peerId : PeerId) (entry : Nat) : Prober :=
  if (s.entries.get? entry).map ProbeEntry.resolved = some true then
    s.finishDirectGo id peerId true
  else { s with handlers := s.handlers.set id (.polling peerId entry) }

/-- A timer of `handleProbeDirectGo` fires; `timeUp` once its three seconds are over. -/
def goStep (s : Prober) (id : Nat) (timeUp : Bool) : Prober :=
  match s.handlers.get? id with
  | some (.sending peerId entry peerIpv4 peerUdpPort sent) =>
    let s := s.sendNonce entry peerIpv4 peerUdpPort
    if sent + 1 < 3 then
      { s with handlers :=
          s.handlers.set id (.sending peerId entry peerIpv4 peerUdpPort (sent + 1)) }
    else s.lookResolved id peerId entry
  | some (.polling peerId entry) =>
    if timeUp then s.finishDirectGo id peerId false else s.lookResolved id peerId entry
  | _ => s

/-- The `fetch` of `handleProbeRelayCheck` settles. -/
def fetched (s : Prober) (id : Nat) (ok : Bool) : Prober :=
  match s.handlers.get? id with
  | some (.checking peerId) =>
    { s with handlers := s.handlers.delete id }.sendMsg (.probeRelayResult peerId ok)
  | _ => s

/-- `Bun.udpSocket` settles: the socket is open, or the handler catches the error. -/
def udpBound (s : Prober) (id : Nat) (bind : Except JsString Int) : Prober :=
  match s.handlers.get? id with
  | some (.binding peerId nonce) =>
    match bind with
    | .ok port =>
      { s with entries := s.entries.set s.nextId { peerId, port, nonce }
               handlers := s.handlers.set id (.bound peerId s.nextId)
               nextId := s.nextId + 1 }
    | .error text =>
      ({ s with handlers := s.handlers.delete id }.sendMsg (.probeError peerId text)).unfreezePeer
        peerId
  | _ => s

/-- `handleProbeDirectStart` resumes with its socket and registers it. -/
def udpResume (s : Prober) (id : Nat) : Prober :=
  match s.handlers.get? id with
  | some (.bound peerId entry) =>
    let s := { s with udpProbeSockets := s.udpProbeSockets.set peerId entry
                      handlers := s.handlers.delete id }
    match s.entries.get? entry with
    | none => s
    | some e => s.sendMsg (.probeDirectReady peerId e.port e.nonce)
  | _ => s

/-- A datagram arrives at a socket. -/
def datagram (s : Prober) (entry : Nat) (text : JsString) : Prober :=
  { s with entries := s.entries.mapVals fun k e =>
      if k = entry ∧ e.isOpen = true ∧ e.expected = some text then { e with resolved := true }
      else e }

/-- The handlers up to their first awaits. -/
def handleNegotiateMessage (s : Prober) (msg : ServerMsg) (nonce : JsString)
    (bind : Except JsString Int) : Prober :=
  match msg with
  | .probeRelayServe peer => s.handleProbeRelayServe peer nonce bind
  | .probeRelayCheck peer _ _ _ _ _ => s.await (.checking peer)
  | .probeDirectStart peer => s.await (.binding peer nonce)
  | .probeDirectGo peer peerIpv4 peerUdpPort peerNonce =>
    s.handleProbeDirectGo peer peerIpv4 peerUdpPort peerNonce
  | .probeVerdict peer _ => s.cleanUp peer
  | .negotiateAbort peer _ => s.cleanUp peer
  | .forceMode peer _ => s.cleanUp peer
  | .peerRemoved _ => s

/-- A message arrives; `nonce` and `bind` are what its handler draws and gets. -/
def receive (s : Prober) (now : Int) (msg : ServerMsg) (nonce : JsString)
    (bind : Except JsString Int) : Prober :=
  { s with agent := s.agent.receive now msg, log := .received msg :: s.log }.handleNegotiateMessage
    msg nonce bind

/-- An agent that has started, with nothing open. -/
def boot (range : PortRange) (host : Host) (file : MappingFile) (selfMeshIpv4 : JsString) :
    Prober where
  agent := .boot range host file
  selfMeshIpv4
  tcpProbeServer := none
  udpProbeSockets := .empty
  servers := .empty
  entries := .empty
  handlers := .empty
  nextId := 0
  outputs := []
  log := []

end Prober

/-- What happens to an agent and its probes; `other` is what does not come from the
WebSocket: mode switches, polls, ticks. -/
inductive ProbeEvent where
  | receive (now : Int) (msg : ServerMsg) (nonce : JsString) (bind : Except JsString Int)
  | fetched (id : Nat) (ok : Bool)
  | udpBound (id : Nat) (bind : Except JsString Int)
  | udpResume (id : Nat)
  | goStep (id : Nat) (timeUp : Bool)
  | datagram (entry : Nat) (text : JsString)
  | wsClose
  | awgApplied (id : Nat)
  | switchDone (id : Nat)
  | startPoll (config : PeerConfig)
  | pollStep (id : Nat) (ok : Bool) (draws : List Nat)
  | tick (now : Int)

def probeStep (s : Prober) : ProbeEvent → Prober
  | .receive now msg nonce bind => s.receive now msg nonce bind
  | .fetched id ok => s.fetched id ok
  | .udpBound id bind => s.udpBound id bind
  | .udpResume id => s.udpResume id
  | .goStep id timeUp => s.goStep id timeUp
  | .datagram entry text => s.datagram entry text
  | .wsClose => { s.resetNegotiateState with log := .disconnected :: s.log }
  | .awgApplied id => { s with agent := s.agent.awgApplied id }
  | .switchDone id => { s with agent := s.agent.switchDone id }
  | .startPoll config => { s with agent := s.agent.startPoll config }
  | .pollStep id ok draws => { s with agent := s.agent.pollStep id ok draws }
  | .tick now => { s with agent := agentStep s.agent (.tick now) }

/-- What an event of the probes is to the rest of the agent. -/
def ProbeEvent.agentEvents (s : Prober) : ProbeEvent → List AgentEvent
  | .receive now (.probeRelayServe peer) _ (.error _) =>
    [.receive now (.probeRelayServe peer), .probeFailed peer]
  | .receive now msg _ _ => [.receive now msg]
  | .udpBound id (.error _) =>
    match s.handlers.get? id with
    | some (.binding peerId _) => [.probeFailed peerId]
    | _ => []
  | .wsClose => [.wsClose]
  | .awgApplied id => [.awgApplied id]
  | .switchDone id => [.switchDone id]
  | .startPoll config => [.startPoll config]
  | .pollStep id ok draws => [.pollStep id ok draws]
  | .tick now => [.tick now]
  | .udpBound _ (.ok _) | .fetched _ _ | .udpResume _ | .goStep _ _ | .datagram _ _ => []

/-! ## What the probes leave alone -/

section
variable (s : Prober)

/-- `s'` is `s` but for its resources. -/
def Prober.Apart (s' s : Prober) : Prop := s'.agent = s.agent ∧ s'.log = s.log

theorem apart_trans {s s' s'' : Prober} (h' : s''.Apart s') (h : s'.Apart s) : s''.Apart s :=
  ⟨h'.1.trans h.1, h'.2.trans h.2⟩

/-- `s'` has the servers of `s`, and the same in the slot. -/
def Prober.SameServers (s' s : Prober) : Prop :=
  s'.servers = s.servers ∧ s'.tcpProbeServer = s.tcpProbeServer ∧ s.nextId ≤ s'.nextId

theorem sameServers_refl : s.SameServers s := ⟨rfl, rfl, Nat.le_refl _⟩

theorem sameServers_trans {s s' s'' : Prober} (h' : s''.SameServers s') (h : s'.SameServers s) :
    s''.SameServers s :=
  ⟨h'.1.trans h.1, h'.2.1.trans h.2.1, Nat.le_trans h.2.2 h'.2.2⟩

/-- `s'` is `s` but for its sockets, its handlers and what it has sent. -/
def Prober.Beside (s' s : Prober) : Prop := s'.Apart s ∧ s'.SameServers s

theorem beside_refl : s.Beside s := ⟨⟨rfl, rfl⟩, sameServers_refl s⟩

theorem beside_trans {s s' s'' : Prober} (h' : s''.Beside s') (h : s'.Beside s) : s''.Beside s :=
  ⟨apart_trans h'.1 h.1, sameServers_trans h'.2 h.2⟩

theorem beside_closeUdpProbeSocket (p : PeerId) : (s.closeUdpProbeSocket p).Beside s := by
  unfold Prober.closeUdpProbeSocket
  split <;> exact ⟨⟨rfl, rfl⟩, rfl, rfl, Nat.le_refl _⟩

theorem apart_closeTcpProbeServer (p : PeerId) : (s.closeTcpProbeServer p).Apart s := by
  unfold Prober.closeTcpProbeServer
  split
  · exact ⟨rfl, rfl⟩
  · split <;> exact ⟨rfl, rfl⟩

theorem apart_cleanUp (p : PeerId) : (s.cleanUp p).Apart s :=
  apart_trans (beside_closeUdpProbeSocket _ p).1 (apart_closeTcpProbeServer s p)

theorem beside_await (h : ProbeHandler) : (s.await h).Beside s :=
  ⟨⟨rfl, rfl⟩, rfl, rfl, Nat.le_succ _⟩

theorem beside_sendNonce (entry : Nat) (ip : JsString) (port : Int) :
    (s.sendNonce entry ip port).Beside s := by
  unfold Prober.sendNonce
  split
  · exact beside_refl s
  · split <;> exact ⟨⟨rfl, rfl⟩, rfl, rfl, Nat.le_refl _⟩

theorem beside_handleProbeDirectGo (p : PeerId) (ip : JsString) (port : Int) (nonce : JsString) :
    (s.handleProbeDirectGo p ip port nonce).Beside s := by
  unfold Prober.handleProbeDirectGo
  split
  · exact beside_refl s
  · refine beside_trans (beside_await _ _) ?_
    exact beside_sendNonce _ _ ip port

theorem beside_finishDirectGo (id : Nat) (p : PeerId) (success : Bool) :
    (s.finishDirectGo id p success).Beside s :=
  beside_closeUdpProbeSocket { s with handlers := s.handlers.delete id } p

theorem beside_lookResolved (id : Nat) (p : PeerId) (entry : Nat) :
    (s.lookResolved id p entry).Beside s := by
  unfold Prober.lookResolved
  split
  · exact beside_finishDirectGo s id p true
  · exact ⟨⟨rfl, rfl⟩, rfl, rfl, Nat.le_refl _⟩

theorem beside_goStep (id : Nat) (timeUp : Bool) : (s.goStep id timeUp).Beside s := by
  unfold Prober.goStep
  split
  · dsimp only
    split
    · exact beside_sendNonce s _ _ _
    · exact beside_trans (beside_lookResolved _ id _ _) (beside_sendNonce s _ _ _)
  · split
    · exact beside_finishDirectGo s id _ false
    · exact beside_lookResolved s id _ _
  · exact beside_refl s

theorem beside_fetched (id : Nat) (ok : Bool) : (s.fetched id ok).Beside s := by
  unfold Prober.fetched
  split <;> exact ⟨⟨rfl, rfl⟩, rfl, rfl, Nat.le_refl _⟩

theorem beside_udpResume (id : Nat) : (s.udpResume id).Beside s := by
  unfold Prober.udpResume
  split
  · dsimp only
    split <;> exact ⟨⟨rfl, rfl⟩, rfl, rfl, Nat.le_refl _⟩
  · exact beside_refl s

end

/-- **The agent.**  An event of the probes is to the rest of the agent what `agentStep` says
of it: a message, a socket that could not be bound, or nothing. -/
theorem probeStep_agent (s : Prober) (e : ProbeEvent) :
    (probeStep s e).agent = run agentStep s.agent (e.agentEvents s) := by
  cases e with
  | receive now msg nonce bind =>
    cases msg with
    | probeRelayServe p => cases bind <;> rfl
    | probeRelayCheck p _ _ _ _ _ => rfl
    | probeDirectStart p => rfl
    | probeDirectGo p ip port peerNonce =>
      exact (beside_handleProbeDirectGo _ p ip port peerNonce).1.1
    | probeVerdict p _ => exact (apart_cleanUp _ p).1
    | negotiateAbort p _ => exact (apart_cleanUp _ p).1
    | forceMode p _ => exact (apart_cleanUp _ p).1
    | peerRemoved p => rfl
  | fetched id ok => exact (beside_fetched s id ok).1.1
  | udpBound id bind =>
    show (s.udpBound id bind).agent = _
    unfold Prober.udpBound ProbeEvent.agentEvents
    cases bind with
    | ok port =>
      dsimp only
      split <;> rfl
    | error text =>
      dsimp only
      split <;> rfl
  | udpResume id => exact (beside_udpResume s id).1.1
  | goStep id timeUp => exact (beside_goStep s id timeUp).1.1
  | datagram entry text => rfl
  | wsClose => rfl
  | awgApplied id => rfl
  | switchDone id => rfl
  | startPoll config => rfl
  | pollStep id ok draws => rfl
  | tick now => rfl

end Meshezia
