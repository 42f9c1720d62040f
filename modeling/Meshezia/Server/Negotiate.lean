import Meshezia.Server.PairKey
import Meshezia.Server.Relay

/-!
# The negotiator (`negotiate.ts`): state and handlers

One definition per function of the source, over a state that is passed along.  A
handler runs to completion, so every `Date.now()` of it reads the clock value `now`
of its event.

The objects of the source have identities: a negotiation `nid`, a health record
`hid`, a timer id.  A timer keeps what its callback closes over; a write through a
closed-over health record (`HealthRef`) is seen only while that record is the one in
the map.

`trace` is the history, newest first: what the server sends and for which
negotiation, the probe messages it receives and the negotiation they meet, each
health report entry, each probe started with the backoff its health record then had.
No handler reads it.
-/

namespace Meshezia

/-! ## Messages -/

inductive VerdictAction where
  | switchRelay
  | switchDirect
  | stay
deriving DecidableEq, Repr

inductive AbortReason where
  | adminForce
  | timeout
  | wsReset
  | peerRemoved
deriving DecidableEq, Repr

/-- `'force-direct' | 'force-relay' | 'auto'`. -/
inductive ForceCommand where
  | force (mode : ForcedMode)
  | auto
deriving DecidableEq, Repr

/-- The value a force-mode command writes to `forced_mode`. -/
def ForceCommand.column : ForceCommand → Option ForcedMode
  | .auto => none
  | .force mode => some mode

structure HealthReport where
  peerId : PeerId
  mode : Mode
  rxAlive : Bool
  relayAlive : Bool := true
  probingDirect : Bool := false
  rxBytes : Int := 0
  txBytes : Int := 0
  lastHandshake : Int := 0
  endpoint : JsString := []
  ifName : Option JsString := none
  routingTable : Option Int := none
deriving DecidableEq, Repr

/-- Agent → server. -/
inductive AgentMsg where
  | healthReport (reports : List HealthReport)
  | probeRelayReady (peer : PeerId) (meshIpv4 : JsString) (tcpPort : Int) (nonce : JsString)
  | probeRelayResult (peer : PeerId) (success : Bool)
  | probeDirectReady (peer : PeerId) (udpPort : Int) (nonce : JsString)
  | probeDirectResult (peer : PeerId) (success : Bool)
  | probeError (peer : PeerId) (error : JsString)
deriving DecidableEq, Repr

/-- The field `with` of a probe message. -/
def AgentMsg.peer? : AgentMsg → Option PeerId
  | .healthReport _ => none
  | .probeRelayReady p _ _ _ => some p
  | .probeRelayResult p _ => some p
  | .probeDirectReady p _ _ => some p
  | .probeDirectResult p _ => some p
  | .probeError p _ => some p

/-- Server → agent. -/
inductive ServerMsg where
  | probeRelayServe (peer : PeerId)
  | probeRelayCheck (peer : PeerId) (meshIpv4 : JsString) (tcpPort : Int) (nonce : JsString)
      (clientPubkey serverPubkey : JsString)
  | probeDirectStart (peer : PeerId)
  | probeDirectGo (peer : PeerId) (peerIpv4 : JsString) (peerUdpPort : Int) (peerNonce : JsString)
  | probeVerdict (peer : PeerId) (action : VerdictAction)
  | negotiateAbort (peer : PeerId) (reason : AbortReason)
  | forceMode (peer : PeerId) (mode : ForceCommand)
  | peerRemoved (peerId : PeerId)
deriving DecidableEq, Repr

/-- The mode a force command asks for. -/
def ForcedMode.mode : ForcedMode → Mode
  | .forceRelay => .relay
  | .forceDirect => .direct

/-- The peer and the mode of a switch verdict or a force command. -/
def ServerMsg.switch? : ServerMsg → Option (PeerId × Mode)
  | .probeVerdict peer .switchRelay => some (peer, .relay)
  | .probeVerdict peer .switchDirect => some (peer, .direct)
  | .forceMode peer (.force m) => some (peer, m.mode)
  | _ => none

/-! ## State -/

structure PairHealth where
  hid : Nat
  streakAB : Nat := 0
  streakBA : Nat := 0
  lastDirectProbeAt : Int := 0
  directProbeBackoff : Int
  forcedMode : Option ForcedMode := none
  joinedAtA : Option Int := none
  joinedAtB : Option Int := none
deriving DecidableEq, Repr

inductive NegotiationType where
  | relayProbe
  | directProbe
deriving DecidableEq, Repr

structure DirectReady where
  udpPort : Int
  nonce : JsString
deriving DecidableEq, Repr

structure NegotiationState where
  nid : Nat
  type : NegotiationType
  pairKey : PairKey
  peerA : PeerId
  peerB : PeerId
  startedAt : Int
  timeoutId : Option Nat := none
  serverNode : Option PeerId := none
  clientNode : Option PeerId := none
  readyA : Option DirectReady := none
  readyB : Option DirectReady := none
  resultA : Option Bool := none
  resultB : Option Bool := none
deriving DecidableEq, Repr

/-- A reference to a health record: the key it was read under and its identity. -/
structure HealthRef where
  key : PairKey
  hid : Nat
deriving DecidableEq, Repr

/-- The callback of a `setTimeout` with the variables it closes over. -/
inductive TimerCallback where
  | relayProbeTimeout (key : PairKey)
  | directReadyTimeout (key : PairKey) (peerA peerB : PeerId) (health : HealthRef)
  | directResultTimeout (key : PairKey) (peerA peerB : PeerId)
deriving DecidableEq, Repr

/-- The pair key a callback looks its negotiation up by. -/
def TimerCallback.key : TimerCallback → PairKey
  | .relayProbeTimeout k => k
  | .directReadyTimeout k _ _ _ => k
  | .directResultTimeout k _ _ => k

/-- An armed timer; `owner` is the negotiation it was armed for. -/
structure Timer where
  owner : Nat
  callback : TimerCallback
  delay : Int
deriving DecidableEq, Repr

inductive TraceItem where
  | entry (fromPeerId toPeerId : PeerId) (now : Int) (mode : Mode) (rxAlive : Bool)
  | recv (fromPeerId : PeerId) (msg : AgentMsg) (neg : Option Nat)
  | sent (dest : PeerId) (ws : Ws) (msg : ServerMsg) (neg : Option Nat)
  | started (key : PairKey) (neg : Nat) (type : NegotiationType) (now backoff : Int)
  | healthCreated (key : PairKey)
  | relayResult (key : PairKey)
  | forced (key : PairKey) (mode : ForceCommand)
deriving DecidableEq, Repr

structure ServerState where
  db : Db
  connections : Connections
  pairHealthMap : OMap PairKey PairHealth
  activeNegotiations : OMap PairKey NegotiationState
  timers : OMap Nat Timer
  nextRef : Nat
  trace : List TraceItem

def ServerState.init (db : Db) : ServerState := ⟨db, .empty, .empty, .empty, .empty, 0, []⟩

/-- `GRACE_PERIOD_MS` and `DIRECT_PROBE_INTERVAL_MS` of the environment, and the query plan. -/
structure Config where
  gracePeriodMs : Int := 15000
  directProbeBackoffInitMs : Int := 30000
  plan : QueryPlan := .tableOrder

def STREAK_THRESHOLD : Nat := 3
def RELAY_PROBE_TIMEOUT_MS : Int := 15000
def DIRECT_READY_TIMEOUT_MS : Int := 10000
def DIRECT_RESULT_TIMEOUT_MS : Int := 10000
def DIRECT_PROBE_BACKOFF_MAX_MS : Int := 240000
def STALE_NEGOTIATION_MS : Int := 30000

/-! ## Helpers -/

/-- The doubled backoff. -/
def PairHealth.backOff (h : PairHealth) : PairHealth :=
  { h with directProbeBackoff := min (h.directProbeBackoff * 2) DIRECT_PROBE_BACKOFF_MAX_MS }

namespace ServerState

def note (s : ServerState) (item : TraceItem) : ServerState := { s with trace := item :: s.trace }

/-- `sendText(peerId, JSON.stringify(msg))` on behalf of negotiation `neg`. -/
def sendMsg (s : ServerState) (neg : Option Nat) (peerId : PeerId) (msg : ServerMsg) :
    ServerState :=
  match sendTextToPeer s.connections peerId with
  | some ws => s.note (.sent peerId ws msg neg)
  | none => s

def isConnected (s : ServerState) (peerId : PeerId) : Bool := isPeerConnected s.connections peerId

/-- Write the fields of a health record that is in the map. -/
def putHealth (s : ServerState) (key : PairKey) (h : PairHealth) : ServerState :=
  { s with pairHealthMap := s.pairHealthMap.set key h }

def getOrCreateHealth (cfg : Config) (s : ServerState) (key : PairKey) :
    PairHealth × ServerState :=
  match s.pairHealthMap.get? key with
  | some h => (h, s)
  | none =>
    let h : PairHealth :=
      { hid := s.nextRef, directProbeBackoff := cfg.directProbeBackoffInitMs }
    (h, { s with
      pairHealthMap := s.pairHealthMap.set key h
      nextRef := s.nextRef + 1
      trace := .healthCreated key :: s.trace })

/-- A write through a closed-over record. -/
def updateHealthRef (s : ServerState) (r : HealthRef) (f : PairHealth → PairHealth) :
    ServerState :=
  match s.pairHealthMap.get? r.key with
  | some h => if h.hid = r.hid then s.putHealth r.key (f h) else s
  | none => s

/-- `const health = pairHealthMap.get(key); if (health) …`. -/
def updateHealth (s : ServerState) (key : PairKey) (f : PairHealth → PairHealth) : ServerState :=
  match s.pairHealthMap.get? key with
  | some h => s.putHealth key (f h)
  | none => s

def lookupPeer (s : ServerState) (peerId : PeerId) : Option PeerRow := s.db.peers.get? peerId

def isRelayEnabledForNetwork (s : ServerState) (networkId : NetworkId) : Bool :=
  match s.db.networks.get? networkId with
  | some row => row.relayEnabled != 0
  | none => false

/-- The relay check of both probe starters: the peer exists and its network has relay on. -/
def relayEnabledFor (s : ServerState) (peerId : PeerId) : Bool :=
  match s.lookupPeer peerId with
  | some peer => s.isRelayEnabledForNetwork peer.networkId
  | none => false

/-! ## Timers -/

/-- `neg.timeoutId = setTimeout(callback, delay)`. -/
def armTimeout (s : ServerState) (key : PairKey) (neg : NegotiationState)
    (callback : TimerCallback) (delay : Int) : ServerState :=
  { s with
    timers := s.timers.set s.nextRef { owner := neg.nid, callback, delay }
    activeNegotiations := s.activeNegotiations.set key { neg with timeoutId := some s.nextRef }
    nextRef := s.nextRef + 1 }

/-- `if (timeoutId) clearTimeout(timeoutId)`. -/
def clearTimeout (s : ServerState) (timeoutId : Option Nat) : ServerState :=
  match timeoutId with
  | some id => { s with timers := s.timers.delete id }
  | none => s

/-! ## Negotiation lifecycle -/

def finishNegotiation (s : ServerState) (key : PairKey) : ServerState :=
  match s.activeNegotiations.get? key with
  | none => s
  | some neg =>
    let s := s.clearTimeout neg.timeoutId
    { s with activeNegotiations := s.activeNegotiations.delete key }

/-- `if (isConnected(peerId)) sendMsg(peerId, msg)`. -/
def sendIfConnected (s : ServerState) (neg : Option Nat) (peerId : PeerId) (msg : ServerMsg) :
    ServerState :=
  if s.isConnected peerId then s.sendMsg neg peerId msg else s

def abortNegotiation (s : ServerState) (key : PairKey) (reason : AbortReason) : ServerState :=
  match s.activeNegotiations.get? key with
  | none => s
  | some neg =>
    let s := s.sendIfConnected (some neg.nid) neg.peerA (.negotiateAbort neg.peerB reason)
    let s := s.sendIfConnected (some neg.nid) neg.peerB (.negotiateAbort neg.peerA reason)
    s.finishNegotiation key

/-- The body of the loop of `abortPeerNegotiations`. -/
def abortPeerEntry (peerId : PeerId) (reason : AbortReason) (s : ServerState)
    (e : PairKey × NegotiationState) : ServerState :=
  let (key, neg) := e
  if neg.peerA = peerId ∨ neg.peerB = peerId then
    let otherPeer := if neg.peerA = peerId then neg.peerB else neg.peerA
    let s := s.sendIfConnected (some neg.nid) otherPeer (.negotiateAbort peerId reason)
    s.finishNegotiation key
  else s

def abortPeerNegotiations (s : ServerState) (peerId : PeerId) (reason : AbortReason) :
    ServerState :=
  s.activeNegotiations.entries.foldl (abortPeerEntry peerId reason) s

def cleanupPeerHealth (s : ServerState) (peerId : PeerId) : ServerState :=
  { s with pairHealthMap := s.pairHealthMap.filter fun key _ =>
      let (a, b) := parsePairKey key
      !(decide (a = peerId) || decide (b = peerId)) }

/-- The two verdict messages of a negotiation. -/
def sendVerdict (s : ServerState) (neg : NegotiationState) (action : VerdictAction) :
    ServerState :=
  let s := s.sendMsg (some neg.nid) neg.peerA (.probeVerdict neg.peerB action)
  s.sendMsg (some neg.nid) neg.peerB (.probeVerdict neg.peerA action)

/-! ## Direct → relay: TCP probe -/

def initiateRelayProbe (s : ServerState) (key : PairKey) (health : PairHealth) (now : Int) :
    ServerState :=
  let (peerA, peerB) := parsePairKey key
  let serverNode := if health.streakAB ≥ health.streakBA then peerA else peerB
  let clientNode := if serverNode = peerA then peerB else peerA
  let neg : NegotiationState :=
    { nid := s.nextRef, type := .relayProbe, pairKey := key, peerA, peerB, startedAt := now,
      serverNode := some serverNode, clientNode := some clientNode }
  let s := { s with
    activeNegotiations := s.activeNegotiations.set key neg
    nextRef := s.nextRef + 1
    trace := .started key neg.nid .relayProbe now health.directProbeBackoff :: s.trace }
  let s := s.armTimeout key neg (.relayProbeTimeout key) RELAY_PROBE_TIMEOUT_MS
  s.sendMsg (some neg.nid) serverNode (.probeRelayServe clientNode)

def getForcedModeFromDb (cfg : Config) (s : ServerState) (peerA peerB : PeerId) :
    Option ForcedMode :=
  match cfg.plan.limitOne peerA peerB (s.db.linksBetween peerA peerB) with
  | some row => row.forcedMode
  | none => none

/-- The answer, and the state with the cached forced mode brought in line with the row read. -/
def shouldInitiateRelayProbe (cfg : Config) (s : ServerState) (peerA peerB : PeerId)
    (key : PairKey) (health : PairHealth) : Bool × ServerState :=
  if s.activeNegotiations.has key then (false, s)
  else
    let forced := match health.forcedMode with
      | some m => some m
      | none => getForcedModeFromDb cfg s peerA peerB
    match forced with
    | some m =>
      if health.forcedMode ≠ some m then
        (false, s.putHealth key { health with forcedMode := some m })
      else (false, s)
    | none =>
      if !s.isConnected peerA || !s.isConnected peerB then (false, s)
      else if !s.relayEnabledFor peerA then (false, s)
      else (true, s)

def handleProbeRelayReady (s : ServerState) (fromPeerId : PeerId) (peer : PeerId)
    (meshIpv4 : JsString) (tcpPort : Int) (nonce : JsString) : ServerState :=
  let key := pairKey fromPeerId peer
  match s.activeNegotiations.get? key with
  | none => s
  | some neg =>
    if neg.type ≠ .relayProbe then s
    else if some fromPeerId ≠ neg.serverNode then s
    else
      let clientNode := neg.clientNode.getD []
      let serverNode := neg.serverNode.getD []
      match s.lookupPeer clientNode, s.lookupPeer serverNode with
      | some clientInfo, some serverInfo =>
        s.sendMsg (some neg.nid) clientNode (.probeRelayCheck serverNode meshIpv4 tcpPort nonce
          clientInfo.pubkey serverInfo.pubkey)
      | _, _ => s.abortNegotiation key .timeout

def handleProbeRelayResult (s : ServerState) (fromPeerId : PeerId) (peer : PeerId)
    (success : Bool) : ServerState :=
  let key := pairKey fromPeerId peer
  match s.activeNegotiations.get? key with
  | none => s
  | some neg =>
    if neg.type ≠ .relayProbe then s
    else if some fromPeerId ≠ neg.clientNode then s
    else
      let action := if success then .switchRelay else .stay
      let s := s.sendVerdict neg action
      let s := s.finishNegotiation key
      let s := s.note (.relayResult key)
      s.updateHealth key fun h => { h with streakAB := 0, streakBA := 0 }

/-! ## Health reports -/

/-- `joinedAtA` or `joinedAtB` is set by the first entry of its side. -/
def recordJoin (h : PairHealth) (isFromA : Bool) (now : Int) : PairHealth :=
  if isFromA && h.joinedAtA = none then { h with joinedAtA := some now }
  else if !isFromA && h.joinedAtB = none then { h with joinedAtB := some now }
  else h

/-- `joinedAt && now - joinedAt < GRACE_PERIOD_MS`. -/
def inGracePeriod (cfg : Config) (h : PairHealth) (isFromA : Bool) (now : Int) : Bool :=
  match (if isFromA then h.joinedAtA else h.joinedAtB) with
  | some joinedAt => decide (joinedAt ≠ 0) && decide (now - joinedAt < cfg.gracePeriodMs)
  | none => false

def updateStreak (h : PairHealth) (isFromA rxAlive : Bool) : PairHealth :=
  if rxAlive then
    if isFromA then { h with streakAB := 0 } else { h with streakBA := 0 }
  else
    if isFromA then { h with streakAB := h.streakAB + 1 } else { h with streakBA := h.streakBA + 1 }

/-- The part of the loop body after the streaks: start a relay probe when both are long enough. -/
def checkStreaks (cfg : Config) (s : ServerState) (fromPeerId peerId : PeerId) (key : PairKey)
    (health : PairHealth) (now : Int) : ServerState :=
  if health.streakAB ≥ STREAK_THRESHOLD ∧ health.streakBA ≥ STREAK_THRESHOLD then
    let (start, s) := shouldInitiateRelayProbe cfg s fromPeerId peerId key health
    if start then s.initiateRelayProbe key health now else s
  else s

/-- The body of the loop of `handleHealthReport`. -/
def handleReportEntry (cfg : Config) (fromPeerId : PeerId) (now : Int) (s : ServerState)
    (report : HealthReport) : ServerState :=
  let key := pairKey fromPeerId report.peerId
  let (health, s) := getOrCreateHealth cfg s key
  let s := s.note (.entry fromPeerId report.peerId now report.mode report.rxAlive)
  let isFromA := decide (fromPeerId = (parsePairKey key).1)
  let health := recordJoin health isFromA now
  let s := s.putHealth key health
  if inGracePeriod cfg health isFromA now then s
  else if report.mode = .relay then s
  else
    let health := updateStreak health isFromA report.rxAlive
    let s := s.putHealth key health
    checkStreaks cfg s fromPeerId report.peerId key health now

/-- The row an entry of a health report is stored as. -/
def linkRowOf (report : HealthReport) (now : Int) : LinkRow where
  mode := report.mode
  directAlive := if report.rxAlive then 1 else 0
  relayAlive := if report.relayAlive then 1 else 0
  probingDirect := if report.probingDirect then 1 else 0
  rxBytes := report.rxBytes
  txBytes := report.txBytes
  lastHandshake := report.lastHandshake
  endpoint := report.endpoint
  ifName := report.ifName.getD []
  routingTable := report.routingTable.getD 0
  updatedAt := now

/-- The transaction of `handleHealthReport`: all entries or, when one fails, none. -/
def upsertReports (db : Db) (fromPeerId : PeerId) (reports : List HealthReport) (now : Int) : Db :=
  (reports.foldlM (fun (db : Db) r => db.upsertLink fromPeerId r.peerId (linkRowOf r now)) db).getD db

def handleHealthReport (cfg : Config) (s : ServerState) (fromPeerId : PeerId)
    (reports : List HealthReport) (now : Int) : ServerState :=
  let s := { s with db := upsertReports s.db fromPeerId reports now }
  reports.foldl (handleReportEntry cfg fromPeerId now) s

/-! ## Relay → direct: UDP probe -/

def initiateDirectProbe (s : ServerState) (key : PairKey) (health : PairHealth) (now : Int) :
    ServerState :=
  let (peerA, peerB) := parsePairKey key
  let s := s.putHealth key { health with lastDirectProbeAt := now }
  let neg : NegotiationState :=
    { nid := s.nextRef, type := .directProbe, pairKey := key, peerA, peerB, startedAt := now }
  let s := { s with
    activeNegotiations := s.activeNegotiations.set key neg
    nextRef := s.nextRef + 1
    trace := .started key neg.nid .directProbe now health.directProbeBackoff :: s.trace }
  let s := s.armTimeout key neg (.directReadyTimeout key peerA peerB ⟨key, health.hid⟩)
    DIRECT_READY_TIMEOUT_MS
  let s := s.sendMsg (some neg.nid) peerA (.probeDirectStart peerB)
  s.sendMsg (some neg.nid) peerB (.probeDirectStart peerA)

/-- The body of the loop of `checkDirectProbes`. -/
def checkDirectProbe (now : Int) (s : ServerState) (row : PeerId × PeerId) : ServerState :=
  let key := pairKey row.1 row.2
  match s.pairHealthMap.get? key with
  | none => s
  | some health =>
    if s.activeNegotiations.has key then s
    else if !s.isConnected row.1 || !s.isConnected row.2 then s
    else if now - health.lastDirectProbeAt < health.directProbeBackoff then s
    else if !s.relayEnabledFor row.1 then s
    else s.initiateDirectProbe key health now

def checkDirectProbes (cfg : Config) (s : ServerState) (now : Int) : ServerState :=
  (cfg.plan.rowOrder s.db.relayPairs).foldl (checkDirectProbe now) s

/-- The part of `handleProbeDirectReady` that runs once both sides are ready. -/
def sendDirectGo (s : ServerState) (key : PairKey) (neg : NegotiationState)
    (readyA readyB : DirectReady) : ServerState :=
  let s := s.clearTimeout neg.timeoutId
  match s.lookupPeer neg.peerA, s.lookupPeer neg.peerB with
  | some infoA, some infoB =>
    let s := s.sendMsg (some neg.nid) neg.peerA
      (.probeDirectGo neg.peerB infoB.publicIp readyB.udpPort readyB.nonce)
    let s := s.sendMsg (some neg.nid) neg.peerB
      (.probeDirectGo neg.peerA infoA.publicIp readyA.udpPort readyA.nonce)
    s.armTimeout key neg (.directResultTimeout key neg.peerA neg.peerB) DIRECT_RESULT_TIMEOUT_MS
  | _, _ => s.abortNegotiation key .timeout

def handleProbeDirectReady (s : ServerState) (fromPeerId : PeerId) (peer : PeerId) (udpPort : Int)
    (nonce : JsString) : ServerState :=
  let key := pairKey fromPeerId peer
  match s.activeNegotiations.get? key with
  | none => s
  | some neg =>
    if neg.type ≠ .directProbe then s
    else
      let ready : DirectReady := { udpPort, nonce }
      let neg := if fromPeerId = (parsePairKey key).1 then { neg with readyA := some ready }
        else { neg with readyB := some ready }
      let s := { s with activeNegotiations := s.activeNegotiations.set key neg }
      match neg.readyA, neg.readyB with
      | some readyA, some readyB => s.sendDirectGo key neg readyA readyB
      | _, _ => s

def handleProbeDirectResult (cfg : Config) (s : ServerState) (fromPeerId : PeerId) (peer : PeerId)
    (success : Bool) : ServerState :=
  let key := pairKey fromPeerId peer
  match s.activeNegotiations.get? key with
  | none => s
  | some neg =>
    if neg.type ≠ .directProbe then s
    else
      let neg := if fromPeerId = (parsePairKey key).1 then { neg with resultA := some success }
        else { neg with resultB := some success }
      let s := { s with activeNegotiations := s.activeNegotiations.set key neg }
      match neg.resultA, neg.resultB with
      | some resultA, some resultB =>
        let bothSuccess := resultA && resultB
        let action := if bothSuccess then .switchDirect else .stay
        let s := s.sendVerdict neg action
        let s := s.finishNegotiation key
        s.updateHealth key fun h =>
          if bothSuccess then { h with directProbeBackoff := cfg.directProbeBackoffInitMs }
          else h.backOff
      | _, _ => s

/-! ## Probe errors and admin force mode -/

def handleProbeError (s : ServerState) (fromPeerId : PeerId) (peer : PeerId) : ServerState :=
  let key := pairKey fromPeerId peer
  match s.activeNegotiations.get? key with
  | none => s
  | some neg =>
    let s := if neg.type = .directProbe then s.updateHealth key PairHealth.backOff else s
    s.abortNegotiation key .timeout

/-- The first part of `handleForceMode`: abort the active negotiation of the pair. -/
def abortForForce (s : ServerState) (key : PairKey) : ServerState :=
  match s.activeNegotiations.get? key with
  | none => s
  | some neg =>
    let s := s.sendMsg (some neg.nid) neg.peerA (.negotiateAbort neg.peerB .adminForce)
    let s := s.sendMsg (some neg.nid) neg.peerB (.negotiateAbort neg.peerA .adminForce)
    s.finishNegotiation key

/-- The health record after a force-mode command. -/
def forceHealth (cfg : Config) (h : PairHealth) : ForceCommand → PairHealth
  | .auto =>
    { h with forcedMode := none, streakAB := 0, streakBA := 0,
             directProbeBackoff := cfg.directProbeBackoffInitMs }
  | .force mode => { h with forcedMode := some mode, streakAB := 0, streakBA := 0 }

def handleForceMode (cfg : Config) (s : ServerState) (peerA peerB : PeerId) (mode : ForceCommand) :
    ServerState :=
  let key := pairKey peerA peerB
  let s := s.abortForForce key
  let (health, s) := getOrCreateHealth cfg s key
  let s := { s with db := s.db.setForcedMode peerA peerB mode.column }
  let s := s.putHealth key (forceHealth cfg health mode)
  let s := s.note (.forced key mode)
  let s := s.sendMsg none peerA (.forceMode peerB mode)
  s.sendMsg none peerB (.forceMode peerA mode)

/-! ## Timers firing, the message router, the stale sweep -/

def runCallback (s : ServerState) (owner : Nat) : TimerCallback → ServerState
  | .relayProbeTimeout key => s.abortNegotiation key .timeout
  | .directReadyTimeout key peerA peerB health =>
    let s := s.sendIfConnected (some owner) peerA (.probeVerdict peerB .stay)
    let s := s.sendIfConnected (some owner) peerB (.probeVerdict peerA .stay)
    let s := s.finishNegotiation key
    s.updateHealthRef health PairHealth.backOff
  | .directResultTimeout key peerA peerB =>
    let s := s.sendMsg (some owner) peerA (.probeVerdict peerB .stay)
    let s := s.sendMsg (some owner) peerB (.probeVerdict peerA .stay)
    let s := s.finishNegotiation key
    s.updateHealth key PairHealth.backOff

/-- A timer fires once, and only while it is armed. -/
def fireTimer (s : ServerState) (id : Nat) : ServerState :=
  match s.timers.get? id with
  | none => s
  | some t => runCallback { s with timers := s.timers.delete id } t.owner t.callback

def handleNegotiateMessage (cfg : Config) (s : ServerState) (fromPeerId : PeerId) (now : Int)
    (msg : AgentMsg) : ServerState :=
  match msg with
  | .healthReport reports => s.handleHealthReport cfg fromPeerId reports now
  | .probeRelayReady peer meshIpv4 tcpPort nonce =>
    s.handleProbeRelayReady fromPeerId peer meshIpv4 tcpPort nonce
  | .probeRelayResult peer success => s.handleProbeRelayResult fromPeerId peer success
  | .probeDirectReady peer udpPort nonce => s.handleProbeDirectReady fromPeerId peer udpPort nonce
  | .probeDirectResult peer success => s.handleProbeDirectResult cfg fromPeerId peer success
  | .probeError peer _ => s.handleProbeError fromPeerId peer

/-- The negotiation a probe message meets. -/
def negotiationMet (s : ServerState) (fromPeerId : PeerId) (msg : AgentMsg) : Option Nat :=
  match msg.peer? with
  | some peer => (s.activeNegotiations.get? (pairKey fromPeerId peer)).map NegotiationState.nid
  | none => none

/-- The body of the loop of the stale sweep. -/
def abortIfStale (now : Int) (s : ServerState) (e : PairKey × NegotiationState) : ServerState :=
  if now - e.2.startedAt > STALE_NEGOTIATION_MS then s.abortNegotiation e.1 .timeout else s

def staleSweep (cfg : Config) (s : ServerState) (now : Int) : ServerState :=
  let s := s.activeNegotiations.entries.foldl (abortIfStale now) s
  s.checkDirectProbes cfg now

end ServerState

end Meshezia
