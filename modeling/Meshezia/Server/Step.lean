import Meshezia.Lib.Run
import Meshezia.Server.Negotiate

/-!
# The server as a state machine

`relay.ts`, `negotiate.ts`, `reaper.ts` and the database wired together as in
`index.ts`: `step` takes one event, `exec cfg db es` is the state after the events
`es` from the start of a process on database `db`.

A restart is an event too: the maps, the timers and the connections of the process
go, the database stays.
-/

namespace Meshezia

namespace ServerState

/-! ## `relay.ts` -/

def handleOpen (s : ServerState) (ws : Ws) : ServerState :=
  { s with connections := wsOpen s.connections ws }

/-- `wsHandler.close` with the disconnect callback of `index.ts`. -/
def handleClose (s : ServerState) (ws : Ws) : ServerState :=
  let s := { s with connections := wsClose s.connections ws }
  s.abortPeerNegotiations ws.peerId .wsReset

/-- `wsHandler.message` on a text frame with one of the agent message types. -/
def handleMessage (cfg : Config) (s : ServerState) (ws : Ws) (now : Int) (msg : AgentMsg) :
    ServerState :=
  let s := match msg.peer? with
    | some _ => s.note (.recv ws.peerId msg (s.negotiationMet ws.peerId msg))
    | none => s
  s.handleNegotiateMessage cfg ws.peerId now msg

/-! ## `reaper.ts` -/

def expiredPeers (db : Db) (now : Int) : List (PeerId × NetworkId) :=
  (db.peers.entries.filter fun e =>
    decide (e.2.ttlSeconds > 0) && decide (now - e.2.lastSeen > e.2.ttlSeconds * 1000)).map
      fun e => (e.1, e.2.networkId)

/-- The expired ids of each network, in the order of the query. -/
def byNetwork (expired : List (PeerId × NetworkId)) : OMap NetworkId (List PeerId) :=
  expired.foldl (fun m e => m.set e.2 ((m.get? e.2).getD [] ++ [e.1])) .empty

/-- The loop before the delete: abort negotiations and drop the health records. -/
def forgetPeer (s : ServerState) (e : PeerId × NetworkId) : ServerState :=
  (s.abortPeerNegotiations e.1 .peerRemoved).cleanupPeerHealth e.1

/-- Tell the remaining peers of a network which of its peers were deleted. -/
def notifyRemoved (s : ServerState) (e : NetworkId × List PeerId) : ServerState :=
  let remaining := (s.db.peers.entries.filter fun p => p.2.networkId = e.1).map Prod.fst
  e.2.foldl (fun s deletedId =>
    remaining.foldl (fun s peer => s.sendMsg none peer (.peerRemoved deletedId)) s) s

/-- `deleteFails`: the delete transaction throws. -/
def reap (s : ServerState) (now : Int) (deleteFails : Bool) : ServerState :=
  let expired := expiredPeers s.db now
  let s := expired.foldl forgetPeer s
  if deleteFails then s
  else
    let s := { s with db := expired.foldl (fun db e => db.deletePeer e.1) s.db }
    (byNetwork expired).entries.foldl notifyRemoved s

/-! ## `api.ts` -/

/-- `POST /api/links/force-mode` after its checks of token and body. -/
def postForceMode (cfg : Config) (s : ServerState) (peerA peerB : PeerId) (mode : ForceCommand) :
    ServerState :=
  match s.db.peers.get? peerA, s.db.peers.get? peerB with
  | some rowA, some rowB =>
    if rowA.networkId = rowB.networkId then s.handleForceMode cfg peerA peerB mode else s
  | _, _ => s

end ServerState

/-- The command is accepted: both peers exist, in one network. -/
def Db.sameNetwork (db : Db) (a b : PeerId) : Bool :=
  match db.peers.get? a, db.peers.get? b with
  | some rowA, some rowB => decide (rowA.networkId = rowB.networkId)
  | _, _ => false

theorem ServerState.postForceMode_eq (cfg : Config) (s : ServerState) (a b : PeerId)
    (mode : ForceCommand) : s.postForceMode cfg a b mode =
      if s.db.sameNetwork a b = true then s.handleForceMode cfg a b mode else s := by
  unfold postForceMode Db.sameNetwork
  split <;> simp

/-- The writes of the other endpoints. -/
inductive ApiWrite where
  | createNetwork (id : NetworkId) (row : NetworkRow)
  | setRelayEnabled (id : NetworkId) (enabled : Bool)
  | deleteNetwork (id : NetworkId)
  | registerPeer (id : PeerId) (row : PeerRow)
  | updatePeer (id : PeerId) (pubkey publicIp : Option JsString) (ttlSeconds : Option Int)
  | touchLastSeen (id : PeerId) (now : Int)
  | deletePeer (id : PeerId)
  | putPorts (fromPeerId : PeerId) (ports : List (PeerId × Int))
deriving DecidableEq, Repr

def ApiWrite.apply (db : Db) : ApiWrite → Db
  | .createNetwork id row => db.insertNetwork id row
  | .setRelayEnabled id enabled => db.setRelayEnabled id enabled
  | .deleteNetwork id => db.deleteNetwork id
  | .registerPeer id row => db.insertPeer id row
  | .updatePeer id pubkey publicIp ttlSeconds => db.updatePeer id fun r =>
      { r with pubkey := pubkey.getD r.pubkey
               publicIp := publicIp.getD r.publicIp
               ttlSeconds := ttlSeconds.getD r.ttlSeconds }
  | .touchLastSeen id now => db.updatePeer id fun r => { r with lastSeen := now }
  | .deletePeer id => db.deletePeer id
  | .putPorts fromPeerId ports => db.putPorts fromPeerId ports

inductive Event where
  | open (ws : Ws)
  | close (ws : Ws)
  | message (ws : Ws) (now : Int) (msg : AgentMsg)
  | timer (id : Nat)
  | sweep (now : Int)
  | reap (now : Int) (deleteFails : Bool)
  | forceMode (peerA peerB : PeerId) (mode : ForceCommand)
  | api (write : ApiWrite)
  | restart
deriving DecidableEq, Repr

open ServerState in
def step (cfg : Config) (s : ServerState) : Event → ServerState
  | .open ws => s.handleOpen ws
  | .close ws => s.handleClose ws
  | .message ws now msg => s.handleMessage cfg ws now msg
  | .timer id => s.fireTimer id
  | .sweep now => s.staleSweep cfg now
  | .reap now deleteFails => s.reap now deleteFails
  | .forceMode peerA peerB mode => s.postForceMode cfg peerA peerB mode
  | .api write => { s with db := write.apply s.db }
  | .restart => { s with connections := .empty, pairHealthMap := .empty,
                         activeNegotiations := .empty, timers := .empty }

/-- The state after the events `es`, from the start of a process on `db`. -/
def exec (cfg : Config) (db : Db) (es : List Event) : ServerState :=
  run (step cfg) (ServerState.init db) es

theorem exec_concat (cfg : Config) (db : Db) (es : List Event) (e : Event) :
    exec cfg db (es ++ [e]) = step cfg (exec cfg db es) e := run_concat (step cfg) _ es e

/-! ## Peer ids -/

/-- The ids under which sockets are opened and pairs are forced are colon-free.  What an
agent names as its counterpart in a message is any string. -/
def Event.idsOk : Event → Prop
  | .open ws => ColonFree ws.peerId
  | .close ws => ColonFree ws.peerId
  | .message ws _ _ => ColonFree ws.peerId
  | .forceMode a b _ => ColonFree a ∧ ColonFree b
  | _ => True

instance : (e : Event) → Decidable e.idsOk
  | .open ws => inferInstanceAs (Decidable (ColonFree ws.peerId))
  | .close ws => inferInstanceAs (Decidable (ColonFree ws.peerId))
  | .message ws _ _ => inferInstanceAs (Decidable (ColonFree ws.peerId))
  | .forceMode a b _ => inferInstanceAs (Decidable (ColonFree a ∧ ColonFree b))
  | .timer _ => .isTrue trivial
  | .sweep _ => .isTrue trivial
  | .reap _ _ => .isTrue trivial
  | .api _ => .isTrue trivial
  | .restart => .isTrue trivial

def IdsOk (es : List Event) : Prop := ∀ e ∈ es, e.idsOk

instance (es : List Event) : Decidable (IdsOk es) :=
  inferInstanceAs (Decidable (∀ e ∈ es, e.idsOk))

theorem IdsOk.of_concat {es : List Event} {e : Event} (h : IdsOk (es ++ [e])) :
    IdsOk es ∧ e.idsOk :=
  ⟨fun e' he => h e' (by simp [he]), h e (by simp)⟩

/-- The ids of a run are fine at each of its steps. -/
theorem along_idsOk {cfg : Config} {s : ServerState} {es : List Event} (hids : IdsOk es) :
    Along (step cfg) (fun _ e => e.idsOk) s es := by
  induction es generalizing s with
  | nil => trivial
  | cons e rest ih =>
    exact ⟨hids e (by simp), ih fun e' he => hids e' (List.mem_cons_of_mem _ he)⟩

/-! ## Sample runs -/

def peerOne : PeerId := [97]
def peerTwo : PeerId := [98]
def wsOne : Ws := ⟨1, peerOne⟩
def wsTwo : Ws := ⟨2, peerTwo⟩

/-- A network of two peers, without links yet. -/
def twoPeers : Db :=
  let row : PeerRow := { networkId := [110], publicIp := [] }
  { Db.empty with
    networks := OMap.empty.set [110] {}
    peers := (OMap.empty.set peerOne row).set peerTwo row }

/-- Both peers report on each other. -/
def bothReport (now : Int) (mode : Mode) (rxAlive : Bool) : List Event :=
  [.message wsOne now (.healthReport [{ peerId := peerTwo, mode, rxAlive }]),
   .message wsTwo now (.healthReport [{ peerId := peerOne, mode, rxAlive }])]

/-- Both peers connect and lose their direct path: a relay probe starts. -/
def relayProbeRun : List Event :=
  [.open wsOne, .open wsTwo] ++ bothReport 1000 .direct true ++ bothReport 20000 .direct false ++
    bothReport 22000 .direct false ++ bothReport 24000 .direct false

/-- Both peers connect and report relay mode: a sweep starts a direct probe. -/
def directProbeRun : List Event :=
  [.open wsOne, .open wsTwo] ++ bothReport 1000 .relay true ++ [.sweep 60000]

end Meshezia
