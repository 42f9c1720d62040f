import Mathlib.Logic.Function.Basic
import Meshezia.Lib.JsValue
import Meshezia.Agent.Evidence
import Meshezia.Server.Vouched
import Meshezia.System.Step

/-!
# The probes of a mesh

The server, the agents with their probes, and what goes between them: the messages of the
WebSockets, the requests of relay probes, which go to the TCP probe servers of agents, and the
datagrams of direct probes.

The network may do anything to what is sent but make it up: a message, a datagram or a request
may be lost or late, messages and datagrams may come more than once, and a request or a
datagram may get to another agent than the one it was meant for, or to another socket.  Agents
and the server restart at any time; what an agent has sent before is still on its way then.

`history` is what has happened (`ProbeHistory`): the nonces drawn, the requests that were
answered with 200, and the datagrams that have come to an open socket.
-/

namespace Meshezia

/-! ## The request of a relay probe -/

/-- What `handleProbeRelayCheck` posts, and where. -/
structure ProbePost where
  peerId : PeerId
  meshIpv4 : JsString
  tcpPort : Int
  clientPubkey : JsString
  serverPubkey : JsString
  nonce : JsString
deriving DecidableEq, Repr

def ProbePost.body (post : ProbePost) : Json :=
  .obj [(js "clientPubkey", .str post.clientPubkey), (js "serverPubkey", .str post.serverPubkey),
    (js "nonce", .str post.nonce)]

/-- `v === s`. -/
def Json.isText (v : Option Json) (s : JsString) : Bool :=
  match v with
  | some (.str t) => decide (t = s)
  | _ => false

/-- The status that the `fetch` of a TCP probe server answers with; `none` is a body that is
not JSON. -/
def TcpServer.fetch (server : TcpServer) (selfPubkey method pathname : JsString)
    (body : Option Json) : Nat :=
  if method = js "POST" ∧ pathname = js "/probe" then
    match body with
    | none => 400
    | some .null => 400
    | some body =>
      if Json.isText (body.get? (js "nonce")) server.nonce &&
          Json.isText (body.get? (js "serverPubkey")) selfPubkey &&
          (body.get? (js "clientPubkey")).any Json.truthy then 200
      else 403
  else 404

/-- What it answers to a probe. -/
def TcpServer.answer (server : TcpServer) (selfPubkey : JsString) (post : ProbePost) : Nat :=
  server.fetch selfPubkey (js "POST") (js "/probe") (some post.body)

/-- `res.ok`. -/
def isOk (status : Nat) : Bool := 200 ≤ status && status < 300

/-- **A probe succeeds** for the nonce of the server and the key of its agent, and a client
that has a key. -/
theorem answer_ok_iff (server : TcpServer) (selfPubkey : JsString) (post : ProbePost) :
    isOk (server.answer selfPubkey post) = true ↔
      post.nonce = server.nonce ∧ post.serverPubkey = selfPubkey ∧ post.clientPubkey ≠ [] := by
  have hnonce : post.body.get? (js "nonce") = some (.str post.nonce) := rfl
  have hserver : post.body.get? (js "serverPubkey") = some (.str post.serverPubkey) := rfl
  have hclient : post.body.get? (js "clientPubkey") = some (.str post.clientPubkey) := rfl
  have hstatus : server.answer selfPubkey post =
      if post.nonce = server.nonce ∧ post.serverPubkey = selfPubkey ∧ post.clientPubkey ≠ [] then
        200
      else 403 := by
    unfold TcpServer.answer TcpServer.fetch
    rw [if_pos ⟨rfl, rfl⟩]
    show (if _ then 200 else 403) = _
    refine if_congr ?_ rfl rfl
    rw [hnonce, hserver, hclient]
    simp [Json.isText, Json.truthy, and_assoc]
  rw [hstatus]
  split
  · rename_i h
    exact ⟨fun _ => h, fun _ => rfl⟩
  · rename_i h
    constructor
    · intro hok
      cases hok
    · intro hpost
      exact absurd hpost h

/-! ## State -/

/-- `agent` has drawn `nonce` for a probe with `peer`. -/
structure DrawnNonce where
  agent : PeerId
  peer : PeerId
  nonce : JsString
deriving DecidableEq, Repr

/-- A request of `client` that `server`, which runs on `answerer`, has answered with 200. -/
structure ProbeAnswer where
  client : PeerId
  post : ProbePost
  answerer : PeerId
  server : TcpServer
  selfPubkey : JsString
deriving DecidableEq, Repr

/-- A datagram of `sender` that has come to an open socket of `receiver` for `socketFor`. -/
structure Arrival where
  sender : PeerId
  receiver : PeerId
  socketFor : PeerId
  text : JsString
deriving DecidableEq, Repr

structure ProbeHistory where
  drawn : List DrawnNonce := []
  answers : List ProbeAnswer := []
  arrivals : List Arrival := []

/-- An agent; `posts` are the requests of its handlers, `replies` the statuses they get, and
`past` is what it sent before it started. -/
structure ProbeNode where
  prober : Prober
  selfPubkey : JsString
  posts : OMap Nat ProbePost := .empty
  replies : OMap Nat Nat := .empty
  past : List ProbeOutput := []

structure ProbeNet where
  server : ServerState
  nodes : PeerId → ProbeNode
  history : ProbeHistory := {}

/-- `deliver`: the agent gets a message of the server, with the nonce it draws and the port it
binds.  `request`: the request of handler `id` gets to server `k` of `answerer`; `reply`: what
that answers gets back; `fail`: the fetch fails.  `datagram`: what `sender` has sent gets to
socket `k` of `p`. -/
inductive ProbeNetEvent where
  | server (e : Event)
  | deliver (p : PeerId) (now : Int) (msg : ServerMsg) (nonce : JsString)
      (bind : Except JsString Int)
  | request (p : PeerId) (id : Nat) (answerer : PeerId) (k : Nat)
  | reply (p : PeerId) (id : Nat)
  | fail (p : PeerId) (id : Nat)
  | datagram (p : PeerId) (k : Nat) (sender : PeerId) (ip : JsString) (port : Int)
      (text : JsString)
  | agent (p : PeerId) (e : ProbeEvent)
  | setSelfIp (p : PeerId) (ip : JsString)
  | restart (p : PeerId) (boot : Boot) (selfPubkey : JsString)

/-! ## Algorithm -/

/-- All that the agent has ever sent. -/
def ProbeNode.sent (x : ProbeNode) : List ProbeOutput := x.past ++ x.prober.outputs

/-- An agent that has started. -/
def Boot.node (boot : Boot) (selfPubkey : JsString) (past : List ProbeOutput) : ProbeNode where
  prober := .boot boot.range boot.host boot.file []
  selfPubkey
  past

/-- An event that is neither a message nor something that arrives. -/
def ProbeEvent.isOwn : ProbeEvent → Bool
  | .receive _ _ _ _ => false
  | .fetched _ _ => false
  | .datagram _ _ => false
  | _ => true

/-- The messages that were sent to `p`. -/
def ServerState.messagesTo (s : ServerState) (p : PeerId) : List ServerMsg :=
  (s.trace.filterMap (TraceItem.sentTo p)).map Prod.snd

/-- The nonce that the handler of the message draws. -/
def ServerMsg.draws (p : PeerId) (nonce : JsString) : ServerMsg → List DrawnNonce
  | .probeRelayServe q => [⟨p, q, nonce⟩]
  | .probeDirectStart q => [⟨p, q, nonce⟩]
  | _ => []

/-- The requests after the message; the handler that posts has the id `id`. -/
def ServerMsg.posts (posts : OMap Nat ProbePost) (id : Nat) : ServerMsg → OMap Nat ProbePost
  | .probeRelayCheck peerId meshIpv4 tcpPort nonce clientPubkey serverPubkey =>
    posts.set id { peerId, meshIpv4, tcpPort, clientPubkey, serverPubkey, nonce }
  | _ => posts

namespace ProbeNet

def init (db : Db) (boots : PeerId → Boot × JsString) : ProbeNet where
  server := .init db
  nodes p := (boots p).1.node (boots p).2 []

def setNode (σ : ProbeNet) (p : PeerId) (x : ProbeNode) : ProbeNet :=
  { σ with nodes := Function.update σ.nodes p x }

/-- The agent takes a step. -/
def act (σ : ProbeNet) (p : PeerId) (e : ProbeEvent) : ProbeNet :=
  σ.setNode p { σ.nodes p with prober := probeStep (σ.nodes p).prober e }

/-- A health report may say anything; every other message was sent by the agent. -/
def mayReceive (σ : ProbeNet) : Event → Bool
  | .message ws _ msg => msg.peer?.isNone || decide (.toServer msg ∈ (σ.nodes ws.peerId).sent)
  | _ => true

def serve (cfg : Config) (σ : ProbeNet) (e : Event) : ProbeNet :=
  if σ.mayReceive e then { σ with server := step cfg σ.server e } else σ

def deliver (σ : ProbeNet) (p : PeerId) (now : Int) (msg : ServerMsg) (nonce : JsString)
    (bind : Except JsString Int) : ProbeNet :=
  let x := σ.nodes p
  if msg ∈ σ.server.messagesTo p then
    { σ.setNode p { x with prober := probeStep x.prober (.receive now msg nonce bind)
                           posts := msg.posts x.posts x.prober.nextId } with
      history := { σ.history with drawn := msg.draws p nonce ++ σ.history.drawn } }
  else σ

def request (σ : ProbeNet) (p : PeerId) (id : Nat) (answerer : PeerId) (k : Nat) : ProbeNet :=
  let x := σ.nodes p
  let y := σ.nodes answerer
  match x.posts.get? id, x.replies.get? id, y.prober.servers.get? k with
  | some post, none, some server =>
    let status := server.answer y.selfPubkey post
    let answers := if isOk status then
        { client := p, post, answerer, server, selfPubkey := y.selfPubkey } :: σ.history.answers
      else σ.history.answers
    { σ.setNode p { x with replies := x.replies.set id status } with
      history := { σ.history with answers } }
  | _, _, _ => σ

def reply (σ : ProbeNet) (p : PeerId) (id : Nat) : ProbeNet :=
  match (σ.nodes p).replies.get? id with
  | some status => σ.act p (.fetched id (isOk status))
  | none => σ

def datagram (σ : ProbeNet) (p : PeerId) (k : Nat) (sender : PeerId) (ip : JsString) (port : Int)
    (text : JsString) : ProbeNet :=
  if .datagram ip port text ∈ (σ.nodes sender).sent then
    match (σ.nodes p).prober.entries.get? k with
    | some e =>
      if e.isOpen then
        { σ.act p (.datagram k text) with
          history := { σ.history with
            arrivals := { sender, receiver := p, socketFor := e.peerId, text } ::
              σ.history.arrivals } }
      else σ
    | none => σ
  else σ

def setSelfIp (σ : ProbeNet) (p : PeerId) (ip : JsString) : ProbeNet :=
  let x := σ.nodes p
  σ.setNode p { x with prober := { x.prober with selfMeshIpv4 := ip } }

end ProbeNet

def probeNetStep (cfg : Config) (σ : ProbeNet) : ProbeNetEvent → ProbeNet
  | .server e => σ.serve cfg e
  | .deliver p now msg nonce bind => σ.deliver p now msg nonce bind
  | .request p id answerer k => σ.request p id answerer k
  | .reply p id => σ.reply p id
  | .fail p id => σ.act p (.fetched id false)
  | .datagram p k sender ip port text => σ.datagram p k sender ip port text
  | .agent p e => if e.isOwn then σ.act p e else σ
  | .setSelfIp p ip => σ.setSelfIp p ip
  | .restart p boot selfPubkey => σ.setNode p (boot.node selfPubkey (σ.nodes p).sent)

/-! ## What is claimed -/

def ProbeNetEvent.idsOk : ProbeNetEvent → Prop
  | .server e => e.idsOk
  | _ => True

instance : (e : ProbeNetEvent) → Decidable e.idsOk
  | .server e => inferInstanceAs (Decidable e.idsOk)
  | .deliver _ _ _ _ _ => isTrue trivial
  | .request _ _ _ _ => isTrue trivial
  | .reply _ _ => isTrue trivial
  | .fail _ _ => isTrue trivial
  | .datagram _ _ _ _ _ _ => isTrue trivial
  | .agent _ _ => isTrue trivial
  | .setSelfIp _ _ => isTrue trivial
  | .restart _ _ _ => isTrue trivial

/-- No nonce is drawn twice. -/
def ProbeHistory.DistinctNonces (h : ProbeHistory) : Prop := (h.drawn.map DrawnNonce.nonce).Nodup

instance (h : ProbeHistory) : Decidable h.DistinctNonces :=
  inferInstanceAs (Decidable (List.Nodup _))

/-- A request of `x` has got to the server that `y` started for it, with the nonce of this
server and the key of its agent. -/
def ProbeHistory.Reached (h : ProbeHistory) (x y : PeerId) : Prop :=
  ∃ a ∈ h.answers, a.client = x ∧ a.answerer = y ∧ a.server.peerId = x ∧
    a.post.nonce = a.server.nonce ∧ a.post.serverPubkey = a.selfPubkey

/-- A datagram with the nonce that `y` drew for `x` has come from `y` to a socket that `x` keeps
for `y`. -/
def ProbeHistory.Heard (h : ProbeHistory) (x y : PeerId) : Prop :=
  ∃ a ∈ h.arrivals, a.receiver = x ∧ a.socketFor = y ∧ a.sender = y ∧ ⟨y, x, a.text⟩ ∈ h.drawn

/-! ## Sample runs -/

def keyOf (p : PeerId) : JsString := if p = peerOne then [107] else [108]

/-- Two peers with keys. -/
def keyedPeers : Db :=
  { twoPeers with peers := twoPeers.peers.mapVals fun p row => { row with pubkey := keyOf p } }

def bootBoth (p : PeerId) : Boot × JsString := (⟨⟨51820, 52819⟩, ⟨[], .empty⟩, .empty⟩, keyOf p)

/-- A relay probe in which the second peer reaches the first one. -/
def reachedRun : List ProbeNetEvent :=
  relayProbeRun.map .server ++
    [.setSelfIp peerOne [49],
     .deliver peerOne 24000 (.probeRelayServe peerTwo) [120] (.ok 40000),
     .server (.message wsOne 24100 (.probeRelayReady peerTwo [49] 40000 [120])),
     .deliver peerTwo 24200 (.probeRelayCheck peerOne [49] 40000 [120] [108] [107]) [] (.ok 0),
     .request peerTwo 0 peerOne 0,
     .reply peerTwo 0,
     .server (.message wsTwo 24300 (.probeRelayResult peerOne true))]

/-- A direct probe in which both peers hear each other. -/
def heardRun : List ProbeNetEvent :=
  directProbeRun.map .server ++
    [.deliver peerOne 60000 (.probeDirectStart peerTwo) [120] (.ok 0),
     .deliver peerTwo 60000 (.probeDirectStart peerOne) [121] (.ok 0),
     .agent peerOne (.udpBound 0 (.ok 5000)), .agent peerOne (.udpResume 0),
     .agent peerTwo (.udpBound 0 (.ok 5001)), .agent peerTwo (.udpResume 0),
     .server (.message wsOne 60100 (.probeDirectReady peerTwo 5000 [120])),
     .server (.message wsTwo 60100 (.probeDirectReady peerOne 5001 [121])),
     .deliver peerOne 60200 (.probeDirectGo peerTwo [] 5001 [121]) [] (.ok 0),
     .deliver peerTwo 60200 (.probeDirectGo peerOne [] 5000 [120]) [] (.ok 0),
     .datagram peerTwo 1 peerOne [] 5001 [120],
     .datagram peerOne 1 peerTwo [] 5000 [121],
     .agent peerOne (.goStep 2 false), .agent peerOne (.goStep 2 false),
     .agent peerTwo (.goStep 2 false), .agent peerTwo (.goStep 2 false),
     .server (.message wsOne 60400 (.probeDirectResult peerTwo true)),
     .server (.message wsTwo 60400 (.probeDirectResult peerOne true))]

end Meshezia
