import Meshezia.Lib.Sorted
import Meshezia.Api.Handlers

/-!
# The other endpoints (`api.ts`)

The endpoints that only read, and the push of an update to an agent, which writes nothing
either.  `answer` is `createApi`: what it does to the tables and what it replies, for a
request of any endpoint and for one that no route matches.

A query without `ORDER BY` leaves the order of its rows to SQLite (`QueryOrder`).
-/

namespace Meshezia.Api

/-! ## Responses -/

/-- A row of `peer_links` joined with the names of its two peers. -/
structure JoinedLink where
  peers : PeerId × PeerId
  link : LinkRow
  fromName : JsString
  toName : JsString
deriving DecidableEq, Repr

structure LinkJson where
  fromPeerId : PeerId
  fromName : JsString
  toPeerId : PeerId
  toName : JsString
  mode : Mode
  directAlive : Bool
  relayAlive : Bool
  probingDirect : Bool
  rxBytes : Int
  txBytes : Int
  lastHandshake : Int
  endpoint : JsString
  ifName : JsString
  routingTable : Int
  updatedAt : Int
deriving DecidableEq, Repr

def formatLink (row : JoinedLink) : LinkJson where
  fromPeerId := row.peers.1
  fromName := row.fromName
  toPeerId := row.peers.2
  toName := row.toName
  mode := row.link.mode
  directAlive := row.link.directAlive != 0
  relayAlive := row.link.relayAlive != 0
  probingDirect := row.link.probingDirect != 0
  rxBytes := row.link.rxBytes
  txBytes := row.link.txBytes
  lastHandshake := row.link.lastHandshake
  endpoint := row.link.endpoint
  ifName := row.link.ifName
  routingTable := row.link.routingTable
  updatedAt := row.link.updatedAt

inductive ReadBody where
  | error (text : String)
  | networks (networks : List NetworkJson)
  | network (network : NetworkJson)
  | token (token : JsString)
  | peers (peers : List PeerJson)
  | links (links : List LinkJson)
deriving DecidableEq, Repr

structure ReadResponse where
  status : Nat
  body : ReadBody
deriving DecidableEq, Repr

/-- The order of the rows of each query without `ORDER BY`. -/
structure QueryOrder where
  networks : RowOrder fun e : NetworkId × NetworkRecord => e.1
  peers : RowOrder fun e : PeerId × PeerRecord => e.1
  links : RowOrder JoinedLink.peers

/-- By primary key. -/
def QueryOrder.byKey : QueryOrder where
  networks := .byKey _ strictOrder_jsLt
  peers := .byKey _ strictOrder_jsLt
  links := .byKey _ strictOrder_jsLt.pair

/-- The server around the endpoints: the order of its queries, `isPeerConnected`, and the strings
that `new URL` takes. -/
structure Server extends Env where
  order : QueryOrder
  connected : PeerId → Bool
  isUrl : JsString → Bool

def readUnauthorized : ReadResponse := ⟨401, .error "Unauthorized"⟩

/-! ## Networks -/

def getNetworks (server : Server) (t : Tables) (authorization : Option JsString) : ReadResponse :=
  match requireAdmin server.toEnv authorization with
  | some _ => readUnauthorized
  | none =>
    ⟨200, .networks ((server.order.networks.order t.networks.entries).map fun e =>
      formatNetwork e.1 e.2)⟩

def getNetwork (server : Server) (t : Tables) (authorization : Option JsString) (id : NetworkId) :
    ReadResponse :=
  match requireAdmin server.toEnv authorization with
  | some _ => readUnauthorized
  | none =>
    match t.networks.get? id with
    | none => ⟨404, .error "Not found"⟩
    | some row => ⟨200, .network (formatNetwork id row)⟩

def getNetworkToken (server : Server) (t : Tables) (authorization : Option JsString)
    (id : NetworkId) : ReadResponse :=
  match requireAdmin server.toEnv authorization with
  | some _ => readUnauthorized
  | none =>
    match t.networks.get? id with
    | none => ⟨404, .error "Not found"⟩
    | some row => ⟨200, .token row.token⟩

/-! ## Peers and links -/

/-- `c.req.query('network_id')` when it is there and not empty. -/
def queryNetwork (networkId : Option JsString) : Option NetworkId :=
  networkId.filter fun id => !id.isEmpty

/-- `SELECT * FROM peers WHERE network_id = ?`. -/
def peersOf (t : Tables) (networkId : NetworkId) : List (PeerId × PeerRecord) :=
  t.peers.entries.filter fun e => e.2.networkId == networkId

def getPeers (server : Server) (t : Tables) (authorization : Option JsString)
    (networkId : Option JsString) : ReadResponse :=
  match queryNetwork networkId with
  | some networkId =>
    match requireAdminOrNetwork server.toEnv t authorization networkId with
    | some _ => readUnauthorized
    | none =>
      ⟨200, .peers ((server.order.peers.order (peersOf t networkId)).map fun e =>
        formatPeer e.1 e.2)⟩
  | none =>
    match requireAdmin server.toEnv authorization with
    | some _ => readUnauthorized
    | none =>
      ⟨200, .peers ((server.order.peers.order t.peers.entries).map fun e => formatPeer e.1 e.2)⟩

/-- One row of `peer_links pl JOIN peers p1 … JOIN peers p2 … WHERE p1.network_id = ?`. -/
def joinLink (t : Tables) (networkId : NetworkId) (e : (PeerId × PeerId) × LinkRow) :
    Option JoinedLink :=
  match t.peers.get? e.1.1, t.peers.get? e.1.2 with
  | some p1, some p2 =>
    if p1.networkId == networkId then
      some { peers := e.1, link := e.2, fromName := p1.name, toName := p2.name }
    else none
  | _, _ => none

def linksOf (t : Tables) (networkId : NetworkId) : List JoinedLink :=
  t.peerLinks.entries.filterMap (joinLink t networkId)

def getLinks (server : Server) (t : Tables) (authorization : Option JsString)
    (networkId : Option JsString) : ReadResponse :=
  match queryNetwork networkId with
  | none => ⟨400, .error "network_id required"⟩
  | some networkId =>
    match requireAdminOrNetwork server.toEnv t authorization networkId with
    | some _ => readUnauthorized
    | none => ⟨200, .links ((server.order.links.order (linksOf t networkId)).map formatLink)⟩

/-! ## Agent update -/

/-- The `url` of the body: a string that is not empty. -/
def readUrl (body : Json) : Option JsString :=
  (isString (body.get? (js "url"))).filter fun url => !url.isEmpty

/-- `POST /api/peers/:id/update`; the message it sends is no write. -/
def postUpdate (server : Server) (t : Tables) (authorization : Option JsString) (peerId : PeerId)
    (body : Option Json) : Response :=
  match requireAdmin server.toEnv authorization with
  | some deny => deny
  | none =>
    match body with
    | none => ⟨400, .error "Invalid JSON"⟩
    | some .null => ⟨500, .crash⟩
    | some body =>
      match readUrl body with
      | none => ⟨400, .error "url required"⟩
      | some url =>
        if server.isUrl url then
          match t.peers.get? peerId with
          | none => ⟨404, .error "Peer not found"⟩
          | some _ =>
            if server.connected peerId then ⟨200, .ok⟩
            else ⟨409, .error "Peer not connected via WebSocket"⟩
        else ⟨400, .error "Invalid URL"⟩

/-! ## Every request -/

inductive ApiRequest where
  | write (request : Request)
  | getNetworks (authorization : Option JsString)
  | getNetwork (authorization : Option JsString) (id : NetworkId)
  | getNetworkToken (authorization : Option JsString) (id : NetworkId)
  | getPeers (authorization networkId : Option JsString)
  | getLinks (authorization networkId : Option JsString)
  | postUpdate (authorization : Option JsString) (peerId : PeerId) (body : Option Json)
  | unrouted (authorization : Option JsString)

inductive Reply where
  | response (response : Response)
  | read (response : ReadResponse)
deriving DecidableEq, Repr

def Reply.status : Reply → Nat
  | .response r => r.status
  | .read r => r.status

def answer (server : Server) (t : Tables) (draws : Draws) : ApiRequest → Tables × Reply
  | .write request =>
    let (t, response) := handle server.toEnv t draws request
    (t, .response response)
  | .getNetworks authorization => (t, .read (getNetworks server t authorization))
  | .getNetwork authorization id => (t, .read (getNetwork server t authorization id))
  | .getNetworkToken authorization id => (t, .read (getNetworkToken server t authorization id))
  | .getPeers authorization networkId => (t, .read (getPeers server t authorization networkId))
  | .getLinks authorization networkId => (t, .read (getLinks server t authorization networkId))
  | .postUpdate authorization peerId body =>
    (t, .response (postUpdate server t authorization peerId body))
  | .unrouted _ => (t, .response ⟨404, .error "404 Not Found"⟩)

def Request.authorization : Request → Option JsString
  | .postNetworks authorization _ => authorization
  | .deleteNetwork authorization _ => authorization
  | .patchNetwork authorization _ _ => authorization
  | .postPeers authorization _ => authorization
  | .deletePeer authorization _ => authorization
  | .putPorts authorization _ _ => authorization
  | .getConfig authorization _ => authorization
  | .postForceMode authorization _ => authorization
  | .patchPeer authorization _ _ => authorization

def ApiRequest.authorization : ApiRequest → Option JsString
  | .write request => request.authorization
  | .getNetworks authorization => authorization
  | .getNetwork authorization _ => authorization
  | .getNetworkToken authorization _ => authorization
  | .getPeers authorization _ => authorization
  | .getLinks authorization _ => authorization
  | .postUpdate authorization _ _ => authorization
  | .unrouted authorization => authorization

/-- The peer that the path of the request names. -/
def Request.peer? : Request → Option PeerId
  | .deletePeer _ id => some id
  | .putPorts _ peerId _ => some peerId
  | .getConfig _ peerId => some peerId
  | .patchPeer _ id _ => some id
  | _ => none

def ApiRequest.peer? : ApiRequest → Option PeerId
  | .write request => request.peer?
  | .postUpdate _ peerId _ => some peerId
  | _ => none

/-- The endpoints that take the admin token only. -/
def Request.adminOnly : Request → Bool
  | .postNetworks _ _ | .deleteNetwork _ _ | .patchNetwork _ _ _ | .postForceMode _ _ => true
  | _ => false

def ApiRequest.adminOnly : ApiRequest → Bool
  | .write request => request.adminOnly
  | .getNetworks _ | .getNetwork _ _ | .getNetworkToken _ _ | .postUpdate _ _ _ => true
  | _ => false

def sampleServer : Server where
  toEnv := sampleEnv
  order := .byKey
  connected _ := false
  isUrl _ := true

end Meshezia.Api
