import Mathlib.Data.List.Sort
import Meshezia.Api.Subnet
import Meshezia.Api.Tables

/-!
# The endpoints (`api.ts`)

The handlers that write to the database, and the one an agent polls its configuration
from.  A handler takes the tables, the `Authorization` header, the body of the request
(`none` when it is not JSON) and what it draws, and returns the tables and the response.
`crash` is the answer of the framework to an exception that a handler lets through.

A handler runs without interruption once its body has been read.  Only
`PUT /api/peers/:id/ports` looks at the tables before that: its two parts are
`putPortsCheck` and `putPortsBody`.
-/

namespace Meshezia.Api

/-! ## Responses -/

structure NetworkJson where
  id : NetworkId
  name : JsString
  subnet : JsString
  listenPort : Int
  relayEnabled : Bool
  awg : Awg Scalar
  token : Option JsString := none
deriving DecidableEq, Repr

structure PeerJson where
  id : PeerId
  networkId : NetworkId
  name : JsString
  publicIpv4 : JsString
  pubkey : JsString
  meshIpv4 : JsString
  lastSeen : Int
  isRelayEligible : Bool
  ttlSeconds : Int
  memo : JsString
  agentVersion : Scalar
deriving DecidableEq, Repr

structure SelfConfig where
  id : PeerId
  meshIpv4 : JsString
  listenPort : Int
  memo : JsString
deriving DecidableEq, Repr

structure PeerEndpoint where
  id : PeerId
  name : JsString
  pubkey : JsString
  meshIpv4 : JsString
  endpoint : JsString
  listenPort : Int
deriving DecidableEq, Repr

structure PeerConfig where
  self : SelfConfig
  relayEnabled : Bool
  network : Awg Scalar
  peers : List PeerEndpoint
deriving DecidableEq, Repr

inductive ResponseBody where
  | error (text : String)
  | crash
  | ok
  | network (network : NetworkJson)
  | peer (peer : PeerJson)
  | config (config : PeerConfig)
deriving DecidableEq, Repr

structure Response where
  status : Nat
  body : ResponseBody
deriving DecidableEq, Repr

def formatNetwork (id : NetworkId) (row : NetworkRecord) : NetworkJson where
  id := id
  name := row.name
  subnet := row.subnet
  listenPort := row.listenPort
  relayEnabled := row.relayEnabled != 0
  awg := row.awg

def formatNetworkWithToken (id : NetworkId) (row : NetworkRecord) : NetworkJson :=
  { formatNetwork id row with token := some row.token }

def formatPeer (id : PeerId) (row : PeerRecord) : PeerJson where
  id := id
  networkId := row.networkId
  name := row.name
  publicIpv4 := row.publicIp
  pubkey := row.pubkey
  meshIpv4 := row.ipv4
  lastSeen := row.lastSeen
  isRelayEligible := row.isRelayEligible != 0
  ttlSeconds := row.ttlSeconds
  memo := row.memo
  agentVersion := row.agentVersion

/-- `c.json({ error }, status)`, with nothing written. -/
def reject (t : Tables) (status : Nat) (text : String) : Tables × Response :=
  (t, ⟨status, .error text⟩)

/-- An exception that the handler does not catch. -/
def crash (t : Tables) : Tables × Response := (t, ⟨500, .crash⟩)

/-! ## Authorization -/

/-- `createApi(adminToken)`, on a platform. -/
structure Env where
  adminToken : JsString
  lang : Coercions

def getBearer (authorization : Option JsString) : Option JsString :=
  authorization.bind fun auth =>
    if (js "Bearer ").isPrefixOf auth then some (auth.drop 7) else none

def isAdmin (env : Env) (authorization : Option JsString) : Bool :=
  getBearer authorization == some env.adminToken

def isNetworkToken (t : Tables) (authorization : Option JsString) (networkId : NetworkId) : Bool :=
  match getBearer authorization with
  | none => false
  | some token =>
    match t.networks.get? networkId with
    | none => false
    | some row => !token.isEmpty && row.token == token

def unauthorized : Response := ⟨401, .error "Unauthorized"⟩

def requireAdmin (env : Env) (authorization : Option JsString) : Option Response :=
  if isAdmin env authorization then none else some unauthorized

def requireAdminOrNetwork (env : Env) (t : Tables) (authorization : Option JsString)
    (networkId : NetworkId) : Option Response :=
  if isAdmin env authorization || isNetworkToken t authorization networkId then none
  else some unauthorized

/-! ## Reading a body -/

def check {α : Type} (v : Option α) (text : String) : Except String α :=
  match v with
  | some a => .ok a
  | none => .error text

/-- A field that may be `undefined`. -/
def optional {α : Type} (v : Option Json) (default : α) (guard : Option Json → Option α) :
    Option α :=
  match v with
  | none => some default
  | some _ => guard v

/-- A field that may be the empty string. -/
def emptyOr (guard : Option Json → Option JsString) (v : Option Json) : Option JsString :=
  match v with
  | some (.str []) => some []
  | _ => guard v

/-- `v ?? default` as the driver binds it; `none` when the driver throws. -/
def bindOr (default : Scalar) : Option Json → Option Scalar
  | none | some .null => some default
  | some (.bool b) => some (.num (.int (if b then 1 else 0)))
  | some (.num n) => some (.num n)
  | some (.str s) => some (.str s)
  | some (.arr _) | some (.obj _) => none

/-! ## Networks -/

/-- What a handler draws: `crypto.randomUUID()`, `generateToken()`,
`generateAwgParams()` and `Date.now()`. -/
structure Draws where
  id : JsString
  token : JsString
  awg : Awg Int
  now : Int
deriving DecidableEq, Repr

structure NewNetwork where
  name : JsString
  subnet : JsString
  listenPort : Int

def readNewNetwork (lang : Coercions) (body : Json) : Except String NewNetwork := do
  let name ← check (isValidName (body.get? (js "name")))
    "Invalid name (1-255 chars, no control chars)"
  let subnet ← check (isValidCIDR lang (body.get? (js "subnet"))) "Invalid subnet (CIDR /8-/30)"
  let listenPort ← check (optional (body.get? (js "listenPort")) 51820 isValidPort)
    "Invalid listenPort (1-65535)"
  return { name, subnet, listenPort }

/-- The parameters a body names. -/
def bodyAwg (body : Json) : Awg (Option Json) where
  jc := body.get? (js "jc")
  jmin := body.get? (js "jmin")
  jmax := body.get? (js "jmax")
  s1 := body.get? (js "s1")
  s2 := body.get? (js "s2")
  h1 := body.get? (js "h1")
  h2 := body.get? (js "h2")
  h3 := body.get? (js "h3")
  h4 := body.get? (js "h4")

def bindAwg (given : Awg (Option Json)) (defaults : Awg Int) : Option (Awg Scalar) := do
  let jc ← bindOr (.num (.int defaults.jc)) given.jc
  let jmin ← bindOr (.num (.int defaults.jmin)) given.jmin
  let jmax ← bindOr (.num (.int defaults.jmax)) given.jmax
  let s1 ← bindOr (.num (.int defaults.s1)) given.s1
  let s2 ← bindOr (.num (.int defaults.s2)) given.s2
  let h1 ← bindOr (.num (.int defaults.h1)) given.h1
  let h2 ← bindOr (.num (.int defaults.h2)) given.h2
  let h3 ← bindOr (.num (.int defaults.h3)) given.h3
  let h4 ← bindOr (.num (.int defaults.h4)) given.h4
  return { jc, jmin, jmax, s1, s2, h1, h2, h3, h4 }

def postNetworks (env : Env) (t : Tables) (authorization : Option JsString) (body : Option Json)
    (draws : Draws) : Tables × Response :=
  match requireAdmin env authorization with
  | some deny => (t, deny)
  | none =>
    match body with
    | none => reject t 400 "Invalid JSON"
    | some .null => crash t
    | some body =>
      match readNewNetwork env.lang body with
      | .error text => reject t 400 text
      | .ok new =>
        match bindAwg (bodyAwg body) draws.awg with
        | none => reject t 500 "Database error"
        | some awg =>
          let row : NetworkRecord :=
            { name := new.name, token := draws.token, subnet := new.subnet,
              listenPort := new.listenPort, awg }
          match t.insertNetwork draws.id row with
          | .error .unique => reject t 409 "Network name already exists"
          | .error .foreignKey => reject t 500 "Database error"
          | .ok t => (t, ⟨201, .network (formatNetworkWithToken draws.id row)⟩)

def deleteNetwork (env : Env) (t : Tables) (authorization : Option JsString) (id : NetworkId) :
    Tables × Response :=
  match requireAdmin env authorization with
  | some deny => (t, deny)
  | none => (t.deleteNetwork id, ⟨200, .ok⟩)

/-- `c.json(formatNetwork(updated))`, or a 404 when there is no such network. -/
def answerNetwork (t : Tables) (id : NetworkId) : Tables × Response :=
  match t.networks.get? id with
  | none => reject t 404 "Not found"
  | some row => (t, ⟨200, .network (formatNetwork id row)⟩)

/-- White space and line terminators of one code unit. -/
def isSpace (c : UInt16) : Bool :=
  (9 ≤ c && c ≤ 13) || c == 32 || c == 0xA0 || c == 0x1680 || (0x2000 ≤ c && c ≤ 0x200A) ||
    c == 0x2028 || c == 0x2029 || c == 0x202F || c == 0x205F || c == 0x3000 || c == 0xFEFF

def trim (s : JsString) : JsString := ((s.dropWhile isSpace).reverse.dropWhile isSpace).reverse

/-- The second half of `PATCH /api/networks/:id`. -/
def patchRelayEnabled (t : Tables) (id : NetworkId) (body : Json) : Tables :=
  match body.get? (js "relayEnabled") with
  | none => t
  | some v => t.setRelayEnabled id v.truthy

def patchNetwork (env : Env) (t : Tables) (authorization : Option JsString) (id : NetworkId)
    (body : Option Json) : Tables × Response :=
  match requireAdmin env authorization with
  | some deny => (t, deny)
  | none =>
    match body with
    | none => reject t 400 "Invalid JSON"
    | some .null => crash t
    | some body =>
      match body.get? (js "name") with
      | none => answerNetwork (patchRelayEnabled t id body) id
      | some v =>
        match env.lang.string v with
        | none => crash t
        | some text =>
          let name := trim text
          if name.isEmpty || decide (100 < name.length) then
            reject t 400 "Name must be 1-100 chars"
          else
            match t.renameNetwork id name with
            | .error _ => crash t
            | .ok t => answerNetwork (patchRelayEnabled t id body) id

/-! ## Peers -/

structure NewPeer where
  networkId : NetworkId
  name : JsString
  publicIpv4 : JsString
  pubkey : JsString
  ttlSeconds : Int
  memo : JsString

def readNewPeer (lang : Coercions) (body : Json) : Except String NewPeer := do
  let networkId ← check (isValidUUID (body.get? (js "networkId"))) "Invalid networkId"
  let name ← check (isValidName (body.get? (js "name"))) "Invalid name (1-255 chars)"
  let publicIpv4 ← check (optional (body.get? (js "publicIpv4")) [] (emptyOr (isValidIPv4 lang)))
    "Invalid publicIpv4"
  let pubkey ← check (optional (body.get? (js "pubkey")) [] (emptyOr isValidPubkey))
    "Invalid pubkey (base64, 44 chars)"
  let ttlSeconds ← check (optional (body.get? (js "ttlSeconds")) 0 isValidTTL)
    "Invalid ttlSeconds (0-31536000)"
  let memo ← check (optional (body.get? (js "memo")) [] isValidMemo) "Invalid memo (max 1024 chars)"
  return { networkId, name, publicIpv4, pubkey, ttlSeconds, memo }

def postPeers (env : Env) (t : Tables) (authorization : Option JsString) (body : Option Json)
    (draws : Draws) : Tables × Response :=
  match body with
  | none => reject t 400 "Invalid JSON"
  | some .null => crash t
  | some body =>
    match readNewPeer env.lang body with
    | .error text => reject t 400 text
    | .ok new =>
      match requireAdminOrNetwork env t authorization new.networkId with
      | some deny => (t, deny)
      | none =>
        match t.networks.get? new.networkId with
        | none => reject t 404 "Network not found"
        | some network =>
          match allocateIp env.lang (t.usedIps new.networkId) network.subnet with
          | none => reject t 409 "No free IPs available"
          | some ipv4 =>
            match bindOr (.str []) (body.get? (js "agentVersion")) with
            | none => reject t 500 "Database error"
            | some agentVersion =>
              let row : PeerRecord :=
                { networkId := new.networkId, name := new.name, publicIp := new.publicIpv4,
                  pubkey := new.pubkey, ipv4, lastSeen := draws.now,
                  ttlSeconds := new.ttlSeconds, memo := new.memo, agentVersion }
              match t.insertPeer draws.id row with
              | .error .unique => reject t 409 "Peer name already exists in this network"
              | .error .foreignKey => reject t 500 "Database error"
              | .ok t => (t, ⟨201, .peer (formatPeer draws.id row)⟩)

def deletePeer (env : Env) (t : Tables) (authorization : Option JsString) (id : PeerId) :
    Tables × Response :=
  match t.peers.get? id with
  | none => reject t 404 "Not found"
  | some peer =>
    match requireAdminOrNetwork env t authorization peer.networkId with
    | some deny => (t, deny)
    | none => (t.deletePeer id, ⟨200, .ok⟩)

/-! ## Peer ports -/

def readPort (entry : Json) : Except String (PeerId × Int) :=
  match entry with
  | .arr _ | .obj _ => do
    let peerId ← check (isValidUUID (entry.get? (js "peerId"))) "Invalid peerId in port entry"
    let port ← check (isValidPort (entry.get? (js "port"))) "Invalid port number (1-65535)"
    return (peerId, port)
  | _ => .error "Invalid port entry"

def readPorts (body : Json) : Except String (List (PeerId × Int)) :=
  match body with
  | .arr items =>
    if items.length ≤ 100 then items.mapM readPort
    else .error "Invalid ports (array, max 100 entries)"
  | _ => .error "Invalid ports (array, max 100 entries)"

/-- What `PUT /api/peers/:id/ports` does before it reads its body: `none` to go on. -/
def putPortsCheck (env : Env) (t : Tables) (authorization : Option JsString) (peerId : PeerId) :
    Option Response :=
  match t.peers.get? peerId with
  | none => some ⟨404, .error "Peer not found"⟩
  | some peer => requireAdminOrNetwork env t authorization peer.networkId

/-- The transaction over the entries. -/
def upsertPorts (t : Tables) (peerId : PeerId) (ports : List (PeerId × Int)) :
    Except Refusal Tables :=
  ports.foldlM (fun t entry => t.upsertPort peerId entry.1 entry.2) t

def putPortsBody (t : Tables) (peerId : PeerId) (body : Option Json) : Tables × Response :=
  match body with
  | none => reject t 400 "Invalid JSON"
  | some body =>
    match readPorts body with
    | .error text => reject t 400 text
    | .ok ports =>
      match upsertPorts t peerId ports with
      | .error _ => reject t 500 "Database error"
      | .ok t => (t, ⟨200, .ok⟩)

def putPorts (env : Env) (t : Tables) (authorization : Option JsString) (peerId : PeerId)
    (body : Option Json) : Tables × Response :=
  match putPortsCheck env t authorization peerId with
  | some deny => (t, deny)
  | none => putPortsBody t peerId body

/-! ## Peer config -/

/-- The other peers of a network, `ORDER BY id`. -/
def otherPeers (t : Tables) (networkId : NetworkId) (peerId : PeerId) :
    List (PeerId × PeerRecord) :=
  (t.peers.entries.filter fun e => e.2.networkId == networkId && e.1 != peerId).insertionSort
    fun a b => jsLt a.1 b.1 = true

/-- `remotePort ? … : ''`: the port `p` listens on for `peerId`, behind its address. -/
def endpointOf (t : Tables) (peerId p : PeerId) (publicIp : JsString) : JsString :=
  match t.peerPorts.get? (p, peerId) with
  | none => []
  | some port => if port = 0 then [] else joinAt 58 publicIp (decimalInt port)

def peerEndpoint (t : Tables) (peerId p : PeerId) (row : PeerRecord) : PeerEndpoint where
  id := p
  name := row.name
  pubkey := row.pubkey
  meshIpv4 := row.ipv4
  endpoint := endpointOf t peerId p row.publicIp
  listenPort := (t.peerPorts.get? (peerId, p)).getD 0

def configFor (t : Tables) (peerId : PeerId) (peer : PeerRecord) (network : NetworkRecord) :
    PeerConfig where
  self := { id := peerId, meshIpv4 := peer.ipv4, listenPort := network.listenPort,
            memo := peer.memo }
  relayEnabled := network.relayEnabled != 0
  network := network.awg
  peers := (otherPeers t peer.networkId peerId).map fun e => peerEndpoint t peerId e.1 e.2

def getConfig (env : Env) (t : Tables) (authorization : Option JsString) (peerId : PeerId)
    (draws : Draws) : Tables × Response :=
  match t.peers.get? peerId with
  | none => reject t 404 "Peer not found"
  | some peer =>
    match requireAdminOrNetwork env t authorization peer.networkId with
    | some deny => (t, deny)
    | none =>
      let t := t.updatePeer peerId (.lastSeen draws.now)
      match t.networks.get? peer.networkId with
      | none => crash t
      | some network => (t, ⟨200, .config (configFor t peerId peer network)⟩)

/-! ## Force mode

What `handleForceMode` writes; the messages it sends and the health record it keeps are
those of `ServerState.handleForceMode`. -/

/-- `mode` as `handleForceMode` writes it: `auto` clears the column. -/
def readMode (v : Option Json) : Option (Option ForcedMode) :=
  match isString v with
  | none => none
  | some s =>
    if s == js "force-direct" then some (some .forceDirect)
    else if s == js "force-relay" then some (some .forceRelay)
    else if s == js "auto" then some none
    else none

def postForceMode (env : Env) (t : Tables) (authorization : Option JsString) (body : Option Json) :
    Tables × Response :=
  match requireAdmin env authorization with
  | some deny => (t, deny)
  | none =>
    match body with
    | none => reject t 400 "Invalid JSON"
    | some .null => crash t
    | some body =>
      match isValidUUID (body.get? (js "peerA")), isValidUUID (body.get? (js "peerB")) with
      | some peerA, some peerB =>
        match readMode (body.get? (js "mode")) with
        | none => reject t 400 "mode must be force-direct, force-relay, or auto"
        | some mode =>
          match t.peers.get? peerA, t.peers.get? peerB with
          | some rowA, some rowB =>
            if rowA.networkId == rowB.networkId then
              (t.setForcedMode peerA peerB mode, ⟨200, .ok⟩)
            else reject t 400 "Peers must belong to the same network"
          | _, _ => reject t 404 "Peer not found"
      | _, _ => reject t 400 "Invalid peer ID format"

/-! ## Peer update -/

/-- One `if (body.field !== undefined)` of `PATCH /api/peers/:id`. -/
inductive FieldPatch where
  | absent
  | invalid (text : String)
  | write (a : Assignment)
deriving DecidableEq, Repr

def fieldPatch {α : Type} (v : Option Json) (guard : Option Json → Option α)
    (column : α → Assignment) (text : String) : FieldPatch :=
  match v with
  | none => .absent
  | some _ =>
    match guard v with
    | none => .invalid text
    | some a => .write (column a)

def patchPubkey (body : Json) : FieldPatch :=
  fieldPatch (body.get? (js "pubkey")) (emptyOr isValidPubkey) .pubkey
    "Invalid pubkey (base64, 44 chars)"

def patchPublicIpv4 (lang : Coercions) (body : Json) : FieldPatch :=
  fieldPatch (body.get? (js "publicIpv4")) (emptyOr (isValidIPv4 lang)) .publicIp
    "Invalid publicIpv4"

def patchTtlSeconds (body : Json) : FieldPatch :=
  fieldPatch (body.get? (js "ttlSeconds")) isValidTTL .ttlSeconds
    "Invalid ttlSeconds (0-31536000)"

def patchMemo (body : Json) : FieldPatch :=
  fieldPatch (body.get? (js "memo")) isValidMemo .memo "Invalid memo (max 1024 chars)"

/-- The only field that is ignored, not refused, when it does not pass. -/
def patchAgentVersion (body : Json) : FieldPatch :=
  match isString (body.get? (js "agentVersion")) with
  | none => .absent
  | some s => if s.length ≤ 64 then .write (.agentVersion s) else .absent

def patchFields (lang : Coercions) (body : Json) : List FieldPatch :=
  [patchPubkey body, patchPublicIpv4 lang body, patchTtlSeconds body, patchMemo body,
    patchAgentVersion body]

/-- The fields one after the other, each written as soon as it has passed. -/
def applyFields (t : Tables) (id : PeerId) : List FieldPatch → Tables × Option String
  | [] => (t, none)
  | .absent :: rest => applyFields t id rest
  | .invalid text :: _ => (t, some text)
  | .write a :: rest => applyFields (t.updatePeer id a) id rest

/-- The handler from its first look at the body on. -/
def patchPeerFields (env : Env) (t : Tables) (id : PeerId) (body : Json) : Tables × Response :=
  match applyFields t id (patchFields env.lang body) with
  | (t, some text) => reject t 400 text
  | (t, none) =>
    match t.peers.get? id with
    | none => crash t
    | some row => (t, ⟨200, .peer (formatPeer id row)⟩)

def patchPeer (env : Env) (t : Tables) (authorization : Option JsString) (id : PeerId)
    (body : Option Json) : Tables × Response :=
  match body with
  | none => reject t 400 "Invalid JSON"
  | some body =>
    match t.peers.get? id with
    | none => reject t 404 "Not found"
    | some peer =>
      match requireAdminOrNetwork env t authorization peer.networkId with
      | some deny => (t, deny)
      | none =>
        match body with
        | .null => crash t
        | body => patchPeerFields env t id body

/-! ## Requests -/

inductive Request where
  | postNetworks (authorization : Option JsString) (body : Option Json)
  | deleteNetwork (authorization : Option JsString) (id : NetworkId)
  | patchNetwork (authorization : Option JsString) (id : NetworkId) (body : Option Json)
  | postPeers (authorization : Option JsString) (body : Option Json)
  | deletePeer (authorization : Option JsString) (id : PeerId)
  | putPorts (authorization : Option JsString) (peerId : PeerId) (body : Option Json)
  | getConfig (authorization : Option JsString) (peerId : PeerId)
  | postForceMode (authorization : Option JsString) (body : Option Json)
  | patchPeer (authorization : Option JsString) (id : PeerId) (body : Option Json)

def handle (env : Env) (t : Tables) (draws : Draws) : Request → Tables × Response
  | .postNetworks authorization body => postNetworks env t authorization body draws
  | .deleteNetwork authorization id => deleteNetwork env t authorization id
  | .patchNetwork authorization id body => patchNetwork env t authorization id body
  | .postPeers authorization body => postPeers env t authorization body draws
  | .deletePeer authorization id => deletePeer env t authorization id
  | .putPorts authorization peerId body => putPorts env t authorization peerId body
  | .getConfig authorization peerId => getConfig env t authorization peerId draws
  | .postForceMode authorization body => postForceMode env t authorization body
  | .patchPeer authorization id body => patchPeer env t authorization id body

/-! ## A network with a peer -/

def sampleEnv : Env := ⟨js "admin", plainCoercions⟩

def sampleAdmin : Option JsString := some (js "Bearer admin")

def networkUuid : NetworkId := js "00000000-0000-4000-8000-000000000001"

def peerUuid : PeerId := js "00000000-0000-4000-8000-000000000002"

def sampleKey : JsString := List.replicate 43 65 ++ [61]

def drawsOf (id : JsString) : Draws where
  id := id
  token := js "token"
  awg := ⟨4, 50, 100, 20, 30, 5, 6, 7, 8⟩
  now := 0

def networkRequest (extra : List (JsString × Json)) : Request :=
  .postNetworks sampleAdmin (some (.obj ((js "name", .str (js "mesh")) ::
    (js "subnet", .str (js "10.0.0.0/24")) :: extra)))

def peerRequest (name : String) (extra : List (JsString × Json)) : Request :=
  .postPeers sampleAdmin (some (.obj ((js "networkId", .str networkUuid) ::
    (js "name", .str (js name)) :: extra)))

/-- One network with one peer. -/
def sampleTables : Tables :=
  (handle sampleEnv (handle sampleEnv .empty (drawsOf networkUuid) (networkRequest [])).1
    (drawsOf peerUuid) (peerRequest "a" [])).1

end Meshezia.Api
