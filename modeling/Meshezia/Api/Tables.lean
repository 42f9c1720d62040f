import Meshezia.Lib.JsValue
import Meshezia.Server.Db

/-!
# The tables of the API (`db.ts`)

The four tables with all the columns the endpoints read and write.  A `Tables` carries
the constraints of its schema (`Schema`): the primary keys are those of the maps, names
and tokens are unique, and every row refers to rows that exist.  A statement that
SQLite refuses is an `error`, and then nothing is written.

A column holds what is bound to it, whatever its declared type: the conversions of SQLite's
column affinity (the string `'5'` to the number 5 in an INTEGER column) are not modelled.
-/

namespace Meshezia.Api

/-- What a column holds that no endpoint checks the type of, as it was bound. -/
inductive Scalar where
  | num (n : JsNumber)
  | str (s : JsString)
deriving DecidableEq, Repr

/-- The nine obfuscation parameters of AmneziaWG. -/
structure Awg (α : Type) where
  jc : α
  jmin : α
  jmax : α
  s1 : α
  s2 : α
  h1 : α
  h2 : α
  h3 : α
  h4 : α
deriving DecidableEq, Repr

def Awg.toList {α : Type} (a : Awg α) : List α :=
  [a.jc, a.jmin, a.jmax, a.s1, a.s2, a.h1, a.h2, a.h3, a.h4]

/-- A row of `networks`; its key is `id`. -/
structure NetworkRecord where
  name : JsString
  token : JsString
  subnet : JsString
  listenPort : Int
  awg : Awg Scalar
  relayEnabled : Int := 1
deriving DecidableEq, Repr

/-- A row of `peers`; its key is `id`. -/
structure PeerRecord where
  networkId : NetworkId
  name : JsString
  publicIp : JsString
  pubkey : JsString
  ipv4 : JsString
  lastSeen : Int
  isRelayEligible : Int := 0
  ttlSeconds : Int
  memo : JsString
  agentVersion : Scalar
deriving DecidableEq, Repr

structure Rows where
  networks : OMap NetworkId NetworkRecord
  peers : OMap PeerId PeerRecord
  peerPorts : OMap (PeerId × PeerId) Int
  peerLinks : OMap (PeerId × PeerId) LinkRow

/-- The `UNIQUE` and `REFERENCES` clauses. -/
structure Schema (r : Rows) : Prop where
  networkName : ∀ {id id' row row'}, r.networks.get? id = some row →
    r.networks.get? id' = some row' → row.name = row'.name → id = id'
  networkToken : ∀ {id id' row row'}, r.networks.get? id = some row →
    r.networks.get? id' = some row' → row.token = row'.token → id = id'
  peerNetwork : ∀ {id row}, r.peers.get? id = some row → r.networks.has row.networkId = true
  peerName : ∀ {id id' row row'}, r.peers.get? id = some row → r.peers.get? id' = some row' →
    row.networkId = row'.networkId → row.name = row'.name → id = id'
  portPeers : ∀ {k : PeerId × PeerId}, r.peerPorts.has k = true →
    r.peers.has k.1 = true ∧ r.peers.has k.2 = true
  linkPeers : ∀ {k : PeerId × PeerId}, r.peerLinks.has k = true →
    r.peers.has k.1 = true ∧ r.peers.has k.2 = true

structure Tables extends Rows where
  schema : Schema toRows

/-- Why SQLite refuses a statement. -/
inductive Refusal where
  | unique
  | foreignKey
deriving DecidableEq, Repr

/-- One column of an `UPDATE peers`. -/
inductive Assignment where
  | publicIp (v : JsString)
  | pubkey (v : JsString)
  | lastSeen (v : Int)
  | ttlSeconds (v : Int)
  | memo (v : JsString)
  | agentVersion (v : JsString)
deriving DecidableEq, Repr

def Assignment.apply (row : PeerRecord) : Assignment → PeerRecord
  | .publicIp v => { row with publicIp := v }
  | .pubkey v => { row with pubkey := v }
  | .lastSeen v => { row with lastSeen := v }
  | .ttlSeconds v => { row with ttlSeconds := v }
  | .memo v => { row with memo := v }
  | .agentVersion v => { row with agentVersion := .str v }

section
variable (row : PeerRecord) (a : Assignment)

@[simp] theorem Assignment.apply_networkId : (a.apply row).networkId = row.networkId := by
  cases a <;> rfl

@[simp] theorem Assignment.apply_name : (a.apply row).name = row.name := by
  cases a <;> rfl

@[simp] theorem Assignment.apply_ipv4 : (a.apply row).ipv4 = row.ipv4 := by
  cases a <;> rfl

end

/-! ## The constraints under each statement -/

namespace Rows

variable (r : Rows)

def networkClash (id : NetworkId) (row : NetworkRecord) : Bool :=
  r.networks.has id ||
    r.networks.entries.any fun e => e.2.name == row.name || e.2.token == row.token

def nameClash (id : NetworkId) (name : JsString) : Bool :=
  r.networks.has id && r.networks.entries.any fun e => e.1 != id && e.2.name == name

def peerClash (id : PeerId) (row : PeerRecord) : Bool :=
  r.peers.has id ||
    r.peers.entries.any fun e => e.2.networkId == row.networkId && e.2.name == row.name

def mapNetwork (id : NetworkId) (f : NetworkRecord → NetworkRecord) : Rows :=
  { r with networks := r.networks.mapVals fun k row => if k = id then f row else row }

def mapPeer (id : PeerId) (f : PeerRecord → PeerRecord) : Rows :=
  { r with peers := r.peers.mapVals fun k row => if k = id then f row else row }

/-- `DELETE FROM peers` for the peers that satisfy `gone`, with the cascade. -/
def deletePeersWhere (gone : PeerId → Bool) : Rows :=
  { r with
    peers := r.peers.filter fun id _ => !gone id
    peerPorts := r.peerPorts.filter fun k _ => !gone k.1 && !gone k.2
    peerLinks := r.peerLinks.filter fun k _ => !gone k.1 && !gone k.2 }

def inNetwork (id : NetworkId) (p : PeerId) : Bool :=
  match r.peers.get? p with
  | some row => row.networkId == id
  | none => false

def deleteNetwork (id : NetworkId) : Rows :=
  let r := r.deletePeersWhere (r.inNetwork id)
  { r with networks := r.networks.delete id }

end Rows

theorem Schema.insertNetwork {r : Rows} (hs : Schema r) {id : NetworkId} {row : NetworkRecord}
    (hclash : r.networkClash id row = false) :
    Schema { r with networks := r.networks.set id row } := by
  simp only [Rows.networkClash, Bool.or_eq_false_iff, List.any_eq_false, Bool.or_eq_true,
    beq_iff_eq, not_or] at hclash
  obtain ⟨-, hfree⟩ := hclash
  have hother : ∀ {k old}, r.networks.get? k = some old →
      old.name ≠ row.name ∧ old.token ≠ row.token :=
    fun hk => hfree _ ((r.networks.mem_entries _ _).mpr hk)
  constructor
  case networkName =>
    intro id1 id2 row1 row2 h1 h2 hname
    rcases OMap.get?_set_cases h1 with ⟨rfl, rfl⟩ | ⟨-, old1⟩ <;>
      rcases OMap.get?_set_cases h2 with ⟨rfl, rfl⟩ | ⟨-, old2⟩
    · rfl
    · exact absurd hname.symm (hother old2).1
    · exact absurd hname (hother old1).1
    · exact hs.networkName old1 old2 hname
  case networkToken =>
    intro id1 id2 row1 row2 h1 h2 htoken
    rcases OMap.get?_set_cases h1 with ⟨rfl, rfl⟩ | ⟨-, old1⟩ <;>
      rcases OMap.get?_set_cases h2 with ⟨rfl, rfl⟩ | ⟨-, old2⟩
    · rfl
    · exact absurd htoken.symm (hother old2).2
    · exact absurd htoken (hother old1).2
    · exact hs.networkToken old1 old2 htoken
  case peerNetwork =>
    intro p prow hp
    rw [OMap.has_set, hs.peerNetwork hp, Bool.or_true]
  case peerName => exact hs.peerName
  case portPeers => exact hs.portPeers
  case linkPeers => exact hs.linkPeers

/-- An `UPDATE networks` that keeps the token; a name may change to one that is free. -/
theorem Schema.mapNetwork {r : Rows} (hs : Schema r) {id : NetworkId}
    {f : NetworkRecord → NetworkRecord} (htok : ∀ row, (f row).token = row.token)
    (hname : ∀ row, r.networks.get? id = some row → ∀ id' row', r.networks.get? id' = some row' →
      (f row).name = row'.name → id = id') :
    Schema (r.mapNetwork id f) := by
  have hget : ∀ {k row}, (r.mapNetwork id f).networks.get? k = some row →
      ∃ old, r.networks.get? k = some old ∧ row = if k = id then f old else old := by
    intro k row hk
    rw [Rows.mapNetwork, OMap.get?_mapVals, Option.map_eq_some_iff] at hk
    obtain ⟨old, hold, rfl⟩ := hk
    exact ⟨old, hold, rfl⟩
  constructor
  case networkName =>
    intro id1 id2 row1 row2 h1 h2 he
    obtain ⟨old1, hold1, rfl⟩ := hget h1
    obtain ⟨old2, hold2, rfl⟩ := hget h2
    split at he <;> split at he
    · rename_i e1 e2
      exact e1.trans e2.symm
    · rename_i e1 _
      subst e1
      exact hname old1 hold1 id2 old2 hold2 he
    · rename_i _ e2
      subst e2
      exact (hname old2 hold2 id1 old1 hold1 he.symm).symm
    · exact hs.networkName hold1 hold2 he
  case networkToken =>
    have hold : ∀ {k : NetworkId} {old : NetworkRecord},
        (if k = id then f old else old).token = old.token := by
      intro k old
      split
      · exact htok old
      · rfl
    intro id1 id2 row1 row2 h1 h2 he
    obtain ⟨old1, hold1, rfl⟩ := hget h1
    obtain ⟨old2, hold2, rfl⟩ := hget h2
    rw [hold, hold] at he
    exact hs.networkToken hold1 hold2 he
  case peerNetwork =>
    intro p prow hp
    rw [Rows.mapNetwork, OMap.has_mapVals]
    exact hs.peerNetwork hp
  case peerName => exact hs.peerName
  case portPeers => exact hs.portPeers
  case linkPeers => exact hs.linkPeers

theorem Schema.deletePeersWhere {r : Rows} (hs : Schema r) (gone : PeerId → Bool) :
    Schema (r.deletePeersWhere gone) := by
  have hold : ∀ {k row}, (r.deletePeersWhere gone).peers.get? k = some row →
      r.peers.get? k = some row := fun hk => (OMap.get?_filter_eq_some.mp hk).1
  -- a key of a referring table that stays names two peers that stay
  have hkeep : ∀ {k : PeerId × PeerId}, r.peers.has k.1 = true ∧ r.peers.has k.2 = true →
      (!gone k.1 && !gone k.2) = true →
      (r.deletePeersWhere gone).peers.has k.1 = true ∧
        (r.deletePeersWhere gone).peers.has k.2 = true := by
    intro k hk hg
    simp only [Bool.and_eq_true, Bool.not_eq_true'] at hg
    constructor
    · show (r.peers.filter fun id _ => !gone id).has k.1 = true
      rw [OMap.has_filter, hk.1, hg.1]
      rfl
    · show (r.peers.filter fun id _ => !gone id).has k.2 = true
      rw [OMap.has_filter, hk.2, hg.2]
      rfl
  constructor
  case networkName => exact hs.networkName
  case networkToken => exact hs.networkToken
  case peerNetwork =>
    intro p row hp
    exact hs.peerNetwork (hold hp)
  case peerName =>
    intro id1 id2 row1 row2 h1 h2
    exact hs.peerName (hold h1) (hold h2)
  case portPeers =>
    intro k hk
    simp only [Rows.deletePeersWhere, OMap.has_filter _ fun k : PeerId × PeerId =>
      !gone k.1 && !gone k.2, Bool.and_eq_true] at hk
    exact hkeep (hs.portPeers hk.1) (by simpa using hk.2)
  case linkPeers =>
    intro k hk
    simp only [Rows.deletePeersWhere, OMap.has_filter _ fun k : PeerId × PeerId =>
      !gone k.1 && !gone k.2, Bool.and_eq_true] at hk
    exact hkeep (hs.linkPeers hk.1) (by simpa using hk.2)

theorem Schema.deleteNetwork {r : Rows} (hs : Schema r) (id : NetworkId) :
    Schema (r.deleteNetwork id) := by
  have hs' := hs.deletePeersWhere (r.inNetwork id)
  constructor
  case networkName =>
    intro id1 id2 row1 row2 h1 h2
    exact hs'.networkName (OMap.get?_of_get?_delete h1).2 (OMap.get?_of_get?_delete h2).2
  case networkToken =>
    intro id1 id2 row1 row2 h1 h2
    exact hs'.networkToken (OMap.get?_of_get?_delete h1).2 (OMap.get?_of_get?_delete h2).2
  case peerNetwork =>
    intro p row hp
    have hp : (r.deletePeersWhere (r.inNetwork id)).peers.get? p = some row := hp
    obtain ⟨hold, hstay⟩ := OMap.get?_filter_eq_some.mp hp
    have hne : id ≠ row.networkId := by
      rintro rfl
      simp [Rows.inNetwork, hold] at hstay
    obtain ⟨net, hnet⟩ := (OMap.has_iff _ _).mp (hs'.peerNetwork hp)
    exact OMap.has_of_get? ((OMap.get?_delete_ne _ hne).trans hnet)
  case peerName => exact hs'.peerName
  case portPeers => exact hs'.portPeers
  case linkPeers => exact hs'.linkPeers

theorem Schema.insertPeer {r : Rows} (hs : Schema r) {id : PeerId} {row : PeerRecord}
    (hclash : r.peerClash id row = false) (hnet : r.networks.has row.networkId = true) :
    Schema { r with peers := r.peers.set id row } := by
  simp only [Rows.peerClash, Bool.or_eq_false_iff, List.any_eq_false, Bool.and_eq_true,
    beq_iff_eq, not_and] at hclash
  have hother : ∀ {k old}, r.peers.get? k = some old → old.networkId = row.networkId →
      old.name ≠ row.name :=
    fun hk => hclash.2 _ ((r.peers.mem_entries _ _).mpr hk)
  have hhas : ∀ {p}, r.peers.has p = true → (r.peers.set id row).has p = true := by
    intro p hp
    rw [OMap.has_set, hp, Bool.or_true]
  constructor
  case networkName => exact hs.networkName
  case networkToken => exact hs.networkToken
  case peerNetwork =>
    intro p prow hp
    rcases OMap.get?_set_cases hp with ⟨-, rfl⟩ | ⟨-, hp⟩
    · exact hnet
    · exact hs.peerNetwork hp
  case peerName =>
    intro id1 id2 row1 row2 h1 h2 hn hname
    rcases OMap.get?_set_cases h1 with ⟨rfl, rfl⟩ | ⟨-, old1⟩ <;>
      rcases OMap.get?_set_cases h2 with ⟨rfl, rfl⟩ | ⟨-, old2⟩
    · rfl
    · exact absurd hname.symm (hother old2 hn.symm)
    · exact absurd hname (hother old1 hn)
    · exact hs.peerName old1 old2 hn hname
  case portPeers =>
    intro k hk
    exact ⟨hhas (hs.portPeers hk).1, hhas (hs.portPeers hk).2⟩
  case linkPeers =>
    intro k hk
    exact ⟨hhas (hs.linkPeers hk).1, hhas (hs.linkPeers hk).2⟩

theorem Schema.mapPeer {r : Rows} (hs : Schema r) (id : PeerId) (a : Assignment) :
    Schema (r.mapPeer id a.apply) := by
  have hget : ∀ {k row}, (r.mapPeer id a.apply).peers.get? k = some row →
      ∃ old, r.peers.get? k = some old ∧ row.networkId = old.networkId ∧ row.name = old.name := by
    intro k row hk
    rw [Rows.mapPeer, OMap.get?_mapVals, Option.map_eq_some_iff] at hk
    obtain ⟨old, hold, rfl⟩ := hk
    refine ⟨old, hold, ?_, ?_⟩ <;> split <;> simp
  constructor
  case networkName => exact hs.networkName
  case networkToken => exact hs.networkToken
  case peerNetwork =>
    intro p row hp
    obtain ⟨old, hold, hn, -⟩ := hget hp
    rw [hn]
    exact hs.peerNetwork hold
  case peerName =>
    intro id1 id2 row1 row2 h1 h2 hn hname
    obtain ⟨old1, h1, hn1, hname1⟩ := hget h1
    obtain ⟨old2, h2, hn2, hname2⟩ := hget h2
    exact hs.peerName h1 h2 (by rw [← hn1, ← hn2, hn]) (by rw [← hname1, ← hname2, hname])
  case portPeers =>
    intro k hk
    simpa [Rows.mapPeer] using hs.portPeers hk
  case linkPeers =>
    intro k hk
    simpa [Rows.mapPeer] using hs.linkPeers hk

theorem Schema.upsertPort {r : Rows} (hs : Schema r) {a b : PeerId} (ha : r.peers.has a = true)
    (hb : r.peers.has b = true) (port : Int) :
    Schema { r with peerPorts := r.peerPorts.set (a, b) port } where
  networkName := hs.networkName
  networkToken := hs.networkToken
  peerNetwork := hs.peerNetwork
  peerName := hs.peerName
  portPeers := by
    intro k hk
    rw [OMap.has_set, Bool.or_eq_true, decide_eq_true_eq] at hk
    rcases hk with rfl | hk
    · exact ⟨ha, hb⟩
    · exact hs.portPeers hk
  linkPeers := hs.linkPeers

theorem Schema.upsertLink {r : Rows} (hs : Schema r) {a b : PeerId} (ha : r.peers.has a = true)
    (hb : r.peers.has b = true) (row : LinkRow) :
    Schema { r with peerLinks := r.peerLinks.set (a, b) row } where
  networkName := hs.networkName
  networkToken := hs.networkToken
  peerNetwork := hs.peerNetwork
  peerName := hs.peerName
  portPeers := hs.portPeers
  linkPeers := by
    intro k hk
    rw [OMap.has_set, Bool.or_eq_true, decide_eq_true_eq] at hk
    rcases hk with rfl | hk
    · exact ⟨ha, hb⟩
    · exact hs.linkPeers hk

theorem Schema.mapLinks {r : Rows} (hs : Schema r) (f : PeerId × PeerId → LinkRow → LinkRow) :
    Schema { r with peerLinks := r.peerLinks.mapVals f } where
  networkName := hs.networkName
  networkToken := hs.networkToken
  peerNetwork := hs.peerNetwork
  peerName := hs.peerName
  portPeers := hs.portPeers
  linkPeers := by
    intro k hk
    rw [OMap.has_mapVals] at hk
    exact hs.linkPeers hk

/-! ## The statements -/

namespace Tables

theorem ext_rows {t t' : Tables} (h : t.toRows = t'.toRows) : t = t' := by
  cases t; cases t'; cases h; rfl

def empty : Tables where
  toRows := ⟨.empty, .empty, .empty, .empty⟩
  schema := by
    constructor <;> intros <;> contradiction

/-- `INSERT INTO networks`. -/
def insertNetwork (t : Tables) (id : NetworkId) (row : NetworkRecord) : Except Refusal Tables :=
  if h : t.networkClash id row = false then
    .ok ⟨{ t.toRows with networks := t.networks.set id row }, t.schema.insertNetwork h⟩
  else .error .unique

/-- `UPDATE networks SET name = ? WHERE id = ?`. -/
def renameNetwork (t : Tables) (id : NetworkId) (name : JsString) : Except Refusal Tables :=
  if h : t.nameClash id name = false then
    .ok ⟨t.mapNetwork id fun row => { row with name },
      t.schema.mapNetwork (fun _ => rfl) (by
        intro row hrow id' row' hrow' hname
        by_contra hne
        have hclash : t.nameClash id name = true := by
          simp only [Rows.nameClash, OMap.has_of_get? hrow, Bool.true_and, List.any_eq_true]
          exact ⟨(id', row'), (t.networks.mem_entries _ _).mpr hrow', by
            simpa [Ne.symm hne] using hname.symm⟩
        rw [hclash] at h
        cases h)⟩
  else .error .unique

/-- `UPDATE networks SET relay_enabled = ? WHERE id = ?`. -/
def setRelayEnabled (t : Tables) (id : NetworkId) (enabled : Bool) : Tables :=
  ⟨t.mapNetwork id fun row => { row with relayEnabled := if enabled then 1 else 0 },
    t.schema.mapNetwork (fun _ => rfl) fun _ hrow _ _ hrow' hname =>
      t.schema.networkName hrow hrow' hname⟩

/-- `DELETE FROM networks WHERE id = ?`. -/
def deleteNetwork (t : Tables) (id : NetworkId) : Tables :=
  ⟨t.toRows.deleteNetwork id, t.schema.deleteNetwork id⟩

/-- `INSERT INTO peers`. -/
def insertPeer (t : Tables) (id : PeerId) (row : PeerRecord) : Except Refusal Tables :=
  if h : t.peerClash id row = false then
    if hnet : t.networks.has row.networkId = true then
      .ok ⟨{ t.toRows with peers := t.peers.set id row }, t.schema.insertPeer h hnet⟩
    else .error .foreignKey
  else .error .unique

/-- `UPDATE peers SET … WHERE id = ?`. -/
def updatePeer (t : Tables) (id : PeerId) (a : Assignment) : Tables :=
  ⟨t.mapPeer id a.apply, t.schema.mapPeer id a⟩

def deletePeersWhere (t : Tables) (gone : PeerId → Bool) : Tables :=
  ⟨t.toRows.deletePeersWhere gone, t.schema.deletePeersWhere gone⟩

/-- `DELETE FROM peers WHERE id = ?`. -/
def deletePeer (t : Tables) (id : PeerId) : Tables := t.deletePeersWhere fun p => decide (p = id)

/-- `INSERT INTO peer_ports … ON CONFLICT(from_peer_id, to_peer_id) DO UPDATE`. -/
def upsertPort (t : Tables) (fromPeerId toPeerId : PeerId) (port : Int) : Except Refusal Tables :=
  if h : t.peers.has fromPeerId = true ∧ t.peers.has toPeerId = true then
    .ok ⟨{ t.toRows with peerPorts := t.peerPorts.set (fromPeerId, toPeerId) port },
      t.schema.upsertPort h.1 h.2 port⟩
  else .error .foreignKey

/-- `INSERT INTO peer_links … ON CONFLICT(from_peer_id, to_peer_id) DO UPDATE`: every column but
`forced_mode` is overwritten. -/
def upsertLink (t : Tables) (fromPeerId toPeerId : PeerId) (row : LinkRow) :
    Except Refusal Tables :=
  if h : t.peers.has fromPeerId = true ∧ t.peers.has toPeerId = true then
    let forced := match t.peerLinks.get? (fromPeerId, toPeerId) with
      | some old => old.forcedMode
      | none => none
    .ok ⟨{ t.toRows with
        peerLinks := t.peerLinks.set (fromPeerId, toPeerId) { row with forcedMode := forced } },
      t.schema.upsertLink h.1 h.2 _⟩
  else .error .foreignKey

/-- `UPDATE peer_links SET forced_mode = ?` for both directions of a pair. -/
def setForcedMode (t : Tables) (peerA peerB : PeerId) (mode : Option ForcedMode) : Tables :=
  ⟨{ t.toRows with peerLinks := t.peerLinks.mapVals fun k r =>
      if k = (peerA, peerB) ∨ k = (peerB, peerA) then { r with forcedMode := mode } else r },
    t.schema.mapLinks _⟩

/-- `SELECT ipv4 FROM peers WHERE network_id = ?`. -/
def usedIps (t : Tables) (networkId : NetworkId) : List JsString :=
  (t.peers.entries.filter fun e => e.2.networkId == networkId).map fun e => e.2.ipv4

theorem mem_usedIps {t : Tables} {networkId : NetworkId} {ip : JsString} :
    ip ∈ t.usedIps networkId ↔
      ∃ id row, t.peers.get? id = some row ∧ row.networkId = networkId ∧ row.ipv4 = ip := by
  simp only [usedIps, List.mem_map, List.mem_filter, beq_iff_eq, Prod.exists, OMap.mem_entries,
    and_assoc]

/-! ## What a statement has done -/

section
variable {t t' : Tables}

theorem insertNetwork_ok {id : NetworkId} {row : NetworkRecord}
    (h : t.insertNetwork id row = .ok t') : t.networks.has id = false ∧
      t'.toRows = { t.toRows with networks := t.networks.set id row } := by
  unfold insertNetwork at h
  split at h
  · rename_i hclash
    cases h
    exact ⟨(Bool.or_eq_false_iff.mp hclash).1, rfl⟩
  · cases h

theorem renameNetwork_ok {id : NetworkId} {name : JsString}
    (h : t.renameNetwork id name = .ok t') :
    t'.toRows = t.mapNetwork id fun row => { row with name } := by
  unfold renameNetwork at h
  split at h
  · cases h
    rfl
  · cases h

theorem insertPeer_ok {id : PeerId} {row : PeerRecord} (h : t.insertPeer id row = .ok t') :
    t.peers.has id = false ∧ t.networks.has row.networkId = true ∧
      t'.toRows = { t.toRows with peers := t.peers.set id row } := by
  unfold insertPeer at h
  split at h
  · rename_i hclash
    split at h
    · rename_i hnet
      cases h
      exact ⟨(Bool.or_eq_false_iff.mp hclash).1, hnet, rfl⟩
    · cases h
  · cases h

theorem upsertPort_ok {fromPeerId toPeerId : PeerId} {port : Int}
    (h : t.upsertPort fromPeerId toPeerId port = .ok t') :
    (t.peers.has fromPeerId = true ∧ t.peers.has toPeerId = true) ∧
      t'.toRows = { t.toRows with peerPorts := t.peerPorts.set (fromPeerId, toPeerId) port } := by
  unfold upsertPort at h
  split at h
  · rename_i hpeers
    cases h
    exact ⟨hpeers, rfl⟩
  · cases h

theorem upsertLink_ok {fromPeerId toPeerId : PeerId} {row : LinkRow}
    (h : t.upsertLink fromPeerId toPeerId row = .ok t') :
    ∃ new, t'.toRows = { t.toRows with
      peerLinks := t.peerLinks.set (fromPeerId, toPeerId) new } := by
  unfold upsertLink at h
  split at h
  · cases h
    exact ⟨_, rfl⟩
  · cases h

end

/-! ## Statements without effect -/

theorem mapNetwork_of_absent {r : Rows} {id : NetworkId} (h : r.networks.get? id = none)
    (f : NetworkRecord → NetworkRecord) : r.mapNetwork id f = r := by
  refine congrArg (fun networks => { r with networks }) (OMap.mapVals_eq_self fun k row hrow => ?_)
  have hk : k ≠ id := by
    rintro rfl
    rw [h] at hrow
    cases hrow
  exact if_neg hk

theorem setRelayEnabled_of_absent {t : Tables} {id : NetworkId} (h : t.networks.get? id = none)
    (enabled : Bool) : t.setRelayEnabled id enabled = t :=
  ext_rows (mapNetwork_of_absent h _)

theorem renameNetwork_of_absent {t t' : Tables} {id : NetworkId} {name : JsString}
    (h : t.networks.get? id = none) (hok : t.renameNetwork id name = .ok t') : t' = t :=
  ext_rows ((renameNetwork_ok hok).trans (mapNetwork_of_absent h _))

theorem renameNetwork_isSome {t t' : Tables} {id : NetworkId} {name : JsString}
    (hok : t.renameNetwork id name = .ok t') (k : NetworkId) :
    (t'.networks.get? k).isSome = (t.networks.get? k).isSome := by
  rw [renameNetwork_ok hok]
  show ((t.networks.mapVals _).get? k).isSome = _
  simp

/-- An update that leaves the row of the peer as it is leaves the tables as they are. -/
theorem updatePeer_eq_self {t : Tables} {id : PeerId} {a : Assignment} {row : PeerRecord}
    (hrow : t.peers.get? id = some row) : t.updatePeer id a = t ↔ a.apply row = row := by
  constructor
  · intro h
    have hget : (t.updatePeer id a).peers.get? id = some (a.apply row) := by
      show (t.peers.mapVals _).get? id = _
      simp [hrow]
    rw [h, hrow] at hget
    exact (Option.some.inj hget).symm
  · intro h
    apply ext_rows
    refine congrArg (fun peers => { t.toRows with peers }) (OMap.mapVals_eq_self fun k old hold => ?_)
    by_cases hk : k = id
    · subst hk
      rw [hrow] at hold
      cases hold
      exact (if_pos rfl).trans h
    · exact if_neg hk

end Tables

end Meshezia.Api
