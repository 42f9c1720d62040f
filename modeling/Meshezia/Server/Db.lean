import Meshezia.Lib.OMap
import Meshezia.Lib.JsString

/-!
# The database (`db.ts`)

The tables the negotiator, the relay and the reaper read and write, each an `OMap`
from its primary key to the other columns.  Only the columns those functions use
are here.  A statement that a foreign key refuses is `none`; a peer's `peer_ports`
and `peer_links` rows go with it (`ON DELETE CASCADE`).
-/

namespace Meshezia

abbrev PeerId := JsString
abbrev NetworkId := JsString

/-- `'direct' | 'relay'`. -/
inductive Mode where
  | direct
  | relay
deriving DecidableEq, Repr

/-- `'force-direct' | 'force-relay'`. -/
inductive ForcedMode where
  | forceDirect
  | forceRelay
deriving DecidableEq, Repr

structure NetworkRow where
  relayEnabled : Int := 1
deriving DecidableEq, Repr

structure PeerRow where
  networkId : NetworkId
  publicIp : JsString
  pubkey : JsString := []
  lastSeen : Int := 0
  ttlSeconds : Int := 0
deriving DecidableEq, Repr

/-- A row of `peer_links`; its key is `(from_peer_id, to_peer_id)`. -/
structure LinkRow where
  mode : Mode
  directAlive : Int := 0
  relayAlive : Int := 0
  probingDirect : Int := 0
  rxBytes : Int := 0
  txBytes : Int := 0
  lastHandshake : Int := 0
  endpoint : JsString := []
  ifName : JsString := []
  routingTable : Int := 0
  updatedAt : Int := 0
  forcedMode : Option ForcedMode := none
deriving DecidableEq, Repr

structure Db where
  networks : OMap NetworkId NetworkRow
  peers : OMap PeerId PeerRow
  peerPorts : OMap (PeerId × PeerId) Int
  peerLinks : OMap (PeerId × PeerId) LinkRow

/-- What SQL leaves to the query planner: which of several rows `LIMIT 1` returns,
and the order of the rows of a query without `ORDER BY`. -/
structure QueryPlan where
  limitOne : PeerId → PeerId → List LinkRow → Option LinkRow
  limitOne_mem : ∀ a b rows r, limitOne a b rows = some r → r ∈ rows
  limitOne_isSome : ∀ a b rows, rows ≠ [] → (limitOne a b rows).isSome
  rowOrder : List (PeerId × PeerId) → List (PeerId × PeerId)
  rowOrder_perm : ∀ rows, (rowOrder rows).Perm rows

/-- Rows in the order of the table, the first one for `LIMIT 1`. -/
def QueryPlan.tableOrder : QueryPlan where
  limitOne _ _ rows := rows.head?
  limitOne_mem _ _ rows r h := List.mem_of_mem_head? h
  limitOne_isSome _ _ rows h := by cases rows <;> simp_all
  rowOrder rows := rows
  rowOrder_perm rows := List.Perm.refl rows

namespace Db

def empty : Db := ⟨.empty, .empty, .empty, .empty⟩

/-! ## Queries -/

/-- The rows of a pair, in either direction. -/
def linksBetween (db : Db) (peerA peerB : PeerId) : List LinkRow :=
  (db.peerLinks.entries.filter fun e => e.1 = (peerA, peerB) || e.1 = (peerB, peerA)).map Prod.snd

/-- The self-join of `checkDirectProbes`: both sides in relay mode, neither forced. -/
def relayPairs (db : Db) : List (PeerId × PeerId) :=
  (db.peerLinks.entries.filter fun a =>
    match db.peerLinks.get? (a.1.2, a.1.1) with
    | some b => a.2.mode = .relay && b.mode = .relay && a.2.forcedMode = none &&
        b.forcedMode = none && jsLt a.1.1 a.1.2
    | none => false).map Prod.fst

/-! ## Statements -/

/-- `INSERT … ON CONFLICT(from_peer_id, to_peer_id) DO UPDATE`: every column but
`forced_mode` is overwritten.  `none` when a foreign key fails. -/
def upsertLink (db : Db) (fromPeerId toPeerId : PeerId) (row : LinkRow) : Option Db :=
  if db.peers.has fromPeerId && db.peers.has toPeerId then
    let forced := match db.peerLinks.get? (fromPeerId, toPeerId) with
      | some old => old.forcedMode
      | none => none
    some { db with
      peerLinks := db.peerLinks.set (fromPeerId, toPeerId) { row with forcedMode := forced } }
  else none

/-- The `forced_mode` of a row, `null` when there is no such row. -/
def forcedModeOf (db : Db) (k : PeerId × PeerId) : Option ForcedMode :=
  (db.peerLinks.get? k).bind LinkRow.forcedMode

/-- `INSERT INTO peer_ports … ON CONFLICT(from_peer_id, to_peer_id) DO UPDATE`. -/
def upsertPort (db : Db) (fromPeerId toPeerId : PeerId) (port : Int) : Option Db :=
  if db.peers.has fromPeerId && db.peers.has toPeerId then
    some { db with peerPorts := db.peerPorts.set (fromPeerId, toPeerId) port }
  else none

/-- The transaction of `PUT /api/peers/:id/ports`. -/
def putPorts (db : Db) (fromPeerId : PeerId) (ports : List (PeerId × Int)) : Db :=
  (ports.foldlM (fun (db : Db) e => db.upsertPort fromPeerId e.1 e.2) db).getD db

/-- `UPDATE peer_links SET forced_mode = ?` for both directions of a pair. -/
def setForcedMode (db : Db) (peerA peerB : PeerId) (mode : Option ForcedMode) : Db :=
  { db with peerLinks := db.peerLinks.mapVals fun k r =>
      if k = (peerA, peerB) ∨ k = (peerB, peerA) then { r with forcedMode := mode } else r }

/-- `DELETE FROM peers` for the peers that satisfy `gone`, with the cascade. -/
def deletePeersWhere (db : Db) (gone : PeerId → Bool) : Db :=
  { db with
    peers := db.peers.filter fun id _ => !gone id
    peerPorts := db.peerPorts.filter fun k _ => !gone k.1 && !gone k.2
    peerLinks := db.peerLinks.filter fun k _ => !gone k.1 && !gone k.2 }

def deletePeer (db : Db) (id : PeerId) : Db := db.deletePeersWhere fun p => decide (p = id)

/-- `DELETE FROM networks`: its peers go first. -/
def deleteNetwork (db : Db) (id : NetworkId) : Db :=
  let db := db.deletePeersWhere fun p =>
    match db.peers.get? p with
    | some row => decide (row.networkId = id)
    | none => false
  { db with networks := db.networks.delete id }

def insertNetwork (db : Db) (id : NetworkId) (row : NetworkRow) : Db :=
  if db.networks.has id then db else { db with networks := db.networks.set id row }

/-- `INSERT INTO peers`: refused when the id is taken or the network is missing. -/
def insertPeer (db : Db) (id : PeerId) (row : PeerRow) : Db :=
  if db.peers.has id || !db.networks.has row.networkId then db
  else { db with peers := db.peers.set id row }

def setRelayEnabled (db : Db) (id : NetworkId) (enabled : Bool) : Db :=
  { db with networks := db.networks.mapVals fun k r =>
      if k = id then { r with relayEnabled := if enabled then 1 else 0 } else r }

/-- `UPDATE peers SET … WHERE id = ?`; the network of a peer is never updated. -/
def updatePeer (db : Db) (id : PeerId) (f : PeerRow → PeerRow) : Db :=
  { db with peers := db.peers.mapVals fun k r =>
      if k = id then { f r with networkId := r.networkId } else r }

/-! ## What the statements do to the tables -/

section
variable (db : Db) (k : PeerId × PeerId)

theorem mem_linksBetween {peerA peerB : PeerId} {r : LinkRow} :
    r ∈ db.linksBetween peerA peerB ↔
      db.peerLinks.get? (peerA, peerB) = some r ∨ db.peerLinks.get? (peerB, peerA) = some r := by
  unfold linksBetween
  simp only [List.mem_map, List.mem_filter, Bool.or_eq_true, decide_eq_true_eq, Prod.exists,
    exists_eq_right, OMap.mem_entries]
  constructor
  · rintro ⟨a, b, hm, h | h⟩
    · left; rw [← h]; exact hm
    · right; rw [← h]; exact hm
  · rintro (h | h)
    · exact ⟨peerA, peerB, h, Or.inl rfl⟩
    · exact ⟨peerB, peerA, h, Or.inr rfl⟩

theorem mem_relayPairs {peerA peerB : PeerId} :
    (peerA, peerB) ∈ db.relayPairs ↔
      jsLt peerA peerB = true ∧ ∃ a b, db.peerLinks.get? (peerA, peerB) = some a ∧
        db.peerLinks.get? (peerB, peerA) = some b ∧ a.mode = .relay ∧ b.mode = .relay ∧
        a.forcedMode = none ∧ b.forcedMode = none := by
  unfold relayPairs
  simp only [List.mem_map, List.mem_filter]
  constructor
  · rintro ⟨⟨⟨x, y⟩, a⟩, ⟨hm, hb⟩, he⟩
    simp only [Prod.mk.injEq] at he
    obtain ⟨rfl, rfl⟩ := he
    cases hg : db.peerLinks.get? (y, x) with
    | none => simp [hg] at hb
    | some b =>
      simp only [hg, Bool.and_eq_true, decide_eq_true_eq] at hb
      exact ⟨hb.2, a, b, (db.peerLinks.mem_entries _ _).mp hm, rfl, hb.1.1.1.1, hb.1.1.1.2,
        hb.1.1.2, hb.1.2⟩
  · rintro ⟨hlt, a, b, ha, hb, h1, h2, h3, h4⟩
    refine ⟨((peerA, peerB), a), ⟨(db.peerLinks.mem_entries _ _).mpr ha, ?_⟩, rfl⟩
    simp [hb, h1, h2, h3, h4, hlt]

theorem get?_deletePeersWhere_links (gone : PeerId → Bool) :
    (db.deletePeersWhere gone).peerLinks.get? k =
      if gone k.1 = false ∧ gone k.2 = false then db.peerLinks.get? k else none := by
  show (db.peerLinks.filter _).get? k = _
  rw [OMap.get?_filter]
  cases db.peerLinks.get? k <;> cases gone k.1 <;> cases gone k.2 <;> simp [Option.filter]

theorem get?_setForcedMode (peerA peerB : PeerId) (mode : Option ForcedMode) :
    (db.setForcedMode peerA peerB mode).peerLinks.get? k = (db.peerLinks.get? k).map fun r =>
      if k = (peerA, peerB) ∨ k = (peerB, peerA) then { r with forcedMode := mode } else r := by
  simp [setForcedMode]

/-- An upsert between two peers that exist writes its row with the old `forced_mode`. -/
theorem upsertLink_eq (db : Db) (fromPeerId toPeerId : PeerId) (row : LinkRow) :
    db.upsertLink fromPeerId toPeerId row =
      if db.peers.has fromPeerId && db.peers.has toPeerId then
        some { db with
          peerLinks := db.peerLinks.set (fromPeerId, toPeerId)
            { row with forcedMode := db.forcedModeOf (fromPeerId, toPeerId) } }
      else none := by
  unfold upsertLink forcedModeOf
  cases db.peerLinks.get? (fromPeerId, toPeerId) <;> rfl

theorem eq_of_upsertLink {db db' : Db} {fromPeerId toPeerId : PeerId} {row : LinkRow}
    (h : db.upsertLink fromPeerId toPeerId row = some db') :
    db' = { db with
      peerLinks := db.peerLinks.set (fromPeerId, toPeerId)
        { row with forcedMode := db.forcedModeOf (fromPeerId, toPeerId) } } := by
  rw [upsertLink_eq] at h
  split at h
  · exact (Option.some.inj h).symm
  · cases h

/-- An upsert keeps the `forced_mode` of every row that was there. -/
theorem upsertLink_forced {db db' : Db} {fromPeerId toPeerId : PeerId} {row : LinkRow}
    (h : db.upsertLink fromPeerId toPeerId row = some db') {r : LinkRow}
    (hr : db.peerLinks.get? k = some r) :
    ∃ r', db'.peerLinks.get? k = some r' ∧ r'.forcedMode = r.forcedMode := by
  rw [eq_of_upsertLink h]
  by_cases hk : (fromPeerId, toPeerId) = k
  · subst hk
    exact ⟨_, OMap.get?_set_self .., by simp [forcedModeOf, hr]⟩
  · exact ⟨r, by simp [OMap.get?_set, hk, hr], rfl⟩

/-- `PUT /api/peers/:id/ports` writes its own table only. -/
theorem putPorts_eq (db : Db) (fromPeerId : PeerId) (ports : List (PeerId × Int)) :
    ∃ peerPorts, db.putPorts fromPeerId ports = { db with peerPorts } := by
  have hloop : ∀ (l : List (PeerId × Int)) (db db' : Db),
      l.foldlM (fun (db : Db) e => db.upsertPort fromPeerId e.1 e.2) db = some db' →
      ∃ peerPorts, db' = { db with peerPorts } := by
    intro l
    induction l with
    | nil =>
      intro db db' he
      simp only [List.foldlM_nil, Option.pure_def, Option.some.injEq] at he
      exact ⟨db.peerPorts, he.symm⟩
    | cons e rest ih =>
      intro db db' he
      simp only [List.foldlM_cons, Option.bind_eq_bind, Option.bind_eq_some_iff] at he
      obtain ⟨db1, h1, he⟩ := he
      obtain ⟨peerPorts, rfl⟩ := ih db1 db' he
      unfold upsertPort at h1
      split at h1
      · cases h1
        exact ⟨peerPorts, rfl⟩
      · cases h1
  unfold putPorts
  cases he : ports.foldlM (fun (db : Db) e => db.upsertPort fromPeerId e.1 e.2) db with
  | none => exact ⟨db.peerPorts, rfl⟩
  | some db' => exact hloop ports db db' he

end

end Db

/-- The peer is one of the network. -/
def Db.inNetwork (db : Db) (net : NetworkId) (q : PeerId) : Bool :=
  match db.peers.get? q with
  | some row => decide (row.networkId = net)
  | none => false

theorem deleteNetwork_eq (db : Db) (net : NetworkId) :
    db.deleteNetwork net =
      { db.deletePeersWhere (db.inNetwork net) with networks := db.networks.delete net } := rfl

end Meshezia
