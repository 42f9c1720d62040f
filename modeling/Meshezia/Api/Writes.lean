import Meshezia.Api.Step
import Meshezia.Server.Step

/-!
# The API as the negotiator sees it

The negotiator, the relay and the reaper work on a database with fewer columns (`Db`),
to which the endpoints write in a few ways only (`ApiWrite`, and the `forced_mode` of
`POST /api/links/force-mode`).  That is the database of the API with its other columns left
out (`Rows.toDb`): what a request, a body of a `PUT …/ports` or a run of the reaper does to
the tables is, on that database, a sequence of these writes:

    (step env s e).tables.toDb = ws.foldl DbWrite.apply s.tables.toDb      (step_toDb)
    (exec env es).tables.toDb = ws.foldl DbWrite.apply .empty              (exec_toDb)

A delete of many peers is a sequence of deletes of one, since the schema leaves no row
without its peers.
-/

namespace Meshezia.Api

/-! ## The database of the negotiator -/

def NetworkRecord.toRow (row : NetworkRecord) : NetworkRow := { relayEnabled := row.relayEnabled }

def PeerRecord.toRow (row : PeerRecord) : PeerRow where
  networkId := row.networkId
  publicIp := row.publicIp
  pubkey := row.pubkey
  lastSeen := row.lastSeen
  ttlSeconds := row.ttlSeconds

def Rows.toDb (r : Rows) : Db where
  networks := r.networks.mapTo NetworkRecord.toRow
  peers := r.peers.mapTo PeerRecord.toRow
  peerPorts := r.peerPorts
  peerLinks := r.peerLinks

theorem has_toDb_peers (r : Rows) (p : PeerId) : r.toDb.peers.has p = r.peers.has p :=
  OMap.has_mapTo r.peers _ p

theorem has_toDb_networks (r : Rows) (id : NetworkId) :
    r.toDb.networks.has id = r.networks.has id :=
  OMap.has_mapTo r.networks _ id

/-- A write to the database of the negotiator: by an endpoint, or to the column
`forced_mode`. -/
inductive DbWrite where
  | api (write : ApiWrite)
  | forced (peerA peerB : PeerId) (mode : Option ForcedMode)

def DbWrite.apply (db : Db) : DbWrite → Db
  | .api write => write.apply db
  | .forced peerA peerB mode => db.setForcedMode peerA peerB mode

/-- The one database comes from the other by a sequence of writes. -/
def Written (db db' : Db) : Prop := ∃ ws : List DbWrite, db' = ws.foldl DbWrite.apply db

theorem written_refl (db : Db) : Written db db := ⟨[], rfl⟩

theorem written_trans {db db' db'' : Db} (h : Written db db') (h' : Written db' db'') :
    Written db db'' := by
  obtain ⟨ws, rfl⟩ := h
  obtain ⟨ws', rfl⟩ := h'
  exact ⟨ws ++ ws', by rw [List.foldl_append]⟩

theorem written_api (db : Db) (write : ApiWrite) : Written db (write.apply db) :=
  ⟨[.api write], rfl⟩

/-! ## Deletes -/

/-- Of whom a delete says nothing, it may say anything. -/
theorem deletePeersWhere_congr {db : Db} {gone gone' : PeerId → Bool}
    (hpeers : ∀ p, db.peers.has p = true → gone p = gone' p)
    (hports : ∀ {k : PeerId × PeerId}, db.peerPorts.has k = true →
      db.peers.has k.1 = true ∧ db.peers.has k.2 = true)
    (hlinks : ∀ {k : PeerId × PeerId}, db.peerLinks.has k = true →
      db.peers.has k.1 = true ∧ db.peers.has k.2 = true) :
    db.deletePeersWhere gone = db.deletePeersWhere gone' := by
  have hpair : ∀ {k : PeerId × PeerId}, db.peers.has k.1 = true ∧ db.peers.has k.2 = true →
      (!gone k.1 && !gone k.2) = (!gone' k.1 && !gone' k.2) := by
    rintro k ⟨h1, h2⟩
    rw [hpeers _ h1, hpeers _ h2]
  have h1 : db.peers.filter (fun id _ => !gone id) = db.peers.filter fun id _ => !gone' id :=
    OMap.filter_congr fun p _ hp => congrArg _ (hpeers p (OMap.has_of_get? hp))
  have h2 : db.peerPorts.filter (fun k _ => !gone k.1 && !gone k.2) =
      db.peerPorts.filter fun k _ => !gone' k.1 && !gone' k.2 :=
    OMap.filter_congr fun _ _ hk => hpair (hports (OMap.has_of_get? hk))
  have h3 : db.peerLinks.filter (fun k _ => !gone k.1 && !gone k.2) =
      db.peerLinks.filter fun k _ => !gone' k.1 && !gone' k.2 :=
    OMap.filter_congr fun _ _ hk => hpair (hlinks (OMap.has_of_get? hk))
  unfold Db.deletePeersWhere
  rw [h1, h2, h3]

/-- Two deletes are one. -/
theorem deletePeersWhere_deletePeersWhere (db : Db) (gone gone' : PeerId → Bool) :
    (db.deletePeersWhere gone).deletePeersWhere gone' =
      db.deletePeersWhere fun p => gone p || gone' p := by
  have hone : ∀ p, (!gone p && !gone' p) = !(gone p || gone' p) := by
    intro p
    rw [Bool.not_or]
  have hpair : ∀ k : PeerId × PeerId,
      ((!gone k.1 && !gone k.2) && (!gone' k.1 && !gone' k.2)) =
        (!(gone k.1 || gone' k.1) && !(gone k.2 || gone' k.2)) := by
    intro k
    cases gone k.1 <;> cases gone k.2 <;> simp
  unfold Db.deletePeersWhere
  simp only [OMap.filter_filter, hone, hpair]

theorem deletePeersWhere_none (db : Db) : db.deletePeersWhere (fun _ => false) = db := by
  have hall : ∀ {κ α : Type} (m : OMap κ α), (m.filter fun _ _ => true) = m := by
    intro κ α m
    exact OMap.ext_entries (List.filter_eq_self.mpr fun _ _ => rfl)
  unfold Db.deletePeersWhere
  simp only [Bool.not_false, Bool.and_self, hall]

/-- Deletes of one peer after the other are one delete. -/
theorem deletePeers_foldl (db : Db) (l : List PeerId) :
    l.foldl (fun db p => db.deletePeer p) db = db.deletePeersWhere fun p => l.contains p := by
  induction l generalizing db with
  | nil => exact (deletePeersWhere_none db).symm
  | cons p rest ih =>
    rw [List.foldl_cons, ih]
    unfold Db.deletePeer
    rw [deletePeersWhere_deletePeersWhere]
    refine congrArg db.deletePeersWhere (funext fun q => ?_)
    simp

/-! ## The statements -/

section
variable (t : Tables)

theorem toDb_setRelayEnabled (id : NetworkId) (enabled : Bool) :
    (t.setRelayEnabled id enabled).toDb = t.toDb.setRelayEnabled id enabled := by
  have hnet : (t.setRelayEnabled id enabled).toDb.networks =
      (t.toDb.setRelayEnabled id enabled).networks := by
    unfold Tables.setRelayEnabled Rows.mapNetwork Db.setRelayEnabled Rows.toDb
    dsimp only
    refine OMap.mapTo_mapVals t.networks NetworkRecord.toRow fun k row => ?_
    split <;> rfl
  exact congrArg (fun networks => { t.toDb with networks }) hnet

theorem toDb_renameNetwork {t' : Tables} {id : NetworkId} {name : JsString}
    (h : t.renameNetwork id name = .ok t') : t'.toDb = t.toDb := by
  have hnet : (t.mapNetwork id fun row => { row with name }).toDb.networks =
      t.toDb.networks := by
    refine OMap.mapTo_mapVals_of_same t.networks NetworkRecord.toRow fun k row => ?_
    split <;> rfl
  rw [Tables.renameNetwork_ok h]
  exact congrArg (fun networks => { t.toDb with networks }) hnet

theorem toDb_deletePeersWhere (gone : PeerId → Bool) :
    (t.toRows.deletePeersWhere gone).toDb = t.toDb.deletePeersWhere gone :=
  congrArg (fun peers => { t.toDb.deletePeersWhere gone with peers })
    (OMap.mapTo_filter t.peers PeerRecord.toRow fun p => !gone p)

theorem toDb_inNetwork (id : NetworkId) : t.toDb.inNetwork id = t.inNetwork id := by
  funext p
  have hget : t.toDb.peers.get? p = (t.peers.get? p).map PeerRecord.toRow :=
    OMap.get?_mapTo t.peers _ p
  unfold Db.inNetwork Rows.inNetwork
  rw [hget]
  cases t.peers.get? p with
  | none => rfl
  | some row => simp [PeerRecord.toRow, Bool.beq_eq_decide_eq]

theorem toDb_deleteNetwork (id : NetworkId) :
    (t.deleteNetwork id).toDb = t.toDb.deleteNetwork id := by
  have hnet : (t.networks.delete id).mapTo NetworkRecord.toRow =
      (t.networks.mapTo NetworkRecord.toRow).delete id :=
    OMap.mapTo_filter t.networks NetworkRecord.toRow fun k => decide (k ≠ id)
  rw [deleteNetwork_eq, toDb_inNetwork, ← toDb_deletePeersWhere]
  exact congrArg
    (fun networks => { (t.toRows.deletePeersWhere (t.inNetwork id)).toDb with networks }) hnet

theorem toDb_insertNetwork {t' : Tables} {id : NetworkId} {row : NetworkRecord}
    (h : t.insertNetwork id row = .ok t') : t'.toDb = t.toDb.insertNetwork id row.toRow := by
  obtain ⟨hfree, hrows⟩ := Tables.insertNetwork_ok h
  rw [hrows]
  unfold Db.insertNetwork
  rw [has_toDb_networks, hfree]
  exact congrArg (fun networks => { t.toDb with networks })
    (OMap.mapTo_set t.networks NetworkRecord.toRow id row)

theorem toDb_insertPeer {t' : Tables} {id : PeerId} {row : PeerRecord}
    (h : t.insertPeer id row = .ok t') : t'.toDb = t.toDb.insertPeer id row.toRow := by
  obtain ⟨hfree, hnet, hrows⟩ := Tables.insertPeer_ok h
  have hknown : t.toDb.networks.has row.toRow.networkId = true :=
    (has_toDb_networks _ _).trans hnet
  rw [hrows]
  unfold Db.insertPeer
  rw [has_toDb_peers, hfree, hknown]
  exact congrArg (fun peers => { t.toDb with peers })
    (OMap.mapTo_set t.peers PeerRecord.toRow id row)

/-- One column of a peer: a write, if the negotiator has the column. -/
theorem written_updatePeer (id : PeerId) (a : Assignment) :
    Written t.toDb (t.updatePeer id a).toDb := by
  have hseen : ∀ f : PeerRow → PeerRow,
      (∀ row, (a.apply row).toRow = { f row.toRow with networkId := row.networkId }) →
      (t.updatePeer id a).toDb = t.toDb.updatePeer id f := by
    intro f hf
    have hpeers : (t.updatePeer id a).toDb.peers = (t.toDb.updatePeer id f).peers := by
      unfold Tables.updatePeer Rows.mapPeer Db.updatePeer Rows.toDb
      dsimp only
      refine OMap.mapTo_mapVals t.peers PeerRecord.toRow fun k row => ?_
      split
      · exact hf row
      · rfl
    exact congrArg (fun peers => { t.toDb with peers }) hpeers
  have hunseen : (∀ row, (a.apply row).toRow = row.toRow) →
      Written t.toDb (t.updatePeer id a).toDb := by
    intro hf
    have hpeers : (t.updatePeer id a).toDb.peers = t.toDb.peers := by
      refine OMap.mapTo_mapVals_of_same t.peers PeerRecord.toRow fun k row => ?_
      split
      · exact hf row
      · rfl
    exact ⟨[], congrArg (fun peers => { t.toDb with peers }) hpeers⟩
  cases a with
  | publicIp v => exact ⟨[.api (.updatePeer id none (some v) none)], hseen _ fun _ => rfl⟩
  | pubkey v => exact ⟨[.api (.updatePeer id (some v) none none)], hseen _ fun _ => rfl⟩
  | lastSeen v => exact ⟨[.api (.touchLastSeen id v)], hseen _ fun _ => rfl⟩
  | ttlSeconds v => exact ⟨[.api (.updatePeer id none none (some v))], hseen _ fun _ => rfl⟩
  | memo v => exact hunseen fun _ => rfl
  | agentVersion v => exact hunseen fun _ => rfl

/-- A delete of many peers, one after the other. -/
theorem written_deletePeersWhere (gone : PeerId → Bool) :
    Written t.toDb (t.deletePeersWhere gone).toDb := by
  refine ⟨((t.peers.keys.filter gone).map ApiWrite.deletePeer).map DbWrite.api, ?_⟩
  rw [List.foldl_map, List.foldl_map]
  refine (toDb_deletePeersWhere t gone).trans (Eq.trans ?_ (deletePeers_foldl _ _).symm)
  refine deletePeersWhere_congr ?_ ?_ ?_
  · intro p hp
    have hkey : p ∈ t.peers.keys := (OMap.mem_keys _ _).mpr (has_toDb_peers _ _ ▸ hp)
    rw [Bool.eq_iff_iff, List.contains_iff_mem, List.mem_filter]
    exact ⟨fun hg => ⟨hkey, hg⟩, fun hg => hg.2⟩
  · intro k hk
    rw [has_toDb_peers, has_toDb_peers]
    exact t.schema.portPeers hk
  · intro k hk
    rw [has_toDb_peers, has_toDb_peers]
    exact t.schema.linkPeers hk

theorem written_upsertPort {t' : Tables} {fromPeerId toPeerId : PeerId} {port : Int}
    (h : t.upsertPort fromPeerId toPeerId port = .ok t') : Written t.toDb t'.toDb := by
  obtain ⟨hpeers, hrows⟩ := Tables.upsertPort_ok h
  refine ⟨[.api (.putPorts fromPeerId [(toPeerId, port)])], ?_⟩
  have hport : t.toDb.upsertPort fromPeerId toPeerId port =
      some { t.toDb with peerPorts := t.toDb.peerPorts.set (fromPeerId, toPeerId) port } := by
    unfold Db.upsertPort
    rw [has_toDb_peers, has_toDb_peers, hpeers.1, hpeers.2]
    rfl
  rw [hrows]
  show _ = t.toDb.putPorts fromPeerId [(toPeerId, port)]
  unfold Db.putPorts
  rw [List.foldlM_cons, hport]
  rfl

end

/-! ## Runs -/

theorem written_update {t t' : Tables} (h : Update t t') : Written t.toDb t'.toDb := by
  cases h with
  | renameNetwork hok =>
    rw [toDb_renameNetwork t hok]
    exact written_refl _
  | setRelayEnabled id enabled =>
    rw [toDb_setRelayEnabled]
    exact written_api _ (.setRelayEnabled id enabled)
  | deleteNetwork id =>
    rw [toDb_deleteNetwork]
    exact written_api _ (.deleteNetwork id)
  | updatePeer id _ => exact written_updatePeer t id _
  | deletePeers gone => exact written_deletePeersWhere t gone
  | upsertPort _ _ hok => exact written_upsertPort t hok
  | setForcedMode peerA peerB mode => exact ⟨[.forced peerA peerB mode], rfl⟩

theorem written_updates {t t' : Tables} (h : Updates t t') : Written t.toDb t'.toDb :=
  @updates_keep (fun t' => Written t.toDb t'.toDb)
    (fun _ _ hw hu => written_trans hw (written_update hu)) _ _ (written_refl _) h

/-- **One step.**  To the negotiator it is a sequence of writes. -/
theorem step_toDb (env : Env) (s : ApiState) (e : Event) :
    ∃ ws : List DbWrite,
      (step env s e).tables.toDb = ws.foldl DbWrite.apply s.tables.toDb := by
  rcases step_writes env s e with h | h | ⟨request, draws, -, h⟩
  · exact written_updates h
  · obtain ⟨-, -, -, hok⟩ := h
    rw [toDb_insertPeer _ hok]
    exact written_api _ (.registerPeer _ _)
  · obtain ⟨-, hok, -⟩ := h
    rw [toDb_insertNetwork _ hok]
    exact written_api _ (.createNetwork _ _)

/-- **Runs.**  The database that a run of the API leaves is one that the negotiator's writes
make from the empty one. -/
theorem exec_toDb (env : Env) (es : List Event) :
    ∃ ws : List DbWrite, (exec env es).tables.toDb = ws.foldl DbWrite.apply .empty :=
  run_invariant (step env) (I := fun s => Written .empty s.tables.toDb)
    (fun s e hs => written_trans hs (step_toDb env s e)) (written_refl _) es

end Meshezia.Api
