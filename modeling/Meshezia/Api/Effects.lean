import Meshezia.Api.Step
import Meshezia.Api.Reads

/-!
# What each request does to the tables

Every request leaves the tables as they are or executes its statements after its own check
of the token: `Effect` lists the cases, one for each endpoint that writes, with what was
checked (`handle_effect`).  Later modules read the tables after a request off these cases.
-/

namespace Meshezia.Api

/-- One `UPDATE peers` after the other. -/
def updatePeers (t : Tables) (id : PeerId) (as : List Assignment) : Tables :=
  as.foldl (fun t a => t.updatePeer id a) t

/-- The tables after a request: as before, or after the statements of its endpoint. -/
inductive Effect (env : Env) (t : Tables) (draws : Draws) : Request → Tables → Prop where
  | unchanged {request} : Effect env t draws request t
  | createNetwork {authorization body row t'} (admin : requireAdmin env authorization = none)
      (inserted : t.insertNetwork draws.id row = .ok t') :
      Effect env t draws (.postNetworks authorization body) t'
  | deleteNetwork {authorization id} (admin : requireAdmin env authorization = none) :
      Effect env t draws (.deleteNetwork authorization id) (t.deleteNetwork id)
  | patchNetwork {authorization id body} {t' : Tables}
      (admin : requireAdmin env authorization = none)
      (peers : t'.peers = t.peers) (ports : t'.peerPorts = t.peerPorts)
      (links : t'.peerLinks = t.peerLinks) :
      Effect env t draws (.patchNetwork authorization id body) t'
  | registerPeer {authorization body row t'}
      (allowed : requireAdminOrNetwork env t authorization row.networkId = none)
      (inserted : t.insertPeer draws.id row = .ok t') :
      Effect env t draws (.postPeers authorization body) t'
  | deletePeer {authorization id row} (found : t.peers.get? id = some row)
      (allowed : requireAdminOrNetwork env t authorization row.networkId = none) :
      Effect env t draws (.deletePeer authorization id) (t.deletePeer id)
  | putPorts {authorization id body row ports t'} (found : t.peers.get? id = some row)
      (allowed : requireAdminOrNetwork env t authorization row.networkId = none)
      (read : readPorts body = .ok ports) (upserted : upsertPorts t id ports = .ok t') :
      Effect env t draws (.putPorts authorization id (some body)) t'
  | getConfig {authorization id row} (found : t.peers.get? id = some row)
      (allowed : requireAdminOrNetwork env t authorization row.networkId = none) :
      Effect env t draws (.getConfig authorization id) (t.updatePeer id (.lastSeen draws.now))
  | forceMode {authorization body peerA peerB mode}
      (admin : requireAdmin env authorization = none) :
      Effect env t draws (.postForceMode authorization body) (t.setForcedMode peerA peerB mode)
  | patchPeer {authorization id body row as} (found : t.peers.get? id = some row)
      (allowed : requireAdminOrNetwork env t authorization row.networkId = none) :
      Effect env t draws (.patchPeer authorization id body) (updatePeers t id as)

section
variable {env : Env} {t : Tables} {draws : Draws}

theorem renameNetwork_frame {t' : Tables} {id : NetworkId} {name : JsString}
    (h : t.renameNetwork id name = .ok t') :
    t'.peers = t.peers ∧ t'.peerPorts = t.peerPorts ∧ t'.peerLinks = t.peerLinks := by
  rw [Tables.renameNetwork_ok h]
  exact ⟨rfl, rfl, rfl⟩

theorem patchRelayEnabled_frame (t : Tables) (id : NetworkId) (body : Json) :
    (patchRelayEnabled t id body).peers = t.peers ∧
      (patchRelayEnabled t id body).peerPorts = t.peerPorts ∧
      (patchRelayEnabled t id body).peerLinks = t.peerLinks := by
  unfold patchRelayEnabled
  split <;> exact ⟨rfl, rfl, rfl⟩

theorem effect_postNetworks (authorization : Option JsString) (body : Option Json) :
    Effect env t draws (.postNetworks authorization body)
      (postNetworks env t authorization body draws).1 := by
  unfold postNetworks
  split
  · exact .unchanged
  · rename_i hadmin
    split
    · exact .unchanged
    · exact .unchanged
    · split
      · exact .unchanged
      · split
        · exact .unchanged
        · dsimp only
          split
          · exact .unchanged
          · exact .unchanged
          · rename_i hok
            exact .createNetwork hadmin hok

theorem effect_patchNetwork (authorization : Option JsString) (id : NetworkId)
    (body : Option Json) : Effect env t draws (.patchNetwork authorization id body)
      (patchNetwork env t authorization id body).1 := by
  unfold patchNetwork
  split
  · exact .unchanged
  · rename_i hadmin
    split
    · exact .unchanged
    · exact .unchanged
    · split
      · rw [answerNetwork_fst]
        obtain ⟨hpeers, hports, hlinks⟩ := patchRelayEnabled_frame t id _
        exact .patchNetwork hadmin hpeers hports hlinks
      · split
        · exact .unchanged
        · dsimp only
          split
          · exact .unchanged
          · split
            · exact .unchanged
            · rename_i hok
              rw [answerNetwork_fst]
              obtain ⟨hpeers, hports, hlinks⟩ := renameNetwork_frame hok
              obtain ⟨hpeers', hports', hlinks'⟩ := patchRelayEnabled_frame _ id _
              exact .patchNetwork hadmin (hpeers'.trans hpeers) (hports'.trans hports)
                (hlinks'.trans hlinks)

theorem effect_postPeers (authorization : Option JsString) (body : Option Json) :
    Effect env t draws (.postPeers authorization body)
      (postPeers env t authorization body draws).1 := by
  unfold postPeers
  split
  · exact .unchanged
  · exact .unchanged
  · split
    · exact .unchanged
    · split
      · exact .unchanged
      · rename_i hallowed
        split
        · exact .unchanged
        · split
          · exact .unchanged
          · split
            · exact .unchanged
            · dsimp only
              split
              · exact .unchanged
              · exact .unchanged
              · rename_i hok
                exact .registerPeer hallowed hok

theorem effect_putPorts (authorization : Option JsString) (peerId : PeerId)
    (body : Option Json) : Effect env t draws (.putPorts authorization peerId body)
      (putPorts env t authorization peerId body).1 := by
  unfold putPorts putPortsCheck
  cases hfound : t.peers.get? peerId with
  | none => exact .unchanged
  | some row =>
    dsimp only
    split
    · exact .unchanged
    · rename_i hallowed
      unfold putPortsBody
      split
      · exact .unchanged
      · split
        · exact .unchanged
        · rename_i hread
          split
          · exact .unchanged
          · rename_i hok
            exact .putPorts hfound hallowed hread hok

theorem effect_postForceMode (authorization : Option JsString) (body : Option Json) :
    Effect env t draws (.postForceMode authorization body)
      (postForceMode env t authorization body).1 := by
  unfold postForceMode
  split
  · exact .unchanged
  · rename_i hadmin
    split
    · exact .unchanged
    · exact .unchanged
    · split
      · split
        · exact .unchanged
        · split
          · split
            · exact .forceMode hadmin
            · exact .unchanged
          · exact .unchanged
      · exact .unchanged

/-- The fields that are written before the first one that does not pass. -/
theorem applyFields_updates (t : Tables) (id : PeerId) (ps : List FieldPatch) :
    ∃ as, (applyFields t id ps).1 = updatePeers t id as := by
  induction ps generalizing t with
  | nil => exact ⟨[], rfl⟩
  | cons p rest ih =>
    cases p with
    | absent => exact ih t
    | invalid text => exact ⟨[], rfl⟩
    | write a =>
      obtain ⟨as, has⟩ := ih (t.updatePeer id a)
      exact ⟨a :: as, has⟩

theorem effect_patchPeer (authorization : Option JsString) (id : PeerId) (body : Option Json) :
    Effect env t draws (.patchPeer authorization id body)
      (patchPeer env t authorization id body).1 := by
  unfold patchPeer
  split
  · exact .unchanged
  · rename_i given
    split
    · exact .unchanged
    · rename_i hfound
      split
      · exact .unchanged
      · rename_i hallowed
        split
        · exact .unchanged
        · obtain ⟨as, has⟩ := applyFields_updates t id (patchFields env.lang given)
          have hfst : (patchPeerFields env t id given).1 = updatePeers t id as := by
            rw [← has]
            unfold patchPeerFields
            split
            · rename_i he
              rw [he]
              rfl
            · rename_i he
              rw [he]
              dsimp only
              split <;> rfl
          rw [hfst]
          exact .patchPeer hfound hallowed

theorem effect_deletePeer (authorization : Option JsString) (id : PeerId) :
    Effect env t draws (.deletePeer authorization id) (deletePeer env t authorization id).1 := by
  unfold deletePeer
  split
  · exact .unchanged
  · rename_i hfound
    split
    · exact .unchanged
    · rename_i hallowed
      exact .deletePeer hfound hallowed

theorem effect_getConfig (authorization : Option JsString) (peerId : PeerId) :
    Effect env t draws (.getConfig authorization peerId)
      (getConfig env t authorization peerId draws).1 := by
  unfold getConfig
  split
  · exact .unchanged
  · rename_i hfound
    split
    · exact .unchanged
    · rename_i hallowed
      dsimp only
      split <;> exact .getConfig hfound hallowed

/-- **Every request** has one of these effects. -/
theorem handle_effect (env : Env) (t : Tables) (draws : Draws) (request : Request) :
    Effect env t draws request (handle env t draws request).1 := by
  cases request with
  | postNetworks authorization body => exact effect_postNetworks authorization body
  | deleteNetwork authorization id =>
    show Effect env t draws _ (deleteNetwork env t authorization id).1
    unfold deleteNetwork
    split
    · exact .unchanged
    · rename_i hadmin
      exact .deleteNetwork hadmin
  | patchNetwork authorization id body => exact effect_patchNetwork authorization id body
  | postPeers authorization body => exact effect_postPeers authorization body
  | deletePeer authorization id => exact effect_deletePeer authorization id
  | putPorts authorization peerId body => exact effect_putPorts authorization peerId body
  | getConfig authorization peerId => exact effect_getConfig authorization peerId
  | postForceMode authorization body => exact effect_postForceMode authorization body
  | patchPeer authorization id body => exact effect_patchPeer authorization id body

end

/-! ## The statements on single rows -/

theorem get?_updatePeer (t : Tables) (id : PeerId) (a : Assignment) (p : PeerId) :
    (t.updatePeer id a).peers.get? p =
      (t.peers.get? p).map fun row => if p = id then a.apply row else row :=
  OMap.get?_mapVals ..

/-- The updates of a peer leave the other peers, and its own network, alone. -/
theorem updatePeers_frame (t : Tables) (id : PeerId) (as : List Assignment) :
    (updatePeers t id as).networks = t.networks ∧ (updatePeers t id as).peerPorts = t.peerPorts ∧
      (updatePeers t id as).peerLinks = t.peerLinks ∧
      (∀ p, p ≠ id → (updatePeers t id as).peers.get? p = t.peers.get? p) ∧
      ∀ p, ((updatePeers t id as).peers.get? p).map PeerRecord.networkId =
        (t.peers.get? p).map PeerRecord.networkId := by
  unfold updatePeers
  refine foldl_invariant (I := fun t' : Tables => t'.networks = t.networks ∧
    t'.peerPorts = t.peerPorts ∧ t'.peerLinks = t.peerLinks ∧
    (∀ p, p ≠ id → t'.peers.get? p = t.peers.get? p) ∧
    ∀ p, (t'.peers.get? p).map PeerRecord.networkId = (t.peers.get? p).map PeerRecord.networkId)
    _ as ?_ ⟨rfl, rfl, rfl, fun _ _ => rfl, fun _ => rfl⟩
  rintro t' a - ⟨hnetworks, hports, hlinks, hother, hnet⟩
  refine ⟨hnetworks, hports, hlinks, fun p hp => ?_, fun p => ?_⟩
  · rw [get?_updatePeer, ← hother p hp]
    simp [hp]
  · rw [get?_updatePeer, ← hnet p, Option.map_map]
    refine congrArg (fun f => (t'.peers.get? p).map f) (funext fun row => ?_)
    dsimp only [Function.comp]
    split <;> simp

/-- Only port rows of the peer differ. -/
structure OnlyPortsOf (id : PeerId) (t t' : Tables) : Prop where
  networks : t'.networks = t.networks
  peers : t'.peers = t.peers
  links : t'.peerLinks = t.peerLinks
  ports : ∀ k : PeerId × PeerId, k.1 ≠ id → t'.peerPorts.get? k = t.peerPorts.get? k

/-- The rows that a port report writes are those of its peer. -/
theorem onlyPortsOf_upsertPorts {t t' : Tables} {id : PeerId} {ports : List (PeerId × Int)}
    (h : upsertPorts t id ports = .ok t') : OnlyPortsOf id t t' := by
  refine foldlM_invariant (I := OnlyPortsOf id t) ports ?_ ⟨rfl, rfl, rfl, fun _ _ => rfl⟩ h
  rintro t1 t2 e - ⟨hnetworks, hpeers, hlinks, hports⟩ hok
  have hrows := (Tables.upsertPort_ok hok).2
  refine ⟨?_, ?_, ?_, fun k hk => ?_⟩ <;> rw [hrows]
  · exact hnetworks
  · exact hpeers
  · exact hlinks
  · rw [← hports k hk]
    exact OMap.get?_set_ne _ _ fun he => hk (by rw [← he])

theorem onlyPortsOf_putPortsBody (t : Tables) (id : PeerId) (body : Option Json) :
    OnlyPortsOf id t (putPortsBody t id body).1 := by
  have hsame : OnlyPortsOf id t t := ⟨rfl, rfl, rfl, fun _ _ => rfl⟩
  unfold putPortsBody
  split
  · exact hsame
  · split
    · exact hsame
    · split
      · exact hsame
      · rename_i hok
        exact onlyPortsOf_upsertPorts hok

end Meshezia.Api
