import Meshezia.Api.Effects

/-!
# What a network token can write

A request whose bearer is the token of a network passes no check but those for that
network: the admin token is another one, and tokens are unique.  So each endpoint refuses it
or writes rows of the network only, and a peer that goes takes along port and link rows of
its own:

    NetworkBearer env t net authorization →
      OutsideKept net t (answer server t draws request).1 ∧
      (admin only, or a peer of another network → no row changes)      (writes_inside_network)

A `PUT /api/peers/:id/ports` may get its body when other requests have been served; then too
it writes port rows of its own peer only.
-/

namespace Meshezia.Api

/-! ## What is claimed -/

/-- The bearer is the token of the network, and not the admin token. -/
structure NetworkBearer (env : Env) (t : Tables) (net : NetworkId)
    (authorization : Option JsString) : Prop where
  token : ∃ row, t.networks.get? net = some row ∧ getBearer authorization = some row.token
  notAdmin : getBearer authorization ≠ some env.adminToken

/-- The networks, the peers of other networks, and the ports and links without a peer of the
network are the same. -/
structure OutsideKept (net : NetworkId) (t t' : Tables) : Prop where
  networks : t'.networks = t.networks
  peers : ∀ p row, row.networkId ≠ net → (t'.peers.get? p = some row ↔ t.peers.get? p = some row)
  ports : ∀ k, t.inNetwork net k.1 = false → t.inNetwork net k.2 = false →
    t'.peerPorts.get? k = t.peerPorts.get? k
  links : ∀ k, t.inNetwork net k.1 = false → t.inNetwork net k.2 = false →
    t'.peerLinks.get? k = t.peerLinks.get? k

/-! ## What the checks of the token let through -/

section
variable {env : Env} {t : Tables} {net : NetworkId} {authorization : Option JsString}

theorem requireAdmin_of_network (h : NetworkBearer env t net authorization) :
    requireAdmin env authorization = some unauthorized := by
  have hadmin : isAdmin env authorization = false := by
    unfold isAdmin
    simpa using h.notAdmin
  rw [requireAdmin, hadmin]
  rfl

theorem isNetworkToken_iff (m : NetworkId) : isNetworkToken t authorization m = true ↔
    ∃ row, t.networks.get? m = some row ∧ getBearer authorization = some row.token ∧
      row.token ≠ [] := by
  unfold isNetworkToken
  cases hbearer : getBearer authorization with
  | none => simp
  | some token =>
    cases hrow : t.networks.get? m with
    | none => simp
    | some row =>
      simp only [Bool.and_eq_true, Bool.not_eq_true', List.isEmpty_eq_false_iff, beq_iff_eq,
        Option.some.injEq, exists_eq_left']
      constructor
      · rintro ⟨hne, he⟩
        exact ⟨he.symm, by rw [he]; exact hne⟩
      · rintro ⟨he, hne⟩
        exact ⟨by rw [he]; exact hne, he.symm⟩

/-- Only the network of the token is let through. -/
theorem eq_of_allowed (h : NetworkBearer env t net authorization) {m : NetworkId}
    (hallowed : requireAdminOrNetwork env t authorization m = none) : m = net := by
  have hadmin : isAdmin env authorization = false := by
    unfold isAdmin
    simpa using h.notAdmin
  have htoken : isNetworkToken t authorization m = true := by
    unfold requireAdminOrNetwork at hallowed
    rw [hadmin, Bool.false_or] at hallowed
    split at hallowed
    · assumption
    · cases hallowed
  obtain ⟨row, hrow, hbearer, -⟩ := (isNetworkToken_iff m).mp htoken
  obtain ⟨own, hown, hbearer'⟩ := h.token
  exact t.schema.networkToken hrow hown (Option.some.inj (hbearer.symm.trans hbearer'))

/-! ## The effects of a request with a network token -/

theorem inNetwork_of_get? {p : PeerId} {row : PeerRecord} (hrow : t.peers.get? p = some row) :
    t.inNetwork row.networkId p = true := by
  simp [Rows.inNetwork, hrow]

theorem OutsideKept.refl (net : NetworkId) (t : Tables) : OutsideKept net t t :=
  ⟨rfl, fun _ _ _ => Iff.rfl, fun _ _ _ => rfl, fun _ _ _ => rfl⟩

theorem outsideKept_updatePeers {id : PeerId} {row : PeerRecord}
    (hrow : t.peers.get? id = some row) (as : List Assignment) :
    OutsideKept row.networkId t (updatePeers t id as) := by
  obtain ⟨hnetworks, hports, hlinks, hother, hnet⟩ := updatePeers_frame t id as
  refine ⟨hnetworks, fun p row' hne => ?_, fun k _ _ => by rw [hports], fun k _ _ => by rw [hlinks]⟩
  by_cases hp : p = id
  · -- the peer itself is in the network, before and after
    subst hp
    have hnet' := hnet p
    rw [hrow, Option.map_some, Option.map_eq_some_iff] at hnet'
    obtain ⟨new, hnew, hsame⟩ := hnet'
    rw [hnew, hrow]
    constructor
    · rintro h
      cases h
      exact absurd hsame hne
    · rintro h
      cases h
      exact absurd rfl hne
  · rw [hother p hp]

theorem outsideKept_deletePeer {id : PeerId} {row : PeerRecord}
    (hrow : t.peers.get? id = some row) : OutsideKept row.networkId t (t.deletePeer id) := by
  have hin := inNetwork_of_get? hrow
  have hpair : ∀ k : PeerId × PeerId, t.inNetwork row.networkId k.1 = false →
      t.inNetwork row.networkId k.2 = false →
      (!decide (k.1 = id) && !decide (k.2 = id)) = true := by
    intro k h1 h2
    have hne1 : k.1 ≠ id := fun e => by rw [e, hin] at h1; cases h1
    have hne2 : k.2 ≠ id := fun e => by rw [e, hin] at h2; cases h2
    simp [hne1, hne2]
  refine ⟨rfl, fun p row' hne => ?_, fun k h1 h2 => ?_, fun k h1 h2 => ?_⟩
  · show (t.peers.filter fun p _ => !decide (p = id)).get? p = some row' ↔ _
    rw [OMap.get?_filter_eq_some]
    refine ⟨fun h => h.1, fun h => ⟨h, ?_⟩⟩
    have hp : p ≠ id := by
      rintro rfl
      rw [hrow] at h
      cases h
      exact hne rfl
    simpa using hp
  · show (t.peerPorts.filter fun k _ => !decide (k.1 = id) && !decide (k.2 = id)).get? k = _
    rw [OMap.get?_filter, hpair k h1 h2]
    cases t.peerPorts.get? k <;> rfl
  · show (t.peerLinks.filter fun k _ => !decide (k.1 = id) && !decide (k.2 = id)).get? k = _
    rw [OMap.get?_filter, hpair k h1 h2]
    cases t.peerLinks.get? k <;> rfl

theorem outsideKept_registerPeer {t' : Tables} {id : PeerId} {row : PeerRecord}
    (h : t.insertPeer id row = .ok t') : OutsideKept row.networkId t t' := by
  obtain ⟨hfree, -, hrows⟩ := Tables.insertPeer_ok h
  rw [OMap.has_eq_false_iff] at hfree
  refine ⟨by rw [hrows], fun p row' hne => ?_, fun k _ _ => by rw [hrows],
    fun k _ _ => by rw [hrows]⟩
  rw [hrows]
  show (t.peers.set id row).get? p = some row' ↔ _
  by_cases hp : id = p
  · subst hp
    rw [OMap.get?_set_self, hfree]
    constructor
    · intro h
      cases h
      exact absurd rfl hne
    · intro h
      cases h
  · rw [OMap.get?_set_ne _ _ hp]

theorem outsideKept_putPorts {t' : Tables} {id : PeerId} {row : PeerRecord}
    {ports : List (PeerId × Int)} (hrow : t.peers.get? id = some row)
    (h : upsertPorts t id ports = .ok t') : OutsideKept row.networkId t t' := by
  obtain ⟨hnetworks, hpeers, hlinks, hports⟩ := onlyPortsOf_upsertPorts h
  refine ⟨hnetworks, fun p row' _ => by rw [hpeers], fun k h1 _ => hports k fun e => ?_,
    fun k _ _ => by rw [hlinks]⟩
  rw [e, inNetwork_of_get? hrow] at h1
  cases h1

/-- A `PUT …/ports` that is let through names a peer of the network. -/
theorem inNetwork_of_putPortsCheck (h : NetworkBearer env t net authorization) {peerId : PeerId}
    (hcheck : putPortsCheck env t authorization peerId = none) : t.inNetwork net peerId = true := by
  unfold putPortsCheck at hcheck
  split at hcheck
  · cases hcheck
  · rename_i row hrow
    exact eq_of_allowed h hcheck ▸ inNetwork_of_get? hrow

/-- A request with a network token writes inside the network. -/
theorem Effect.outsideKept {draws : Draws} {request : Request} {t' : Tables}
    (h : NetworkBearer env t net request.authorization) (heffect : Effect env t draws request t') :
    OutsideKept net t t' := by
  cases heffect with
  | unchanged => exact .refl net t
  | createNetwork admin inserted => cases (requireAdmin_of_network h).symm.trans admin
  | deleteNetwork admin => cases (requireAdmin_of_network h).symm.trans admin
  | patchNetwork admin peers ports links => cases (requireAdmin_of_network h).symm.trans admin
  | forceMode admin => cases (requireAdmin_of_network h).symm.trans admin
  | registerPeer allowed inserted =>
    exact eq_of_allowed h allowed ▸ outsideKept_registerPeer inserted
  | deletePeer found allowed => exact eq_of_allowed h allowed ▸ outsideKept_deletePeer found
  | putPorts found allowed read upserted =>
    exact eq_of_allowed h allowed ▸ outsideKept_putPorts found upserted
  | getConfig found allowed =>
    exact eq_of_allowed h allowed ▸ outsideKept_updatePeers found [.lastSeen draws.now]
  | patchPeer found allowed => exact eq_of_allowed h allowed ▸ outsideKept_updatePeers found _

/-- An admin-only request, or one on a peer of another network, writes nothing. -/
theorem Effect.refused {draws : Draws} {request : Request} {t' : Tables}
    (h : NetworkBearer env t net request.authorization) (heffect : Effect env t draws request t')
    (houtside : request.adminOnly = true ∨ ∃ p row, request.peer? = some p ∧
      t.peers.get? p = some row ∧ row.networkId ≠ net) : t' = t := by
  have hforeign : ∀ {id : PeerId} {row : PeerRecord}, request.peer? = some id →
      request.adminOnly = false → t.peers.get? id = some row →
      requireAdminOrNetwork env t request.authorization row.networkId = none → False := by
    intro id row hid hnot hrow hallowed
    rcases houtside with hadmin | ⟨p, row', hp, hrow', hne⟩
    · rw [hnot] at hadmin
      cases hadmin
    · rw [hid] at hp
      cases hp
      rw [hrow] at hrow'
      cases hrow'
      exact hne (eq_of_allowed h hallowed)
  cases heffect with
  | unchanged => rfl
  | createNetwork admin inserted => cases (requireAdmin_of_network h).symm.trans admin
  | deleteNetwork admin => cases (requireAdmin_of_network h).symm.trans admin
  | patchNetwork admin peers ports links => cases (requireAdmin_of_network h).symm.trans admin
  | forceMode admin => cases (requireAdmin_of_network h).symm.trans admin
  | registerPeer allowed inserted =>
    rcases houtside with hadmin | ⟨p, row, hp, -⟩
    · cases hadmin
    · cases hp
  | deletePeer found allowed => exact (hforeign rfl rfl found allowed).elim
  | putPorts found allowed read upserted => exact (hforeign rfl rfl found allowed).elim
  | getConfig found allowed => exact (hforeign rfl rfl found allowed).elim
  | patchPeer found allowed => exact (hforeign rfl rfl found allowed).elim

end

/-! ## Top theorem -/

/-- **A network token writes inside its network only**, whatever the request is. -/
theorem writes_inside_network (server : Server) (t : Tables) (draws : Draws) (net : NetworkId)
    (request : ApiRequest) (h : NetworkBearer server.toEnv t net request.authorization) :
    OutsideKept net t (answer server t draws request).1 ∧
    (request.adminOnly = true ∨ (∃ p row, request.peer? = some p ∧ t.peers.get? p = some row ∧
      row.networkId ≠ net) → (answer server t draws request).1 = t) ∧
    -- a report of ports that was let through, whose body comes in a later state
    ∀ peerId, putPortsCheck server.toEnv t request.authorization peerId = none →
      t.inNetwork net peerId = true ∧
      ∀ later body, OnlyPortsOf peerId later (putPortsBody later peerId body).1 := by
  have hlater : ∀ peerId, putPortsCheck server.toEnv t request.authorization peerId = none →
      t.inNetwork net peerId = true ∧
      ∀ later body, OnlyPortsOf peerId later (putPortsBody later peerId body).1 :=
    fun peerId hcheck => ⟨inNetwork_of_putPortsCheck h hcheck,
      fun later body => onlyPortsOf_putPortsBody later peerId body⟩
  cases request with
  | write request =>
    have heffect := handle_effect server.toEnv t draws request
    exact ⟨heffect.outsideKept h, heffect.refused h, hlater⟩
  | _ => exact ⟨.refl net t, fun _ => rfl, hlater⟩

def lanUuid : NetworkId := js "00000000-0000-4000-8000-000000000003"

def lanPeerUuid : PeerId := js "00000000-0000-4000-8000-000000000004"

/-- A second network, with a peer. -/
def lanTables : Tables :=
  (handle sampleEnv (handle sampleEnv sampleTables { drawsOf lanUuid with token := js "other" }
    (networkRequest [(js "name", .str (js "lan"))])).1 (drawsOf lanPeerUuid)
    (.postPeers sampleAdmin (some (.obj [(js "networkId", .str lanUuid),
      (js "name", .str (js "b"))])))).1

/-- The token of the first network does not delete the peer of the second one. -/
theorem writes_inside_network_lan :
    let request := ApiRequest.write (.deletePeer (some (js "Bearer token")) lanPeerUuid)
    OutsideKept networkUuid lanTables (answer sampleServer lanTables (drawsOf []) request).1 ∧
      (answer sampleServer lanTables (drawsOf []) request).1 = lanTables := by
  have h := writes_inside_network sampleServer lanTables (drawsOf []) networkUuid
    (.write (.deletePeer (some (js "Bearer token")) lanPeerUuid)) ⟨⟨_, rfl, rfl⟩, by decide⟩
  exact ⟨h.1, h.2.1 (Or.inr ⟨lanPeerUuid, _, rfl, rfl, by decide⟩)⟩

end Meshezia.Api
