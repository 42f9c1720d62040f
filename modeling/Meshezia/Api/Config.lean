import Meshezia.Lib.Sorted
import Meshezia.Api.Addresses

/-!
# What a configuration may contain

An agent splices a configuration into shell commands that it runs as root.  It is safe
(`SafeConfig`) when every key, address, endpoint and parameter in it is well formed.

Of the tables this needs that the addresses, keys and ports in them have passed their
checks (`Checked`), which every run keeps.  Two things are missing from the code.
`POST /api/networks` does not look at the nine parameters it is given, and a peer without
a public address gets an endpoint that begins with its colon once it has reported a port.
A configuration handed out in a run is safe exactly when neither happened:

    SafeConfig config ↔ the body that created the network has nine parameters that are
      integers or left out, and no peer with a key but without an address has a port for
      this one                                                        (config_safe_iff)
-/

namespace Meshezia.Api

/-! ## Safe configurations -/

def Scalar.isInteger : Scalar → Bool
  | .num n => n.isInteger
  | .str _ => false

/-- Empty, or an address, a colon and a port. -/
def SafeEndpoint (s : JsString) : Prop :=
  s = [] ∨ ∃ ip port, CanonicalIPv4 ip ∧ 1 ≤ port ∧ port ≤ 65535 ∧ s = joinAt 58 ip (decimal port)

/-- What `ensureInterface` puts into a command; it skips a peer without a key. -/
structure SafeConfig (config : PeerConfig) : Prop where
  self : CanonicalIPv4 config.self.meshIpv4
  awg : ∀ v ∈ config.network.toList, v.isInteger = true
  peers : ∀ p ∈ config.peers, p.pubkey ≠ [] →
    Base64Key p.pubkey ∧ CanonicalIPv4 p.meshIpv4 ∧ SafeEndpoint p.endpoint

/-- An address is not empty and has no colon, so nothing that begins with one is an
endpoint. -/
theorem not_safeEndpoint_of_colon (port : JsString) : ¬ SafeEndpoint (58 :: port) := by
  rintro (h | ⟨ip, n, hip, -, -, h⟩)
  · cases h
  · cases ip with
    | nil => exact canonical_ne_nil hip rfl
    | cons c rest =>
      simp only [joinAt, List.cons_append, List.cons.injEq] at h
      have hc := digit_or_dot_of_canonical hip (c := c) (by simp)
      rw [← h.1] at hc
      exact absurd hc (by decide)

/-! ## What passes the checks -/

/-- Addresses, keys and ports that have been checked. -/
structure Checked (t : Tables) : Prop where
  peer : ∀ id row, t.peers.get? id = some row →
    CanonicalIPv4 row.ipv4 ∧ AddressOrEmpty row.publicIp ∧ KeyOrEmpty row.pubkey
  port : ∀ k port, t.peerPorts.get? k = some port → 1 ≤ port ∧ port ≤ 65535

theorem update_ports {t t' : Tables} (h : Update t t') {k : PeerId × PeerId} {port : Int}
    (hport : t'.peerPorts.get? k = some port) :
    t.peerPorts.get? k = some port ∨ (1 ≤ port ∧ port ≤ 65535) := by
  cases h with
  | renameNetwork hok =>
    rw [Tables.renameNetwork_ok hok] at hport
    exact Or.inl hport
  | setRelayEnabled id enabled => exact Or.inl hport
  | deleteNetwork id => exact Or.inl (OMap.get?_filter_eq_some.mp hport).1
  | updatePeer id hchecked => exact Or.inl hport
  | deletePeers gone => exact Or.inl (OMap.get?_filter_eq_some.mp hport).1
  | upsertPort hlow hhigh hok =>
    rw [(Tables.upsertPort_ok hok).2] at hport
    rcases OMap.get?_set_cases hport with ⟨-, rfl⟩ | ⟨-, hport⟩
    · exact Or.inr ⟨hlow, hhigh⟩
    · exact Or.inl hport
  | setForcedMode peerA peerB mode => exact Or.inl hport

theorem checked_update {t t' : Tables} (ht : Checked t) (h : Update t t') : Checked t' := by
  constructor
  · intro id row' hrow'
    obtain ⟨row, hrow, rfl | ⟨a, ha, rfl⟩⟩ := update_peers h hrow'
    · exact ht.peer id row' hrow
    · obtain ⟨hip, haddress, hkey⟩ := ht.peer id row hrow
      cases a with
      | publicIp v => exact ⟨hip, ha, hkey⟩
      | pubkey v => exact ⟨hip, haddress, ha⟩
      | lastSeen v => exact ⟨hip, haddress, hkey⟩
      | ttlSeconds v => exact ⟨hip, haddress, hkey⟩
      | memo v => exact ⟨hip, haddress, hkey⟩
      | agentVersion v => exact ⟨hip, haddress, hkey⟩
  · intro k port hport
    rcases update_ports h hport with hport | hrange
    · exact ht.port k port hport
    · exact hrange

theorem checked_registered {lang : Coercions} {t t' : Tables} (ht : Checked t)
    (h : Registered lang t t') : Checked t' := by
  obtain ⟨new, row, -, -, hip, haddress, hkey, he⟩ := registered_peers h
  constructor
  · intro id row' hrow'
    rw [he] at hrow'
    rcases OMap.get?_set_cases hrow' with ⟨-, rfl⟩ | ⟨-, hrow'⟩
    · exact ⟨hip, haddress, hkey⟩
    · exact ht.peer id row' hrow'
  · intro k port hport
    rw [he] at hport
    exact ht.port k port hport

theorem created_toRows {env : Env} {draws : Draws} {t t' : Tables} {request : Request}
    (h : Created env draws t t' request) : ∃ authorization body row,
      request = .postNetworks authorization (some body) ∧
      (postNetworks env t authorization (some body) draws).2.status = 201 ∧
      bindAwg (bodyAwg body) draws.awg = some row.awg ∧
      t'.toRows = { t.toRows with networks := t.networks.set draws.id row } := by
  obtain ⟨hawg, hok, hstatus⟩ := h
  exact ⟨_, _, _, rfl, hstatus, hawg, (Tables.insertNetwork_ok hok).2⟩

/-- In every run the addresses, keys and ports in the tables have been checked. -/
theorem checked_exec (env : Env) (es : List Event) : Checked (exec env es).tables := by
  have hempty : Checked .empty := by
    constructor
    · intro id row h
      cases h
    · intro k port h
      cases h
  refine exec_invariant hempty (fun _ _ => checked_update) (fun _ _ => checked_registered) ?_ es
  intro t t' draws request ht h
  obtain ⟨_, _, _, -, -, -, he⟩ := created_toRows h
  constructor
  · rw [he]
    exact ht.peer
  · rw [he]
    exact ht.port

/-! ## The parameters of a network -/

/-- A parameter of a body that is stored as an integer. -/
def IntegerOrDefault : Option Json → Prop
  | none | some .null | some (.bool _) => True
  | some (.num n) => n.isInteger = true
  | some (.str _) | some (.arr _) | some (.obj _) => False

theorem bindOr_isInteger {d : Int} {v : Option Json} {s : Scalar}
    (h : bindOr (.num (.int d)) v = some s) : s.isInteger = true ↔ IntegerOrDefault v := by
  cases v with
  | none =>
    cases h
    simp [IntegerOrDefault, Scalar.isInteger, JsNumber.isInteger]
  | some v =>
    cases v with
    | null =>
      cases h
      simp [IntegerOrDefault, Scalar.isInteger, JsNumber.isInteger]
    | bool b =>
      cases h
      simp [IntegerOrDefault, Scalar.isInteger, JsNumber.isInteger]
    | num n =>
      cases h
      rfl
    | str s =>
      cases h
      simp [IntegerOrDefault, Scalar.isInteger]
    | arr items => cases h
    | obj fields => cases h

theorem bindAwg_isInteger {given : Awg (Option Json)} {defaults : Awg Int} {awg : Awg Scalar}
    (h : bindAwg given defaults = some awg) :
    (∀ s ∈ awg.toList, s.isInteger = true) ↔ ∀ v ∈ given.toList, IntegerOrDefault v := by
  simp only [bindAwg, Option.bind_eq_bind, Option.bind_eq_some_iff, Option.pure_def,
    Option.some.injEq] at h
  obtain ⟨jc, h1, jmin, h2, jmax, h3, s1, h4, s2, h5, x1, h6, x2, h7, x3, h8, x4, h9, rfl⟩ := h
  simp only [Awg.toList, List.forall_mem_cons, bindOr_isInteger h1, bindOr_isInteger h2,
    bindOr_isInteger h3, bindOr_isInteger h4, bindOr_isInteger h5, bindOr_isInteger h6,
    bindOr_isInteger h7, bindOr_isInteger h8, bindOr_isInteger h9, List.not_mem_nil,
    false_implies, implies_true]

/-- In the run `es` the network was created by a request with this body, and has been there
since. -/
inductive CreatedBy (env : Env) : List Event → NetworkId → Json → Draws → Prop where
  | post {es authorization body draws} :
      (postNetworks env (exec env es).tables authorization (some body) draws).2.status = 201 →
      CreatedBy env (es ++ [.serve (.postNetworks authorization (some body)) draws]) draws.id body
        draws
  | later {es e id body draws} : CreatedBy env es id body draws →
      (exec env (es ++ [e])).tables.networks.has id = true →
      CreatedBy env (es ++ [e]) id body draws

theorem update_networks {t t' : Tables} (h : Update t t') {id : NetworkId}
    {row' : NetworkRecord} (hrow' : t'.networks.get? id = some row') :
    ∃ row, t.networks.get? id = some row ∧ row'.awg = row.awg := by
  have hmap : ∀ (net : NetworkId) (f : NetworkRecord → NetworkRecord),
      (t.mapNetwork net f).networks.get? id = some row' → (∀ row, (f row).awg = row.awg) →
      ∃ row, t.networks.get? id = some row ∧ row'.awg = row.awg := by
    intro net f h hf
    rw [Rows.mapNetwork, OMap.get?_mapVals, Option.map_eq_some_iff] at h
    obtain ⟨row, hrow, rfl⟩ := h
    refine ⟨row, hrow, ?_⟩
    split
    · exact hf row
    · rfl
  cases h with
  | renameNetwork hok =>
    rw [Tables.renameNetwork_ok hok] at hrow'
    exact hmap _ _ hrow' fun _ => rfl
  | setRelayEnabled net enabled => exact hmap _ _ hrow' fun _ => rfl
  | deleteNetwork net => exact ⟨row', (OMap.get?_of_get?_delete hrow').2, rfl⟩
  | updatePeer p hchecked => exact ⟨row', hrow', rfl⟩
  | deletePeers gone => exact ⟨row', hrow', rfl⟩
  | upsertPort hlow hhigh hok =>
    rw [(Tables.upsertPort_ok hok).2] at hrow'
    exact ⟨row', hrow', rfl⟩
  | setForcedMode peerA peerB mode => exact ⟨row', hrow', rfl⟩

theorem updates_networks {t t' : Tables} (h : Updates t t') {id : NetworkId}
    {row' : NetworkRecord} (hrow' : t'.networks.get? id = some row') :
    ∃ row, t.networks.get? id = some row ∧ row'.awg = row.awg := by
  induction h generalizing row' with
  | refl => exact ⟨row', hrow', rfl⟩
  | tail _ hlast ih =>
    obtain ⟨mid, hmid, hsame⟩ := update_networks hlast hrow'
    obtain ⟨row, hrow, hawg⟩ := ih hmid
    exact ⟨row, hrow, hsame.trans hawg⟩

/-- Every network was created by a request, and has the parameters of its body. -/
theorem createdBy_of_network (env : Env) (es : List Event) {id : NetworkId} {row : NetworkRecord}
    (hrow : (exec env es).tables.networks.get? id = some row) :
    ∃ body draws, CreatedBy env es id body draws ∧
      bindAwg (bodyAwg body) draws.awg = some row.awg := by
  induction es using List.reverseRecOn generalizing row with
  | nil => cases hrow
  | append_singleton es e ih =>
    have hhas : (exec env (es ++ [e])).tables.networks.has id = true := OMap.has_of_get? hrow
    -- a network that was there before the step keeps its parameters
    have hold : (∃ old, (exec env es).tables.networks.get? id = some old ∧ row.awg = old.awg) →
        ∃ body draws, CreatedBy env (es ++ [e]) id body draws ∧
          bindAwg (bodyAwg body) draws.awg = some row.awg := by
      rintro ⟨old, hget, hawg⟩
      obtain ⟨body, draws, hcreated, hbind⟩ := ih hget
      exact ⟨body, draws, .later hcreated hhas, hawg ▸ hbind⟩
    rw [exec_concat] at hrow
    rcases step_writes env (exec env es) e with hupdates | hregistered | ⟨request, draws, rfl, hc⟩
    · exact hold (updates_networks hupdates hrow)
    · obtain ⟨_, _, -, -, -, -, -, he⟩ := registered_peers hregistered
      rw [he] at hrow
      exact hold ⟨row, hrow, rfl⟩
    · obtain ⟨authorization, body, new, rfl, hstatus, hbind, he⟩ := created_toRows hc
      rw [he] at hrow
      rcases OMap.get?_set_cases hrow with ⟨rfl, rfl⟩ | ⟨-, hrow⟩
      · exact ⟨body, draws, .post hstatus, hbind⟩
      · exact hold ⟨row, hrow, rfl⟩

/-! ## The configuration of a peer -/

theorem mem_otherPeers {t : Tables} {networkId : NetworkId} {peerId : PeerId}
    {e : PeerId × PeerRecord} : e ∈ otherPeers t networkId peerId ↔
      t.peers.get? e.1 = some e.2 ∧ e.2.networkId = networkId ∧ e.1 ≠ peerId := by
  obtain ⟨id, row⟩ := e
  simp [otherPeers, List.mem_insertionSort, OMap.mem_entries]

/-- The rows of the other peers decide their list. -/
theorem otherPeers_congr {t t' : Tables} {networkId : NetworkId} {peerId : PeerId}
    (h : ∀ p row, row.networkId = networkId → p ≠ peerId →
      (t.peers.get? p = some row ↔ t'.peers.get? p = some row)) :
    otherPeers t networkId peerId = otherPeers t' networkId peerId := by
  refine strictOrder_jsLt.sortBy_eq (t.peers.nodup.sublist (List.filter_sublist.map _)) ?_
  refine OMap.perm_filter_entries fun p row hp => ?_
  simp only [Bool.and_eq_true, beq_iff_eq, bne_iff_ne] at hp
  exact h p row hp.1 hp.2

/-- The write of the poll does not show in its answer. -/
theorem configFor_updatePeer (t : Tables) (peerId : PeerId) (a : Assignment) (peer : PeerRecord)
    (network : NetworkRecord) :
    configFor (t.updatePeer peerId a) peerId peer network = configFor t peerId peer network := by
  have hother : otherPeers (t.updatePeer peerId a) peer.networkId peerId =
      otherPeers t peer.networkId peerId := by
    refine otherPeers_congr fun p row _ hp => ?_
    show (t.peers.mapVals _).get? p = some row ↔ _
    rw [OMap.get?_mapVals]
    cases t.peers.get? p <;> simp [hp]
  unfold configFor
  rw [hother]
  rfl

/-- What a successful poll has checked, and its answer. -/
theorem getConfig_of_status {env : Env} {t : Tables} {authorization : Option JsString}
    {peerId : PeerId} {draws : Draws}
    (h : (getConfig env t authorization peerId draws).2.status = 200) :
    ∃ peer network, t.peers.get? peerId = some peer ∧
      requireAdminOrNetwork env t authorization peer.networkId = none ∧
      t.networks.get? peer.networkId = some network ∧
      (getConfig env t authorization peerId draws).2 =
        ⟨200, .config (configFor t peerId peer network)⟩ := by
  generalize hout : getConfig env t authorization peerId draws = out at h ⊢
  unfold getConfig at hout
  split at hout
  · rw [← hout] at h
    cases h
  · rename_i peer hpeer
    split at hout
    · rename_i deny hdeny
      rw [← hout] at h
      unfold requireAdminOrNetwork at hdeny
      split at hdeny
      · cases hdeny
      · cases hdeny
        cases h
    · rename_i hallowed
      dsimp only at hout
      split at hout
      · rw [← hout] at h
        cases h
      · rename_i network hnetwork
        refine ⟨peer, network, hpeer, hallowed, hnetwork, ?_⟩
        rw [← hout, configFor_updatePeer]

/-- What a successful poll returns: the configuration from the tables, which its own write
of `last_seen` does not change. -/
theorem getConfig_ok {env : Env} {t : Tables} {authorization : Option JsString} {peerId : PeerId}
    {draws : Draws} {config : PeerConfig}
    (h : (getConfig env t authorization peerId draws).2 = ⟨200, .config config⟩) :
    ∃ peer network, t.peers.get? peerId = some peer ∧
      t.networks.get? peer.networkId = some network ∧ config.self.meshIpv4 = peer.ipv4 ∧
      config.network = network.awg ∧ ∀ p, p ∈ config.peers ↔ ∃ q row, t.peers.get? q = some row ∧
        row.networkId = peer.networkId ∧ q ≠ peerId ∧ p = peerEndpoint t peerId q row := by
  obtain ⟨peer, network, hpeer, -, hnetwork, hreply⟩ :=
    @getConfig_of_status env t authorization peerId draws (by rw [h])
  rw [h] at hreply
  cases hreply
  refine ⟨peer, network, hpeer, hnetwork, rfl, rfl, ?_⟩
  intro p
  constructor
  · intro hp
    obtain ⟨⟨q, row⟩, he, rfl⟩ := List.mem_map.mp hp
    obtain ⟨hrow, hnet, hq⟩ := mem_otherPeers.mp he
    exact ⟨q, row, hrow, hnet, hq, rfl⟩
  · rintro ⟨q, row, hrow, hnet, hq, rfl⟩
    exact List.mem_map.mpr ⟨(q, row), mem_otherPeers.mpr ⟨hrow, hnet, hq⟩, rfl⟩

/-- No other peer of the network has a key and a port for `peerId` but no address. -/
def NoBareColon (t : Tables) (networkId : NetworkId) (peerId : PeerId) : Prop :=
  ∀ q row, t.peers.get? q = some row → row.networkId = networkId → q ≠ peerId → row.pubkey ≠ [] →
    row.publicIp = [] → t.peerPorts.has (q, peerId) = false

theorem endpointOf_of_port {t : Tables} {peerId q : PeerId} {port : Int} (publicIp : JsString)
    (hport : t.peerPorts.get? (q, peerId) = some port) (hlow : 1 ≤ port) :
    endpointOf t peerId q publicIp = joinAt 58 publicIp (decimal port.toNat) := by
  have htext : decimalInt port = decimal port.toNat := by
    cases port with
    | ofNat n => rfl
    | negSucc n => omega
  unfold endpointOf
  rw [hport]
  dsimp only
  rw [if_neg (by omega), htext]

/-- With checked tables an endpoint is safe unless it begins with its colon. -/
theorem safeEndpoint_iff {t : Tables} (ht : Checked t) {peerId q : PeerId} {row : PeerRecord}
    (hrow : t.peers.get? q = some row) : SafeEndpoint (endpointOf t peerId q row.publicIp) ↔
      (row.publicIp = [] → t.peerPorts.has (q, peerId) = false) := by
  cases hport : t.peerPorts.get? (q, peerId) with
  | none =>
    have hempty : endpointOf t peerId q row.publicIp = [] := by
      unfold endpointOf
      rw [hport]
    rw [hempty]
    exact ⟨fun _ _ => (OMap.has_eq_false_iff _ _).mpr hport, fun _ => Or.inl rfl⟩
  | some port =>
    obtain ⟨hlow, hhigh⟩ := ht.port _ _ hport
    rw [endpointOf_of_port row.publicIp hport hlow]
    constructor
    · intro hsafe hip
      rw [hip] at hsafe
      exact absurd hsafe (not_safeEndpoint_of_colon _)
    · intro hno
      obtain ⟨-, hip | hip, -⟩ := ht.peer q row hrow
      · have := hno hip
        rw [OMap.has_of_get? hport] at this
        cases this
      · exact Or.inr ⟨row.publicIp, port.toNat, hip, by omega, by omega, rfl⟩

/-- **Configurations.**  A configuration that a run hands out is safe to splice into
commands exactly when the body that created its network names integers only, and no peer
of the network has a key and a port for this one without an address. -/
theorem config_safe_iff (env : Env) (es : List Event) (draws : Draws)
    (authorization : Option JsString) (peerId : PeerId) (config : PeerConfig)
    (h : (handle env (exec env es).tables draws (.getConfig authorization peerId)).2 =
      ⟨200, .config config⟩) :
    ∃ peer body created, (exec env es).tables.peers.get? peerId = some peer ∧
      CreatedBy env es peer.networkId body created ∧
      (SafeConfig config ↔ (∀ v ∈ (bodyAwg body).toList, IntegerOrDefault v) ∧
        NoBareColon (exec env es).tables peer.networkId peerId) := by
  have ht := checked_exec env es
  obtain ⟨peer, network, hpeer, hnetwork, hself, hawg, hpeers⟩ := getConfig_ok h
  obtain ⟨body, created, hcreated, hbind⟩ := createdBy_of_network env es hnetwork
  refine ⟨peer, body, created, hpeer, hcreated, ?_⟩
  rw [← bindAwg_isInteger hbind, ← hawg]
  constructor
  · intro hsafe
    refine ⟨hsafe.awg, ?_⟩
    intro q row hrow hnet hq hkey
    have hp := (hpeers _).mpr ⟨q, row, hrow, hnet, hq, rfl⟩
    exact (safeEndpoint_iff ht hrow).mp (hsafe.peers _ hp hkey).2.2
  · rintro ⟨hints, hcolon⟩
    constructor
    · rw [hself]
      exact (ht.peer peerId peer hpeer).1
    · exact hints
    · intro p hp hkey
      obtain ⟨q, row, hrow, hnet, hq, rfl⟩ := (hpeers p).mp hp
      obtain ⟨hip, -, hkeys⟩ := ht.peer q row hrow
      refine ⟨?_, hip, (safeEndpoint_iff ht hrow).mpr (hcolon q row hrow hnet hq hkey)⟩
      rcases hkeys with hempty | hkeys
      · exact absurd hempty hkey
      · exact hkeys

/-! ## Two runs -/

def otherUuid : PeerId := js "00000000-0000-4000-8000-000000000003"

/-- A network, the peer of the configuration, and another peer with an address and a key
that has reported a port for it. -/
def configRun (extra : List (JsString × Json)) : List Event :=
  [.serve (networkRequest extra) (drawsOf networkUuid),
    .serve (peerRequest "a" []) (drawsOf peerUuid),
    .serve (peerRequest "b" [(js "publicIpv4", .str (js "192.0.2.7")),
      (js "pubkey", .str sampleKey)]) (drawsOf otherUuid),
    .serve (.putPorts sampleAdmin otherUuid (some (.arr [.obj
      [(js "peerId", .str peerUuid), (js "port", .num (.int 51820))]]))) (drawsOf [])]

/-- The configuration of the peer after `configRun`, with the stored `jc`. -/
def configOf (jc : Scalar) : PeerConfig where
  self := { id := peerUuid, meshIpv4 := js "10.0.0.1", listenPort := 51820, memo := [] }
  relayEnabled := true
  network := ⟨jc, .num (.int 50), .num (.int 100), .num (.int 20), .num (.int 30), .num (.int 5),
    .num (.int 6), .num (.int 7), .num (.int 8)⟩
  peers := [{ id := otherUuid, name := js "b", pubkey := sampleKey, meshIpv4 := js "10.0.0.2",
              endpoint := js "192.0.2.7:51820", listenPort := 0 }]

theorem config_safe_iff_configRun :
    ∃ peer body created, (exec sampleEnv (configRun [])).tables.peers.get? peerUuid = some peer ∧
      CreatedBy sampleEnv (configRun []) peer.networkId body created ∧
      (SafeConfig (configOf (.num (.int 4))) ↔
        (∀ v ∈ (bodyAwg body).toList, IntegerOrDefault v) ∧
          NoBareColon (exec sampleEnv (configRun [])).tables peer.networkId peerUuid) :=
  config_safe_iff sampleEnv (configRun []) (drawsOf []) sampleAdmin peerUuid
    (configOf (.num (.int 4))) (by decide)

/-- A network created with a string for `jc` hands that string to its agents. -/
theorem config_unsafe :
    ¬ ∀ config, (handle sampleEnv (exec sampleEnv (configRun [(js "jc", .str (js "4; id"))])).tables
        (drawsOf []) (.getConfig sampleAdmin peerUuid)).2 = ⟨200, .config config⟩ →
      SafeConfig config := by
  intro h
  have hsafe := h (configOf (.str (js "4; id"))) (by decide)
  have hjc := hsafe.awg (.str (js "4; id")) (by decide)
  cases hjc

end Meshezia.Api
