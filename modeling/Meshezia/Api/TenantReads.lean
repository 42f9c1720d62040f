import Meshezia.Api.Tenants
import Meshezia.Api.Reports

/-!
# What a network token can read

Two states of the tables agree on a network when they have the same row for it, the same
peers in it, and the same ports and links of these peers (`Agree`).  The token of the network
reads nothing else, with one exception.  A link of a peer may lead to a peer of another
network, since `handleHealthReport` does not compare the two, and `GET /api/links` shows the
name of that peer.  So two answers are the same exactly when these names are:

    reply server t draws authorization read = reply server t' draws' authorization read ↔
      read.NamesAgree net t t'

and they are after every run whose health reports name peers of the network of their sender
only                                                                    (reads_inside_iff)
-/

namespace Meshezia.Api

/-! ## What is claimed -/

/-- The row of the network, its peers, and the ports and links of its peers are the same. -/
structure Agree (net : NetworkId) (t t' : Tables) : Prop where
  network : t'.networks.get? net = t.networks.get? net
  peers : ∀ p row, row.networkId = net → (t'.peers.get? p = some row ↔ t.peers.get? p = some row)
  ports : ∀ k, t.inNetwork net k.1 = true → t'.peerPorts.get? k = t.peerPorts.get? k
  links : ∀ k, t.inNetwork net k.1 = true → t'.peerLinks.get? k = t.peerLinks.get? k

/-- The requests that read peers, configurations and links. -/
inductive Read where
  | peers (networkId : Option JsString)
  | config (peerId : PeerId)
  | links (networkId : Option JsString)

def Read.request (authorization : Option JsString) : Read → ApiRequest
  | .peers networkId => .getPeers authorization networkId
  | .config peerId => .write (.getConfig authorization peerId)
  | .links networkId => .getLinks authorization networkId

def reply (server : Server) (t : Tables) (draws : Draws) (authorization : Option JsString)
    (read : Read) : Reply :=
  (answer server t draws (read.request authorization)).2

/-- Where a link leads from a peer of the network to one outside, both states have the same
name for the latter. -/
def ForeignNames (net : NetworkId) (t t' : Tables) : Prop :=
  ∀ k, t.peerLinks.has k = true → t.inNetwork net k.1 = true → t.inNetwork net k.2 = false →
    (t'.peers.get? k.2).map PeerRecord.name = (t.peers.get? k.2).map PeerRecord.name

def Read.NamesAgree (net : NetworkId) (t t' : Tables) : Read → Prop
  | .links _ => ForeignNames net t t'
  | _ => True

/-- Two states that agree on a network, and a read with its token that succeeds in both. -/
structure BothAnswer (server : Server) (net : NetworkId) (authorization : Option JsString)
    (read : Read) (t t' : Tables) (draws draws' : Draws) : Prop where
  agree : Agree net t t'
  bearer : NetworkBearer server.toEnv t net authorization
  status : (reply server t draws authorization read).status = 200
  status' : (reply server t' draws' authorization read).status = 200

/-- Some run leads to these tables. -/
def Reached (env : Env) (t : Tables) : Prop := ∃ es, t = (serving env es).tables

/-- Some run leads to these tables in which all health reports name peers of the network of
their sender. -/
def ReachedInside (env : Env) (t : Tables) : Prop :=
  ∃ es, Along (servingStep env) ReportsInside .start es ∧ t = (serving env es).tables

/-! ## States that agree on a network -/

theorem inNetwork_iff {t : Tables} {net : NetworkId} {p : PeerId} :
    t.inNetwork net p = true ↔ ∃ row, t.peers.get? p = some row ∧ row.networkId = net := by
  unfold Rows.inNetwork
  cases t.peers.get? p <;> simp

section
variable {net : NetworkId} {t t' : Tables}

theorem Agree.inNetwork (h : Agree net t t') (p : PeerId) :
    t'.inNetwork net p = t.inNetwork net p := by
  rw [Bool.eq_iff_iff, inNetwork_iff, inNetwork_iff]
  exact exists_congr fun row => and_congr_left fun hnet => h.peers p row hnet

theorem Agree.symm (h : Agree net t t') : Agree net t' t where
  network := h.network.symm
  peers p row hnet := (h.peers p row hnet).symm
  ports k hk := (h.ports k (h.inNetwork _ ▸ hk)).symm
  links k hk := (h.links k (h.inNetwork _ ▸ hk)).symm

theorem Agree.bearer {env : Env} {authorization : Option JsString} (h : Agree net t t')
    (hbearer : NetworkBearer env t net authorization) : NetworkBearer env t' net authorization where
  token := by
    rw [h.network]
    exact hbearer.token
  notAdmin := hbearer.notAdmin

theorem ForeignNames.symm (hagree : Agree net t t') (h : ForeignNames net t t') :
    ForeignNames net t' t := by
  intro k hlink hk hforeign
  rw [hagree.inNetwork] at hk hforeign
  rw [OMap.has, hagree.links k hk] at hlink
  exact (h k hlink hk hforeign).symm

/-! ## Peers and configurations -/

theorem nodup_peersOf (t : Tables) (net : NetworkId) : ((peersOf t net).map Prod.fst).Nodup :=
  t.peers.nodup.sublist (List.filter_sublist.map _)

theorem Agree.getPeers (h : Agree net t t') (server : Server) :
    server.order.peers.order (peersOf t net) = server.order.peers.order (peersOf t' net) := by
  refine server.order.peers.rows (nodup_peersOf t net) ?_
  refine OMap.perm_filter_entries fun p row hnet => ?_
  exact (h.peers p row (by simpa using hnet)).symm

theorem Agree.configFor (h : Agree net t t') {peerId : PeerId} {peer : PeerRecord}
    (hpeer : t.peers.get? peerId = some peer) (hnet : peer.networkId = net)
    (network : NetworkRecord) :
    configFor t peerId peer network = configFor t' peerId peer network := by
  have hother : otherPeers t peer.networkId peerId = otherPeers t' peer.networkId peerId :=
    otherPeers_congr fun p row hrow _ => (h.peers p row (hrow.trans hnet)).symm
  have hself : t.inNetwork net peerId = true := inNetwork_iff.mpr ⟨peer, hpeer, hnet⟩
  unfold Meshezia.Api.configFor
  rw [← hother]
  congr 1
  refine List.map_congr_left fun e he => ?_
  obtain ⟨hrow, hrownet, -⟩ := mem_otherPeers.mp he
  have hin : t.inNetwork net e.1 = true := inNetwork_iff.mpr ⟨e.2, hrow, hrownet.trans hnet⟩
  unfold peerEndpoint endpointOf
  rw [h.ports (peerId, e.1) hself, h.ports (e.1, peerId) hin]

/-! ## Links -/

theorem mem_linksOf {row : JoinedLink} : row ∈ linksOf t net ↔
    ∃ p1 p2, t.peerLinks.get? row.peers = some row.link ∧
      t.peers.get? row.peers.1 = some p1 ∧ t.peers.get? row.peers.2 = some p2 ∧
      p1.networkId = net ∧ row.fromName = p1.name ∧ row.toName = p2.name := by
  unfold linksOf
  rw [List.mem_filterMap]
  constructor
  · rintro ⟨⟨k, link⟩, hmem, hjoin⟩
    unfold joinLink at hjoin
    split at hjoin
    · rename_i p1 p2 hp1 hp2
      split at hjoin
      · rename_i hnet
        cases hjoin
        exact ⟨p1, p2, (t.peerLinks.mem_entries _ _).mp hmem, hp1, hp2, by simpa using hnet, rfl,
          rfl⟩
      · cases hjoin
    · cases hjoin
  · rintro ⟨p1, p2, hlink, hp1, hp2, hnet, hfrom, hto⟩
    obtain ⟨peers, link, fromName, toName⟩ := row
    refine ⟨(peers, link), (t.peerLinks.mem_entries _ _).mpr hlink, ?_⟩
    dsimp only at hp1 hp2 hfrom hto
    simp [joinLink, hp1, hp2, hnet, hfrom, hto]

theorem nodup_linksOf (t : Tables) (net : NetworkId) :
    ((linksOf t net).map JoinedLink.peers).Nodup := by
  refine t.peerLinks.nodup.sublist ?_
  unfold linksOf
  induction t.peerLinks.entries with
  | nil => exact .slnil
  | cons e rest ih =>
    rw [List.filterMap_cons]
    cases hjoin : joinLink t net e with
    | none => exact ih.cons _
    | some row =>
      have hkey : row.peers = e.1 := by
        unfold joinLink at hjoin
        split at hjoin
        · split at hjoin
          · cases hjoin
            rfl
          · cases hjoin
        · cases hjoin
      rw [List.map_cons, List.map_cons, hkey]
      exact ih.cons_cons _

theorem mem_linksOf_of_agree (h : Agree net t t') (hnames : ForeignNames net t t')
    {row : JoinedLink} (hrow : row ∈ linksOf t net) : row ∈ linksOf t' net := by
  obtain ⟨p1, p2, hlink, hp1, hp2, hnet, hfrom, hto⟩ := mem_linksOf.mp hrow
  have hin : t.inNetwork net row.peers.1 = true := inNetwork_iff.mpr ⟨p1, hp1, hnet⟩
  have hlink' : t'.peerLinks.get? row.peers = some row.link := (h.links _ hin).trans hlink
  have hp1' : t'.peers.get? row.peers.1 = some p1 := (h.peers _ _ hnet).mpr hp1
  -- the other peer is in the network, or has its name
  have hp2' : ∃ q2, t'.peers.get? row.peers.2 = some q2 ∧ q2.name = p2.name := by
    cases hforeign : t.inNetwork net row.peers.2 with
    | true =>
      obtain ⟨q, hq, hqnet⟩ := inNetwork_iff.mp hforeign
      rw [hp2] at hq
      cases hq
      exact ⟨p2, (h.peers _ _ hqnet).mpr hp2, rfl⟩
    | false =>
      have hsame := hnames row.peers (OMap.has_of_get? hlink) hin hforeign
      rwa [hp2, Option.map_some, Option.map_eq_some_iff] at hsame
  obtain ⟨q2, hq2, hname⟩ := hp2'
  exact mem_linksOf.mpr ⟨p1, q2, hlink', hp1', hq2, hnet, hfrom, hto.trans hname.symm⟩

/-- The same names make the same rows. -/
theorem getLinks_eq (h : Agree net t t') (hnames : ForeignNames net t t') (server : Server) :
    server.order.links.order (linksOf t net) = server.order.links.order (linksOf t' net) := by
  refine server.order.links.rows (nodup_linksOf t net) ?_
  refine (List.perm_ext_iff_of_nodup (List.Nodup.of_map _ (nodup_linksOf t net))
    (List.Nodup.of_map _ (nodup_linksOf t' net))).mpr fun row => ?_
  exact ⟨mem_linksOf_of_agree h hnames, mem_linksOf_of_agree h.symm (hnames.symm h)⟩

/-- The same rows have the same names. -/
theorem foreignNames_of_getLinks (server : Server)
    (hrows : (server.order.links.order (linksOf t net)).map formatLink =
      (server.order.links.order (linksOf t' net)).map formatLink) : ForeignNames net t t' := by
  intro k hlink hk _
  obtain ⟨link, hlink⟩ := (OMap.has_iff _ _).mp hlink
  obtain ⟨p1, hp1, hnet⟩ := inNetwork_iff.mp hk
  obtain ⟨p2, hp2⟩ := (OMap.has_iff _ _).mp (t.schema.linkPeers (OMap.has_of_get? hlink)).2
  have hmem : formatLink ⟨k, link, p1.name, p2.name⟩ ∈
      (server.order.links.order (linksOf t net)).map formatLink :=
    List.mem_map_of_mem ((server.order.links.perm _).mem_iff.mpr
      (mem_linksOf.mpr ⟨p1, p2, hlink, hp1, hp2, hnet, rfl, rfl⟩))
  rw [hrows] at hmem
  obtain ⟨row, hrow, hformat⟩ := List.mem_map.mp hmem
  obtain ⟨q1, q2, -, -, hq2, -, -, hto⟩ :=
    mem_linksOf.mp ((server.order.links.perm _).mem_iff.mp hrow)
  have hpeer : row.peers.2 = k.2 := congrArg LinkJson.toPeerId hformat
  have hname : row.toName = p2.name := congrArg LinkJson.toName hformat
  rw [← hpeer, hq2, hpeer, hp2, Option.map_some, Option.map_some, ← hto, hname]

end

/-! ## Top theorem -/

section
variable {server : Server} {net : NetworkId} {authorization : Option JsString} {t t' : Tables}
  {draws draws' : Draws}

theorem getPeers_of_status {networkId : Option JsString}
    (hbearer : NetworkBearer server.toEnv t net authorization)
    (h : (getPeers server t authorization networkId).status = 200) :
    getPeers server t authorization networkId =
      ⟨200, .peers ((server.order.peers.order (peersOf t net)).map fun e =>
        formatPeer e.1 e.2)⟩ := by
  unfold getPeers at h ⊢
  split at h
  · split at h
    · cases h
    · rename_i m _ hallowed
      obtain rfl := eq_of_allowed hbearer hallowed
      rfl
  · rw [requireAdmin_of_network hbearer] at h
    cases h

theorem getLinks_of_status {networkId : Option JsString}
    (hbearer : NetworkBearer server.toEnv t net authorization)
    (h : (getLinks server t authorization networkId).status = 200) :
    getLinks server t authorization networkId =
      ⟨200, .links ((server.order.links.order (linksOf t net)).map formatLink)⟩ := by
  unfold getLinks at h ⊢
  split at h
  · cases h
  · split at h
    · cases h
    · rename_i m _ hallowed
      obtain rfl := eq_of_allowed hbearer hallowed
      rfl

theorem getConfig_agree {peerId : PeerId}
    (h : BothAnswer server net authorization (.config peerId) t t' draws draws') :
    reply server t draws authorization (.config peerId) =
      reply server t' draws' authorization (.config peerId) := by
  obtain ⟨peer, network, hpeer, hallowed, hnetwork, hreply⟩ := getConfig_of_status h.status
  obtain ⟨peer', network', hpeer', hallowed', hnetwork', hreply'⟩ := getConfig_of_status h.status'
  have hnet : peer.networkId = net := eq_of_allowed h.bearer hallowed
  have hsame : peer' = peer := by
    have hpeer2 := (h.agree.peers peerId peer hnet).mpr hpeer
    exact Option.some.inj (hpeer'.symm.trans hpeer2)
  subst hsame
  have hsameNet : network' = network := by
    rw [hnet, h.agree.network] at hnetwork'
    rw [hnet] at hnetwork
    exact Option.some.inj (hnetwork'.symm.trans hnetwork)
  subst hsameNet
  have hconfig := h.agree.configFor hpeer hnet network'
  show Reply.response _ = Reply.response _
  exact congrArg Reply.response (hreply.trans ((congrArg _ (by rw [hconfig])).trans hreply'.symm))

/-- **A network token reads its network only**, but for the names of the peers of other
networks to which its links lead. -/
theorem reads_inside_iff {read : Read}
    (h : BothAnswer server net authorization read t t' draws draws') :
    (reply server t draws authorization read = reply server t' draws' authorization read ↔
      read.NamesAgree net t t') ∧
    (ReachedInside server.toEnv t →
      reply server t draws authorization read = reply server t' draws' authorization read) := by
  have hiff : reply server t draws authorization read = reply server t' draws' authorization read ↔
      read.NamesAgree net t t' := by
    cases read with
    | peers networkId =>
      have hreply := getPeers_of_status h.bearer h.status
      have hreply' := getPeers_of_status (h.agree.bearer h.bearer) h.status'
      refine ⟨fun _ => trivial, fun _ => congrArg Reply.read ?_⟩
      rw [hreply, hreply', h.agree.getPeers server]
    | config peerId => exact ⟨fun _ => trivial, fun _ => getConfig_agree h⟩
    | links networkId =>
      have hreply := getLinks_of_status h.bearer h.status
      have hreply' := getLinks_of_status (h.agree.bearer h.bearer) h.status'
      show Reply.read (getLinks server t authorization networkId) =
        Reply.read (getLinks server t' authorization networkId) ↔ ForeignNames net t t'
      rw [hreply, hreply']
      constructor
      · intro heq
        simp only [Reply.read.injEq, ReadResponse.mk.injEq, ReadBody.links.injEq] at heq
        exact foreignNames_of_getLinks server heq.2
      · intro hnames
        rw [getLinks_eq h.agree hnames server]
  refine ⟨hiff, ?_⟩
  rintro ⟨es, hinside, rfl⟩
  refine hiff.mpr ?_
  -- no link of these tables leads out of the network
  have hnames : ForeignNames net (serving server.toEnv es).tables t' := by
    intro k hlink hk hforeign
    obtain ⟨p1, hp1, hnet⟩ := inNetwork_iff.mp hk
    obtain ⟨p2, hp2⟩ := (OMap.has_iff _ _).mp
      ((serving server.toEnv es).tables.schema.linkPeers hlink).2
    have hsame := linksInside_serving hinside k hlink p1 p2 hp1 hp2
    rw [inNetwork_iff.mpr ⟨p2, hp2, hsame.trans hnet⟩] at hforeign
    cases hforeign
  cases read with
  | links networkId => exact hnames
  | _ => trivial

end

/-! ## Two runs that differ in another network -/

/-- A peer reports on its link to a peer of another network, which has this name. -/
def leakRun (name : String) : List ServingEvent :=
  [.api (.serve (networkRequest []) (drawsOf networkUuid)),
    .api (.serve (peerRequest "a" []) (drawsOf peerUuid)),
    .api (.serve (networkRequest [(js "name", .str (js "lan"))])
      { drawsOf lanUuid with token := js "other" }),
    .api (.serve (.postPeers sampleAdmin (some (.obj [(js "networkId", .str lanUuid),
      (js "name", .str (js name))]))) (drawsOf lanPeerUuid)),
    .upgrade (js "token") peerUuid,
    .report peerUuid [{ peerId := lanPeerUuid, mode := .direct, rxAlive := true }] 0]

def leakTables (name : String) : Tables := (serving sampleEnv (leakRun name)).tables

theorem agree_leakTables : Agree networkUuid (leakTables "b") (leakTables "c") := by
  have hpeers : ∀ t t' : Tables, (∀ e ∈ t.peers.entries, e.2.networkId = networkUuid →
      t'.peers.get? e.1 = some e.2) → ∀ p row, row.networkId = networkUuid →
      t.peers.get? p = some row → t'.peers.get? p = some row :=
    fun t t' h p row hnet hrow => h (p, row) ((t.peers.mem_entries p row).mpr hrow) hnet
  constructor
  case network => decide
  case peers =>
    intro p row hnet
    constructor
    · exact hpeers (leakTables "c") (leakTables "b") (by decide) p row hnet
    · exact hpeers (leakTables "b") (leakTables "c") (by decide) p row hnet
  case ports => exact fun k _ => rfl
  case links =>
    have hlinks : (leakTables "c").peerLinks.entries = (leakTables "b").peerLinks.entries := by
      decide
    intro k _
    rw [OMap.ext_entries hlinks]

theorem bothAnswer_leakTables {read : Read}
    (h : (reply sampleServer (leakTables "b") (drawsOf []) (some (js "Bearer token")) read).status =
      200)
    (h' : (reply sampleServer (leakTables "c") (drawsOf []) (some (js "Bearer token")) read).status =
      200) :
    BothAnswer sampleServer networkUuid (some (js "Bearer token")) read (leakTables "b")
      (leakTables "c") (drawsOf []) (drawsOf []) :=
  ⟨agree_leakTables, ⟨⟨_, rfl, rfl⟩, by decide⟩, h, h'⟩

/-- The configuration of the peer does not tell the two runs apart. -/
theorem reads_inside_iff_leakRun :
    reply sampleServer (leakTables "b") (drawsOf []) (some (js "Bearer token")) (.config peerUuid) =
      reply sampleServer (leakTables "c") (drawsOf []) (some (js "Bearer token"))
        (.config peerUuid) :=
  (reads_inside_iff (@bothAnswer_leakTables (.config peerUuid) (by decide) (by decide))).1.mpr
    trivial

/-- The links of the network do. -/
theorem links_show_foreign_names :
    ¬ ∀ net authorization read t t' draws draws', Reached sampleEnv t → Reached sampleEnv t' →
      BothAnswer sampleServer net authorization read t t' draws draws' →
      reply sampleServer t draws authorization read =
        reply sampleServer t' draws' authorization read := by
  intro h
  have hsame := h networkUuid (some (js "Bearer token")) (.links (some networkUuid))
    (leakTables "b") (leakTables "c") (drawsOf []) (drawsOf []) ⟨_, rfl⟩ ⟨_, rfl⟩
    (bothAnswer_leakTables (by decide) (by decide))
  exact absurd hsame (by decide)

end Meshezia.Api
