import Meshezia.System.Mesh

/-!
# A quiet mesh gets connected

While nobody joins or leaves a network or changes its key or its address, what the agents and
the server do for it comes to an end.  A poll of an agent in which no command fails makes its
tunnels and has the ports of them reported (`WholePoll.upheld`), and neither is lost again, whatever
happens to the agents meanwhile: commands that fail, polls that throw, reports that are lost, agents
that are killed and start again (`upheld_run`).  The next poll of another agent gets these ports, so its AWG peers have the
endpoints of the other ends:

    a poll of B, then a poll of A  →  the AWG peer for B on A has as its endpoint the address of
      B and the port on which B listens for A                              (quiet_mesh_links)

A report that is taken has at most a hundred ports (`readPorts` of the server), and an agent
reports all of its ports, if none of its commands fails.  So where a port gets known, there are no
more members than that, and in a bigger network nobody ever gets an endpoint  (few_when_reported)
-/

namespace Meshezia

/-! ## Members -/

/-- What of a peer others depend on. -/
structure Identity where
  networkId : NetworkId
  pubkey : JsString
  publicIp : JsString
  ipv4 : JsString
deriving DecidableEq, Repr

def identityOf (t : Api.Tables) (p : PeerId) : Option Identity :=
  (t.peers.get? p).map fun row => ⟨row.networkId, row.pubkey, row.publicIp, row.ipv4⟩

/-- The token and the parameters of a network. -/
def settingsOf (t : Api.Tables) (id : NetworkId) : Option (JsString × Api.Awg Api.Scalar) :=
  (t.networks.get? id).map fun row => (row.token, row.awg)

/-- Nobody joins, leaves or changes. -/
structure SameMembers (t t' : Api.Tables) : Prop where
  peers : ∀ q, identityOf t' q = identityOf t q
  networks : ∀ id, settingsOf t' id = settingsOf t id

/-- The peer as the agents of the network see it. -/
def Identity.target (b : Identity) (q : PeerId) : PeerEndpoint where
  id := q
  pubkey := b.pubkey
  meshIpv4 := b.ipv4
  endpoint := []

/-- The other peers of the network of `a`, apart from `p` itself, that have a key. -/
structure Partner (t : Api.Tables) (p : PeerId) (a : Identity) (q : PeerId) (b : Identity) :
    Prop where
  self : identityOf t p = some a
  other : identityOf t q = some b
  network : b.networkId = a.networkId
  ne : q ≠ p
  key : b.pubkey ≠ []

section
variable {t t' : Api.Tables} {p q : PeerId} {a b : Identity}

theorem identityOf_eq_some : identityOf t p = some a ↔ ∃ row, t.peers.get? p = some row ∧
    a = ⟨row.networkId, row.pubkey, row.publicIp, row.ipv4⟩ := by
  unfold identityOf
  rw [Option.map_eq_some_iff]
  exact exists_congr fun row => and_congr_right fun _ => eq_comm

theorem has_of_identityOf (h : identityOf t p = some a) : t.peers.has p = true := by
  obtain ⟨row, hrow, -⟩ := identityOf_eq_some.mp h
  exact OMap.has_of_get? hrow

theorem SameMembers.refl (t : Api.Tables) : SameMembers t t := ⟨fun _ => rfl, fun _ => rfl⟩

theorem SameMembers.partner (h : SameMembers t t') (hpartner : Partner t p a q b) :
    Partner t' p a q b :=
  ⟨(h.peers p).trans hpartner.self, (h.peers q).trans hpartner.other, hpartner.network,
    hpartner.ne, hpartner.key⟩

/-- A token that is good stays so. -/
theorem SameMembers.allowed (h : SameMembers t t') {env : Api.Env}
    {authorization : Option JsString} {id : NetworkId}
    (hallowed : Api.requireAdminOrNetwork env t authorization id = none) :
    Api.requireAdminOrNetwork env t' authorization id = none := by
  have htoken : Api.isNetworkToken t' authorization id = Api.isNetworkToken t authorization id := by
    have hsettings := h.networks id
    unfold settingsOf at hsettings
    unfold Api.isNetworkToken
    cases Api.getBearer authorization with
    | none => rfl
    | some token =>
      cases ht : t.networks.get? id <;> cases ht' : t'.networks.get? id <;>
        rw [ht, ht'] at hsettings <;> simp_all
  unfold Api.requireAdminOrNetwork at hallowed ⊢
  rw [htoken]
  exact hallowed

/-- Nobody joins, leaves or changes, and the ports stay. -/
structure Undisturbed (t t' : Api.Tables) : Prop extends SameMembers t t' where
  ports : ∀ p q port, t.peerPorts.get? (p, q) = some port → t'.peerPorts.get? (p, q) = some port

theorem Undisturbed.refl (t : Api.Tables) : Undisturbed t t := ⟨.refl t, fun _ _ _ h => h⟩

theorem Undisturbed.trans {t'' : Api.Tables} (h : Undisturbed t t') (h' : Undisturbed t' t'') :
    Undisturbed t t'' :=
  ⟨⟨fun q => (h'.peers q).trans (h.peers q), fun id => (h'.networks id).trans (h.networks id)⟩,
    fun p q port hport => h'.ports p q port (h.ports p q port hport)⟩

/-- An endpoint that is known stays. -/
theorem Undisturbed.endpoint (h : Undisturbed t t') {publicIp x : JsString}
    (hx : Api.endpointOf t p q publicIp = x) (hne : x ≠ []) :
    Api.endpointOf t' p q publicIp = x := by
  unfold Api.endpointOf at hx ⊢
  cases hport : t.peerPorts.get? (q, p) with
  | none =>
    rw [hport] at hx
    exact absurd hx.symm hne
  | some port =>
    rw [hport] at hx
    rw [h.ports q p port hport]
    exact hx

/-! ## Configurations -/

/-- The configuration says of `p` and of its network what the tables say, apart from endpoints
that it has got too early. -/
structure Current (t : Api.Tables) (p : PeerId) (config : MeshConfig) : Prop where
  self : ∃ a token, identityOf t p = some a ∧ config.selfIpv4 = a.ipv4 ∧
    settingsOf t a.networkId = some (token, config.awg)
  peers : ∀ x ∈ config.peers, ∃ b, identityOf t x.id = some b ∧ x.pubkey = b.pubkey ∧
    x.meshIpv4 = b.ipv4 ∧ x.id ≠ p ∧ (∀ a, identityOf t p = some a → b.networkId = a.networkId) ∧
    (x.endpoint = [] ∨ Api.endpointOf t p x.id b.publicIp = x.endpoint)
  all : ∀ a q b, identityOf t p = some a → identityOf t q = some b →
    b.networkId = a.networkId → q ≠ p → ∃ x ∈ config.peers, x.id = q

theorem Current.later {config : MeshConfig} (h : Current t p config) (hsame : Undisturbed t t') :
    Current t' p config := by
  constructor
  · obtain ⟨a, token, ha, hip, hawg⟩ := h.self
    exact ⟨a, token, (hsame.peers p).trans ha, hip, (hsame.networks _).trans hawg⟩
  · intro x hx
    obtain ⟨b, hb, hkey, hip, hne, hnet, hendpoint⟩ := h.peers x hx
    refine ⟨b, (hsame.peers _).trans hb, hkey, hip, hne, fun a ha => hnet a ?_, ?_⟩
    · rw [← hsame.peers p]
      exact ha
    · by_cases hempty : x.endpoint = []
      · exact Or.inl hempty
      · exact Or.inr (hsame.endpoint (hendpoint.resolve_left hempty) hempty)
  · intro a q b ha hb
    rw [hsame.peers] at ha hb
    exact h.all a q b ha hb

/-- What `getConfig` answers is current, and has all the endpoints. -/
theorem current_readConfig {row : Api.PeerRecord} {network : Api.NetworkRecord}
    (hrow : t.peers.get? p = some row) (hnetwork : t.networks.get? row.networkId = some network)
    {config : MeshConfig} (hread : readConfig (Api.configFor t p row network) = some config) :
    Current t p config ∧ ∀ x ∈ config.peers, ∀ b, identityOf t x.id = some b →
      Api.endpointOf t p x.id b.publicIp = x.endpoint := by
  obtain ⟨config', hread', hip, hawg, hpeers⟩ := readConfig_configFor t p row network
  rw [hread] at hread'
  cases hread'
  have ha : identityOf t p = some ⟨row.networkId, row.pubkey, row.publicIp, row.ipv4⟩ :=
    identityOf_eq_some.mpr ⟨row, hrow, rfl⟩
  refine ⟨⟨⟨_, network.token, ha, hip, ?_⟩, ?_, ?_⟩, ?_⟩
  · unfold settingsOf
    rw [hnetwork, hawg]
    rfl
  · intro x hx
    obtain ⟨q, rowQ, hrowQ, hnet, hne, rfl⟩ := (hpeers x).mp hx
    refine ⟨_, identityOf_eq_some.mpr ⟨rowQ, hrowQ, rfl⟩, rfl, rfl, hne, fun a ha' => ?_,
      Or.inr rfl⟩
    rw [ha] at ha'
    cases ha'
    exact hnet
  · intro a q b ha' hb hnet hne
    rw [ha] at ha'
    cases ha'
    obtain ⟨rowQ, hrowQ, rfl⟩ := identityOf_eq_some.mp hb
    exact ⟨_, (hpeers _).mpr ⟨q, rowQ, hrowQ, hnet, hne, rfl⟩, rfl⟩
  · intro x hx b hb
    obtain ⟨q, rowQ, hrowQ, -, -, rfl⟩ := (hpeers x).mp hx
    obtain ⟨rowQ', hrowQ', rfl⟩ := identityOf_eq_some.mp hb
    rw [show (readEndpoint (Api.peerEndpoint t p q rowQ)).id = q from rfl, hrowQ] at hrowQ'
    cases hrowQ'
    rfl

/-- It agrees with what the agent has for a peer that has its port in the tables. -/
theorem Current.agrees {config : MeshConfig} {drawn : List PeerId} {agent : Agent}
    {token : JsString} {awg : Api.Awg Api.Scalar} {port : Nat} {e : Option JsString}
    (h : Current t p config) (hflight : InFlight t drawn p agent config) (hips : Api.UniqueIps t)
    (hpartner : Partner t p a q b) (hsettings : settingsOf t a.networkId = some (token, awg))
    (hrow : t.peerPorts.get? (p, q) = some (port : Int))
    (he : ∀ x ∈ e, x ≠ [] ∧ Api.endpointOf t p q b.publicIp = x) :
    Agrees config a.ipv4 awg (b.target q) port e := by
  obtain ⟨a', token', ha', hip, hawg⟩ := h.self
  rw [hpartner.self] at ha'
  cases ha'
  rw [hsettings] at hawg
  cases hawg
  refine ⟨hip, rfl, ?_, ?_, ?_⟩
  · obtain ⟨x, hx, rfl⟩ := h.all a q b hpartner.self hpartner.other hpartner.network hpartner.ne
    have hlisted := isDesired_of_mem hx
    exact hlisted
  · rintro x hx hid
    have hid : x.id = q := hid
    subst hid
    obtain ⟨b', hb', hkey, hmesh, -, -, hendpoint⟩ := h.peers x hx
    rw [hpartner.other] at hb'
    cases hb'
    refine ⟨hkey, hmesh, fun _ => ?_, fun y hy => ?_⟩
    · have hlisten := hflight.ports x hx (has_of_identityOf hpartner.self)
        (has_of_identityOf hpartner.other)
      rw [hrow, Option.getD_some, Int.natCast_inj] at hlisten
      exact hlisten.symm
    · exact hendpoint.imp_right fun heq => heq.symm.trans (he y hy).2
  · intro x hx hid
    obtain ⟨b', hb', -, hmesh, -, hnet, -⟩ := h.peers x hx
    obtain ⟨row, hrowX, rfl⟩ := identityOf_eq_some.mp hb'
    obtain ⟨rowQ, hrowQ, rfl⟩ := identityOf_eq_some.mp hpartner.other
    rw [hmesh]
    exact hips x.id q row rowQ hrowX hrowQ hid
      ((hnet a hpartner.self).trans hpartner.network.symm)

end

/-! ## What a step does to a node -/

inductive NodeStep (t : Api.Tables) (p : PeerId) (node : Node) : Node → Prop where
  | same : NodeStep t p node node
  | fetched {row : Api.PeerRecord} {network : Api.NetworkRecord} (hpoll : node.poll = none)
      (hrow : t.peers.get? p = some row)
      (hnetwork : t.networks.get? row.networkId = some network) :
      NodeStep t p node { node with poll := readConfig (Api.configFor t p row network) }
  | called {config : MeshConfig} {draws : PeerId → List Nat} {monitor : Monitor} {faults : Faults}
      {machine : Machine} (hpoll : node.poll = some config)
      (hwhole : faults.writeMappings ≠ .cut) (hcall : machine =
        .ended (node.machine.reconcileWith node.install faults config draws monitor))
      (lastPorts : List (PeerId × Nat)) :
      NodeStep t p node { node with
        machine := { machine with agent := { machine.agent with lastPorts } }, poll := none }
  | killed {config : MeshConfig} {draws : PeerId → List Nat} {monitor : Monitor} {faults : Faults}
      {machine : Machine} (hpoll : node.poll = some config) (turns removals : Nat)
      (hcall : machine = { node.machine with agent := { node.machine.agent with monitor } }.partway
        node.install faults config draws turns removals) :
      NodeStep t p node { node with machine := machine.reboot, poll := none }
  | rebooted (hpoll : node.poll = none) :
      NodeStep t p node { node with machine := node.machine.reboot, poll := none }

theorem get?_setNode {m : Mesh} {p q : PeerId} {node node' : Node} (h : m.nodes.get? p = some node)
    {P : Node → Prop} (hother : P node) (hself : q = p → P node') :
    ∃ node'', (m.setNode q node').nodes.get? p = some node'' ∧ P node'' := by
  by_cases hq : q = p
  · subst hq
    exact ⟨node', OMap.get?_set_self _ _ _, hself rfl⟩
  · exact ⟨node, (OMap.get?_set_ne _ _ hq).trans h, hother⟩

section
variable {env : Api.Env} {m : Mesh} {p : PeerId} {node : Node}

theorem nodeStep_finish (h : m.nodes.get? p = some node) {q : PeerId} {nodeQ : Node}
    (hq : m.nodes.get? q = some nodeQ) {config : MeshConfig} (hpoll : nodeQ.poll = some config)
    (monitor : Monitor) (draws : PeerId → List Nat) {faults : Faults}
    (hwhole : faults.writeMappings ≠ .cut) (delivery : Delivery) (now : Api.Draws) :
    ∃ node', (m.finish env q nodeQ config monitor draws faults delivery now).nodes.get? p =
        some node' ∧
      NodeStep (m.tables env) p node node' := by
  have hself : q = p → nodeQ = node := by
    rintro rfl
    exact Option.some.inj (hq.symm.trans h)
  have hcalled : ∀ machine lastPorts,
      machine = Machine.ended (nodeQ.machine.reconcileWith nodeQ.install faults config draws monitor) →
      q = p →
      NodeStep (m.tables env) p node { nodeQ with
        machine := { machine with agent := { machine.agent with lastPorts } }, poll := none } := by
    intro machine lastPorts hmachine heq
    have := hself heq
    subst this
    exact .called hpoll hwhole hmachine lastPorts
  unfold Mesh.finish
  split
  · rename_i machine herror
    exact get?_setNode h .same (hcalled machine machine.agent.lastPorts (by rw [herror]; rfl))
  · rename_i machine ports hok
    have hset := hcalled machine machine.agent.lastPorts (by rw [hok]; rfl)
    dsimp only
    split
    · exact get?_setNode h .same hset
    · cases delivery with
      | lost => exact get?_setNode h .same hset
      | unheard => exact get?_setNode (m := m) h .same hset
      | answered =>
        dsimp only
        split
        · -- the two updates of the node
          have hfirst : ∀ m' : Mesh, m'.nodes = m.nodes.set q
              { nodeQ with machine := machine, poll := none } → ∃ node',
              (m'.setNode q { nodeQ with machine := { machine with agent :=
                { machine.agent with lastPorts := ports } }, poll := none }).nodes.get? p =
                some node' ∧ NodeStep (m.tables env) p node node' := by
            intro m' hm'
            by_cases heq : q = p
            · subst heq
              exact ⟨_, OMap.get?_set_self _ _ _, hcalled machine ports (by rw [hok]; rfl) rfl⟩
            · refine ⟨node, ?_, .same⟩
              refine (OMap.get?_set_ne _ _ heq).trans ?_
              rw [hm', OMap.get?_set_ne _ _ heq]
              exact h
          exact hfirst _ rfl
        · exact get?_setNode (m := m) h .same hset

/-- **A step** does to a node one of these. -/
theorem nodeStep_meshStep (h : m.nodes.get? p = some node) {e : MeshEvent} (hproper : e.Proper) :
    ∃ node', (meshStep env m e).nodes.get? p = some node' ∧
      NodeStep (m.tables env) p node node' := by
  cases e with
  | request e => exact ⟨node, h, .same⟩
  | start q install authorization range host kernel =>
    unfold meshStep
    dsimp only
    split
    · exact ⟨node, h, .same⟩
    · rename_i hnot
      refine get?_setNode h .same fun heq => ?_
      subst heq
      exact absurd (OMap.has_of_get? h) hnot
  | fetch q now =>
    unfold meshStep Mesh.fetch
    dsimp only
    split
    · exact ⟨node, h, .same⟩
    · rename_i nodeQ hq
      split
      · exact ⟨node, h, .same⟩
      · rename_i hpoll
        split
        · rename_i response hanswer
          refine get?_setNode (m := m.ask _) h .same fun heq => ?_
          subst heq
          rw [h] at hq
          cases hq
          obtain ⟨row, network, hrow, -, hnetwork, rfl⟩ := getConfig_answer hanswer
          exact .fetched hpoll hrow hnetwork
        · exact ⟨node, h, .same⟩
  | finish q monitor draws faults delivery now =>
    unfold meshStep
    dsimp only
    split
    · exact ⟨node, h, .same⟩
    · rename_i nodeQ hq
      split
      · exact ⟨node, h, .same⟩
      · rename_i config hpoll
        exact nodeStep_finish h hq hpoll monitor draws hproper delivery now
  | crash q monitor draws faults turns removals =>
    unfold meshStep
    dsimp only
    split
    · exact ⟨node, h, .same⟩
    · rename_i nodeQ hq
      refine get?_setNode h .same fun heq => ?_
      subst heq
      rw [h] at hq
      cases hq
      cases hpoll : node.poll with
      | none => exact .rebooted hpoll
      | some config => exact .killed hpoll turns removals rfl

end

/-! ## A tunnel of a node -/

/-- The tunnel of `p` to `q`, which is in the mapping file, and whose port the server has. -/
structure Upheld (t : Api.Tables) (p : PeerId) (a : Identity) (awg : Api.Awg Api.Scalar)
    (q : PeerId) (b : Identity) (i : IfName) (port : Nat) (e : Option JsString) (node : Node) :
    Prop where
  held : Held node.install a.ipv4 awg (b.target q) i port e node.machine
  filed : (q, i, port) ∈ node.machine.agent.mappings
  reported : t.peerPorts.get? (p, q) = some (port : Int)
  timely : ∀ config, node.poll = some config → Current t p config
  endpoint : ∀ x ∈ e, x ≠ [] ∧ Api.endpointOf t p q b.publicIp = x

section
variable {t t' : Api.Tables} {drawn : List PeerId} {p q : PeerId} {a b : Identity}
  {token : JsString} {awg : Api.Awg Api.Scalar} {i : IfName} {port : Nat} {e : Option JsString}
  {node node' : Node}

theorem Upheld.later (h : Upheld t p a awg q b i port e node) (hquiet : Undisturbed t t') :
    Upheld t' p a awg q b i port e node where
  held := h.held
  filed := h.filed
  reported := hquiet.ports p q port h.reported
  timely := fun config hpoll => (h.timely config hpoll).later hquiet
  endpoint := fun x hx => ⟨(h.endpoint x hx).1,
    hquiet.endpoint (h.endpoint x hx).2 (h.endpoint x hx).1⟩

/-- What is in memory is in the file after a call that returns, and a call that throws does
not write it. -/
theorem filed_reconcileWith {env : Install} {faults : Faults} {config : MeshConfig}
    {draws : PeerId → List Nat} {monitor : Monitor} {m : Machine} (hledger : Ledger m.agent)
    (hwhole : faults.writeMappings ≠ .cut) (hholds : HoldsPorts config.toPeerConfig m.agent) (hfiled : (q, i, port) ∈ m.agent.mappings)
    (hname : (Machine.ended
      (m.reconcileWith env faults config draws monitor)).agent.peerToIf.get? q = some i)
    (hport : (Machine.ended
      (m.reconcileWith env faults config draws monitor)).agent.peerToPort.get? q = some port) :
    (q, i, port) ∈
      (Machine.ended (m.reconcileWith env faults config draws monitor)).agent.mappings := by
  cases hresult : m.reconcileWith env faults config draws monitor with
  | error machine =>
    obtain ⟨-, hfile, -⟩ := @Ledger.reconcile_error env faults config draws
      { m with agent := { m.agent with monitor } } machine (hledger.withMonitor monitor) hholds
      hwhole hresult
    show (q, i, port) ∈ machine.agent.mappings
    rw [hfile]
    exact hfiled
  | ok result =>
    obtain ⟨machine, ports⟩ := result
    rw [hresult] at hname hport
    obtain ⟨hledger', -, hclean, -⟩ := @Ledger.reconcile_ok env faults config draws
      { m with agent := { m.agent with monitor } } machine ports (hledger.withMonitor monitor)
      hholds hresult
    have hmem := hledger'.filed hclean q i hname
    have hport : machine.agent.peerToPort.get? q = some port := hport
    rw [hport] at hmem
    exact hmem

/-- **One step** keeps it. -/
theorem Upheld.step (h : Upheld t p a awg q b i port e node) (hinv : NodeInv t drawn p node)
    (hips : Api.UniqueIps t) (hpartner : Partner t p a q b)
    (hsettings : settingsOf t a.networkId = some (token, awg)) (hstep : NodeStep t p node node') :
    Upheld t p a awg q b i port e node' := by
  have hport : port ≠ 0 := hinv.ledger.paired.ports q port h.held.tunnel.listenPort
  have hagrees : ∀ config, node.poll = some config →
      Agrees config a.ipv4 awg (b.target q) port e := fun config hpoll =>
    (h.timely config hpoll).agrees (hinv.poll config hpoll) hips hpartner hsettings h.reported
      h.endpoint
  have hmonitor : ∀ monitor, Held node.install a.ipv4 awg (b.target q) i port e
      { node.machine with agent := { node.machine.agent with monitor } } :=
    fun monitor => h.held.withAgent rfl rfl rfl
  have hnone : ∀ config, (none : Option MeshConfig) = some config → Current t p config :=
    fun _ hnone => by cases hnone
  cases hstep with
  | same => exact h
  | fetched hpoll hrow hnetwork =>
    exact ⟨h.held, h.filed, h.reported,
      fun config hread => (current_readConfig hrow hnetwork hread).1, h.endpoint⟩
  | @called config draws monitor faults machine hpoll hwhole hcall lastPorts =>
    subst hcall
    have hheld := @Held.reconcile node.install faults config draws _ a.ipv4 awg (b.target q) i port e
      (hmonitor monitor) hinv.base (hagrees config hpoll) hport
    refine ⟨hheld.withAgent rfl rfl rfl, ?_, h.reported, hnone, h.endpoint⟩
    exact filed_reconcileWith hinv.ledger hwhole (hinv.poll config hpoll).held h.filed
      hheld.tunnel.ifName hheld.tunnel.listenPort
  | @killed config draws monitor faults machine hpoll turns removals hcall =>
    subst hcall
    have hheld := @Held.partway node.install faults config _ a.ipv4 awg (b.target q) i port e
      (hmonitor monitor) hinv.base (hagrees config hpoll) hport draws turns removals
    obtain ⟨hledger, hfile⟩ := @Ledger.partway node.install faults config
      { node.machine with agent := { node.machine.agent with monitor } }
      (hinv.ledger.withMonitor monitor) (hinv.poll config hpoll).held draws turns removals
    have hfiled : (q, i, port) ∈ (Machine.partway node.install faults
        { node.machine with agent := { node.machine.agent with monitor } } config draws turns
        removals).agent.mappings := by
      rw [hfile]
      exact h.filed
    refine ⟨hheld.reboot hledger hport hfiled, ?_, h.reported, hnone, h.endpoint⟩
    exact hledger.reboot.2.1 ▸ hfiled
  | rebooted hpoll =>
    refine ⟨h.held.reboot hinv.ledger hport h.filed, ?_, h.reported, hnone, h.endpoint⟩
    exact hinv.ledger.reboot.2.1 ▸ h.filed

end

/-! ## Quiet runs -/

/-- A step in which nobody joins, leaves or changes. -/
structure Quiet (env : Api.Env) (m : Mesh) (e : MeshEvent) : Prop where
  proper : e.Proper
  fresh : (meshStep env m e).drawn.Nodup
  members : SameMembers (m.tables env) ((meshStep env m e).tables env)

/-- The peer whose agent an event is about. -/
def MeshEvent.peer : MeshEvent → Option PeerId
  | .request _ => none
  | .start p _ _ _ _ _ | .fetch p _ | .finish p _ _ _ _ _ | .crash p _ _ _ _ _ => some p

section
variable {env : Api.Env} {m : Mesh} {e : MeshEvent} {es : List MeshEvent} {p : PeerId}

theorem SameMembers.has {t t' : Api.Tables} (h : SameMembers t t') {q : PeerId}
    (hq : t.peers.has q = true) : t'.peers.has q = true := by
  obtain ⟨row, hrow⟩ := (OMap.has_iff _ _).mp hq
  exact has_of_identityOf ((h.peers q).trans (identityOf_eq_some.mpr ⟨row, hrow, rfl⟩))

theorem Quiet.undisturbed (h : Quiet env m e) (hinv : MeshInv env m) :
    Undisturbed (m.tables env) ((meshStep env m e).tables env) := by
  refine ⟨h.members, fun p q port hport => ?_⟩
  obtain ⟨hp, hq⟩ := (m.tables env).schema.portPeers (OMap.has_of_get? hport)
  exact portStays_step hinv h.proper h.fresh p q port hport (h.members.has hp) (h.members.has hq)

theorem quiet_run (hinv : MeshInv env m) (hquiet : Along (meshStep env) (Quiet env) m es) :
    MeshInv env (run (meshStep env) m es) ∧
      Undisturbed (m.tables env) ((run (meshStep env) m es).tables env) := by
  refine run_invariant_along (meshStep env)
    (I := fun s => MeshInv env s ∧ Undisturbed (m.tables env) (s.tables env)) ?_
    ⟨hinv, .refl _⟩ hquiet
  rintro s e ⟨hs, hsame⟩ he
  exact ⟨hs.step he.proper he.fresh, hsame.trans (he.undisturbed hs)⟩

/-- **A tunnel stays** in every quiet run. -/
theorem upheld_run {q : PeerId} {a b : Identity} {token : JsString} {awg : Api.Awg Api.Scalar}
    {i : IfName} {port : Nat} {x : Option JsString} {node : Node} (hinv : MeshInv env m)
    (hquiet : Along (meshStep env) (Quiet env) m es) (hpartner : Partner (m.tables env) p a q b)
    (hsettings : settingsOf (m.tables env) a.networkId = some (token, awg))
    (hnode : m.nodes.get? p = some node)
    (hheld : Upheld (m.tables env) p a awg q b i port x node) :
    ∃ node', (run (meshStep env) m es).nodes.get? p = some node' ∧
      Upheld ((run (meshStep env) m es).tables env) p a awg q b i port x node' := by
  refine (run_invariant_along (meshStep env)
    (I := fun s => (MeshInv env s ∧ Undisturbed (m.tables env) (s.tables env)) ∧
      ∃ node', s.nodes.get? p = some node' ∧ Upheld (s.tables env) p a awg q b i port x node')
    ?_ ⟨⟨hinv, .refl _⟩, node, hnode, hheld⟩ hquiet).2
  rintro s e ⟨⟨hs, hsame⟩, node1, hnode1, hheld1⟩ he
  obtain ⟨node2, hnode2, hstep⟩ := @nodeStep_meshStep env s p node1 hnode1 e he.proper
  have hsettings1 := (hsame.networks a.networkId).trans hsettings
  have hheld2 := hheld1.step (hs.nodes p node1 hnode1) (Api.mesh_addresses_unique env s.requests).1
    (hsame.partner hpartner) hsettings1 hstep
  exact ⟨⟨hs.step he.proper he.fresh, hsame.trans (he.undisturbed hs)⟩, node2, hnode2,
    hheld2.later (he.undisturbed hs)⟩

/-- What happens to other agents leaves an agent alone. -/
theorem get?_meshStep_ne (h : e.peer ≠ some p) :
    (meshStep env m e).nodes.get? p = m.nodes.get? p := by
  have hset : ∀ (m' : Mesh) (q : PeerId) (node : Node), m'.nodes = m.nodes → q ≠ p →
      (m'.setNode q node).nodes.get? p = m.nodes.get? p := by
    intro m' q node hm' hq
    exact (OMap.get?_set_ne _ _ hq).trans (by rw [hm'])
  cases e with
  | request e => rfl
  | start q install authorization range host kernel =>
    have hq : q ≠ p := fun hq => h (congrArg some hq)
    unfold meshStep
    dsimp only
    split
    · rfl
    · exact hset m q _ rfl hq
  | fetch q now =>
    have hq : q ≠ p := fun hq => h (congrArg some hq)
    unfold meshStep Mesh.fetch
    dsimp only
    split
    · rfl
    · split
      · rfl
      · split
        · exact hset (m.ask _) q _ rfl hq
        · rfl
  | finish q monitor draws faults delivery now =>
    have hq : q ≠ p := fun hq => h (congrArg some hq)
    unfold meshStep Mesh.finish
    dsimp only
    split
    · rfl
    · split
      · rfl
      · split
        · exact hset m q _ rfl hq
        · split
          · exact hset m q _ rfl hq
          · cases delivery with
            | lost => exact hset m q _ rfl hq
            | unheard => exact hset m q _ rfl hq
            | answered =>
              dsimp only
              split
              · exact (OMap.get?_set_ne _ _ hq).trans (hset m q _ rfl hq)
              · exact hset m q _ rfl hq
  | crash q monitor draws faults turns removals =>
    have hq : q ≠ p := fun hq => h (congrArg some hq)
    unfold meshStep
    dsimp only
    split
    · rfl
    · exact hset m q _ rfl hq

theorem get?_run_ne (h : ∀ e ∈ es, e.peer ≠ some p) :
    (run (meshStep env) m es).nodes.get? p = m.nodes.get? p :=
  run_invariant_along (meshStep env) (I := fun s => s.nodes.get? p = m.nodes.get? p)
    (fun _ _ hs he => (get?_meshStep_ne he).trans hs) rfl (along_of_mem (meshStep env) _ h m)

end

/-! ## What agents do is quiet -/

section
variable {env : Api.Env} {m : Mesh}

theorem sameMembers_getConfig (t : Api.Tables) (now : Api.Draws) (authorization : Option JsString)
    (p : PeerId) : SameMembers t (Api.handle env t now (.getConfig authorization p)).1 := by
  have hupdate : SameMembers t (t.updatePeer p (.lastSeen now.now)) := by
    refine ⟨fun q => ?_, fun _ => rfl⟩
    unfold identityOf
    rw [Api.get?_updatePeer, Option.map_map]
    refine congrArg (fun f => (t.peers.get? q).map f) (funext fun row => ?_)
    dsimp only [Function.comp]
    split <;> rfl
  show SameMembers t (Api.getConfig env t authorization p now).1
  unfold Api.getConfig
  split
  · exact .refl t
  · split
    · exact .refl t
    · dsimp only
      split <;> exact hupdate

theorem sameMembers_putPorts (t : Api.Tables) (now : Api.Draws) (authorization : Option JsString)
    (p : PeerId) (ports : List (PeerId × Nat)) :
    SameMembers t (Api.handle env t now (.putPorts authorization p (some (portsBody ports)))).1 := by
  rcases putPorts_portsBody env t now authorization p ports with ⟨-, hok⟩ | ⟨-, hsame⟩
  · obtain ⟨hnetworks, hpeers, -, -⟩ := Api.onlyPortsOf_upsertPorts hok
    refine ⟨fun q => ?_, fun id => ?_⟩
    · unfold identityOf
      rw [hpeers]
    · unfold settingsOf
      rw [hnetworks]
  · rw [hsame]
    exact .refl t

/-- An agent asks for its configuration, and reports ports, and by that nobody joins, leaves or
changes. -/
theorem agent_step {e : MeshEvent} (h : e.peer ≠ none) :
    SameMembers (m.tables env) ((meshStep env m e).tables env) ∧
      (meshStep env m e).drawn = m.drawn := by
  have hsame : SameMembers (m.tables env) (m.tables env) ∧ m.drawn = m.drawn := ⟨.refl _, rfl⟩
  have hget : ∀ authorization p now,
      SameMembers (m.tables env)
        ((m.ask (.serve (.getConfig authorization p) now)).tables env) ∧
      (m.ask (.serve (.getConfig authorization p) now)).drawn = m.drawn := by
    intro authorization p now
    rw [tables_ask]
    exact ⟨sameMembers_getConfig _ _ _ _, drawn_ask_getConfig ..⟩
  have hput : ∀ authorization p ports now,
      SameMembers (m.tables env)
        ((m.ask (.serve (.putPorts authorization p (some (portsBody ports))) now)).tables env) ∧
      (m.ask (.serve (.putPorts authorization p (some (portsBody ports))) now)).drawn =
        m.drawn := by
    intro authorization p ports now
    rw [tables_ask]
    exact ⟨sameMembers_putPorts _ _ _ _ _, (drawn_ask _).trans (List.append_nil _)⟩
  cases e with
  | request e => exact absurd rfl h
  | start p install authorization range host kernel =>
    unfold meshStep
    dsimp only
    split <;> exact hsame
  | fetch p now =>
    unfold meshStep Mesh.fetch
    dsimp only
    split
    · exact hsame
    · split
      · exact hsame
      · split <;> exact hget _ _ _
  | finish p monitor draws faults delivery now =>
    unfold meshStep Mesh.finish
    dsimp only
    split
    · exact hsame
    · split
      · exact hsame
      · split
        · exact hsame
        · split
          · exact hsame
          · cases delivery with
            | lost => exact hsame
            | unheard => exact hput _ _ _ _
            | answered =>
              dsimp only
              split <;> exact hput _ _ _ _
  | crash p monitor draws faults turns removals =>
    unfold meshStep Mesh.crash
    dsimp only
    split <;> exact hsame

/-- **Agents are quiet**: only requests of others can disturb. -/
theorem quiet_of_agents {es : List MeshEvent} (hfresh : m.drawn.Nodup)
    (h : ∀ e ∈ es, e.peer ≠ none ∧ e.Proper) : Along (meshStep env) (Quiet env) m es := by
  refine along_of_invariant (meshStep env) (P := fun _ e => e.peer ≠ none ∧ e.Proper)
    (I := fun s => s.drawn.Nodup) ?_ ?_ hfresh (along_of_mem (meshStep env) _ h m)
  · rintro s e hs ⟨he, -⟩
    rw [(agent_step he).2]
    exact hs
  · rintro s e hs ⟨he, hproper⟩
    refine ⟨hproper, ?_, (agent_step he).1⟩
    rw [(agent_step he).2]
    exact hs

end

/-! ## A poll -/

/-- The ports of `p` can be reported: the ids are UUIDs, and they are not too many. -/
structure Reporting (t : Api.Tables) (p : PeerId) (a : Identity) : Prop where
  uuid : ∀ q b, Partner t p a q b → Api.UUID_RE q = true
  few : ∀ l : List PeerId, l.Nodup → (∀ q ∈ l, ∃ b, Partner t p a q b) → l.length ≤ 100

/-- A run from `m` with a poll of `p` that comes to its end: it begins when the agent is idle,
nothing else happens to the agent on the way, `reconcile` returns, no command has failed for the
interface of `q`, and the report is answered. -/
inductive WholePoll (env : Api.Env) (m : Mesh) (p q : PeerId) (monitor : Monitor) :
    List MeshEvent → Prop where
  | intro {pre mid post : List MeshEvent} {draws : PeerId → List Nat} {faults : Faults}
      {fetched finished : Api.Draws}
      (idle : ∃ node, (run (meshStep env) m pre).nodes.get? p = some node ∧ node.poll = none)
      (others : ∀ e ∈ mid, e.peer ≠ some p)
      (returns : ∃ node config machine ports,
        (run (meshStep env) m (pre ++ .fetch p fetched :: mid)).nodes.get? p = some node ∧
          node.poll = some config ∧
          node.machine.reconcileWith node.install faults config draws monitor =
            .ok (machine, ports) ∧
          ∀ i, machine.agent.peerToIf.get? q = some i → faults.Spare i)
      (lists : faults.listInterfaces = false) :
      WholePoll env m p q monitor
        (pre ++ .fetch p fetched :: (mid ++ .finish p monitor draws faults .answered finished :: post))

section
variable {env : Api.Env} {m : Mesh} {p q : PeerId} {a b : Identity} {node : Node}
  {config : MeshConfig} {monitor : Monitor} {draws : PeerId → List Nat} {faults : Faults}
  {machine : Machine} {ports : List (PeerId × Nat)}

theorem exists_upsertPorts (t : Api.Tables) {entries : List (PeerId × Int)}
    (hp : t.peers.has p = true) (hentries : ∀ e ∈ entries, t.peers.has e.1 = true) :
    ∃ t', Api.upsertPorts t p entries = .ok t' := by
  induction entries generalizing t with
  | nil => exact ⟨t, rfl⟩
  | cons e rest ih =>
    obtain ⟨he, hrest⟩ := List.forall_mem_cons.mp hentries
    cases hfirst : t.upsertPort p e.1 e.2 with
    | error refusal =>
      unfold Api.Tables.upsertPort at hfirst
      rw [dif_pos ⟨hp, he⟩] at hfirst
      cases hfirst
    | ok t1 =>
      obtain ⟨-, hrows⟩ := Api.Tables.upsertPort_ok hfirst
      have hpeers : t1.peers = t.peers := by
        have hsame := congrArg Api.Rows.peers hrows
        exact hsame
      rw [← hpeers] at hp hrest
      obtain ⟨t', ht'⟩ := ih t1 hp hrest
      refine ⟨t', ?_⟩
      show ((e :: rest).foldlM (fun t entry => t.upsertPort p entry.1 entry.2) t) = .ok t'
      rw [List.foldlM_cons, hfirst]
      exact ht'

/-- A report with a good token, of at most a hundred ports for peers that are there, is taken. -/
theorem status_putPorts {t : Api.Tables} {row : Api.PeerRecord} {authorization : Option JsString}
    (now : Api.Draws) (hrow : t.peers.get? p = some row)
    (hallowed : Api.requireAdminOrNetwork env t authorization row.networkId = none)
    (hlen : ports.length ≤ 100)
    (hvalid : ∀ e ∈ ports, Api.UUID_RE e.1 = true ∧ 1 ≤ e.2 ∧ e.2 ≤ 65535)
    (hpeers : ∀ e ∈ ports, t.peers.has e.1 = true) :
    (Api.handle env t now (.putPorts authorization p (some (portsBody ports)))).2.status = 200 := by
  obtain ⟨t', ht'⟩ := @exists_upsertPorts p t (entriesOf ports) (OMap.has_of_get? hrow) (by
    rintro x hx
    obtain ⟨e, he, rfl⟩ := List.mem_map.mp hx
    exact hpeers e he)
  have hcheck : Api.putPortsCheck env t authorization p = none := by
    unfold Api.putPortsCheck
    rw [hrow]
    exact hallowed
  show (Api.putPorts env t authorization p (some (portsBody ports))).2.status = 200
  unfold Api.putPorts Api.putPortsBody
  simp only [hcheck, (readPorts_portsBody ports).2 hlen hvalid, ht']

/-- The answer to a poll of an agent that was idle. -/
theorem fetch_answered (hnode : m.nodes.get? p = some node) (hidle : node.poll = none)
    {now : Api.Draws} {node' : Node}
    (hnode' : (meshStep env m (.fetch p now)).nodes.get? p = some node')
    (hpoll : node'.poll = some config) :
    node' = { node with poll := some config } ∧ ∃ row network,
      (m.tables env).peers.get? p = some row ∧
      Api.requireAdminOrNetwork env (m.tables env) node.authorization row.networkId = none ∧
      (m.tables env).networks.get? row.networkId = some network ∧
      readConfig (Api.configFor (m.tables env) p row network) = some config := by
  unfold meshStep Mesh.fetch at hnode'
  simp only [hnode, hidle] at hnode'
  split at hnode'
  · rename_i response hanswer
    obtain ⟨row, network, hrow, hallowed, hnetwork, rfl⟩ := getConfig_answer hanswer
    have hself : (some { node with poll := readConfig (Api.configFor (m.tables env) p row network) } :
        Option Node) = some node' := (OMap.get?_set_self _ _ _).symm.trans hnode'
    cases hself
    have hpoll : readConfig (Api.configFor (m.tables env) p row network) = some config := hpoll
    exact ⟨by rw [hpoll], row, network, hrow, hallowed, hnetwork, hpoll⟩
  · have hsame : some node = some node' := hnode.symm.trans hnode'
    cases hsame
    rw [hidle] at hpoll
    cases hpoll

/-- At most a hundred entries, one for each other peer with a key. -/
theorem reportable_entries {t : Api.Tables} (hcurrent : Current t p config)
    (hself : identityOf t p = some a)
    (hids : (ports.map Prod.fst).Sublist
      ((config.peers.filter fun x => !decide (x.pubkey = [])).map PeerEndpoint.id)) :
    ∀ e ∈ ports, ∃ b, Partner t p a e.1 b := by
  intro e he
  obtain ⟨x, hx, hid⟩ := List.mem_map.mp (hids.subset (List.mem_map_of_mem he))
  obtain ⟨hx, hkeyed⟩ := List.mem_filter.mp hx
  obtain ⟨b, hb, hkey, -, hne, hnet, -⟩ := hcurrent.peers x hx
  rw [← hid]
  refine ⟨b, hself, hb, hnet a hself, hne, ?_⟩
  rw [← hkey]
  simpa using hkeyed

/-- A report that is taken, or not even needed, is remembered. -/
theorem finish_answered (hinv : MeshInv env m) (hnode : m.nodes.get? p = some node)
    (hpoll : node.poll = some config) (hself : identityOf (m.tables env) p = some a)
    (hallowed : Api.requireAdminOrNetwork env (m.tables env) node.authorization a.networkId = none)
    (hcurrent : Current (m.tables env) p config) (hreporting : Reporting (m.tables env) p a)
    (hok : node.machine.reconcileWith node.install faults config draws monitor =
      .ok (machine, ports))
    (hports : ports ≠ []) (now : Api.Draws) :
    (meshStep env m (.finish p monitor draws faults .answered now)).nodes.get? p = some { node with
      machine := { machine with agent := { machine.agent with lastPorts := ports } }
      poll := none } := by
  obtain ⟨-, hreport⟩ := (hinv.nodes p node hnode).finish_ok hpoll hok
  obtain ⟨hledger, -, -, -, hids, -⟩ := @Ledger.reconcile_ok node.install faults config draws
    { node.machine with agent := { node.machine.agent with monitor } } machine ports
    ((hinv.nodes p node hnode).ledger.withMonitor monitor)
    ((hinv.nodes p node hnode).poll config hpoll).held hok
  have hentries := reportable_entries hcurrent hself hids
  unfold meshStep Mesh.finish
  simp only [hnode, hpoll, hok]
  split
  · rename_i hsame
    have hsame := hsame.resolve_left hports
    rw [hsame]
    exact OMap.get?_set_self _ _ _
  · obtain ⟨row, hrow, rfl⟩ := identityOf_eq_some.mp hself
    have hlen : ports.length ≤ 100 := by
      rw [← List.length_map Prod.fst]
      refine hreporting.few _ hreport.nodup fun q hq => ?_
      obtain ⟨e, he, rfl⟩ := List.mem_map.mp hq
      exact hentries e he
    rw [if_pos (status_putPorts now hrow hallowed hlen (fun e he => ?_) fun e he => ?_)]
    · exact OMap.get?_set_self _ _ _
    · obtain ⟨b, hb⟩ := hentries e he
      refine ⟨hreporting.uuid e.1 b hb, Nat.one_le_iff_ne_zero.mpr (hreport.filed e he).1, ?_⟩
      exact hledger.bound e.1 e.2 (hreport.held e he)
    · obtain ⟨b, hb⟩ := hentries e he
      exact has_of_identityOf hb.other

theorem SameMembers.symm {t t' : Api.Tables} (h : SameMembers t t') : SameMembers t' t :=
  ⟨fun q => (h.peers q).symm, fun id => (h.networks id).symm⟩

theorem Reporting.later {t t' : Api.Tables} (h : Reporting t p a) (hsame : SameMembers t t') :
    Reporting t' p a :=
  ⟨fun q b hpartner => h.uuid q b (hsame.symm.partner hpartner),
    fun l hl hpartners => h.few l hl fun q hq =>
      (hpartners q hq).imp fun _ hpartner => hsame.symm.partner hpartner⟩

/-- The end of a poll: the tunnel to `q` is there, and its port is with the server. -/
theorem upheld_finish {token : JsString} {awg : Api.Awg Api.Scalar} {now : Api.Draws}
    {e : Option JsString} (hinv : MeshInv env m)
    (hquiet : Quiet env m (.finish p monitor draws faults .answered now))
    (hnode : m.nodes.get? p = some node) (hpoll : node.poll = some config)
    (hpartner : Partner (m.tables env) p a q b)
    (hsettings : settingsOf (m.tables env) a.networkId = some (token, awg))
    (hallowed : Api.requireAdminOrNetwork env (m.tables env) node.authorization a.networkId = none)
    (hcurrent : Current (m.tables env) p config) (hreporting : Reporting (m.tables env) p a)
    (hok : node.machine.reconcileWith node.install faults config draws monitor =
      .ok (machine, ports))
    (hlist : faults.listInterfaces = false)
    (hspare : ∀ i, machine.agent.peerToIf.get? q = some i → faults.Spare i)
    (he : ∀ x ∈ e, Unskipped monitor q ∧ x ≠ [] ∧ Api.endpointOf (m.tables env) p q b.publicIp = x)
    (hendpoint : ∀ y ∈ config.peers, y.id = q → ∀ x ∈ e, y.endpoint = x) :
    ∃ i port node', (meshStep env m (.finish p monitor draws faults .answered now)).nodes.get? p =
        some node' ∧
      Upheld ((meshStep env m (.finish p monitor draws faults .answered now)).tables env) p a awg q b i
        port e node' := by
  have hnodeInv := hinv.nodes p node hnode
  obtain ⟨a', token', ha', hip, hawg⟩ := hcurrent.self
  rw [hpartner.self] at ha'
  cases ha'
  rw [hsettings] at hawg
  cases hawg
  -- the entry of `q` in the configuration
  obtain ⟨y, hy, rfl⟩ := hcurrent.all a q b hpartner.self hpartner.other hpartner.network
    hpartner.ne
  obtain ⟨b', hb', hkey, hmesh, -⟩ := hcurrent.peers y hy
  rw [hpartner.other] at hb'
  cases hb'
  have hips : ∀ z ∈ config.peers, z.id ≠ y.id → z.meshIpv4 ≠ y.meshIpv4 := by
    intro z hz hid
    obtain ⟨c, hc, -, hmeshZ, -, hnet, -⟩ := hcurrent.peers z hz
    obtain ⟨row, hrow, rfl⟩ := identityOf_eq_some.mp hc
    obtain ⟨rowY, hrowY, rfl⟩ := identityOf_eq_some.mp hpartner.other
    rw [hmesh, hmeshZ]
    exact (Api.mesh_addresses_unique env m.requests).1 z.id y.id row rowY hrow hrowY hid
      ((hnet a hpartner.self).trans hpartner.network.symm)
  obtain ⟨i, hget, hmade⟩ := @reconcile_tunnel node.install faults config draws
    { node.machine with agent := { node.machine.agent with monitor } } machine ports y hnodeInv.base
    hnodeInv.ledger.paired.distinct hy (hkey ▸ hpartner.key) hips hok hlist
  obtain ⟨port, hheld, hmem, -, hgiven⟩ := hmade (hspare i hget)
  obtain ⟨hledger, -, hclean, -, -, hports⟩ := @Ledger.reconcile_ok node.install faults config draws
    { node.machine with agent := { node.machine.agent with monitor } } machine ports
    (hnodeInv.ledger.withMonitor monitor) (hnodeInv.poll config hpoll).held hok
  have hnode' := finish_answered hinv hnode hpoll hpartner.self hallowed hcurrent hreporting hok
    (List.ne_nil_of_mem hmem) now
  have hinv' := hinv.step hquiet.proper hquiet.fresh
  refine ⟨i, port, _, hnode', ⟨⟨?_, ?_, hheld.injective⟩, ?_, ?_, (fun _ hnone => by cases hnone),
    fun x hx => ⟨(he x hx).2.1, (hquiet.undisturbed hinv).endpoint (he x hx).2.2 (he x hx).2.1⟩⟩⟩
  · have htunnel := hheld.tunnel
    have hroute := htunnel.route
    have hpeer := htunnel.peer
    rw [hip] at htunnel
    rw [hmesh] at hroute
    rw [hkey] at hpeer
    exact ⟨htunnel.ifName, htunnel.listenPort, htunnel.interface, hpeer, htunnel.device,
      htunnel.address, htunnel.up, hroute⟩
  · intro x hx
    show machine.agent.host.endpoint i b.pubkey = x
    rw [← hkey, ← hendpoint y hy rfl x hx]
    exact hgiven (he x hx).1 (hendpoint y hy rfl x hx ▸ (he x hx).2.1)
  · show (y.id, i, port) ∈ machine.agent.mappings
    have hfiled := hledger.filed hclean y.id i hheld.tunnel.ifName
    rw [hports _ hmem] at hfiled
    exact hfiled
  · -- the node remembers what it has reported, and that is in the tables
    obtain ⟨-, -, hrow⟩ := (hinv'.nodes p _ hnode').reported (y.id, port) hmem
    exact hrow (hquiet.members.has (has_of_identityOf hpartner.self))
      (hquiet.members.has (has_of_identityOf hpartner.other))

/-- **A poll** in a quiet run: at its end the agent has the tunnel, with the endpoint of the
other end if that was known at the beginning, and the server has its port. -/
theorem WholePoll.upheld {es : List MeshEvent} {token : JsString} {awg : Api.Awg Api.Scalar}
    {e : Option JsString} (hpoll : WholePoll env m p q monitor es) (hinv : MeshInv env m)
    (hquiet : Along (meshStep env) (Quiet env) m es) (hpartner : Partner (m.tables env) p a q b)
    (hsettings : settingsOf (m.tables env) a.networkId = some (token, awg))
    (hreporting : Reporting (m.tables env) p a)
    (he : ∀ x ∈ e, Unskipped monitor q ∧ x ≠ [] ∧
      Api.endpointOf (m.tables env) p q b.publicIp = x) :
    ∃ i port node, (run (meshStep env) m es).nodes.get? p = some node ∧
      Upheld ((run (meshStep env) m es).tables env) p a awg q b i port e node := by
  obtain @⟨pre, mid, post, draws, faults, fetched, finished, ⟨node1, hnode1, hidle⟩, hothers,
    ⟨node3, config, machine, ports, hnode3, hpoll3, hok, hspare⟩, hlist⟩ := hpoll
  rw [along_append] at hquiet
  obtain ⟨hquiet1, hfetch, hrest⟩ := hquiet
  rw [along_append] at hrest
  obtain ⟨hquiet3, hfinish, hquiet4⟩ := hrest
  obtain ⟨hinv1, hsame1⟩ := quiet_run hinv hquiet1
  rw [run_append, run_cons] at hnode3
  rw [run_append, run_cons, run_append, run_cons]
  generalize run (meshStep env) m pre = m1 at *
  -- the agent gets its configuration, and has it until the end of the poll
  have hnode2 := (get?_run_ne (m := meshStep env m1 (.fetch p fetched)) hothers).symm.trans hnode3
  obtain ⟨rfl, row, network, hrow, hallowed, hnetwork, hread⟩ :=
    fetch_answered hnode1 hidle hnode2 hpoll3
  obtain ⟨hcurrent, hknown⟩ := current_readConfig hrow hnetwork hread
  have hsame2 := hfetch.undisturbed hinv1
  obtain ⟨hinv3, hsame3⟩ := quiet_run (hinv1.step hfetch.proper hfetch.fresh) hquiet3
  have hsame := hsame2.trans hsame3
  generalize run (meshStep env) (meshStep env m1 (.fetch p fetched)) mid = m3 at *
  have hall := hsame1.trans hsame
  have hpartner1 := hsame1.partner hpartner
  have hrowId : a = ⟨row.networkId, row.pubkey, row.publicIp, row.ipv4⟩ := by
    obtain ⟨row', hrow', ha⟩ := identityOf_eq_some.mp hpartner1.self
    rw [hrow] at hrow'
    cases hrow'
    exact ha
  have hallowed3 := hsame.allowed hallowed
  rw [show row.networkId = a.networkId by rw [hrowId]] at hallowed3
  have hendpoint1 : ∀ x ∈ e, Api.endpointOf (m1.tables env) p q b.publicIp = x :=
    fun x hx => hsame1.endpoint (he x hx).2.2 (he x hx).2.1
  obtain ⟨i, port, node', hnode', hheld⟩ := upheld_finish hinv3 hfinish hnode3 hpoll3
    (hall.partner hpartner) ((hall.networks a.networkId).trans hsettings) hallowed3
    (hcurrent.later hsame) (hreporting.later hall.toSameMembers) hok hlist hspare
    (fun x hx => ⟨(he x hx).1, (he x hx).2.1, hsame.endpoint (hendpoint1 x hx) (he x hx).2.1⟩) (by
      rintro y hy rfl x hx
      exact (hknown y hy b hpartner1.other).symm.trans (hendpoint1 x hx))
  -- and the tunnel stays
  have hsame4 := hall.trans (hfinish.undisturbed hinv3)
  obtain ⟨node'', hnode'', hheld'⟩ := upheld_run (hinv3.step hfinish.proper hfinish.fresh) hquiet4
    (hsame4.partner hpartner) ((hsame4.networks a.networkId).trans hsettings) hnode' hheld
  exact ⟨i, port, node'', hnode'', hheld'⟩

end

/-! ## The endpoints of the others -/

/-- An endpoint has a port that the other end has reported. -/
theorem endpointOf_row {t : Api.Tables} {p q : PeerId} {port : Nat} (hport : port ≠ 0)
    (hrow : t.peerPorts.get? (q, p) = some (port : Int)) (publicIp : JsString) :
    Api.endpointOf t p q publicIp = joinAt 58 publicIp (decimalInt port) := by
  unfold Api.endpointOf
  rw [hrow]
  exact if_neg fun h => hport (Int.natCast_eq_zero.mp h)

/-- **A quiet mesh gets connected.**  In every run in which, from some point on, nobody joins,
leaves or changes: when `q` has polled, and `p` polls after it, with `q` not on relay and not
frozen, and no command failing for the interfaces of the two in these polls, then at the end both
have the tunnel to the other one, and the AWG peer for `q` on `p` has as its endpoint the address
of `q` and the port of the tunnel of `q` to `p`.  Commands that fail in other polls, polls that
throw, lost reports and crashes of any agent, in between and afterwards, do not matter. -/
theorem quiet_mesh_links (env : Api.Env) {es : List MeshEvent} (hproper : ∀ e ∈ es, e.Proper)
    (hfresh : (run (meshStep env) ⟨[], .empty⟩ es).drawn.Nodup) {es1 es2 : List MeshEvent}
    (hquiet : Along (meshStep env) (Quiet env) (run (meshStep env) ⟨[], .empty⟩ es) (es1 ++ es2))
    {p q : PeerId} {a b : Identity}
    (hpartner : Partner ((run (meshStep env) ⟨[], .empty⟩ es).tables env) p a q b)
    (hkey : a.pubkey ≠ [])
    (hreporting : Reporting ((run (meshStep env) ⟨[], .empty⟩ es).tables env) p a)
    (hreporting' : Reporting ((run (meshStep env) ⟨[], .empty⟩ es).tables env) q b)
    {monitor monitor' : Monitor}
    (hpoll' : WholePoll env (run (meshStep env) ⟨[], .empty⟩ es) q p monitor' es1)
    (hpoll : WholePoll env (run (meshStep env) ⟨[], .empty⟩ (es ++ es1)) p q monitor es2)
    (hskip : Unskipped monitor q) :
    ∃ awg node node' i i' port port',
      (∃ token, settingsOf ((run (meshStep env) ⟨[], .empty⟩ es).tables env) a.networkId =
        some (token, awg)) ∧
      (run (meshStep env) ⟨[], .empty⟩ (es ++ es1 ++ es2)).nodes.get? p = some node ∧
      (run (meshStep env) ⟨[], .empty⟩ (es ++ es1 ++ es2)).nodes.get? q = some node' ∧
      Tunnel node.install a.ipv4 awg (b.target q) i port node.machine ∧
      Tunnel node'.install b.ipv4 awg (a.target p) i' port' node'.machine ∧
      node.machine.agent.host.endpoint i b.pubkey = joinAt 58 b.publicIp (decimalInt port') := by
  have hinv := meshInv_run env hproper hfresh
  rw [run_append] at hpoll
  rw [run_append, run_append]
  generalize run (meshStep env) ⟨[], .empty⟩ es = m at *
  rw [along_append] at hquiet
  obtain ⟨hquiet1, hquiet2⟩ := hquiet
  -- the network has its parameters
  have hsettings : ∃ token awg, settingsOf (m.tables env) a.networkId = some (token, awg) := by
    obtain ⟨row, hrow, rfl⟩ := identityOf_eq_some.mp hpartner.self
    obtain ⟨network, hnetwork⟩ := (OMap.has_iff _ _).mp ((m.tables env).schema.peerNetwork hrow)
    exact ⟨network.token, network.awg, by unfold settingsOf; rw [hnetwork]; rfl⟩
  obtain ⟨token, awg, hsettings⟩ := hsettings
  have hpartner' : Partner (m.tables env) q b p a :=
    ⟨hpartner.other, hpartner.self, hpartner.network.symm, fun he => hpartner.ne he.symm, hkey⟩
  have hsettings' : settingsOf (m.tables env) b.networkId = some (token, awg) := by
    rw [hpartner.network]
    exact hsettings
  -- the poll of `q`
  obtain ⟨i', port', node1, hnode1, hheld1⟩ := hpoll'.upheld (e := none) hinv hquiet1 hpartner'
    hsettings' hreporting' (fun x hx => by cases hx)
  obtain ⟨hinv1, hsame1⟩ := quiet_run hinv hquiet1
  -- the poll of `p`, which gets the port of `q`
  have hport : port' ≠ 0 :=
    (hinv1.nodes q node1 hnode1).ledger.paired.ports p port' hheld1.held.tunnel.listenPort
  have hendpoint := endpointOf_row hport hheld1.reported b.publicIp
  obtain ⟨i, port, node, hnode, hheld⟩ := hpoll.upheld
    (e := some (joinAt 58 b.publicIp (decimalInt port'))) hinv1 hquiet2
    (hsame1.partner hpartner) ((hsame1.networks a.networkId).trans hsettings)
    (hreporting.later hsame1.toSameMembers) (by
      rintro x hx
      cases hx
      exact ⟨hskip, by simp [joinAt], hendpoint⟩)
  -- and the tunnel of `q` has stayed
  obtain ⟨node', hnode', hheld'⟩ := upheld_run hinv1 hquiet2 (hsame1.partner hpartner')
    ((hsame1.networks b.networkId).trans hsettings') hnode1 hheld1
  exact ⟨awg, node, node', i, i', port, port', ⟨token, hsettings⟩, hnode, hnode',
    hheld.held.tunnel, hheld'.held.tunnel, hheld.held.endpoint _ rfl⟩

/-! ## Two agents that meet -/

/-- What others see of the two peers of `meetRun`. -/
def meetIdentity (publicIp ipv4 : String) : Identity :=
  ⟨Api.networkUuid, Api.sampleKey, js publicIp, js ipv4⟩

theorem meetRun_partner : Partner ((run (meshStep Api.sampleEnv) ⟨[], .empty⟩ meetRun).tables
    Api.sampleEnv) Api.peerUuid (meetIdentity "192.0.2.6" "10.0.0.1") Api.otherUuid
    (meetIdentity "192.0.2.7" "10.0.0.2") := by
  exact ⟨by decide, by decide, by decide, by decide, by decide⟩

/-- In a small mesh whose ids are UUIDs ports can be reported. -/
theorem reporting_of_rows {t : Api.Tables} (huuid : ∀ q ∈ t.peers.keys, Api.UUID_RE q = true)
    (hlen : t.peers.keys.length ≤ 100) (p : PeerId) (a : Identity) : Reporting t p a := by
  have hkeys : ∀ {q b}, Partner t p a q b → q ∈ t.peers.keys := by
    intro q b h
    exact (OMap.mem_keys _ _).mpr (has_of_identityOf h.other)
  refine ⟨fun q b h => huuid q (hkeys h), fun l hl hpartners => ?_⟩
  have hsub : l ⊆ t.peers.keys := fun q hq => (hpartners q hq).elim fun _ => hkeys
  exact (List.subperm_of_subset hl hsub).length_le.trans hlen

theorem agents_quickPoll {faults : Faults} (hwhole : faults.writeMappings ≠ .cut) (p : PeerId)
    (draw : Nat) : ∀ e ∈ quickPoll faults p draw, e.peer ≠ none ∧ e.Proper :=
  List.forall_mem_cons.mpr ⟨⟨Option.some_ne_none p, trivial⟩,
    List.forall_mem_cons.mpr ⟨⟨Option.some_ne_none p, hwhole⟩, List.forall_mem_nil _⟩⟩

/-- A poll in which the rule cannot be added, and one without a fault. -/
def repairedPoll (p : PeerId) (draw : Nat) : List MeshEvent :=
  quickPoll ruleFaults p draw ++ quickPoll .none p draw

theorem agents_repairedPoll (p : PeerId) (draw : Nat) :
    ∀ e ∈ repairedPoll p draw, e.peer ≠ none ∧ e.Proper :=
  List.forall_mem_append.mpr
    ⟨agents_quickPoll (by decide) p draw, agents_quickPoll (by decide) p draw⟩

theorem wholePoll_meetRun : WholePoll Api.sampleEnv
    (run (meshStep Api.sampleEnv) ⟨[], .empty⟩ meetRun) Api.otherUuid Api.peerUuid .empty
    (repairedPoll Api.otherUuid 7) :=
  @WholePoll.intro Api.sampleEnv _ Api.otherUuid Api.peerUuid .empty
    (quickPoll ruleFaults Api.otherUuid 7) [] [] (fun _ => [7]) .none (Api.drawsOf [])
    (Api.drawsOf []) ⟨_, rfl, rfl⟩ (List.forall_mem_nil _)
    ⟨_, _, _, _, rfl, rfl, rfl, fun _ _ _ => rfl⟩ rfl

theorem wholePoll_meetRun' : WholePoll Api.sampleEnv (run (meshStep Api.sampleEnv) ⟨[], .empty⟩
    (meetRun ++ repairedPoll Api.otherUuid 7)) Api.peerUuid Api.otherUuid .empty
    (quickPoll .none Api.peerUuid 8) :=
  @WholePoll.intro Api.sampleEnv _ Api.peerUuid Api.otherUuid .empty [] [] [] (fun _ => [8]) .none
    (Api.drawsOf []) (Api.drawsOf []) ⟨_, rfl, rfl⟩ (List.forall_mem_nil _)
    ⟨_, _, _, _, rfl, rfl, rfl, fun _ _ _ => rfl⟩ rfl

theorem quiet_mesh_links_meetRun : ∃ node i port',
    (run (meshStep Api.sampleEnv) ⟨[], .empty⟩ (meetRun ++ repairedPoll Api.otherUuid 7 ++
      quickPoll .none Api.peerUuid 8)).nodes.get? Api.peerUuid = some node ∧
    node.machine.agent.peerToIf.get? Api.otherUuid = some i ∧
    node.machine.agent.host.endpoint i Api.sampleKey =
      joinAt 58 (js "192.0.2.7") (decimalInt port') := by
  have hreporting := reporting_of_rows (t := (run (meshStep Api.sampleEnv) ⟨[], .empty⟩
    meetRun).tables Api.sampleEnv) (by decide) (by decide)
  obtain ⟨awg, node, node', i, i', port, port', -, hnode, -, htunnel, -, hendpoint⟩ :=
    quiet_mesh_links Api.sampleEnv proper_meetRun (by decide)
      (quiet_of_agents (by decide) (List.forall_mem_append.mpr
        ⟨agents_repairedPoll Api.otherUuid 7, agents_quickPoll (by decide) Api.peerUuid 8⟩))
      meetRun_partner (by decide) (hreporting _ _) (hreporting _ _) wholePoll_meetRun
      wholePoll_meetRun' ⟨by decide, by decide⟩
  exact ⟨node, i, port', hnode, htunnel.ifName, hendpoint⟩

/-! ## Reports that are refused -/

section
variable {env : Api.Env} {m : Mesh} {p : PeerId} {a : Identity}

/-- A report of more than a hundred ports changes nothing. -/
theorem putPorts_many (t : Api.Tables) (now : Api.Draws) (authorization : Option JsString)
    {ports : List (PeerId × Nat)} (hmany : 100 < ports.length) :
    (Api.handle env t now (.putPorts authorization p (some (portsBody ports)))).1 = t := by
  have hread : Api.readPorts (portsBody ports) = .error "Invalid ports (array, max 100 entries)" := by
    unfold Api.readPorts portsBody
    dsimp only
    rw [List.length_map, if_neg (by omega)]
  show (Api.putPorts env t authorization p (some (portsBody ports))).1 = t
  unfold Api.putPorts Api.putPortsBody
  simp only [hread]
  split <;> rfl

/-- A step that enters a port of `p` is the end of a poll with at most a hundred ports. -/
theorem new_port_step (hinv : MeshInv env m) {e : MeshEvent} (hquiet : Quiet env m e) {q : PeerId}
    {port : Int} (hnone : (m.tables env).peerPorts.get? (p, q) ≠ some port)
    (hport : ((meshStep env m e).tables env).peerPorts.get? (p, q) = some port) :
    ∃ node config monitor draws faults delivery now machine ports,
      e = .finish p monitor draws faults delivery now ∧ m.nodes.get? p = some node ∧
      node.poll = some config ∧
      node.machine.reconcileWith node.install faults config draws monitor = .ok (machine, ports) ∧
      ports.length ≤ 100 := by
  have hask : ∀ e', isPortReport e' = false → (m.ask e').drawn.Nodup →
      ((m.ask e').tables env).peerPorts.get? (p, q) ≠ some port := fun e' he' hfresh hport =>
    hnone ((@later_step env m.requests e' he' hfresh p).ports q port hport)
  obtain ⟨hproper, hfresh, -⟩ := hquiet
  cases e with
  | request e => exact absurd hport (hask e hproper hfresh)
  | start r install authorization range host kernel =>
    unfold meshStep at hport
    dsimp only at hport
    split at hport <;> exact absurd hport hnone
  | fetch r now =>
    unfold meshStep Mesh.fetch at hport
    dsimp only at hport
    split at hport
    · exact absurd hport hnone
    · rename_i node hnode
      have hget := hask (.serve (.getConfig node.authorization r) now) rfl
        (drawn_ask_getConfig m r node.authorization now ▸ hinv.fresh)
      split at hport
      · exact absurd hport hnone
      · split at hport <;> exact absurd hport hget
  | finish r monitor draws faults delivery now =>
    unfold meshStep Mesh.finish at hport
    dsimp only at hport
    split at hport
    · exact absurd hport hnone
    · rename_i node hnode
      split at hport
      · exact absurd hport hnone
      · rename_i config hpoll
        split at hport
        · exact absurd hport hnone
        · rename_i machine ports hok
          -- the report, whether the agent hears of it or not
          have hput : ((m.ask (.serve (.putPorts node.authorization r (some (portsBody ports)))
              now)).tables env).peerPorts.get? (p, q) = some port →
              r = p ∧ ports.length ≤ 100 := by
            intro hport
            rw [tables_ask] at hport
            have hport : (Api.handle env (m.tables env) now (.putPorts node.authorization r
              (some (portsBody ports)))).1.peerPorts.get? (p, q) = some port := hport
            by_cases hmany : 100 < ports.length
            · rw [putPorts_many _ now node.authorization hmany] at hport
              exact absurd hport hnone
            · refine ⟨?_, by omega⟩
              by_contra hr
              rcases putPorts_portsBody env (m.tables env) now node.authorization r ports with
                ⟨-, hok⟩ | ⟨-, hsame⟩
              · exact hnone ((later_upsertPorts hok hr m.drawn).ports q port hport)
              · rw [hsame] at hport
                exact hnone hport
          obtain ⟨rfl, hlen⟩ : r = p ∧ ports.length ≤ 100 := by
            split at hport
            · exact absurd hport hnone
            · cases delivery with
              | lost => exact absurd hport hnone
              | unheard => exact hput hport
              | answered =>
                dsimp only at hport
                split at hport <;> exact hput hport
          exact ⟨node, config, monitor, draws, faults, delivery, now, machine, ports, rfl, hnode,
            hpoll, hok, hlen⟩
  | crash r monitor draws faults turns removals =>
    unfold meshStep Mesh.crash at hport
    dsimp only at hport
    split at hport <;> exact absurd hport hnone

/-- An agent is started idle. -/
theorem started_idle {e : MeshEvent} {node : Node} (h : m.nodes.get? p = none)
    (h' : (meshStep env m e).nodes.get? p = some node) : node.poll = none := by
  by_cases he : e.peer = some p
  · cases e with
    | request e => cases he
    | start q install authorization range host kernel =>
      cases he
      unfold meshStep at h'
      dsimp only at h'
      split at h'
      · rw [h] at h'
        cases h'
      · have hself := (OMap.get?_set_self _ _ _).symm.trans h'
        cases hself
        rfl
    | fetch q now =>
      cases he
      unfold meshStep at h'
      simp [h] at h'
    | finish q monitor draws faults delivery now =>
      cases he
      unfold meshStep at h'
      simp [h] at h'
    | crash q monitor draws faults turns removals =>
      cases he
      unfold meshStep at h'
      simp [h] at h'
  · rw [get?_meshStep_ne he, h] at h'
    cases h'

/-- In a quiet run an idle agent has only current configurations. -/
theorem timely_run (hinv : MeshInv env m) {es : List MeshEvent}
    (hquiet : Along (meshStep env) (Quiet env) m es)
    (hidle : ∀ node, m.nodes.get? p = some node → node.poll = none) :
    ∀ node config, (run (meshStep env) m es).nodes.get? p = some node → node.poll = some config →
      Current ((run (meshStep env) m es).tables env) p config := by
  refine (run_invariant_along (meshStep env) (I := fun s => MeshInv env s ∧ ∀ node config,
    s.nodes.get? p = some node → node.poll = some config → Current (s.tables env) p config) ?_
    ⟨hinv, fun node config hnode hpoll => ?_⟩ hquiet).2
  · rintro s e ⟨hs, htimely⟩ he
    refine ⟨hs.step he.proper he.fresh, fun node' config hnode' hpoll => ?_⟩
    have hlater := he.undisturbed hs
    cases hnode : s.nodes.get? p with
    | none =>
      have hidle := started_idle hnode hnode'
      rw [hpoll] at hidle
      cases hidle
    | some node =>
      obtain ⟨node'', hnode'', hstep⟩ := @nodeStep_meshStep env s p node hnode e he.proper
      rw [hnode'] at hnode''
      cases hnode''
      cases hstep with
      | same => exact (htimely _ config hnode hpoll).later hlater
      | fetched hidle hrow hnetwork => exact (current_readConfig hrow hnetwork hpoll).1.later hlater
      | called hidle hwhole hcall lastPorts => cases hpoll
      | killed hidle turns removals hcall => cases hpoll
      | rebooted hidle => cases hpoll
  · rw [hidle node hnode] at hpoll
    cases hpoll

end

/-- No command of `p` fails in the step, except that its mapping file may not be written. -/
def MeshEvent.Spares (p : PeerId) : MeshEvent → Prop
  | .finish q _ _ faults _ _ => q = p → faults.listInterfaces = false ∧ ∀ i, faults.Spare i
  | _ => True

/-- **Reports in big networks.**  In a quiet run in which no command of `p` fails and the server
gets a port of `p` that it did not have, `p` has at most a hundred other members with a key in
its network.  So in a bigger network no report of such an agent is ever taken. -/
theorem few_when_reported (env : Api.Env) {es : List MeshEvent} (hproper : ∀ e ∈ es, e.Proper)
    (hfresh : (run (meshStep env) ⟨[], .empty⟩ es).drawn.Nodup) {es' : List MeshEvent}
    (hquiet : Along (meshStep env) (Quiet env) (run (meshStep env) ⟨[], .empty⟩ es) es')
    {p : PeerId} {a : Identity}
    (hidle : ∀ node, (run (meshStep env) ⟨[], .empty⟩ es).nodes.get? p = some node →
      node.poll = none)
    (hspares : ∀ e ∈ es', e.Spares p) {q : PeerId}
    (hnew : ((run (meshStep env) ⟨[], .empty⟩ (es ++ es')).tables env).peerPorts.get? (p, q) ≠
      ((run (meshStep env) ⟨[], .empty⟩ es).tables env).peerPorts.get? (p, q))
    {l : List PeerId} (hl : l.Nodup)
    (hmembers : ∀ r ∈ l, ∃ b, Partner ((run (meshStep env) ⟨[], .empty⟩ es).tables env) p a r b) :
    l.length ≤ 100 := by
  have hinv := meshInv_run env hproper hfresh
  rw [run_append] at hnew
  generalize run (meshStep env) ⟨[], .empty⟩ es = m at *
  induction es' using List.reverseRecOn with
  | nil => exact absurd rfl hnew
  | append_singleton es' e ih =>
    rw [along_append] at hquiet
    obtain ⟨hquiet, he, -⟩ := hquiet
    obtain ⟨hinv', hsame⟩ := quiet_run hinv hquiet
    have htimely := timely_run hinv hquiet hidle
    rw [run_concat] at hnew
    generalize run (meshStep env) m es' = m' at *
    by_cases hold : (m'.tables env).peerPorts.get? (p, q) = (m.tables env).peerPorts.get? (p, q)
    · -- the port is new in the last step
      obtain ⟨port, hport⟩ : ∃ port,
          ((meshStep env m' e).tables env).peerPorts.get? (p, q) = some port := by
        cases hnone : ((meshStep env m' e).tables env).peerPorts.get? (p, q) with
        | some port => exact ⟨port, rfl⟩
        | none =>
          cases hwas : (m'.tables env).peerPorts.get? (p, q) with
          | none => exact absurd (hnone.trans (hwas.symm.trans hold)) hnew
          | some port =>
            rw [(he.undisturbed hinv').ports p q port hwas] at hnone
            cases hnone
      obtain ⟨node, config, monitor, draws, faults, delivery, now, machine, ports, rfl, hnode,
        hpoll, hok, hlen⟩ :=
        new_port_step hinv' he (fun hwas => hnew (by rw [hport, ← hold, hwas])) hport
      obtain ⟨hlist, hspare⟩ := hspares (.finish p monitor draws faults delivery now) (by simp) rfl
      have hids := @reconcile_reports node.install faults config draws
        { node.machine with agent := { node.machine.agent with monitor } } machine ports
        (hinv'.nodes p node hnode).ledger.paired.distinct hok hlist hspare
      -- it reports a port for every member with a key
      have hsub : l ⊆ ports.map Prod.fst := by
        intro r hr
        obtain ⟨b, hb⟩ := hmembers r hr
        have hb := hsame.partner hb
        obtain ⟨x, hx, rfl⟩ := (htimely node config hnode hpoll).all a r b hb.self hb.other
          hb.network hb.ne
        obtain ⟨b', hb', hkey, -⟩ := (htimely node config hnode hpoll).peers x hx
        rw [hb.other] at hb'
        cases hb'
        exact hids x hx (hkey ▸ hb.key)
      have hle := (List.subperm_of_subset hl hsub).length_le
      rw [List.length_map] at hle
      omega
    · exact ih (fun x hx => hspares x (List.mem_append_left _ hx)) hquiet hold

theorem few_when_reported_meetRun :
    ((run (meshStep Api.sampleEnv) ⟨[], .empty⟩ (meetRun ++ quickPoll .none Api.otherUuid 7)).tables
      Api.sampleEnv).peerPorts.get? (Api.otherUuid, Api.peerUuid) = some 51827 ∧
    [Api.peerUuid].length ≤ 100 := by
  have hpartner := meetRun_partner
  refine ⟨by decide, few_when_reported Api.sampleEnv proper_meetRun (by decide)
    (quiet_of_agents (by decide) (@agents_quickPoll .none (by decide) Api.otherUuid 7))
    (p := Api.otherUuid) (q := Api.peerUuid) (fun node hnode => by cases hnode; rfl)
    (List.forall_mem_cons.mpr ⟨trivial, List.forall_mem_singleton.mpr
      fun _ => ⟨rfl, fun _ _ => rfl⟩⟩) (by decide)
    (List.nodup_singleton _) (List.forall_mem_singleton.mpr ⟨_, hpartner.other, hpartner.self,
      hpartner.network.symm, fun he => hpartner.ne he.symm, by decide⟩)⟩

end Meshezia
