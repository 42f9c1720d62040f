import Meshezia.Agent.Ledger
import Meshezia.Api.Registration

/-!
# The server and its agents

The two loops of the mesh meet in `peer_ports`: an agent polls its configuration, reconciles,
and reports the ports it listens on (`poll` of `index.ts`), and from these reports the server
makes the endpoints for the others.  A `Mesh` is the server with the requests it has got so
far and, for each peer whose agent has been started, a `Node`: the machine, and the
configuration that the poll under way works on.

Between the answer of `getConfig` and the report of the ports anything can happen: requests of
others, registrations and removals, other agents.  Commands of `reconcile` may fail, a report may
get lost, or its answer, and an agent may be killed in the middle of `reconcile` and start again
from its mapping file.  Left out are polls of one agent that overlap (one that takes longer than
its interval).

Ports are reported by the agents only, and no writing of a mapping file breaks off.  Then in
every run the rows of `peer_ports` stay: a port
that the server has for two peers is the one that the agent has in memory and in its file, no
other peer of that agent has it, and it does not change as long as the two exist
                                                                       (reported_ports_stay)
-/

namespace Meshezia

/-! ## The model -/

/-- What `poll` reads of an entry of its configuration. -/
def readEndpoint (p : Api.PeerEndpoint) : PeerEndpoint where
  id := p.id
  pubkey := p.pubkey
  meshIpv4 := p.meshIpv4
  endpoint := p.endpoint
  listenPort := p.listenPort.toNat

/-- `client.getConfig`: the configuration of an answer, which comes in the order of its query. -/
def readConfig (config : Api.PeerConfig) : Option MeshConfig :=
  let peers := config.peers.map readEndpoint
  if sorted : peers.Pairwise fun a b => jsLt a.id b.id = true then
    some { peers, sorted, selfIpv4 := config.self.meshIpv4, awg := config.network }
  else none

/-- The body of `client.reportPorts`. -/
def portsBody (ports : List (PeerId × Nat)) : Json :=
  .arr (ports.map fun e => .obj [(js "peerId", .str e.1), (js "port", .num (.int e.2))])

/-- An agent on its machine, and the configuration that its poll works on. -/
structure Node where
  install : Install
  authorization : Option JsString
  machine : Machine
  poll : Option MeshConfig

structure Mesh where
  requests : List Api.Event
  nodes : OMap PeerId Node

namespace Mesh

def tables (env : Api.Env) (m : Mesh) : Api.Tables := (Api.exec env m.requests).tables

/-- The ids of the peers that have been registered, or tried to. -/
def drawn (m : Mesh) : List PeerId := m.requests.filterMap Api.drawnPeer

def ask (m : Mesh) (e : Api.Event) : Mesh := { m with requests := m.requests ++ [e] }

def setNode (m : Mesh) (p : PeerId) (node : Node) : Mesh := { m with nodes := m.nodes.set p node }

end Mesh

/-- What becomes of a request: it is answered, the answer is lost, or it does not arrive. -/
inductive Delivery where
  | answered
  | unheard
  | lost
deriving DecidableEq, Repr

inductive MeshEvent where
  | request (e : Api.Event)
  | start (p : PeerId) (install : Install) (authorization : Option JsString) (range : PortRange)
      (host : Host) (kernel : Kernel)
  | fetch (p : PeerId) (now : Api.Draws)
  | finish (p : PeerId) (monitor : Monitor) (draws : PeerId → List Nat) (faults : Faults)
      (delivery : Delivery) (now : Api.Draws)
  | crash (p : PeerId) (monitor : Monitor) (draws : PeerId → List Nat) (faults : Faults)
      (turns removals : Nat)

namespace Mesh

/-- `client.getConfig`; when the request fails, the poll is over. -/
def fetch (env : Api.Env) (m : Mesh) (p : PeerId) (node : Node) (now : Api.Draws) : Mesh :=
  let request := .getConfig node.authorization p
  let m' := m.ask (.serve request now)
  match (Api.handle env (m.tables env) now request).2.body with
  | .config config => m'.setNode p { node with poll := readConfig config }
  | _ => m'

/-- The rest of `poll`: `reconcile`, and the ports, when they have changed. -/
def finish (env : Api.Env) (m : Mesh) (p : PeerId) (node : Node) (config : MeshConfig)
    (monitor : Monitor) (draws : PeerId → List Nat) (faults : Faults) (delivery : Delivery)
    (now : Api.Draws) : Mesh :=
  match node.machine.reconcileWith node.install faults config draws monitor with
  | .error machine => m.setNode p { node with machine, poll := none }
  | .ok (machine, ports) =>
    let m' := m.setNode p { node with machine, poll := none }
    if ports = [] ∨ ports = machine.agent.lastPorts then m'
    else
      let request := .putPorts node.authorization p (some (portsBody ports))
      match delivery with
      | .lost => m'
      | .unheard => m'.ask (.serve request now)
      | .answered =>
        if (Api.handle env (m.tables env) now request).2.status = 200 then
          (m'.ask (.serve request now)).setNode p
            { node with
              machine := { machine with agent := { machine.agent with lastPorts := ports } }
              poll := none }
        else m'.ask (.serve request now)

/-- The agent is killed, in the middle of a poll or between two, and starts again. -/
def crash (m : Mesh) (p : PeerId) (node : Node) (monitor : Monitor) (draws : PeerId → List Nat)
    (faults : Faults) (turns removals : Nat) : Mesh :=
  let machine := match node.poll with
    | none => node.machine
    | some config => { node.machine with agent := { node.machine.agent with monitor } }.partway
        node.install faults config draws turns removals
  m.setNode p { node with machine := machine.reboot, poll := none }

end Mesh

/-- One event.  A poll of an agent starts only when its last one is over. -/
def meshStep (env : Api.Env) (m : Mesh) : MeshEvent → Mesh
  | .request e => m.ask e
  | .start p install authorization range host kernel =>
    if m.nodes.has p then m
    else m.setNode p
      { install, authorization, machine := ⟨.boot range host .empty, kernel⟩, poll := none }
  | .fetch p now =>
    match m.nodes.get? p with
    | none => m
    | some node =>
      match node.poll with
      | some _ => m
      | none => m.fetch env p node now
  | .finish p monitor draws faults delivery now =>
    match m.nodes.get? p with
    | none => m
    | some node =>
      match node.poll with
      | none => m
      | some config => m.finish env p node config monitor draws faults delivery now
  | .crash p monitor draws faults turns removals =>
    match m.nodes.get? p with
    | none => m
    | some node => m.crash p node monitor draws faults turns removals

/-- A report of ports, or a part of one. -/
def isPortReport : Api.Event → Bool
  | .serve (.putPorts _ _ _) _ | .openPorts _ _ | .portsBody _ _ => true
  | _ => false

/-- Ports are reported by the agents only, an agent is started with tables that are not the
host's own, and with a range of ports, and no writing of a mapping file breaks off. -/
def MeshEvent.Proper : MeshEvent → Prop
  | .request e => isPortReport e = false
  | .start _ install _ range _ _ => MAIN_TABLE < install.rtTableBase ∧ 0 < range.start ∧
      range.start ≤ range.stop ∧ range.stop ≤ 65535
  | .finish _ _ _ faults _ _ => faults.writeMappings ≠ .cut
  | _ => True

/-! ## The tables under the requests of others -/

/-- What others do to the ports of `p`: none is new or changes, and the peers that are there
have been there before, in the same network. -/
structure Later (drawn : List PeerId) (p : PeerId) (t t' : Api.Tables) : Prop where
  ports : ∀ q port, t'.peerPorts.get? (p, q) = some port → t.peerPorts.get? (p, q) = some port
  kept : ∀ q, p ∈ drawn → q ∈ drawn → t'.peers.has p = true → t'.peers.has q = true →
    t'.peerPorts.get? (p, q) = t.peerPorts.get? (p, q)
  peers : ∀ q ∈ drawn, ∀ row', t'.peers.get? q = some row' →
    ∃ row, t.peers.get? q = some row ∧ row'.networkId = row.networkId

section
variable {env : Api.Env} {p : PeerId}

/-- **A request of others** leaves the ports of `p` as they are. -/
theorem later_step {es : List Api.Event} {e : Api.Event} (he : isPortReport e = false)
    (hfresh : ((es ++ [e]).filterMap Api.drawnPeer).Nodup) (p : PeerId) :
    Later (es.filterMap Api.drawnPeer) p (Api.exec env es).tables
      (Api.exec env (es ++ [e])).tables := by
  have hnew : ∀ q ∈ es.filterMap Api.drawnPeer, Api.drawnPeer e ≠ some q := by
    intro q hq hdrawn
    rw [List.filterMap_append, List.nodup_append] at hfresh
    refine hfresh.2.2 q hq q ?_ rfl
    rw [List.filterMap_cons, hdrawn]
    simp
  rw [Api.exec_concat]
  have hpeers : ∀ q ∈ es.filterMap Api.drawnPeer, ∀ row',
      (Api.step env (Api.exec env es) e).tables.peers.get? q = some row' →
      ∃ row, (Api.exec env es).tables.peers.get? q = some row ∧
        row'.networkId = row.networkId := by
    intro q hq row' hrow'
    obtain ⟨row, hrow, hnet, -⟩ := Api.peer_before (hnew q hq) hrow'
    exact ⟨row, hrow, hnet⟩
  rcases Api.step_ports env (Api.exec env es) e with ⟨r, hr, -⟩ | ⟨-, hkept | ⟨id, row, hid, hok⟩⟩
  · -- the request is no report
    have hnone : Api.reported env (Api.exec env es) e = none := by
      cases e with
      | serve request draws => cases request <;> first | rfl | cases he
      | openPorts authorization peerId => rfl
      | portsBody index body => cases he
      | reap now deleteFails => rfl
    rw [hnone] at hr
    cases hr
  · refine ⟨fun q port hport => ?_, fun q _ _ hp hq => hkept.ports p q hp hq, hpeers⟩
    obtain ⟨hp, hq⟩ := (Api.step env (Api.exec env es) e).tables.schema.portPeers
      (OMap.has_of_get? hport)
    exact (hkept.ports p q hp hq).symm.trans hport
  · have hports : (Api.step env (Api.exec env es) e).tables.peerPorts =
        (Api.exec env es).tables.peerPorts := by
      rw [(Api.Tables.insertPeer_ok hok).2.2]
    exact ⟨fun q port hport => hports ▸ hport, fun q _ _ _ _ => by rw [hports], hpeers⟩

/-- A report of another peer, too. -/
theorem later_upsertPorts {t t' : Api.Tables} {r : PeerId} {ports : List (PeerId × Int)}
    (hok : Api.upsertPorts t r ports = .ok t') (hr : r ≠ p) (drawn : List PeerId) :
    Later drawn p t t' := by
  obtain ⟨hpeers, -, hports⟩ := Api.upsertPorts_ok hok
  have hsame : ∀ q, t'.peerPorts.get? (p, q) = t.peerPorts.get? (p, q) := by
    intro q
    rw [hports p q, if_neg hr]
    rfl
  exact ⟨fun q port hport => hsame q ▸ hport, fun q _ _ _ _ => hsame q,
    fun q _ row' hrow' => ⟨row', hpeers ▸ hrow', rfl⟩⟩

end

/-! ## What holds of a node -/

/-- The configuration of a poll under way: the ports in it are those of the tables, for the
peers that are still there. -/
structure InFlight (t : Api.Tables) (drawn : List PeerId) (p : PeerId) (agent : Agent)
    (config : MeshConfig) : Prop where
  self : p ∈ drawn
  peers : ∀ q ∈ config.peers, q.id ∈ drawn
  other : ∀ q ∈ config.peers, q.id ≠ p
  network : ∀ q ∈ config.peers, ∀ row rowQ, t.peers.get? p = some row →
    t.peers.get? q.id = some rowQ → rowQ.networkId = row.networkId
  ports : ∀ q ∈ config.peers, t.peers.has p = true → t.peers.has q.id = true →
    (t.peerPorts.get? (p, q.id)).getD 0 = (q.listenPort : Int)
  listed : ∀ q port, t.peerPorts.get? (p, q) = some port →
    Agent.isDesired config.toPeerConfig q = true
  held : HoldsPorts config.toPeerConfig agent

/-- A node agrees with the tables of the server. -/
structure NodeInv (t : Api.Tables) (drawn : List PeerId) (p : PeerId) (node : Node) : Prop where
  base : MAIN_TABLE < node.install.rtTableBase
  ledger : Ledger node.machine.agent
  ports : ∀ q port, t.peerPorts.get? (p, q) = some port → ∃ n : Nat, port = n ∧ n ≠ 0 ∧
    node.machine.agent.peerToPort.get? q = some n ∧ ∃ i, (q, i, n) ∈ node.machine.agent.mappings
  other : ∀ q port, t.peerPorts.get? (p, q) = some port → q ≠ p
  network : ∀ q port, t.peerPorts.get? (p, q) = some port → ∀ row rowQ,
    t.peers.get? p = some row → t.peers.get? q = some rowQ → rowQ.networkId = row.networkId
  reported : ∀ e ∈ node.machine.agent.lastPorts, p ∈ drawn ∧ e.1 ∈ drawn ∧
    (t.peers.has p = true → t.peers.has e.1 = true →
      t.peerPorts.get? (p, e.1) = some (e.2 : Int))
  poll : ∀ config, node.poll = some config → InFlight t drawn p node.machine.agent config

section
variable {t t' : Api.Tables} {drawn : List PeerId} {p : PeerId} {node : Node}

theorem has_of_later (h : Later drawn p t t') {q : PeerId} (hq : q ∈ drawn)
    (hhas : t'.peers.has q = true) : t.peers.has q = true := by
  obtain ⟨row', hrow'⟩ := (OMap.has_iff _ _).mp hhas
  obtain ⟨row, hrow, -⟩ := h.peers q hq row' hrow'
  exact OMap.has_of_get? hrow

/-- What others do keeps it. -/
theorem NodeInv.later (h : NodeInv t drawn p node) (hlater : Later drawn p t t')
    (hdrawn : ∀ q, t.peers.has q = true → q ∈ drawn) (ids : List PeerId) :
    NodeInv t' (drawn ++ ids) p node := by
  have hnet : ∀ {q}, q ∈ drawn → p ∈ drawn → (∀ row rowQ, t.peers.get? p = some row →
      t.peers.get? q = some rowQ → rowQ.networkId = row.networkId) → ∀ row rowQ,
      t'.peers.get? p = some row → t'.peers.get? q = some rowQ →
      rowQ.networkId = row.networkId := by
    intro q hq hp hold row rowQ hrow hrowQ
    obtain ⟨old, hgot, he⟩ := hlater.peers p hp row hrow
    obtain ⟨oldQ, hgotQ, heQ⟩ := hlater.peers q hq rowQ hrowQ
    rw [he, heQ]
    exact hold old oldQ hgot hgotQ
  constructor
  · exact h.base
  · exact h.ledger
  · exact fun q port hport => h.ports q port (hlater.ports q port hport)
  · exact fun q port hport => h.other q port (hlater.ports q port hport)
  · intro q port hport
    have hold := hlater.ports q port hport
    obtain ⟨hp, hq⟩ := t.schema.portPeers (OMap.has_of_get? hold)
    exact hnet (hdrawn q hq) (hdrawn p hp) (h.network q port hold)
  · intro e he
    obtain ⟨hp, hq, hrow⟩ := h.reported e he
    refine ⟨List.mem_append_left _ hp, List.mem_append_left _ hq, fun hp' hq' => ?_⟩
    rw [hlater.kept e.1 hp hq hp' hq']
    exact hrow (has_of_later hlater hp hp') (has_of_later hlater hq hq')
  · intro config hpoll
    have hflight := h.poll config hpoll
    refine ⟨List.mem_append_left _ hflight.self, ?_, hflight.other, ?_, ?_, ?_, hflight.held⟩
    · exact fun q hq => List.mem_append_left _ (hflight.peers q hq)
    · exact fun q hq => hnet (hflight.peers q hq) hflight.self (hflight.network q hq)
    · intro q hq hp' hq'
      rw [hlater.kept q.id hflight.self (hflight.peers q hq) hp' hq']
      exact hflight.ports q hq (has_of_later hlater hflight.self hp')
        (has_of_later hlater (hflight.peers q hq) hq')
    · exact fun q port hport => hflight.listed q port (hlater.ports q port hport)

/-- A list of ports that the agent may report. -/
structure Reportable (t : Api.Tables) (drawn : List PeerId) (p : PeerId) (agent : Agent)
    (ports : List (PeerId × Nat)) : Prop where
  nodup : (ports.map Prod.fst).Nodup
  held : ∀ e ∈ ports, agent.peerToPort.get? e.1 = some e.2
  filed : ∀ e ∈ ports, e.2 ≠ 0 ∧ ∃ i, (e.1, i, e.2) ∈ agent.mappings
  drawn : ∀ e ∈ ports, p ∈ drawn ∧ e.1 ∈ drawn ∧ e.1 ≠ p
  network : ∀ e ∈ ports, ∀ row rowQ, t.peers.get? p = some row → t.peers.get? e.1 = some rowQ →
    rowQ.networkId = row.networkId
  same : ∀ e ∈ ports, ∀ port, t.peerPorts.get? (p, e.1) = some port → port = (e.2 : Int)

/-! ## A poll of the node -/

section
variable {config : MeshConfig} {monitor : Monitor} {draws : PeerId → List Nat} {faults : Faults}
  {machine : Machine} {ports : List (PeerId × Nat)}

/-- A port of the tables is in memory after a call, too. -/
theorem NodeInv.port_held (h : NodeInv t drawn p node) (hflight : InFlight t drawn p
    node.machine.agent config) {s : Agent} (hheld : HoldsPorts config.toPeerConfig s) {q : PeerId}
    {port : Int} (hport : t.peerPorts.get? (p, q) = some port) :
    ∃ n : Nat, port = n ∧ n ≠ 0 ∧ s.peerToPort.get? q = some n := by
  obtain ⟨n, rfl, hne, -, -⟩ := h.ports q port hport
  obtain ⟨x, hx, hid⟩ := List.any_eq_true.mp (hflight.listed q n hport)
  have hid := of_decide_eq_true hid
  subst hid
  obtain ⟨hp, hq⟩ := t.schema.portPeers (OMap.has_of_get? hport)
  have hlisten := hflight.ports x hx hp hq
  rw [hport, Option.getD_some, Int.natCast_inj] at hlisten
  refine ⟨n, rfl, hne, ?_⟩
  rw [hheld x hx (by omega), hlisten]

/-- `getPort` throws, or the file cannot be written. -/
theorem NodeInv.finish_error (h : NodeInv t drawn p node) (hpoll : node.poll = some config)
    (hwhole : faults.writeMappings ≠ .cut)
    (herror : node.machine.reconcileWith node.install faults config draws monitor =
      .error machine) :
    NodeInv t drawn p { node with machine, poll := none } := by
  have hflight := h.poll config hpoll
  obtain ⟨⟨hledger', hheld⟩, hfile, hlast, -⟩ := @Ledger.reconcile_error node.install faults config
    draws { node.machine with agent := { node.machine.agent with monitor } } machine
    (h.ledger.withMonitor monitor) hflight.held hwhole herror
  refine ⟨h.base, hledger', fun q port hport => ?_, h.other, h.network, ?_, fun _ hnone => by cases hnone⟩
  · obtain ⟨n, rfl, hne, hget⟩ := h.port_held hflight hheld hport
    obtain ⟨n', he, -, -, i, hi⟩ := h.ports q n hport
    rw [Int.natCast_inj] at he
    subst he
    refine ⟨n, rfl, hne, hget, i, ?_⟩
    show (q, i, n) ∈ machine.agent.mappings
    rw [hfile]
    exact hi
  · show ∀ e ∈ machine.agent.lastPorts, _
    rw [hlast]
    exact h.reported

/-- `reconcile` returns: the ports to report are in memory and in the file, and those that the
tables have already are the same. -/
theorem NodeInv.finish_ok (h : NodeInv t drawn p node) (hpoll : node.poll = some config)
    (hok : node.machine.reconcileWith node.install faults config draws monitor =
      .ok (machine, ports)) :
    NodeInv t drawn p { node with machine, poll := none } ∧
      Reportable t drawn p machine.agent ports := by
  have hflight := h.poll config hpoll
  obtain ⟨hledger', hheld, hclean, hlast, hids, hports⟩ := @Ledger.reconcile_ok node.install
    faults config draws { node.machine with agent := { node.machine.agent with monitor } } machine ports
    (h.ledger.withMonitor monitor) hflight.held hok
  -- what has a port in memory has an interface, and both are in the file
  have hfiled : ∀ q n, machine.agent.peerToPort.get? q = some n →
      n ≠ 0 ∧ ∃ i, (q, i, n) ∈ machine.agent.mappings := by
    intro q n hq
    obtain ⟨i, hi⟩ := (OMap.has_iff _ _).mp (hledger'.paired.named q (OMap.has_of_get? hq))
    have hmem := hledger'.filed hclean q i hi
    rw [hq] at hmem
    exact ⟨hledger'.paired.ports q n hq, i, hmem⟩
  have hentry : ∀ e ∈ ports, ∃ x ∈ config.peers, x.id = e.1 := by
    intro e he
    obtain ⟨x, hx, hid⟩ := List.mem_map.mp (hids.subset (List.mem_map_of_mem he))
    exact ⟨x, (List.mem_filter.mp hx).1, hid⟩
  refine ⟨⟨h.base, hledger', fun q port hport => ?_, h.other, h.network, ?_,
    fun _ hnone => by cases hnone⟩, ?_, hports, fun e he => hfiled e.1 e.2 (hports e he), ?_, ?_,
    ?_⟩
  · obtain ⟨n, rfl, hne, hget⟩ := h.port_held hflight hheld hport
    exact ⟨n, rfl, hne, hget, (hfiled q n hget).2⟩
  · show ∀ e ∈ machine.agent.lastPorts, _
    rw [hlast]
    exact h.reported
  · exact (config.ids_nodup.sublist (List.filter_sublist.map _)).sublist hids
  · intro e he
    obtain ⟨x, hx, hid⟩ := hentry e he
    exact ⟨hflight.self, hid ▸ hflight.peers x hx, hid ▸ hflight.other x hx⟩
  · intro e he
    obtain ⟨x, hx, hid⟩ := hentry e he
    exact hid ▸ hflight.network x hx
  · intro e he port hport
    obtain ⟨n, rfl, -, hget⟩ := h.port_held hflight hheld hport
    rw [hports e he] at hget
    cases hget
    rfl

/-- The agent is killed and starts again. -/
theorem NodeInv.crash (h : NodeInv t drawn p node) (monitor : Monitor)
    (draws : PeerId → List Nat) (faults : Faults) (turns removals : Nat) :
    let machine := match node.poll with
      | none => node.machine
      | some config => { node.machine with agent := { node.machine.agent with monitor } }.partway
          node.install faults config draws turns removals
    NodeInv t drawn p { node with machine := machine.reboot, poll := none } := by
  intro machine
  have hmachine : Ledger machine.agent ∧
      machine.agent.mappings = node.machine.agent.mappings := by
    show Ledger (match node.poll with
      | none => node.machine
      | some config => Machine.partway node.install faults
          { node.machine with agent := { node.machine.agent with monitor } } config draws turns
          removals).agent ∧ _
    cases hpoll : node.poll with
    | none =>
      simp only [machine, hpoll]
      exact ⟨h.ledger, trivial⟩
    | some config =>
      have hpart := @Ledger.partway node.install faults config
        { node.machine with agent := { node.machine.agent with monitor } }
        (h.ledger.withMonitor monitor) (h.poll config hpoll).held draws turns removals
      simp only [machine, hpoll]
      exact hpart
  obtain ⟨hledger, hfile⟩ := hmachine
  obtain ⟨hledger', hfile', hlast, hread⟩ := hledger.reboot
  refine ⟨h.base, hledger', fun q port hport => ?_, h.other, h.network, ?_, fun _ hnone => by cases hnone⟩
  · obtain ⟨n, rfl, hne, -, i, hi⟩ := h.ports q port hport
    refine ⟨n, rfl, hne, (hread q i n (hfile ▸ hi)).2 hne, i, ?_⟩
    show (q, i, n) ∈ machine.reboot.agent.mappings
    rw [hfile', hfile]
    exact hi
  · show ∀ e ∈ machine.reboot.agent.lastPorts, _
    rw [hlast]
    exact List.forall_mem_nil _

end

end

/-! ## The answer of `getConfig` -/

section
variable {env : Api.Env} {t : Api.Tables} {p : PeerId} {authorization : Option JsString}
  {now : Api.Draws} {response : Api.PeerConfig}

/-- The handlers send a configuration only with status 200. -/
theorem getConfig_answer
    (h : (Api.handle env t now (.getConfig authorization p)).2.body = .config response) :
    ∃ row network, t.peers.get? p = some row ∧
      Api.requireAdminOrNetwork env t authorization row.networkId = none ∧
      t.networks.get? row.networkId = some network ∧
      response = Api.configFor t p row network := by
  have h : (Api.getConfig env t authorization p now).2.body = .config response := h
  have hstatus : (Api.getConfig env t authorization p now).2.status = 200 := by
    unfold Api.getConfig at h ⊢
    split at h
    · cases h
    · split at h
      · rename_i deny hdeny
        unfold Api.requireAdminOrNetwork at hdeny
        split at hdeny
        · cases hdeny
        · cases hdeny
          cases h
      · dsimp only at h ⊢
        split at h
        · cases h
        · rfl
  obtain ⟨row, network, hrow, hallowed, hnetwork, hanswer⟩ := Api.getConfig_of_status hstatus
  rw [hanswer] at h
  cases h
  exact ⟨row, network, hrow, hallowed, hnetwork, rfl⟩

/-- What the agent reads of the configuration that it gets. -/
theorem readConfig_configFor (t : Api.Tables) (p : PeerId) (row : Api.PeerRecord)
    (network : Api.NetworkRecord) : ∃ config,
      readConfig (Api.configFor t p row network) = some config ∧
      config.selfIpv4 = row.ipv4 ∧ config.awg = network.awg ∧
      ∀ x, x ∈ config.peers ↔ ∃ q rowQ, t.peers.get? q = some rowQ ∧
        rowQ.networkId = row.networkId ∧ q ≠ p ∧ x = readEndpoint (Api.peerEndpoint t p q rowQ) := by
  have hsorted : ((Api.configFor t p row network).peers.map readEndpoint).Pairwise fun a b =>
      jsLt a.id b.id = true := by
    have hlist := (Api.listsOthers_configFor t p row network).sorted
    rw [List.pairwise_map] at hlist ⊢
    exact hlist
  refine ⟨{ peers := (Api.configFor t p row network).peers.map readEndpoint, sorted := hsorted,
            selfIpv4 := row.ipv4, awg := network.awg }, ?_, rfl, rfl, fun x => ?_⟩
  · unfold readConfig
    exact dif_pos hsorted
  · show x ∈ (Api.configFor t p row network).peers.map readEndpoint ↔ _
    unfold Api.configFor
    rw [List.map_map, List.mem_map]
    constructor
    · rintro ⟨e, he, rfl⟩
      obtain ⟨hrow, hnet, hne⟩ := Api.mem_otherPeers.mp he
      exact ⟨e.1, e.2, hrow, hnet, hne, rfl⟩
    · rintro ⟨q, rowQ, hrow, hnet, hne, rfl⟩
      exact ⟨(q, rowQ), Api.mem_otherPeers.mpr ⟨hrow, hnet, hne⟩, rfl⟩

/-- A poll begins. -/
theorem NodeInv.fetch {drawn : List PeerId} {node : Node} (h : NodeInv t drawn p node)
    (hdrawn : ∀ q, t.peers.has q = true → q ∈ drawn) {row : Api.PeerRecord}
    (hrow : t.peers.get? p = some row) (network : Api.NetworkRecord) :
    NodeInv t drawn p { node with poll := readConfig (Api.configFor t p row network) } := by
  obtain ⟨config, hread, -, -, hpeers⟩ := readConfig_configFor t p row network
  refine ⟨h.base, h.ledger, h.ports, h.other, h.network, h.reported, fun config' hconfig' => ?_⟩
  have hsame : config' = config := Option.some.inj (hconfig'.symm.trans hread)
  subst hsame
  have hlisten : ∀ q rowQ, (readEndpoint (Api.peerEndpoint t p q rowQ)).listenPort =
      ((t.peerPorts.get? (p, q)).getD 0).toNat := fun _ _ => rfl
  refine ⟨hdrawn p (OMap.has_of_get? hrow), ?_, ?_, ?_, ?_, ?_, ?_⟩
  · intro x hx
    obtain ⟨q, rowQ, hrowQ, -, -, rfl⟩ := (hpeers x).mp hx
    exact hdrawn q (OMap.has_of_get? hrowQ)
  · intro x hx
    obtain ⟨q, rowQ, -, -, hne, rfl⟩ := (hpeers x).mp hx
    exact hne
  · intro x hx row' rowQ' hrow' hrowQ'
    obtain ⟨q, rowQ, hrowQ, hnet, -, rfl⟩ := (hpeers x).mp hx
    rw [hrow] at hrow'
    rw [show (readEndpoint (Api.peerEndpoint t p q rowQ)).id = q from rfl, hrowQ] at hrowQ'
    cases hrow'
    cases hrowQ'
    exact hnet
  · intro x hx _ _
    obtain ⟨q, rowQ, -, -, -, rfl⟩ := (hpeers x).mp hx
    rw [hlisten]
    show (t.peerPorts.get? (p, q)).getD 0 = _
    cases hport : t.peerPorts.get? (p, q) with
    | none => rfl
    | some port =>
      obtain ⟨n, rfl, -⟩ := h.ports q port hport
      rfl
  · intro q port hport
    obtain ⟨hp, hq⟩ := t.schema.portPeers (OMap.has_of_get? hport)
    obtain ⟨rowQ, hrowQ⟩ := (OMap.has_iff _ _).mp hq
    exact List.any_eq_true.mpr ⟨_, (hpeers _).mpr ⟨q, rowQ, hrowQ,
      h.network q port hport row rowQ hrow hrowQ, h.other q port hport, rfl⟩, decide_eq_true rfl⟩
  · intro x hx hpos
    obtain ⟨q, rowQ, -, -, -, rfl⟩ := (hpeers x).mp hx
    rw [hlisten] at hpos ⊢
    show node.machine.agent.peerToPort.get? q = _
    cases hport : t.peerPorts.get? (p, q) with
    | none =>
      rw [hport] at hpos
      exact absurd hpos (by decide)
    | some port =>
      obtain ⟨n, rfl, -, hget, -⟩ := h.ports q port hport
      exact hget

end

/-! ## The report -/

/-- The entries of a report, as the server reads them. -/
def entriesOf (ports : List (PeerId × Nat)) : List (PeerId × Int) :=
  ports.map fun e => (e.1, (e.2 : Int))

/-- The server takes an entry with a valid id and a port number. -/
theorem readPort_entry (e : PeerId × Nat) :
    (Api.UUID_RE e.1 = true ∧ 1 ≤ e.2 ∧ e.2 ≤ 65535 →
      Api.readPort (.obj [(js "peerId", .str e.1), (js "port", .num (.int e.2))]) =
        .ok (e.1, (e.2 : Int))) ∧
    ∀ x, Api.readPort (.obj [(js "peerId", .str e.1), (js "port", .num (.int e.2))]) = .ok x →
      x = (e.1, (e.2 : Int)) := by
  have hid : Api.isValidUUID ((Json.obj [(js "peerId", .str e.1), (js "port", .num (.int e.2))]).get?
      (js "peerId")) = (some e.1).filter Api.UUID_RE := rfl
  have hport : Api.isValidPort ((Json.obj [(js "peerId", .str e.1),
      (js "port", .num (.int e.2))]).get? (js "port")) =
      if decide (1 ≤ (e.2 : Int)) && decide ((e.2 : Int) ≤ 65535) then some (e.2 : Int) else none :=
    rfl
  unfold Api.readPort
  simp only [hid, hport]
  constructor
  · rintro ⟨huuid, hlow, hhigh⟩
    have hbounds : (decide (1 ≤ (e.2 : Int)) && decide ((e.2 : Int) ≤ 65535)) = true := by
      simp only [Bool.and_eq_true, decide_eq_true_eq]
      omega
    rw [hbounds, if_pos rfl, Option.filter_some, if_pos huuid]
    rfl
  · intro x hx
    simp only [Api.bind_eq_ok, Api.check_eq_ok] at hx
    obtain ⟨a, ha, b, hb, hx⟩ := hx
    cases hx
    obtain ⟨ha, -⟩ := Option.filter_eq_some_iff.mp ha
    cases ha
    split at hb
    · cases hb
      rfl
    · cases hb

/-- So a body that is taken is read as its entries, and one with at most a hundred of them is. -/
theorem readPorts_portsBody (ports : List (PeerId × Nat)) :
    (∀ l, Api.readPorts (portsBody ports) = .ok l → l = entriesOf ports) ∧
    (ports.length ≤ 100 → (∀ e ∈ ports, Api.UUID_RE e.1 = true ∧ 1 ≤ e.2 ∧ e.2 ≤ 65535) →
      Api.readPorts (portsBody ports) = .ok (entriesOf ports)) := by
  have hread : ∀ ports : List (PeerId × Nat), (∀ l, (ports.map fun e => Json.obj
      [(js "peerId", .str e.1), (js "port", .num (.int e.2))]).mapM Api.readPort = .ok l →
      l = entriesOf ports) ∧
      ((∀ e ∈ ports, Api.UUID_RE e.1 = true ∧ 1 ≤ e.2 ∧ e.2 ≤ 65535) → (ports.map fun e => Json.obj
        [(js "peerId", .str e.1), (js "port", .num (.int e.2))]).mapM Api.readPort =
          .ok (entriesOf ports)) := by
    intro ports
    induction ports with
    | nil =>
      refine ⟨fun l hl => ?_, fun _ => rfl⟩
      cases hl
      rfl
    | cons e rest ih =>
      rw [List.map_cons, List.mapM_cons]
      constructor
      · intro l hl
        simp only [Api.bind_eq_ok] at hl
        obtain ⟨x, hx, xs, hxs, hl⟩ := hl
        cases hl
        rw [(readPort_entry e).2 x hx, ih.1 xs hxs]
        rfl
      · intro hall
        obtain ⟨he, hrest⟩ := List.forall_mem_cons.mp hall
        rw [(readPort_entry e).1 he, ih.2 hrest]
        rfl
  unfold Api.readPorts portsBody
  dsimp only
  rw [List.length_map]
  constructor
  · intro l hl
    split at hl
    · exact (hread ports).1 l hl
    · cases hl
  · intro hlen hall
    rw [if_pos hlen]
    exact (hread ports).2 hall

/-- A report is entered as a whole, or refused. -/
theorem putPorts_portsBody (env : Api.Env) (t : Api.Tables) (now : Api.Draws)
    (authorization : Option JsString) (p : PeerId) (ports : List (PeerId × Nat)) :
    let answer := Api.handle env t now (.putPorts authorization p (some (portsBody ports)))
    (answer.2.status = 200 ∧ Api.upsertPorts t p (entriesOf ports) = .ok answer.1) ∨
    (answer.2.status ≠ 200 ∧ answer.1 = t) := by
  intro answer
  have hanswer : answer = Api.putPorts env t authorization p (some (portsBody ports)) := rfl
  rcases Api.putPorts_cases env t authorization p (some (portsBody ports)) with ⟨h200, hok⟩ | hno
  · refine Or.inl ⟨h200, ?_⟩
    have hread : Api.bodyPorts (some (portsBody ports)) = entriesOf ports := by
      unfold Api.bodyPorts
      rw [Option.map_some]
      cases hread : Api.readPorts (portsBody ports) with
      | ok l => exact (readPorts_portsBody ports).1 l hread
      | error text =>
        -- a body that is not taken is answered with status 400
        rw [← hanswer] at h200
        unfold Api.putPorts at hanswer
        split at hanswer
        · rename_i deny hdeny
          rw [hanswer] at h200
          unfold Api.putPortsCheck Api.requireAdminOrNetwork at hdeny
          split at hdeny
          · cases hdeny
            cases h200
          · split at hdeny
            · cases hdeny
            · cases hdeny
              cases h200
        · rw [hanswer] at h200
          unfold Api.putPortsBody at h200
          simp only [hread] at h200
          cases h200
    rw [← hread]
    exact hok
  · exact Or.inr hno

/-- The entry of a report about a peer. -/
theorem lastPort_entriesOf {ports : List (PeerId × Nat)} (hnodup : (ports.map Prod.fst).Nodup)
    (q : PeerId) (port : Int) :
    Api.lastPort q (entriesOf ports) = some port ↔ ∃ n, (q, n) ∈ ports ∧ port = (n : Int) := by
  induction ports generalizing port with
  | nil => simp [entriesOf, Api.lastPort]
  | cons e rest ih =>
    rw [List.map_cons, List.nodup_cons] at hnodup
    have hcons : entriesOf (e :: rest) = (e.1, (e.2 : Int)) :: entriesOf rest := rfl
    rw [hcons, Api.lastPort_cons]
    by_cases hq : e.1 = q
    · subst hq
      have hnone : Api.lastPort e.1 (entriesOf rest) = none := by
        refine Option.eq_none_iff_forall_ne_some.mpr fun port hport => ?_
        obtain ⟨n, hn, -⟩ := (ih hnodup.2 port).mp hport
        exact hnodup.1 (List.mem_map.mpr ⟨(e.1, n), hn, rfl⟩)
      rw [hnone, if_pos rfl, Option.none_or]
      constructor
      · intro h
        cases h
        exact ⟨e.2, List.mem_cons_self .., rfl⟩
      · rintro ⟨n, hn, rfl⟩
        rcases List.mem_cons.mp hn with he | hn
        · rw [← he]
        · exact absurd (List.mem_map.mpr ⟨(e.1, n), hn, rfl⟩) hnodup.1
    · rw [if_neg hq, Option.or_none, ih hnodup.2 port]
      refine exists_congr fun n => and_congr_left fun _ => ?_
      rw [List.mem_cons]
      refine ⟨Or.inr, fun h => h.resolve_left fun he => hq ?_⟩
      rw [← he]

section
variable {t t' : Api.Tables} {drawn : List PeerId} {p : PeerId} {node : Node}
  {ports : List (PeerId × Nat)}

/-- **A report** is entered: the node agrees with the tables as before, whether it hears of it
or not. -/
theorem NodeInv.report (h : NodeInv t drawn p node) (hpoll : node.poll = none)
    (hreport : Reportable t drawn p node.machine.agent ports)
    (hok : Api.upsertPorts t p (entriesOf ports) = .ok t') :
    NodeInv t' drawn p node ∧ NodeInv t' drawn p { node with machine :=
      { node.machine with agent := { node.machine.agent with lastPorts := ports } } } := by
  obtain ⟨hpeers, -, hports⟩ := Api.upsertPorts_ok hok
  -- a row is an entry of the report, or it was there before
  have hrow : ∀ q port, t'.peerPorts.get? (p, q) = some port →
      (∃ n, (q, n) ∈ ports ∧ port = (n : Int)) ∨ t.peerPorts.get? (p, q) = some port := by
    intro q port hport
    rw [hports p q, if_pos rfl, Option.or_eq_some_iff] at hport
    rcases hport with hnew | ⟨-, hold⟩
    · exact Or.inl ((lastPort_entriesOf hreport.nodup q port).mp hnew)
    · exact Or.inr hold
  have hentry : ∀ e ∈ ports, t'.peerPorts.get? (p, e.1) = some (e.2 : Int) := by
    intro e he
    rw [hports p e.1, if_pos rfl, (lastPort_entriesOf hreport.nodup e.1 e.2).mpr ⟨e.2, he, rfl⟩]
    rfl
  have hrows : ∀ q port, t'.peerPorts.get? (p, q) = some port → ∃ n : Nat, port = n ∧ n ≠ 0 ∧
      node.machine.agent.peerToPort.get? q = some n ∧
      ∃ i, (q, i, n) ∈ node.machine.agent.mappings := by
    intro q port hport
    rcases hrow q port hport with ⟨n, hn, rfl⟩ | hold
    · obtain ⟨hne, hfile⟩ := hreport.filed _ hn
      exact ⟨n, rfl, hne, hreport.held _ hn, hfile⟩
    · exact h.ports q port hold
  have hother : ∀ q port, t'.peerPorts.get? (p, q) = some port → q ≠ p := by
    intro q port hport
    rcases hrow q port hport with ⟨n, hn, -⟩ | hold
    · exact (hreport.drawn _ hn).2.2
    · exact h.other q port hold
  have hnetwork : ∀ q port, t'.peerPorts.get? (p, q) = some port → ∀ row rowQ,
      t'.peers.get? p = some row → t'.peers.get? q = some rowQ →
      rowQ.networkId = row.networkId := by
    intro q port hport
    rw [hpeers]
    rcases hrow q port hport with ⟨n, hn, -⟩ | hold
    · exact hreport.network _ hn
    · exact h.network q port hold
  have hnone : ∀ config, node.poll = some config →
      InFlight t' drawn p node.machine.agent config := by
    intro config hsome
    rw [hpoll] at hsome
    cases hsome
  refine ⟨⟨h.base, h.ledger, hrows, hother, hnetwork, ?_, hnone⟩, ⟨h.base, ?_, hrows, hother,
    hnetwork, ?_, ?_⟩⟩
  · intro e he
    obtain ⟨hp, hq, hsame⟩ := h.reported e he
    refine ⟨hp, hq, fun hhas hhas' => ?_⟩
    rw [hpeers] at hhas hhas'
    have hold := hsame hhas hhas'
    rw [hports p e.1, if_pos rfl]
    cases hlast : Api.lastPort e.1 (entriesOf ports) with
    | none => exact hold
    | some port =>
      obtain ⟨n, hn, rfl⟩ := (lastPort_entriesOf hreport.nodup e.1 port).mp hlast
      exact congrArg some (hreport.same _ hn _ hold).symm
  · exact ⟨h.ledger.start, h.ledger.nonempty, h.ledger.stop, h.ledger.paired, h.ledger.distinct,
      h.ledger.bound, h.ledger.filed, h.ledger.fileDistinct, h.ledger.fileBound⟩
  · intro e he
    obtain ⟨hp, hq, -⟩ := hreport.drawn e he
    exact ⟨hp, hq, fun _ _ => hentry e he⟩
  · intro config hsome
    have hsome : node.poll = some config := hsome
    rw [hpoll] at hsome
    cases hsome

end

/-! ## Runs -/

/-- Every node agrees with the tables, and of a peer without one they have no port. -/
structure MeshInv (env : Api.Env) (m : Mesh) : Prop where
  fresh : m.drawn.Nodup
  nodes : ∀ p node, m.nodes.get? p = some node → NodeInv (m.tables env) m.drawn p node
  idle : ∀ p, m.nodes.get? p = none → ∀ q, (m.tables env).peerPorts.get? (p, q) = none

section
variable {env : Api.Env} {m : Mesh}

theorem tables_ask (e : Api.Event) :
    (m.ask e).tables env = (Api.step env (Api.exec env m.requests) e).tables :=
  congrArg Api.ApiState.tables (Api.exec_concat env m.requests e)

theorem drawn_ask (e : Api.Event) : (m.ask e).drawn = m.drawn ++ [e].filterMap Api.drawnPeer :=
  List.filterMap_append

theorem drawn_ask_getConfig (m : Mesh) (p : PeerId) (authorization : Option JsString)
    (now : Api.Draws) : (m.ask (.serve (.getConfig authorization p) now)).drawn = m.drawn :=
  (drawn_ask _).trans (List.append_nil _)

/-- The peers of the tables have been registered. -/
theorem MeshInv.mem_drawn (h : MeshInv env m) {q : PeerId}
    (hq : (m.tables env).peers.has q = true) : q ∈ m.drawn :=
  (Api.ported_exec env h.fresh).peers q hq

/-- A request of others. -/
theorem MeshInv.ask (h : MeshInv env m) {e : Api.Event} (he : isPortReport e = false)
    (hfresh : (m.ask e).drawn.Nodup) : MeshInv env (m.ask e) := by
  have hlater := fun p => @later_step env m.requests e he hfresh p
  constructor
  · exact hfresh
  · intro p node hnode
    rw [drawn_ask]
    exact (h.nodes p node hnode).later (hlater p) (fun q hq => h.mem_drawn hq) _
  · intro p hp q
    refine Option.eq_none_iff_forall_ne_some.mpr fun port hport => ?_
    have hold := (hlater p).ports q port hport
    have hnone : (Api.exec env m.requests).tables.peerPorts.get? (p, q) = none := h.idle p hp q
    rw [hnone] at hold
    cases hold

/-- Something happens at a node. -/
theorem MeshInv.setNode (h : MeshInv env m) {p : PeerId} {node : Node}
    (hnode : NodeInv (m.tables env) m.drawn p node) : MeshInv env (m.setNode p node) := by
  constructor
  · exact h.fresh
  · intro q node' hget
    rcases OMap.get?_set_cases hget with ⟨rfl, rfl⟩ | ⟨-, hold⟩
    · exact hnode
    · exact h.nodes q node' hold
  · intro q hq
    refine h.idle q ?_
    have hq : (m.nodes.set p node).get? q = none := hq
    rw [OMap.get?_set] at hq
    split at hq
    · cases hq
    · exact hq

/-- A report of a node. -/
theorem MeshInv.report (h : MeshInv env m) {p : PeerId} {node : Node}
    (hnode : m.nodes.get? p = some node) (hpoll : node.poll = none) {ports : List (PeerId × Nat)}
    (hreport : Reportable (m.tables env) m.drawn p node.machine.agent ports)
    (authorization : Option JsString) (now : Api.Draws) :
    let request := .putPorts authorization p (some (portsBody ports))
    MeshInv env (m.ask (.serve request now)) ∧
      ((Api.handle env (m.tables env) now request).2.status = 200 →
        MeshInv env ((m.ask (.serve request now)).setNode p { node with machine :=
          { node.machine with agent := { node.machine.agent with lastPorts := ports } } })) := by
  intro request
  have hdrawn : (m.ask (.serve request now)).drawn = m.drawn :=
    (drawn_ask _).trans (List.append_nil _)
  have htables : (m.ask (.serve request now)).tables env =
      (Api.handle env (m.tables env) now request).1 := tables_ask _
  rcases putPorts_portsBody env (m.tables env) now authorization p ports with
    ⟨-, hok⟩ | ⟨hno, hsame⟩
  · obtain ⟨hself, hheard⟩ := (h.nodes p node hnode).report hpoll hreport hok
    have hinv : MeshInv env (m.ask (.serve request now)) := by
      constructor
      · exact hdrawn ▸ h.fresh
      · intro q node' hget
        rw [hdrawn, htables]
        by_cases hq : p = q
        · subst hq
          have hget : m.nodes.get? p = some node' := hget
          rw [hnode] at hget
          cases hget
          exact hself
        · have hlater := later_upsertPorts (p := q) hok hq m.drawn
          have := (h.nodes q node' hget).later hlater (fun x hx => h.mem_drawn hx) []
          rwa [List.append_nil] at this
      · intro q hq x
        have hne : p ≠ q := by
          rintro rfl
          have hq : m.nodes.get? p = none := hq
          rw [hnode] at hq
          cases hq
        rw [htables]
        refine Option.eq_none_iff_forall_ne_some.mpr fun port hport => ?_
        have hold := (later_upsertPorts (p := q) hok hne m.drawn).ports x port hport
        rw [h.idle q hq x] at hold
        cases hold
    refine ⟨hinv, fun _ => hinv.setNode ?_⟩
    rw [hdrawn, htables]
    exact hheard
  · have hinv : MeshInv env (m.ask (.serve request now)) := by
      constructor
      · exact hdrawn ▸ h.fresh
      · rw [hdrawn, htables, hsame]
        exact h.nodes
      · rw [htables, hsame]
        exact h.idle
    exact ⟨hinv, fun h200 => absurd h200 hno⟩

/-- Requests are only added. -/
theorem requests_meshStep (env : Api.Env) (m : Mesh) (e : MeshEvent) :
    ∃ l, (meshStep env m e).requests = m.requests ++ l := by
  have hnone : ∀ m' : Mesh, m'.requests = m.requests → ∃ l, m'.requests = m.requests ++ l :=
    fun m' h => ⟨[], by rw [h, List.append_nil]⟩
  cases e with
  | request e => exact ⟨[e], rfl⟩
  | start p install authorization range host kernel =>
    unfold meshStep
    dsimp only
    split <;> exact hnone _ rfl
  | fetch p now =>
    unfold meshStep Mesh.fetch
    dsimp only
    split
    · exact hnone _ rfl
    · split
      · exact hnone _ rfl
      · split <;> exact ⟨[_], rfl⟩
  | finish p monitor draws faults delivery now =>
    unfold meshStep Mesh.finish
    dsimp only
    split
    · exact hnone _ rfl
    · split
      · exact hnone _ rfl
      · split
        · exact hnone _ rfl
        · split
          · exact hnone _ rfl
          · cases delivery with
            | lost => exact hnone _ rfl
            | unheard => exact ⟨[_], rfl⟩
            | answered =>
              dsimp only
              split <;> exact ⟨[_], rfl⟩
  | crash p monitor draws faults turns removals =>
    unfold meshStep Mesh.crash
    dsimp only
    split <;> exact hnone _ rfl

theorem nodup_drawn_of_meshStep {e : MeshEvent} (h : (meshStep env m e).drawn.Nodup) :
    m.drawn.Nodup := by
  obtain ⟨l, hl⟩ := requests_meshStep env m e
  unfold Mesh.drawn at h ⊢
  rw [hl, List.filterMap_append] at h
  exact (List.nodup_append.mp h).1

/-- The state of a node when it is started: the tables have no port of its. -/
theorem nodeInv_start {t : Api.Tables} {drawn : List PeerId} {p : PeerId}
    (hnone : ∀ q, t.peerPorts.get? (p, q) = none) {install : Install}
    (authorization : Option JsString) {range : PortRange} (host : Host) (kernel : Kernel)
    (hbase : MAIN_TABLE < install.rtTableBase) (hstart : 0 < range.start)
    (hne : range.start ≤ range.stop) (hstop : range.stop ≤ 65535) :
    NodeInv t drawn p ⟨install, authorization, ⟨.boot range host .empty, kernel⟩, none⟩ := by
  refine ⟨hbase, ⟨hstart, hne, hstop, paired_boot range host .empty, ?_, ?_, ?_, ?_, ?_⟩, ?_, ?_,
    ?_, List.forall_mem_nil _, fun _ hpoll => by cases hpoll⟩
  · intro q r n hq
    cases hq
  · intro q n hq
    cases hq
  · intro _ q i hq
    cases hq
  · exact List.forall_mem_nil _
  · exact List.forall_mem_nil _
  · intro q port hport
    rw [hnone] at hport
    cases hport
  · intro q port hport
    rw [hnone] at hport
    cases hport
  · intro q port hport
    rw [hnone] at hport
    cases hport

/-- **A step** of the mesh. -/
theorem MeshInv.step (h : MeshInv env m) {e : MeshEvent} (hproper : e.Proper)
    (hfresh : (meshStep env m e).drawn.Nodup) : MeshInv env (meshStep env m e) := by
  cases e with
  | request e => exact h.ask hproper hfresh
  | start p install authorization range host kernel =>
    obtain ⟨hbase, hstart, hne, hstop⟩ := hproper
    unfold meshStep
    dsimp only
    split
    · exact h
    · rename_i hnot
      have hnone : m.nodes.get? p = none :=
        (OMap.has_eq_false_iff _ _).mp (Bool.eq_false_iff.mpr hnot)
      exact h.setNode (nodeInv_start (h.idle p hnone) authorization host kernel hbase hstart hne hstop)
  | fetch p now =>
    unfold meshStep at hfresh ⊢
    dsimp only at hfresh ⊢
    split
    · exact h
    · rename_i node hnode
      rw [hnode] at hfresh
      dsimp only at hfresh
      split
      · exact h
      · rename_i hpoll
        rw [hpoll] at hfresh
        dsimp only at hfresh
        have hask : MeshInv env (m.ask (.serve (.getConfig node.authorization p) now)) :=
          h.ask rfl (drawn_ask_getConfig m p node.authorization now ▸ h.fresh)
        unfold Mesh.fetch
        dsimp only
        split
        · rename_i response hanswer
          obtain ⟨row, network, hrow, -, -, rfl⟩ := getConfig_answer hanswer
          have hnode' := (h.nodes p node hnode).fetch (fun q hq => h.mem_drawn hq) hrow network
          have hlater := @later_step env m.requests
            (.serve (.getConfig node.authorization p) now) rfl hask.fresh p
          refine hask.setNode ?_
          rw [drawn_ask]
          exact hnode'.later hlater (fun q hq => h.mem_drawn hq) _
        · exact hask
  | finish p monitor draws faults delivery now =>
    unfold meshStep
    dsimp only
    split
    · exact h
    · rename_i node hnode
      split
      · exact h
      · rename_i config hpoll
        unfold Mesh.finish
        split
        · rename_i machine herror
          exact h.setNode ((h.nodes p node hnode).finish_error hpoll hproper herror)
        · rename_i machine ports hok
          obtain ⟨hnode', hreport⟩ := (h.nodes p node hnode).finish_ok hpoll hok
          have hset := h.setNode hnode'
          have hget : (m.setNode p { node with machine, poll := none }).nodes.get? p =
              some { node with machine, poll := none } := OMap.get?_set_self _ _ _
          obtain ⟨hunheard, hanswered⟩ := hset.report hget rfl hreport node.authorization now
          dsimp only
          split
          · exact hset
          · cases delivery with
            | lost => exact hset
            | unheard => exact hunheard
            | answered =>
              dsimp only
              split
              · rename_i h200
                exact hanswered h200
              · exact hunheard
  | crash p monitor draws faults turns removals =>
    unfold meshStep
    dsimp only
    split
    · exact h
    · rename_i node hnode
      exact h.setNode ((h.nodes p node hnode).crash monitor draws faults turns removals)

theorem meshInv_empty (env : Api.Env) : MeshInv env ⟨[], .empty⟩ := by
  constructor
  · exact List.nodup_nil
  · intro p node hnode
    cases hnode
  · intro p _ q
    rfl

/-- **Every run** in which each registration draws a new id. -/
theorem meshInv_run (env : Api.Env) {es : List MeshEvent} (hproper : ∀ e ∈ es, e.Proper)
    (hfresh : (run (meshStep env) ⟨[], .empty⟩ es).drawn.Nodup) :
    MeshInv env (run (meshStep env) ⟨[], .empty⟩ es) := by
  induction es using List.reverseRecOn with
  | nil => exact meshInv_empty env
  | append_singleton es e ih =>
    rw [run_concat] at hfresh ⊢
    exact (ih (fun x hx => hproper x (List.mem_append_left _ hx))
      (nodup_drawn_of_meshStep hfresh)).step (hproper e (by simp)) hfresh

/-! ## The ports of the tables -/

/-- What a step does to a port of the tables: nothing, while the two peers are there. -/
def PortStays (env : Api.Env) (m m' : Mesh) : Prop :=
  ∀ p q port, (m.tables env).peerPorts.get? (p, q) = some port →
    (m'.tables env).peers.has p = true → (m'.tables env).peers.has q = true →
    (m'.tables env).peerPorts.get? (p, q) = some port

theorem portStays_refl (env : Api.Env) (m : Mesh) : PortStays env m m := fun _ _ _ h _ _ => h

theorem portStays_ask (h : MeshInv env m) {e : Api.Event} (he : isPortReport e = false)
    (hfresh : (m.ask e).drawn.Nodup) : PortStays env m (m.ask e) := by
  intro p q port hport hp hq
  obtain ⟨hp', hq'⟩ := (m.tables env).schema.portPeers (OMap.has_of_get? hport)
  exact ((@later_step env m.requests e he hfresh p).kept q (h.mem_drawn hp') (h.mem_drawn hq') hp
    hq).trans hport

/-- A report gives again what the tables have. -/
theorem portStays_report {p : PeerId} {agent : Agent} {ports : List (PeerId × Nat)}
    (hreport : Reportable (m.tables env) m.drawn p agent ports) (authorization : Option JsString)
    (now : Api.Draws) :
    PortStays env m (m.ask (.serve (.putPorts authorization p (some (portsBody ports))) now)) := by
  intro q x port hport _ _
  rw [tables_ask]
  show (Api.handle env (m.tables env) now
    (.putPorts authorization p (some (portsBody ports)))).1.peerPorts.get? (q, x) = some port
  rcases putPorts_portsBody env (m.tables env) now authorization p ports with
    ⟨-, hok⟩ | ⟨-, hsame⟩
  · rw [(Api.upsertPorts_ok hok).2.2 q x]
    by_cases hp : p = q
    · subst hp
      rw [if_pos rfl]
      cases hlast : Api.lastPort x (entriesOf ports) with
      | none => exact hport
      | some port' =>
        obtain ⟨n, hn, rfl⟩ := (lastPort_entriesOf hreport.nodup x port').mp hlast
        exact congrArg some (hreport.same _ hn _ hport).symm
    · rw [if_neg hp]
      exact hport
  · rw [hsame]
    exact hport

theorem portStays_step (h : MeshInv env m) {e : MeshEvent} (hproper : e.Proper)
    (hfresh : (meshStep env m e).drawn.Nodup) : PortStays env m (meshStep env m e) := by
  cases e with
  | request e => exact portStays_ask h hproper hfresh
  | start p install authorization range host kernel =>
    unfold meshStep
    dsimp only
    split <;> exact portStays_refl env m
  | fetch p now =>
    unfold meshStep Mesh.fetch
    dsimp only
    split
    · exact portStays_refl env m
    · rename_i node hnode
      have hask : PortStays env m (m.ask (.serve (.getConfig node.authorization p) now)) :=
        portStays_ask h rfl (drawn_ask_getConfig m p node.authorization now ▸ h.fresh)
      split
      · exact portStays_refl env m
      · split <;> exact hask
  | finish p monitor draws faults delivery now =>
    unfold meshStep Mesh.finish
    dsimp only
    split
    · exact portStays_refl env m
    · rename_i node hnode
      split
      · exact portStays_refl env m
      · rename_i config hpoll
        split
        · exact portStays_refl env m
        · rename_i machine ports hok
          obtain ⟨-, hreport⟩ := (h.nodes p node hnode).finish_ok hpoll hok
          have hput := portStays_report hreport node.authorization now
          split
          · exact portStays_refl env m
          · cases delivery with
            | lost => exact portStays_refl env m
            | unheard => exact hput
            | answered =>
              dsimp only
              split <;> exact hput
  | crash p monitor draws faults turns removals =>
    unfold meshStep Mesh.crash
    dsimp only
    split <;> exact portStays_refl env m

end

/-- **Reported ports stay.**  In every run in which only agents report ports, each registration
draws a new id and no writing of a mapping file breaks off, whichever commands fail and whatever
is lost or killed on the way: a port that the tables have for two peers is a port number, the
one that the agent of the first has in memory and in its file for the second, and for no other
peer; and as long as the two peers are there no step changes it. -/
theorem reported_ports_stay (env : Api.Env) {es : List MeshEvent} {e : MeshEvent}
    (hproper : ∀ x ∈ es ++ [e], x.Proper)
    (hfresh : (run (meshStep env) ⟨[], .empty⟩ (es ++ [e])).drawn.Nodup) {p q : PeerId} {port : Int}
    (hport : ((run (meshStep env) ⟨[], .empty⟩ es).tables env).peerPorts.get? (p, q) = some port) :
    1 ≤ port ∧ port ≤ 65535 ∧
    (∃ node i, (run (meshStep env) ⟨[], .empty⟩ es).nodes.get? p = some node ∧
      node.machine.agent.peerToPort.get? q = some port.toNat ∧
      (q, i, port.toNat) ∈ node.machine.agent.mappings ∧
      (∀ r, node.machine.agent.peerToPort.get? r = some port.toNat → r = q) ∧
      ∀ entry ∈ node.machine.agent.mappings, entry.2.2 = port.toNat → entry.1 = q) ∧
    (∀ r, ((run (meshStep env) ⟨[], .empty⟩ es).tables env).peerPorts.get? (p, r) = some port →
      r = q) ∧
    (((run (meshStep env) ⟨[], .empty⟩ (es ++ [e])).tables env).peers.has p = true →
      ((run (meshStep env) ⟨[], .empty⟩ (es ++ [e])).tables env).peers.has q = true →
      ((run (meshStep env) ⟨[], .empty⟩ (es ++ [e])).tables env).peerPorts.get? (p, q) =
        some port) := by
  rw [run_concat] at hfresh ⊢
  have hinv := meshInv_run env (fun x hx => hproper x (List.mem_append_left _ hx))
    (nodup_drawn_of_meshStep hfresh)
  have hnode : ∃ node, (run (meshStep env) ⟨[], .empty⟩ es).nodes.get? p = some node := by
    cases hget : (run (meshStep env) ⟨[], .empty⟩ es).nodes.get? p with
    | some node => exact ⟨node, rfl⟩
    | none =>
      rw [hinv.idle p hget q] at hport
      cases hport
  obtain ⟨node, hget⟩ := hnode
  obtain ⟨n, rfl, hne, hmem, i, hi⟩ := (hinv.nodes p node hget).ports q port hport
  have hledger := (hinv.nodes p node hget).ledger
  have hbound := hledger.bound q n hmem
  refine ⟨by omega, by omega, ⟨node, i, hget, hmem, hi, fun r hr => ?_, fun entry he hn => ?_⟩,
    fun r hr => ?_, ?_⟩
  · exact hledger.distinct r q n hr hmem
  · exact hledger.fileDistinct entry he (q, i, n) hi hn (hn.trans_ne hne)
  · obtain ⟨k, hk, -, hmem', -⟩ := (hinv.nodes p node hget).ports r n hr
    rw [Int.natCast_inj] at hk
    subst hk
    exact hledger.distinct r q n hmem' hmem
  · exact portStays_step hinv (hproper e (by simp)) hfresh p q n hport

/-! ## Two agents -/

/-- A peer with an address and a key. -/
def keyedPeer (name publicIp : String) : Api.Request :=
  Api.peerRequest name [(js "publicIpv4", .str (js publicIp)), (js "pubkey", .str Api.sampleKey)]

def startAgent (p : PeerId) : MeshEvent :=
  .start p plainInstall Api.sampleAdmin ⟨51820, 52819⟩ ⟨[], .empty⟩ plainKernel

/-- A network with two peers, and their agents. -/
def meetRun : List MeshEvent :=
  [.request (.serve (Api.networkRequest []) (Api.drawsOf Api.networkUuid)),
    .request (.serve (keyedPeer "a" "192.0.2.6") (Api.drawsOf Api.peerUuid)),
    .request (.serve (keyedPeer "b" "192.0.2.7") (Api.drawsOf Api.otherUuid)),
    startAgent Api.peerUuid, startAgent Api.otherUuid]

def quickPoll (faults : Faults) (p : PeerId) (draw : Nat) : List MeshEvent :=
  [.fetch p (Api.drawsOf []),
    .finish p .empty (fun _ => [draw]) faults .answered (Api.drawsOf [])]

theorem proper_startAgent (p : PeerId) : (startAgent p).Proper :=
  show MAIN_TABLE < 4200 ∧ 0 < 51820 ∧ 51820 ≤ 52819 ∧ 52819 ≤ 65535 by decide

theorem proper_meetRun : ∀ e ∈ meetRun, e.Proper :=
  List.forall_mem_cons.mpr ⟨rfl, List.forall_mem_cons.mpr ⟨rfl, List.forall_mem_cons.mpr ⟨rfl,
    List.forall_mem_cons.mpr ⟨proper_startAgent _, List.forall_mem_cons.mpr
      ⟨proper_startAgent _, List.forall_mem_nil _⟩⟩⟩⟩⟩

theorem proper_quickPoll {faults : Faults} (hwhole : faults.writeMappings ≠ .cut) (p : PeerId)
    (draw : Nat) : ∀ e ∈ quickPoll faults p draw, e.Proper :=
  List.forall_mem_cons.mpr
    ⟨trivial, List.forall_mem_cons.mpr ⟨hwhole, List.forall_mem_nil _⟩⟩

/-- The agent is killed after the first turn of a poll. -/
def killedPoll (p : PeerId) : List MeshEvent :=
  [.fetch p (Api.drawsOf []), .crash p .empty (fun _ => [9]) .none 1 0]

theorem proper_killedPoll (p : PeerId) : ∀ e ∈ killedPoll p, e.Proper :=
  List.forall_mem_cons.mpr ⟨trivial, List.forall_mem_cons.mpr ⟨trivial, List.forall_mem_nil _⟩⟩

/-- The port is in memory again after a kill. -/
theorem reported_ports_stay_meetRun : ∃ node,
    (run (meshStep Api.sampleEnv) ⟨[], .empty⟩ (meetRun ++ quickPoll .none Api.peerUuid 7 ++
      killedPoll Api.peerUuid)).nodes.get? Api.peerUuid = some node ∧
    node.machine.agent.peerToPort.get? Api.otherUuid = some 51827 := by
  obtain ⟨-, -, ⟨node, i, hget, hport, -⟩, -⟩ := @reported_ports_stay Api.sampleEnv
    (meetRun ++ quickPoll .none Api.peerUuid 7 ++ killedPoll Api.peerUuid)
    (.fetch Api.otherUuid (Api.drawsOf []))
    (List.forall_mem_append.mpr ⟨List.forall_mem_append.mpr ⟨List.forall_mem_append.mpr
      ⟨proper_meetRun, proper_quickPoll (by decide) _ _⟩, proper_killedPoll _⟩,
      List.forall_mem_cons.mpr ⟨trivial, List.forall_mem_nil _⟩⟩)
    (by decide) Api.peerUuid Api.otherUuid 51827 (by decide)
  exact ⟨node, hget, hport⟩

end Meshezia
