import Meshezia.Api.Config
import Meshezia.Api.Effects

/-!
# The two configurations of a pair

A configuration is put together from two queries of `peer_ports`: the rows from the peer give
the ports it listens on, the rows to the peer the endpoints of the others.  So what a peer `B`
is told to listen on for `A` is what `A` is told to send to, and both are what `B` has
reported last.

The port reports of a run are a log (`portReports`), the newest first.  Along every run in
which each registration draws a new id, a row of `peer_ports` between two peers is there
exactly when the log has an entry for it, and then it is the last one:

    t.peerPorts.get? (p, q) = lastReport p q (portReports env es)            (Ported)

From it the configurations of a pair fit together                     (pair_configs_fit)
-/

namespace Meshezia.Api

/-! ## Port reports -/

/-- A port report that was answered with status 200. -/
structure PortReport where
  peerId : PeerId
  ports : List (PeerId × Int)
deriving DecidableEq, Repr

/-- The entries of a body, when it has passed its checks. -/
def bodyPorts (body : Option Json) : List (PeerId × Int) :=
  match body.map readPorts with
  | some (.ok ports) => ports
  | _ => []

/-- The port report that succeeds in this step. -/
def reported (env : Env) (s : ApiState) : Event → Option PortReport
  | .serve (.putPorts authorization peerId body) _ =>
    if (putPorts env s.tables authorization peerId body).2.status = 200 then
      some ⟨peerId, bodyPorts body⟩
    else none
  | .portsBody index body =>
    match s.waiting[index]? with
    | none => none
    | some peerId =>
      if (putPortsBody s.tables peerId body).2.status = 200 then some ⟨peerId, bodyPorts body⟩
      else none
  | _ => none

def loggedStep (env : Env) (s : ApiState × List PortReport) (e : Event) :
    ApiState × List PortReport :=
  (step env s.1 e, (reported env s.1 e).toList ++ s.2)

/-- The successful port reports of a run, the newest first. -/
def portReports (env : Env) (es : List Event) : List PortReport :=
  (run (loggedStep env) (⟨.empty, []⟩, []) es).2

/-- The port in the last entry about `q`. -/
def lastPort (q : PeerId) (ports : List (PeerId × Int)) : Option Int :=
  ports.reverse.findSome? fun e => if e.1 = q then some e.2 else none

/-- The port in the last entry about `q` of the last report of `p` with an entry about `q`. -/
def lastReport (p q : PeerId) (log : List PortReport) : Option Int :=
  log.findSome? fun r => if r.peerId = p then lastPort q r.ports else none

/-- The id that `POST /api/peers` draws (`crypto.randomUUID`). -/
def drawnPeer : Event → Option PeerId
  | .serve (.postPeers _ _) draws => some draws.id
  | _ => none

theorem portReports_concat (env : Env) (es : List Event) (e : Event) :
    portReports env (es ++ [e]) = (reported env (exec env es) e).toList ++ portReports env es := by
  have hstate : ∀ es : List Event,
      (run (loggedStep env) (⟨.empty, []⟩, []) es).1 = exec env es := by
    intro es
    induction es using List.reverseRecOn with
    | nil => rfl
    | append_singleton es e ih =>
      rw [run_concat, exec_concat, ← ih]
      rfl
  unfold portReports
  rw [run_concat, ← hstate]
  rfl

theorem lastPort_cons (q : PeerId) (e : PeerId × Int) (rest : List (PeerId × Int)) :
    lastPort q (e :: rest) = (lastPort q rest).or (if e.1 = q then some e.2 else none) := by
  unfold lastPort
  rw [List.reverse_cons, List.findSome?_append, List.findSome?_singleton]

theorem lastPort_eq_none {q : PeerId} {ports : List (PeerId × Int)}
    (h : ∀ e ∈ ports, e.1 ≠ q) : lastPort q ports = none := by
  unfold lastPort
  rw [List.findSome?_eq_none_iff]
  intro e he
  rw [if_neg (h e (List.mem_reverse.mp he))]

/-! ## What a step does to the ports -/

/-- The entries of a report are written one after the other, between peers that exist. -/
theorem upsertPorts_ok {t t' : Tables} {p : PeerId} {ports : List (PeerId × Int)}
    (h : upsertPorts t p ports = .ok t') :
    t'.peers = t.peers ∧ (∀ e ∈ ports, t.peers.has p = true ∧ t.peers.has e.1 = true) ∧
      ∀ p' q, t'.peerPorts.get? (p', q) =
        (if p = p' then lastPort q ports else none).or (t.peerPorts.get? (p', q)) := by
  induction ports generalizing t with
  | nil =>
    cases h
    refine ⟨rfl, List.forall_mem_nil _, fun p' q => ?_⟩
    split <;> rfl
  | cons e rest ih =>
    simp only [upsertPorts, List.foldlM_cons, bind_eq_ok] at h
    obtain ⟨t1, h1, h⟩ := h
    obtain ⟨hpeers, hexist, hports⟩ := ih h
    obtain ⟨hboth, hrows⟩ := Tables.upsertPort_ok h1
    rw [hrows] at hpeers hexist
    refine ⟨hpeers, List.forall_mem_cons.mpr ⟨hboth, hexist⟩, fun p' q => ?_⟩
    have hget : t1.peerPorts.get? (p', q) =
        (if p = p' then (if e.1 = q then some e.2 else none) else none).or
          (t.peerPorts.get? (p', q)) := by
      rw [hrows, OMap.get?_set]
      by_cases hp : p = p' <;> by_cases hq : e.1 = q <;> simp [hp, hq]
    rw [hports p' q, lastPort_cons, hget]
    by_cases hp : p = p'
    · rw [if_pos hp, if_pos hp, if_pos hp, Option.or_assoc]
    · rw [if_neg hp, if_neg hp, if_neg hp]
      rfl

/-- No peer is new, and between two peers that stay the port is the same. -/
structure PortsKept (t t' : Tables) : Prop where
  peers : ∀ p, t'.peers.has p = true → t.peers.has p = true
  ports : ∀ p q, t'.peers.has p = true → t'.peers.has q = true →
    t'.peerPorts.get? (p, q) = t.peerPorts.get? (p, q)

theorem PortsKept.refl (t : Tables) : PortsKept t t := ⟨fun _ h => h, fun _ _ _ _ => rfl⟩

theorem portsKept_of_eq {t t' : Tables} (hpeers : t'.peers = t.peers)
    (hports : t'.peerPorts = t.peerPorts) : PortsKept t t' :=
  ⟨fun _ h => hpeers ▸ h, fun _ _ _ _ => by rw [hports]⟩

theorem portsKept_deletePeersWhere (t : Tables) (gone : PeerId → Bool) {t' : Tables}
    (hpeers : t'.peers = (t.deletePeersWhere gone).peers)
    (hports : t'.peerPorts = (t.deletePeersWhere gone).peerPorts) : PortsKept t t' := by
  have hstay : ∀ {p}, t'.peers.has p = true → t.peers.has p = true ∧ gone p = false := by
    intro p hp
    rw [hpeers] at hp
    have hp : (t.peers.filter fun p _ => !gone p).has p = true := hp
    rw [OMap.has_filter, Bool.and_eq_true] at hp
    exact ⟨hp.1, by simpa using hp.2⟩
  refine ⟨fun p hp => (hstay hp).1, fun p q hp hq => ?_⟩
  rw [hports]
  show (t.peerPorts.filter fun k _ => !gone k.1 && !gone k.2).get? (p, q) = _
  rw [OMap.get?_filter, (hstay hp).2, (hstay hq).2]
  cases t.peerPorts.get? (p, q) <;> rfl

theorem portsKept_updatePeers (t : Tables) (id : PeerId) (as : List Assignment) :
    PortsKept t (updatePeers t id as) := by
  obtain ⟨-, hports, -, -, hnet⟩ := updatePeers_frame t id as
  refine ⟨fun p hp => ?_, fun p q _ _ => by rw [hports]⟩
  have hsome := congrArg Option.isSome (hnet p)
  rw [Option.isSome_map, Option.isSome_map] at hsome
  exact hsome.symm.trans hp

theorem putPortsBody_cases (t : Tables) (peerId : PeerId) (body : Option Json) :
    ((putPortsBody t peerId body).2.status = 200 ∧
      upsertPorts t peerId (bodyPorts body) = .ok (putPortsBody t peerId body).1) ∨
    ((putPortsBody t peerId body).2.status ≠ 200 ∧ (putPortsBody t peerId body).1 = t) := by
  have hrefused : ∀ (status : Nat) (text : String), status ≠ 200 →
      (reject t status text).2.status ≠ 200 ∧ (reject t status text).1 = t :=
    fun _ _ h => ⟨h, rfl⟩
  unfold putPortsBody
  cases body with
  | none => exact Or.inr (hrefused 400 _ (by decide))
  | some body =>
    dsimp only
    cases hread : readPorts body with
    | error text => exact Or.inr (hrefused 400 _ (by decide))
    | ok ports =>
      have hbody : bodyPorts (some body) = ports := by
        unfold bodyPorts
        rw [Option.map_some, hread]
      dsimp only
      cases hok : upsertPorts t peerId ports with
      | error e => exact Or.inr (hrefused 500 _ (by decide))
      | ok t' => exact Or.inl ⟨rfl, by rw [hbody, hok]⟩

theorem putPorts_cases (env : Env) (t : Tables) (authorization : Option JsString)
    (peerId : PeerId) (body : Option Json) :
    ((putPorts env t authorization peerId body).2.status = 200 ∧
      upsertPorts t peerId (bodyPorts body) = .ok (putPorts env t authorization peerId body).1) ∨
    ((putPorts env t authorization peerId body).2.status ≠ 200 ∧
      (putPorts env t authorization peerId body).1 = t) := by
  unfold putPorts
  cases hcheck : putPortsCheck env t authorization peerId with
  | none => exact putPortsBody_cases t peerId body
  | some deny =>
    refine Or.inr ⟨?_, rfl⟩
    have hdeny : deny.status ≠ 200 := by
      unfold putPortsCheck requireAdminOrNetwork at hcheck
      split at hcheck
      · cases hcheck
        decide
      · split at hcheck
        · cases hcheck
        · cases hcheck
          decide
    exact hdeny

/-- A request other than a port report keeps the ports or registers a peer. -/
theorem Effect.portsKept {env : Env} {t t' : Tables} {draws : Draws} {request : Request}
    (h : Effect env t draws request t')
    (hother : ∀ authorization id body, request ≠ .putPorts authorization id body) :
    PortsKept t t' ∨ ∃ row, drawnPeer (.serve request draws) = some draws.id ∧
      t.insertPeer draws.id row = .ok t' := by
  cases h with
  | unchanged => exact Or.inl (.refl t)
  | createNetwork admin inserted =>
    have hrows := (Tables.insertNetwork_ok inserted).2
    exact Or.inl (portsKept_of_eq (by rw [hrows]) (by rw [hrows]))
  | deleteNetwork admin => exact Or.inl (portsKept_deletePeersWhere t _ rfl rfl)
  | patchNetwork admin peers ports links => exact Or.inl (portsKept_of_eq peers ports)
  | registerPeer allowed inserted => exact Or.inr ⟨_, rfl, inserted⟩
  | deletePeer found allowed => exact Or.inl (portsKept_deletePeersWhere t _ rfl rfl)
  | putPorts found allowed read upserted => exact absurd rfl (hother _ _ _)
  | getConfig found allowed => exact Or.inl (portsKept_updatePeers t _ [.lastSeen draws.now])
  | forceMode admin => exact Or.inl (portsKept_of_eq rfl rfl)
  | patchPeer found allowed => exact Or.inl (portsKept_updatePeers t _ _)

/-- A step is a port report, or it keeps the ports, or it registers a peer. -/
theorem step_ports (env : Env) (s : ApiState) (e : Event) :
    (∃ r, reported env s e = some r ∧
      upsertPorts s.tables r.peerId r.ports = .ok (step env s e).tables) ∨
    (reported env s e = none ∧ (PortsKept s.tables (step env s e).tables ∨
      ∃ id row, drawnPeer e = some id ∧
        s.tables.insertPeer id row = .ok (step env s e).tables)) := by
  cases e with
  | serve request draws =>
    by_cases hports : ∃ authorization id body, request = .putPorts authorization id body
    · obtain ⟨authorization, id, body, rfl⟩ := hports
      simp only [reported, step, handle]
      rcases putPorts_cases env s.tables authorization id body with ⟨h200, hok⟩ | ⟨hne, hsame⟩
      · rw [if_pos h200]
        exact Or.inl ⟨_, rfl, hok⟩
      · rw [if_neg hne, hsame]
        exact Or.inr ⟨rfl, Or.inl (.refl _)⟩
    · have hother : ∀ authorization id body, request ≠ .putPorts authorization id body :=
        fun authorization id body he => hports ⟨authorization, id, body, he⟩
      have hnone : reported env s (.serve request draws) = none := by
        cases request with
        | putPorts authorization id body => exact absurd rfl (hother authorization id body)
        | _ => rfl
      refine Or.inr ⟨hnone, ?_⟩
      rcases (handle_effect env s.tables draws request).portsKept hother with
        hkept | ⟨row, hdrawn, hok⟩
      · exact Or.inl hkept
      · exact Or.inr ⟨draws.id, row, hdrawn, hok⟩
  | openPorts authorization peerId =>
    refine Or.inr ⟨rfl, Or.inl ?_⟩
    simp only [step]
    split <;> exact .refl _
  | portsBody index body =>
    simp only [reported, step]
    cases hwaiting : s.waiting[index]? with
    | none => exact Or.inr ⟨rfl, Or.inl (.refl _)⟩
    | some peerId =>
      dsimp only
      rcases putPortsBody_cases s.tables peerId body with ⟨h200, hok⟩ | ⟨hne, hsame⟩
      · rw [if_pos h200]
        exact Or.inl ⟨_, rfl, hok⟩
      · rw [if_neg hne, hsame]
        exact Or.inr ⟨rfl, Or.inl (.refl _)⟩
  | reap now deleteFails =>
    refine Or.inr ⟨rfl, Or.inl ?_⟩
    show PortsKept s.tables (reap s.tables now deleteFails)
    unfold reap
    split
    · exact .refl _
    · exact portsKept_deletePeersWhere s.tables _ rfl rfl

/-! ## The ports and the log -/

/-- Peers and logged entries have drawn ids, and between two peers the port is the one in the
last report. -/
structure Ported (t : Tables) (drawn : List PeerId) (log : List PortReport) : Prop where
  peers : ∀ p, t.peers.has p = true → p ∈ drawn
  entries : ∀ r ∈ log, ∀ e ∈ r.ports, r.peerId ∈ drawn ∧ e.1 ∈ drawn
  ports : ∀ p q, t.peers.has p = true → t.peers.has q = true →
    t.peerPorts.get? (p, q) = lastReport p q log

section
variable {t t' : Tables} {drawn : List PeerId} {log : List PortReport}

theorem Ported.kept (h : Ported t drawn log) (hkept : PortsKept t t') (ids : List PeerId) :
    Ported t' (drawn ++ ids) log where
  peers p hp := List.mem_append_left _ (h.peers p (hkept.peers p hp))
  entries r hr e he := (h.entries r hr e he).imp (List.mem_append_left _) (List.mem_append_left _)
  ports p q hp hq :=
    (hkept.ports p q hp hq).trans (h.ports p q (hkept.peers p hp) (hkept.peers q hq))

/-- No report has an entry with an id that is yet to be drawn. -/
theorem Ported.lastReport_fresh (h : Ported t drawn log) {p q : PeerId}
    (hfresh : p ∉ drawn ∨ q ∉ drawn) : lastReport p q log = none := by
  unfold lastReport
  rw [List.findSome?_eq_none_iff]
  intro r hr
  split
  · rename_i hp
    refine lastPort_eq_none fun e he hq => ?_
    obtain ⟨h1, h2⟩ := h.entries r hr e he
    rcases hfresh with hfresh | hfresh
    · exact hfresh (hp ▸ h1)
    · exact hfresh (hq ▸ h2)
  · rfl

theorem Ported.registered (h : Ported t drawn log) {id : PeerId} {row : PeerRecord}
    (hok : t.insertPeer id row = .ok t') (hfresh : id ∉ drawn) :
    Ported t' (drawn ++ [id]) log := by
  obtain ⟨hfree, -, hrows⟩ := Tables.insertPeer_ok hok
  have hold : ∀ {p}, t'.peers.has p = true → p = id ∨ t.peers.has p = true := by
    intro p hp
    rw [hrows, OMap.has_set, Bool.or_eq_true, decide_eq_true_eq] at hp
    exact hp.imp Eq.symm fun h => h
  constructor
  case peers =>
    intro p hp
    rcases hold hp with rfl | hp
    · simp
    · exact List.mem_append_left _ (h.peers p hp)
  case entries =>
    exact fun r hr e he =>
      (h.entries r hr e he).imp (List.mem_append_left _) (List.mem_append_left _)
  case ports =>
    intro p q hp hq
    rw [hrows]
    show t.peerPorts.get? (p, q) = _
    by_cases hnew : p = id ∨ q = id
    · -- the new peer has no port yet, and no report about it is in the log
      have hnone : t.peerPorts.get? (p, q) = none := by
        rw [← OMap.has_eq_false_iff, ← Bool.not_eq_true]
        intro hhas
        obtain ⟨h1, h2⟩ := t.schema.portPeers hhas
        rcases hnew with rfl | rfl
        · rw [hfree] at h1
          cases h1
        · rw [hfree] at h2
          cases h2
      rw [hnone, h.lastReport_fresh (hnew.imp (fun e => e ▸ hfresh) fun e => e ▸ hfresh)]
    · rw [not_or] at hnew
      exact h.ports p q ((hold hp).resolve_left hnew.1) ((hold hq).resolve_left hnew.2)

theorem Ported.report (h : Ported t drawn log) {r : PortReport}
    (hok : upsertPorts t r.peerId r.ports = .ok t') (ids : List PeerId) :
    Ported t' (drawn ++ ids) (r :: log) := by
  obtain ⟨hpeers, hexist, hports⟩ := upsertPorts_ok hok
  constructor
  case peers => exact fun p hp => List.mem_append_left _ (h.peers p (hpeers ▸ hp))
  case entries =>
    refine List.forall_mem_cons.mpr ⟨fun e he => ?_, fun r' hr' e he => ?_⟩
    · obtain ⟨h1, h2⟩ := hexist e he
      exact ⟨List.mem_append_left _ (h.peers _ h1), List.mem_append_left _ (h.peers _ h2)⟩
    · exact (h.entries r' hr' e he).imp (List.mem_append_left _) (List.mem_append_left _)
  case ports =>
    intro p q hp hq
    rw [hpeers] at hp hq
    rw [hports p q, h.ports p q hp hq]
    unfold lastReport
    rw [List.findSome?_cons]
    cases (if r.peerId = p then lastPort q r.ports else none) <;> rfl

end

/-- **Ports.**  Along a run in which every registration draws a new id, the port between two
peers is the one reported last. -/
theorem ported_exec (env : Env) {es : List Event} (hfresh : (es.filterMap drawnPeer).Nodup) :
    Ported (exec env es).tables (es.filterMap drawnPeer) (portReports env es) := by
  induction es using List.reverseRecOn with
  | nil =>
    constructor
    · intro p hp
      cases hp
    · intro r hr
      cases hr
    · intro p q hp
      cases hp
  | append_singleton es e ih =>
    rw [List.filterMap_append, List.nodup_append] at hfresh
    have h := ih hfresh.1
    rw [exec_concat, portReports_concat, List.filterMap_append]
    rcases step_ports env (exec env es) e with ⟨r, hr, hok⟩ | ⟨hnone, hkept | ⟨id, row, hid, hok⟩⟩
    · rw [hr]
      exact h.report hok _
    · rw [hnone]
      exact h.kept hkept _
    · have hids : [e].filterMap drawnPeer = [id] := by
        rw [List.filterMap_cons, hid]
        rfl
      rw [hids] at hfresh ⊢
      rw [hnone]
      exact h.registered hok fun hmem => hfresh.2.2 id hmem id (by simp) rfl

/-! ## The configurations -/

/-- The list of a configuration has each other peer of the network once, by increasing id, and
no other peer. -/
structure ListsOthers (t : Tables) (networkId : NetworkId) (peerId : PeerId)
    (config : PeerConfig) : Prop where
  sorted : (config.peers.map PeerEndpoint.id).Pairwise fun p q => jsLt p q = true
  mem : ∀ p, p ∈ config.peers.map PeerEndpoint.id ↔
    p ≠ peerId ∧ ∃ row, t.peers.get? p = some row ∧ row.networkId = networkId

theorem listsOthers_configFor (t : Tables) (peerId : PeerId) (peer : PeerRecord)
    (network : NetworkRecord) :
    ListsOthers t peer.networkId peerId (configFor t peerId peer network) := by
  have hids : (configFor t peerId peer network).peers.map PeerEndpoint.id =
      (otherPeers t peer.networkId peerId).map Prod.fst := by
    unfold configFor
    rw [List.map_map]
    rfl
  constructor
  case sorted =>
    rw [hids, List.pairwise_map]
    exact strictOrder_jsLt.pairwise_sortBy (t.peers.nodup.sublist (List.filter_sublist.map _))
  case mem =>
    intro p
    rw [hids, List.mem_map]
    constructor
    · rintro ⟨⟨q, row⟩, hmem, rfl⟩
      obtain ⟨hrow, hnet, hne⟩ := mem_otherPeers.mp hmem
      exact ⟨hne, row, hrow, hnet⟩
    · rintro ⟨hne, row, hrow, hnet⟩
      exact ⟨(p, row), mem_otherPeers.mpr ⟨hrow, hnet, hne⟩, rfl⟩

theorem getConfig_eq {env : Env} {t : Tables} {authorization : Option JsString} {peerId : PeerId}
    {peer : PeerRecord} (draws : Draws) (hpeer : t.peers.get? peerId = some peer)
    (hallowed : requireAdminOrNetwork env t authorization peer.networkId = none) :
    ∃ network, (handle env t draws (.getConfig authorization peerId)).2 =
      ⟨200, .config (configFor t peerId peer network)⟩ := by
  obtain ⟨network, hnetwork⟩ := (OMap.has_iff _ _).mp (t.schema.peerNetwork hpeer)
  refine ⟨network, ?_⟩
  have hnetwork' : (t.updatePeer peerId (.lastSeen draws.now)).networks.get? peer.networkId =
      some network := hnetwork
  show (getConfig env t authorization peerId draws).2 = _
  unfold getConfig
  simp only [hpeer, hallowed, hnetwork']
  rw [configFor_updatePeer]

/-- **Pairs.**  In every state of a run in which the drawn ids are different, two peers of a
network get configurations that fit together. -/
theorem pair_configs_fit {env : Env} {es : List Event}
    (hfresh : (es.filterMap drawnPeer).Nodup) {peerA peerB : PeerId} {rowA rowB : PeerRecord}
    (hA : (exec env es).tables.peers.get? peerA = some rowA)
    (hB : (exec env es).tables.peers.get? peerB = some rowB)
    (hnet : rowB.networkId = rowA.networkId) (hne : peerA ≠ peerB)
    {authorizationA authorizationB : Option JsString}
    (hallowedA :
      requireAdminOrNetwork env (exec env es).tables authorizationA rowA.networkId = none)
    (hallowedB :
      requireAdminOrNetwork env (exec env es).tables authorizationB rowB.networkId = none)
    (drawsA drawsB : Draws) :
    ∃ configA configB,
      (handle env (exec env es).tables drawsA (.getConfig authorizationA peerA)).2 =
        ⟨200, .config configA⟩ ∧
      (handle env (exec env es).tables drawsB (.getConfig authorizationB peerB)).2 =
        ⟨200, .config configB⟩ ∧
      ListsOthers (exec env es).tables rowA.networkId peerA configA ∧
      ∃ forB ∈ configA.peers, ∃ forA ∈ configB.peers, forB.id = peerB ∧ forA.id = peerA ∧
        forA.listenPort = (lastReport peerB peerA (portReports env es)).getD 0 ∧
        0 ≤ forA.listenPort ∧
        (0 < forA.listenPort →
          forB.endpoint = joinAt 58 rowB.publicIp (decimalInt forA.listenPort)) ∧
        (forA.listenPort = 0 → forB.endpoint = []) := by
  obtain ⟨networkA, hconfigA⟩ := getConfig_eq drawsA hA hallowedA
  obtain ⟨networkB, hconfigB⟩ := getConfig_eq drawsB hB hallowedB
  have hports := (ported_exec env hfresh).ports peerB peerA (OMap.has_of_get? hB)
    (OMap.has_of_get? hA)
  have hchecked := (checked_exec env es).port (peerB, peerA)
  refine ⟨_, _, hconfigA, hconfigB, listsOthers_configFor _ _ _ _, ?_⟩
  refine ⟨peerEndpoint (exec env es).tables peerA peerB rowB,
    List.mem_map.mpr ⟨(peerB, rowB), mem_otherPeers.mpr ⟨hB, hnet, hne.symm⟩, rfl⟩,
    peerEndpoint (exec env es).tables peerB peerA rowA,
    List.mem_map.mpr ⟨(peerA, rowA), mem_otherPeers.mpr ⟨hA, hnet.symm, hne⟩, rfl⟩, rfl, rfl, ?_⟩
  unfold peerEndpoint endpointOf
  dsimp only
  rw [← hports]
  cases hport : (exec env es).tables.peerPorts.get? (peerB, peerA) with
  | none => exact ⟨rfl, le_refl _, fun h => absurd h (by decide), fun _ => rfl⟩
  | some port =>
    obtain ⟨hlow, -⟩ := hchecked port hport
    have hne0 : port ≠ 0 := by omega
    refine ⟨rfl, by simp only [Option.getD_some]; omega, fun _ => ?_, fun h => absurd h hne0⟩
    dsimp only
    rw [if_neg hne0]
    rfl

/-- The other peer reports two ports for the first one, and then a list that is rolled back,
since it names a peer that is not there. -/
def pairRun : List Event :=
  configRun [] ++
    [.serve (.putPorts sampleAdmin otherUuid (some (.arr [
        .obj [(js "peerId", .str peerUuid), (js "port", .num (.int 1000))],
        .obj [(js "peerId", .str peerUuid), (js "port", .num (.int 2000))]]))) (drawsOf []),
      .serve (.putPorts sampleAdmin otherUuid (some (.arr [
        .obj [(js "peerId", .str peerUuid), (js "port", .num (.int 3000))],
        .obj [(js "peerId", .str networkUuid), (js "port", .num (.int 3000))]]))) (drawsOf [])]

/-- The rows of the two peers, as they were registered. -/
def pairRow (name : String) (publicIp pubkey ipv4 : JsString) : PeerRecord where
  networkId := networkUuid
  name := js name
  publicIp := publicIp
  pubkey := pubkey
  ipv4 := ipv4
  lastSeen := 0
  ttlSeconds := 0
  memo := []
  agentVersion := .str []

theorem pair_configs_fit_pairRun : ∃ configA configB,
    (handle sampleEnv (exec sampleEnv pairRun).tables (drawsOf [])
      (.getConfig sampleAdmin peerUuid)).2 = ⟨200, .config configA⟩ ∧
    (handle sampleEnv (exec sampleEnv pairRun).tables (drawsOf [])
      (.getConfig sampleAdmin otherUuid)).2 = ⟨200, .config configB⟩ ∧
    ∃ forB ∈ configA.peers, ∃ forA ∈ configB.peers, forB.id = otherUuid ∧ forA.id = peerUuid ∧
      forA.listenPort = 2000 ∧ forB.endpoint = js "192.0.2.7:2000" := by
  have hA : (exec sampleEnv pairRun).tables.peers.get? peerUuid =
      some (pairRow "a" [] [] (js "10.0.0.1")) := by decide
  have hB : (exec sampleEnv pairRun).tables.peers.get? otherUuid =
      some (pairRow "b" (js "192.0.2.7") sampleKey (js "10.0.0.2")) := by decide
  have hlast : (lastReport otherUuid peerUuid (portReports sampleEnv pairRun)).getD 0 = 2000 := by
    decide
  obtain ⟨configA, configB, hconfigA, hconfigB, -, forB, hforB, forA, hforA, hidB, hidA, hport, -,
    hendpoint, -⟩ := @pair_configs_fit sampleEnv pairRun (by decide) peerUuid otherUuid _ _ hA hB
      rfl (by decide) sampleAdmin sampleAdmin rfl rfl (drawsOf []) (drawsOf [])
  rw [hlast] at hport
  refine ⟨configA, configB, hconfigA, hconfigB, forB, hforB, forA, hforA, hidB, hidA, hport, ?_⟩
  rw [hendpoint (by rw [hport]; decide), hport]
  decide

end Meshezia.Api
