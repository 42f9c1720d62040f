import Meshezia.Api.Failed
import Meshezia.Api.Effects

/-!
# When a peer leaves (`last_seen`, `reaper.ts`)

`last_seen` is when the peer was last heard of: the last `GET /api/peers/:id/config` for it that
was answered, or its registration.  No other request writes it, and the reaper reads it.  So a
peer leaves the database when somebody deletes it or its network, or when the reaper runs more
than its time to live after it has been heard of, and for no other reason:

    p is in exec es → (p is not in exec (es ++ [e]) ↔ Leaves … (lastHeard p es) e)    (leaves_iff)
-/

namespace Meshezia.Api

/-! ## Hearing of a peer -/

/-- When `p` is heard of by an event: its configuration is answered, or it is registered. -/
def heard (env : Env) (p : PeerId) (s : ApiState) : Event → Option Int
  | .serve (.getConfig authorization id) draws =>
    if id = p ∧ (getConfig env s.tables authorization id draws).2.status = 200 then some draws.now
    else none
  | .serve (.postPeers authorization body) draws =>
    if draws.id = p ∧ (postPeers env s.tables authorization body draws).2.status = 201 then
      some draws.now
    else none
  | _ => none

/-- When `p` was last heard of in a run. -/
def lastHeard (env : Env) (p : PeerId) (es : List Event) : Option Int :=
  (run (fun x e => (step env x.1 e, (heard env p x.1 e).or x.2))
    ((⟨.empty, []⟩, none) : ApiState × Option Int) es).2

theorem run_heard (env : Env) (p : PeerId) (es : List Event) :
    run (fun x e => (step env x.1 e, (heard env p x.1 e).or x.2))
      ((⟨.empty, []⟩, none) : ApiState × Option Int) es = (exec env es, lastHeard env p es) := by
  refine Prod.ext ?_ rfl
  induction es using List.reverseRecOn with
  | nil => rfl
  | append_singleton es e ih => rw [run_concat, exec_concat, ih]

theorem lastHeard_concat (env : Env) (p : PeerId) (es : List Event) (e : Event) :
    lastHeard env p (es ++ [e]) = (heard env p (exec env es) e).or (lastHeard env p es) := by
  rw [lastHeard, run_concat, run_heard]

/-- The ways to leave: the peer or its network is deleted, or the reaper has not heard of it for
its time to live, if it has one. -/
inductive Leaves (env : Env) (p : PeerId) (row : PeerRecord) (s : ApiState) (last : Option Int) :
    Event → Prop where
  | deleted (authorization : Option JsString) (draws : Draws)
      (answered : (deletePeer env s.tables authorization p).2.status = 200) :
      Leaves env p row s last (.serve (.deletePeer authorization p) draws)
  | network (authorization : Option JsString) (draws : Draws)
      (answered : (deleteNetwork env s.tables authorization row.networkId).2.status = 200) :
      Leaves env p row s last (.serve (.deleteNetwork authorization row.networkId) draws)
  | silent (now t : Int) (heard : last = some t) (mortal : 0 < row.ttlSeconds)
      (long : row.ttlSeconds * 1000 < now - t) : Leaves env p row s last (.reap now false)

/-! ## The column -/

section
variable {env : Env} {t : Tables} {draws : Draws} {p : PeerId}

/-- The row was there before, heard of at the same time. -/
def SeenBefore (t : Tables) (p : PeerId) (row' : PeerRecord) : Prop :=
  ∃ row, t.peers.get? p = some row ∧ row'.lastSeen = row.lastSeen

theorem seenBefore_of_peers {t' : Tables} (hpeers : t'.peers = t.peers) {row' : PeerRecord}
    (h : t'.peers.get? p = some row') : SeenBefore t p row' := by
  rw [hpeers] at h
  exact ⟨row', h, rfl⟩

theorem seenBefore_deletePeersWhere {gone : PeerId → Bool} {row' : PeerRecord}
    (h : (t.deletePeersWhere gone).peers.get? p = some row') : SeenBefore t p row' :=
  ⟨row', (OMap.get?_filter_eq_some.mp h).1, rfl⟩

/-- Other columns do not matter. -/
theorem seenBefore_updates {id : PeerId} {as : List Assignment}
    (has : ∀ a ∈ as, a.column ≠ "last_seen") {row' : PeerRecord}
    (h : (as.foldl (fun t a => t.updatePeer id a) t).peers.get? p = some row') :
    SeenBefore t p row' := by
  induction as generalizing t with
  | nil => exact ⟨row', h, rfl⟩
  | cons a rest ih =>
    obtain ⟨mid, hmid, hlast⟩ := ih (fun a ha => has a (List.mem_cons_of_mem _ ha)) h
    rw [get?_updatePeer] at hmid
    obtain ⟨row, hrow, rfl⟩ := Option.map_eq_some_iff.mp hmid
    refine ⟨row, hrow, ?_⟩
    rw [hlast]
    split
    · have hcolumn := has a (List.mem_cons_self ..)
      cases a with
      | lastSeen v => exact absurd rfl hcolumn
      | _ => rfl
    · rfl

/-- No field of a body is written to `last_seen`. -/
theorem seenBefore_patchPeer {authorization : Option JsString} {id : PeerId} {body : Option Json}
    {row' : PeerRecord} (h : (patchPeer env t authorization id body).1.peers.get? p = some row') :
    SeenBefore t p row' := by
  have hfields : ∀ body, (patchPeerFields env t id body).1.peers.get? p = some row' →
      SeenBefore t p row' := by
    intro body h
    have hfst : (patchPeerFields env t id body).1 =
        (applyFields t id (patchFields env.lang body)).1 := by
      unfold patchPeerFields
      split
      · rename_i he
        rw [he]
        rfl
      · rename_i he
        rw [he]
        dsimp only
        split <;> rfl
    rw [hfst, applyFields_fst] at h
    refine seenBefore_updates (fun a ha hcolumn => ?_) h
    have hmem := (columns_written env.lang body).subset (List.mem_map_of_mem ha)
    rw [hcolumn] at hmem
    revert hmem
    decide
  unfold patchPeer at h
  split at h
  · exact ⟨row', h, rfl⟩
  · split at h
    · exact ⟨row', h, rfl⟩
    · split at h
      · exact ⟨row', h, rfl⟩
      · split at h
        · exact ⟨row', h, rfl⟩
        · exact hfields _ h

/-- A request other than a registration and a poll. -/
theorem Effect.seenBefore {t' : Tables} {request : Request} (h : Effect env t draws request t')
    (hpost : ∀ authorization body, request ≠ .postPeers authorization body)
    (hget : ∀ authorization id, request ≠ .getConfig authorization id)
    (hpatch : ∀ authorization id body, request ≠ .patchPeer authorization id body)
    {row' : PeerRecord} (hrow' : t'.peers.get? p = some row') : SeenBefore t p row' := by
  cases h with
  | unchanged => exact ⟨row', hrow', rfl⟩
  | createNetwork admin inserted =>
    exact seenBefore_of_peers (by rw [(Tables.insertNetwork_ok inserted).2]) hrow'
  | deleteNetwork admin => exact seenBefore_deletePeersWhere hrow'
  | patchNetwork admin peers ports links => exact seenBefore_of_peers peers hrow'
  | registerPeer => exact absurd rfl (hpost _ _)
  | deletePeer found allowed => exact seenBefore_deletePeersWhere hrow'
  | putPorts found allowed read upserted =>
    exact seenBefore_of_peers (onlyPortsOf_upsertPorts upserted).peers hrow'
  | getConfig => exact absurd rfl (hget _ _)
  | forceMode admin => exact seenBefore_of_peers rfl hrow'
  | patchPeer => exact absurd rfl (hpatch _ _ _)

theorem eq_unauthorized {authorization : Option JsString} {networkId : NetworkId}
    {deny : Response} (h : requireAdminOrNetwork env t authorization networkId = some deny) :
    deny = unauthorized := by
  unfold requireAdminOrNetwork at h
  split at h
  · cases h
  · exact (Option.some.inj h).symm

/-- A registration is taken, at its time, or leaves the tables. -/
theorem postPeers_cases (env : Env) (t : Tables) (authorization : Option JsString)
    (body : Option Json) (draws : Draws) :
    ((postPeers env t authorization body draws).2.status = 201 ∧
      ∃ row : PeerRecord, row.lastSeen = draws.now ∧
        t.insertPeer draws.id row = .ok (postPeers env t authorization body draws).1) ∨
    ((postPeers env t authorization body draws).2.status ≠ 201 ∧
      (postPeers env t authorization body draws).1 = t) := by
  have hrefused : ∀ response : Response, response.status ≠ 201 →
      (((t, response) : Tables × Response).2.status = 201 ∧ ∃ row : PeerRecord,
        row.lastSeen = draws.now ∧ t.insertPeer draws.id row = .ok (t, response).1) ∨
      ((t, response) : Tables × Response).2.status ≠ 201 ∧ (t, response).1 = t :=
    fun _ h => Or.inr ⟨h, rfl⟩
  unfold postPeers
  split
  · exact hrefused _ (by decide)
  · exact hrefused _ (by decide)
  · split
    · exact hrefused _ (by decide : 400 ≠ 201)
    · split
      · rename_i deny hdeny
        rw [eq_unauthorized hdeny]
        exact hrefused _ (by decide)
      · split
        · exact hrefused _ (by decide)
        · split
          · exact hrefused _ (by decide)
          · split
            · exact hrefused _ (by decide)
            · dsimp only
              split
              · exact hrefused _ (by decide)
              · exact hrefused _ (by decide)
              · rename_i hok
                exact Or.inl ⟨rfl, _, rfl, hok⟩

/-- A poll is answered, and its time is written, or leaves the tables. -/
theorem getConfig_cases (env : Env) (t : Tables) (authorization : Option JsString) (id : PeerId)
    (draws : Draws) :
    ((getConfig env t authorization id draws).2.status = 200 ∧
      (getConfig env t authorization id draws).1 = t.updatePeer id (.lastSeen draws.now)) ∨
    ((getConfig env t authorization id draws).2.status ≠ 200 ∧
      (getConfig env t authorization id draws).1 = t) := by
  unfold getConfig
  split
  · exact Or.inr ⟨(by decide : 404 ≠ 200), rfl⟩
  · rename_i peer hpeer
    split
    · rename_i deny hdeny
      rw [eq_unauthorized hdeny]
      exact Or.inr ⟨(by decide : 401 ≠ 200), rfl⟩
    · -- the network of a peer exists
      obtain ⟨network, hnetwork⟩ := (OMap.has_iff _ _).mp (t.schema.peerNetwork hpeer)
      have hkept : (t.updatePeer id (.lastSeen draws.now)).networks.get? peer.networkId =
          some network := hnetwork
      dsimp only
      rw [hkept]
      exact Or.inl ⟨rfl, rfl⟩

/-- **One step.**  The column is when the event hears of the peer, or as before. -/
theorem lastSeen_step (s : ApiState) (e : Event) {row' : PeerRecord}
    (hrow' : (step env s e).tables.peers.get? p = some row') :
    heard env p s e = some row'.lastSeen ∨
      heard env p s e = none ∧ SeenBefore s.tables p row' := by
  cases e with
  | serve request draws =>
    have heffect := handle_effect env s.tables draws request
    have hrow' : (handle env s.tables draws request).1.peers.get? p = some row' := hrow'
    cases request with
    | postPeers authorization body =>
      have hrow' : (postPeers env s.tables authorization body draws).1.peers.get? p = some row' :=
        hrow'
      simp only [heard]
      rcases postPeers_cases env s.tables authorization body draws with
        ⟨h201, row, hseen, hok⟩ | ⟨hne, hsame⟩
      · rw [(Tables.insertPeer_ok hok).2.2] at hrow'
        rcases OMap.get?_set_cases hrow' with ⟨hid, rfl⟩ | ⟨hid, hold⟩
        · rw [if_pos ⟨hid, h201⟩, hseen]
          exact Or.inl rfl
        · rw [if_neg fun h => hid h.1]
          exact Or.inr ⟨rfl, row', hold, rfl⟩
      · rw [if_neg fun h => hne h.2]
        rw [hsame] at hrow'
        exact Or.inr ⟨rfl, row', hrow', rfl⟩
    | getConfig authorization id =>
      have hrow' : (getConfig env s.tables authorization id draws).1.peers.get? p = some row' :=
        hrow'
      simp only [heard]
      rcases getConfig_cases env s.tables authorization id draws with ⟨h200, hok⟩ | ⟨hne, hsame⟩
      · rw [hok, get?_updatePeer] at hrow'
        obtain ⟨row, hrow, rfl⟩ := Option.map_eq_some_iff.mp hrow'
        by_cases hid : id = p
        · rw [if_pos ⟨hid, h200⟩, if_pos hid.symm]
          exact Or.inl rfl
        · rw [if_neg fun h => hid h.1, if_neg fun h => hid h.symm]
          exact Or.inr ⟨rfl, row, hrow, rfl⟩
      · rw [if_neg fun h => hne h.2]
        rw [hsame] at hrow'
        exact Or.inr ⟨rfl, row', hrow', rfl⟩
    | patchPeer authorization id body => exact Or.inr ⟨rfl, seenBefore_patchPeer hrow'⟩
    | _ => exact Or.inr ⟨rfl, heffect.seenBefore nofun nofun nofun hrow'⟩
  | openPorts authorization peerId =>
    refine Or.inr ⟨rfl, ?_⟩
    simp only [step] at hrow'
    split at hrow'
    · exact ⟨row', hrow', rfl⟩
    · exact ⟨row', hrow', rfl⟩
  | portsBody index body =>
    refine Or.inr ⟨rfl, ?_⟩
    simp only [step] at hrow'
    split at hrow'
    · exact ⟨row', hrow', rfl⟩
    · exact seenBefore_of_peers (onlyPortsOf_putPortsBody _ _ _).peers hrow'
  | reap now deleteFails =>
    refine Or.inr ⟨rfl, ?_⟩
    simp only [step, reap] at hrow'
    split at hrow'
    · exact ⟨row', hrow', rfl⟩
    · exact seenBefore_deletePeersWhere hrow'

/-- **The column** is when the peer was last heard of. -/
theorem lastSeen_exec (env : Env) (es : List Event) {row : PeerRecord}
    (hrow : (exec env es).tables.peers.get? p = some row) :
    lastHeard env p es = some row.lastSeen := by
  induction es using List.reverseRecOn generalizing row with
  | nil => cases hrow
  | append_singleton es e ih =>
    rw [exec_concat] at hrow
    rw [lastHeard_concat]
    rcases lastSeen_step _ e hrow with h | ⟨h, old, hold, hlast⟩
    · rw [h]
      rfl
    · rw [h, ih hold, hlast]
      rfl

/-! ## Leaving -/

theorem has_deletePeersWhere (t : Tables) (gone : PeerId → Bool) (p : PeerId) :
    (t.deletePeersWhere gone).peers.has p = (t.peers.has p && !gone p) :=
  OMap.has_filter t.peers (fun p => !gone p) p

theorem has_updatePeers (t : Tables) (id : PeerId) (as : List Assignment) (p : PeerId) :
    (updatePeers t id as).peers.has p = t.peers.has p := by
  unfold updatePeers
  exact foldl_invariant (I := fun t' : Tables => t'.peers.has p = t.peers.has p) _ as
    (fun t' a _ h => (OMap.has_mapVals ..).trans h) rfl

/-- A request other than a deletion keeps every peer. -/
theorem Effect.kept {t' : Tables} {request : Request} (h : Effect env t draws request t')
    (hnetwork : ∀ authorization id, request ≠ .deleteNetwork authorization id)
    (hpeer : ∀ authorization id, request ≠ .deletePeer authorization id)
    (hp : t.peers.has p = true) : t'.peers.has p = true := by
  cases h with
  | unchanged => exact hp
  | createNetwork admin inserted =>
    rw [(Tables.insertNetwork_ok inserted).2]
    exact hp
  | deleteNetwork => exact absurd rfl (hnetwork _ _)
  | patchNetwork admin peers => rwa [peers]
  | registerPeer allowed inserted =>
    rw [(Tables.insertPeer_ok inserted).2.2]
    exact (OMap.has_set ..).trans (by rw [hp, Bool.or_true])
  | deletePeer => exact absurd rfl (hpeer _ _)
  | putPorts found allowed read upserted => rwa [(onlyPortsOf_upsertPorts upserted).peers]
  | getConfig => exact (OMap.has_mapVals ..).trans hp
  | forceMode => exact hp
  | patchPeer => rwa [has_updatePeers]

theorem mem_expired {now : Int} {row : PeerRecord} (hrow : t.peers.get? p = some row) :
    p ∈ expired t now ↔ 0 < row.ttlSeconds ∧ row.ttlSeconds * 1000 < now - row.lastSeen := by
  unfold expired
  rw [List.mem_map]
  constructor
  · rintro ⟨⟨q, row'⟩, hmem, rfl⟩
    obtain ⟨hmem, hold⟩ := List.mem_filter.mp hmem
    rw [(t.peers.mem_entries _ _).mp hmem] at hrow
    cases hrow
    rw [Bool.and_eq_true, decide_eq_true_eq, decide_eq_true_eq] at hold
    exact hold
  · intro hold
    refine ⟨(p, row), List.mem_filter.mpr ⟨(t.peers.mem_entries _ _).mpr hrow, ?_⟩, rfl⟩
    rw [Bool.and_eq_true, decide_eq_true_eq, decide_eq_true_eq]
    exact hold

/-- An event that keeps the peer and is none of the three ways. -/
theorem leaves_iff_of_kept {s : ApiState} {row : PeerRecord} {e : Event}
    (hkept : (step env s e).tables.peers.has p = true)
    (hnot : ¬ Leaves env p row s (some row.lastSeen) e) :
    (step env s e).tables.peers.has p = false ↔ Leaves env p row s (some row.lastSeen) e := by
  rw [hkept]
  exact ⟨nofun, fun h => absurd h hnot⟩

section
variable {s : ApiState} {row : PeerRecord} (hrow : s.tables.peers.get? p = some row)
include hrow

theorem leaves_deleteNetwork (authorization : Option JsString) (id : NetworkId) (draws : Draws) :
    (step env s (.serve (.deleteNetwork authorization id) draws)).tables.peers.has p = false ↔
      Leaves env p row s (some row.lastSeen) (.serve (.deleteNetwork authorization id) draws) := by
  have hhas : s.tables.peers.has p = true := OMap.has_of_get? hrow
  by_cases hadmin : isAdmin env authorization = true
  · have hanswer : deleteNetwork env s.tables authorization id =
        (s.tables.deleteNetwork id, ⟨200, .ok⟩) := by
      unfold deleteNetwork requireAdmin
      rw [if_pos hadmin]
    have hgone : (step env s (.serve (.deleteNetwork authorization id) draws)).tables.peers.has p =
        !(row.networkId == id) := by
      show (deleteNetwork env s.tables authorization id).1.peers.has p = _
      rw [hanswer]
      refine (has_deletePeersWhere s.tables (s.tables.inNetwork id) p).trans ?_
      rw [hhas, Rows.inNetwork, hrow, Bool.true_and]
    rw [hgone, Bool.not_eq_false', beq_iff_eq]
    constructor
    · rintro rfl
      exact .network authorization draws (by rw [hanswer])
    · intro h
      cases h
      rfl
  · have hanswer : deleteNetwork env s.tables authorization id = (s.tables, unauthorized) := by
      unfold deleteNetwork requireAdmin
      rw [if_neg hadmin]
    refine leaves_iff_of_kept ?_ ?_
    · show (deleteNetwork env s.tables authorization id).1.peers.has p = true
      rw [hanswer]
      exact hhas
    · intro h
      cases h with
      | network _ _ answered =>
        rw [hanswer] at answered
        cases answered

theorem leaves_deletePeer (authorization : Option JsString) (id : PeerId) (draws : Draws) :
    (step env s (.serve (.deletePeer authorization id) draws)).tables.peers.has p = false ↔
      Leaves env p row s (some row.lastSeen) (.serve (.deletePeer authorization id) draws) := by
  have hhas : s.tables.peers.has p = true := OMap.has_of_get? hrow
  by_cases hid : id = p
  · subst hid
    cases hdeny : requireAdminOrNetwork env s.tables authorization row.networkId with
    | none =>
      have hanswer : deletePeer env s.tables authorization id =
          (s.tables.deletePeer id, ⟨200, .ok⟩) := by
        unfold deletePeer
        rw [hrow]
        dsimp only
        rw [hdeny]
      refine ⟨fun _ => .deleted authorization draws (by rw [hanswer]), fun _ => ?_⟩
      show (deletePeer env s.tables authorization id).1.peers.has id = false
      rw [hanswer]
      refine (has_deletePeersWhere s.tables (fun p => decide (p = id)) id).trans ?_
      simp
    | some deny =>
      have hanswer : deletePeer env s.tables authorization id = (s.tables, deny) := by
        unfold deletePeer
        rw [hrow]
        dsimp only
        rw [hdeny]
      refine leaves_iff_of_kept ?_ ?_
      · show (deletePeer env s.tables authorization id).1.peers.has id = true
        rw [hanswer]
        exact hhas
      · intro h
        cases h with
        | deleted _ _ answered =>
          rw [hanswer, eq_unauthorized hdeny] at answered
          cases answered
  · refine leaves_iff_of_kept ?_ fun h => by cases h; exact hid rfl
    have heffect := handle_effect env s.tables draws (.deletePeer authorization id)
    show (handle env s.tables draws (.deletePeer authorization id)).1.peers.has p = true
    generalize (handle env s.tables draws (.deletePeer authorization id)).1 = t' at heffect
    cases heffect with
    | unchanged => exact hhas
    | deletePeer found allowed =>
      refine (has_deletePeersWhere s.tables (fun p => decide (p = id)) p).trans ?_
      rw [hhas, decide_eq_false (Ne.symm hid)]
      rfl

theorem leaves_reap (now : Int) (deleteFails : Bool) :
    (step env s (.reap now deleteFails)).tables.peers.has p = false ↔
      Leaves env p row s (some row.lastSeen) (.reap now deleteFails) := by
  have hhas : s.tables.peers.has p = true := OMap.has_of_get? hrow
  cases deleteFails with
  | true => exact leaves_iff_of_kept hhas nofun
  | false =>
    have hgone : (step env s (.reap now false)).tables.peers.has p =
        !(expired s.tables now).contains p := by
      refine (has_deletePeersWhere s.tables (fun p => (expired s.tables now).contains p) p).trans ?_
      rw [hhas, Bool.true_and]
    rw [hgone, Bool.not_eq_false', List.contains_iff_mem, mem_expired hrow]
    constructor
    · rintro ⟨hmortal, hlong⟩
      exact .silent now row.lastSeen rfl hmortal hlong
    · intro h
      cases h with
      | silent _ t heard mortal long =>
        cases heard
        exact ⟨mortal, long⟩

theorem leaves_step (e : Event) :
    (step env s e).tables.peers.has p = false ↔ Leaves env p row s (some row.lastSeen) e := by
  have hhas : s.tables.peers.has p = true := OMap.has_of_get? hrow
  cases e with
  | serve request draws =>
    have heffect := handle_effect env s.tables draws request
    cases request with
    | deleteNetwork authorization id => exact leaves_deleteNetwork hrow authorization id draws
    | deletePeer authorization id => exact leaves_deletePeer hrow authorization id draws
    | _ =>
      refine leaves_iff_of_kept (heffect.kept (fun _ _ h => ?_) (fun _ _ h => ?_) hhas) fun h => ?_
      all_goals cases h
  | openPorts authorization peerId =>
    refine leaves_iff_of_kept ?_ fun h => by cases h
    simp only [step]
    split <;> exact hhas
  | portsBody index body =>
    refine leaves_iff_of_kept ?_ fun h => by cases h
    simp only [step]
    split
    · exact hhas
    · dsimp only
      rw [(onlyPortsOf_putPortsBody _ _ _).peers]
      exact hhas
  | reap now deleteFails => exact leaves_reap hrow now deleteFails

end

end

/-! ## Top theorem -/

/-- **When a peer leaves.**  In every run a peer that is there leaves by a deletion, or by a run
of the reaper that comes later than its time to live after it was last heard of. -/
theorem leaves_iff (env : Env) (es : List Event) (e : Event) (p : PeerId) (row : PeerRecord)
    (hrow : (exec env es).tables.peers.get? p = some row) :
    (exec env (es ++ [e])).tables.peers.has p = false ↔
      Leaves env p row (exec env es) (lastHeard env p es) e := by
  rw [exec_concat, lastSeen_exec env es hrow]
  exact leaves_step hrow e

/-- A peer with a minute to live is registered and polls once. -/
def seenRun : List Event :=
  [.serve (networkRequest []) (drawsOf networkUuid),
    .serve (peerRequest "a" [(js "ttlSeconds", .num (.int 60))]) (drawsOf peerUuid),
    .serve (.getConfig sampleAdmin peerUuid) { drawsOf peerUuid with now := 5000 }]

theorem leaves_iff_seenRun : ∃ row, (exec sampleEnv seenRun).tables.peers.get? peerUuid = some row ∧
    ((exec sampleEnv (seenRun ++ [.reap 65001 false])).tables.peers.has peerUuid = false ↔
      Leaves sampleEnv peerUuid row (exec sampleEnv seenRun)
        (lastHeard sampleEnv peerUuid seenRun) (.reap 65001 false)) := by
  have hsome : ((exec sampleEnv seenRun).tables.peers.get? peerUuid).isSome = true := by
    decide +kernel
  have hrow := (Option.some_get hsome).symm
  exact ⟨_, hrow, leaves_iff sampleEnv seenRun (.reap 65001 false) peerUuid _ hrow⟩

/-- It leaves a minute after the poll. -/
example : lastHeard sampleEnv peerUuid seenRun = some 5000 ∧
    (exec sampleEnv (seenRun ++ [.reap 65000 false])).tables.peers.has peerUuid = true ∧
    (exec sampleEnv (seenRun ++ [.reap 65001 false])).tables.peers.has peerUuid = false := by
  decide +kernel

end Meshezia.Api
