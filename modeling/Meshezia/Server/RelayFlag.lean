import Meshezia.Server.Removal

/-!
# Verdicts and the relay flag of the network

The flag `relay_enabled` is read when a relay probe starts and not again: the verdict comes
some messages later, and `PATCH /api/networks/:id` knows nothing of negotiations.  While a
relay probe runs its flag stays on (`FlagInv`), unless a request turns it off in the network
of the two peers (`KeepsFlag`).  In a run without such a request a verdict to switch to relay
finds the flag on; after any such request the result of the probe brings one that does not:

    Along (step cfg) KeepsFlag … es → Along (step cfg) (SwitchAllowed cfg) … es, and
    ¬ KeepsFlag … off → ¬ Along (step cfg) (SwitchAllowed cfg) … (es ++ [off, result])
                                                             (switched_only_while_enabled)

One such run is `switched_to_disabled_relay`.
-/

namespace Meshezia

open ServerState Relation

/-! ## What is claimed -/

/-- Relay is enabled in the network of the two peers. -/
def RelayEnabled (db : Db) (a b : PeerId) : Prop :=
  ∀ net, db.inNetwork net a = true → db.inNetwork net b = true →
    ∃ row, db.networks.get? net = some row ∧ row.relayEnabled ≠ 0

/-- Where the step sends a verdict to switch to relay, relay is enabled. -/
def SwitchAllowed (cfg : Config) (s : ServerState) (e : Event) : Prop :=
  ∀ p ws q neg, Adds s (step cfg s e) (.sent p ws (.probeVerdict q .switchRelay) neg) →
    RelayEnabled s.db p q

/-- The relay probes that are active. -/
def ServerState.relayProbes (s : ServerState) : List NegotiationState :=
  (s.activeNegotiations.entries.map Prod.snd).filter fun n => n.type = .relayProbe

/-- The request does not turn relay off in the network of the peers of a running relay probe,
and registers no peer under the id of one of them. -/
def ApiWrite.KeepsFlag (s : ServerState) : ApiWrite → Prop
  | .setRelayEnabled net enabled => enabled = false → ∀ n ∈ s.relayProbes,
    ¬ (s.db.inNetwork net n.peerA = true ∧ s.db.inNetwork net n.peerB = true)
  | .registerPeer id _ => ∀ n ∈ s.relayProbes, n.peerA ≠ id ∧ n.peerB ≠ id
  | _ => True

instance (s : ServerState) : (w : ApiWrite) → Decidable (w.KeepsFlag s)
  | .setRelayEnabled net enabled => inferInstanceAs (Decidable (enabled = false →
      ∀ n ∈ s.relayProbes,
        ¬ (s.db.inNetwork net n.peerA = true ∧ s.db.inNetwork net n.peerB = true)))
  | .registerPeer id _ => inferInstanceAs (Decidable (∀ n ∈ s.relayProbes,
      n.peerA ≠ id ∧ n.peerB ≠ id))
  | .createNetwork _ _ => isTrue trivial
  | .deleteNetwork _ => isTrue trivial
  | .updatePeer _ _ _ _ => isTrue trivial
  | .touchLastSeen _ _ => isTrue trivial
  | .deletePeer _ => isTrue trivial
  | .putPorts _ _ => isTrue trivial

def KeepsFlag (s : ServerState) : Event → Prop
  | .api write => write.KeepsFlag s
  | _ => True

instance (s : ServerState) : (e : Event) → Decidable (KeepsFlag s e)
  | .api write => inferInstanceAs (Decidable (write.KeepsFlag s))
  | .open _ => isTrue trivial
  | .close _ => isTrue trivial
  | .message _ _ _ => isTrue trivial
  | .timer _ => isTrue trivial
  | .sweep _ => isTrue trivial
  | .reap _ _ => isTrue trivial
  | .forceMode _ _ _ => isTrue trivial
  | .restart => isTrue trivial

theorem mem_relayProbes {s : ServerState} {n : NegotiationState} :
    n ∈ s.relayProbes ↔ ∃ k, s.activeNegotiations.get? k = some n ∧ n.type = .relayProbe := by
  simp [relayProbes, OMap.mem_entries]

/-! ## The flag over a change of the tables -/

section
variable {db db' : Db} {a b : PeerId}

theorem inNetwork_iff {net : NetworkId} {p : PeerId} :
    db.inNetwork net p = true ↔ ∃ row, db.peers.get? p = some row ∧ row.networkId = net := by
  unfold Db.inNetwork
  cases db.peers.get? p <;> simp

/-- No peer joins a network and no network loses its flag. -/
theorem RelayEnabled.of_le (h : RelayEnabled db a b)
    (hpeers : ∀ net p, p = a ∨ p = b → db'.inNetwork net p = true → db.inNetwork net p = true)
    (hnetworks : ∀ net row, db'.inNetwork net a = true → db'.inNetwork net b = true →
      db.networks.get? net = some row → row.relayEnabled ≠ 0 →
      ∃ row', db'.networks.get? net = some row' ∧ row'.relayEnabled ≠ 0) :
    RelayEnabled db' a b := by
  intro net ha hb
  obtain ⟨row, hrow, hflag⟩ := h net (hpeers net a (Or.inl rfl) ha) (hpeers net b (Or.inr rfl) hb)
  exact hnetworks net row ha hb hrow hflag

theorem RelayEnabled.congr (h : RelayEnabled db a b) (hpeers : db'.peers = db.peers)
    (hnetworks : db'.networks = db.networks) : RelayEnabled db' a b := by
  refine h.of_le (fun net p _ hp => ?_) fun net row _ _ hrow hflag => ⟨row, hnetworks ▸ hrow, hflag⟩
  rw [inNetwork_iff, hpeers] at hp
  exact inNetwork_iff.mpr hp

theorem RelayEnabled.deletePeersWhere (h : RelayEnabled db a b) (gone : PeerId → Bool) :
    RelayEnabled (db.deletePeersWhere gone) a b := by
  refine h.of_le (fun net p _ hp => ?_) fun net row _ _ hrow hflag => ⟨row, hrow, hflag⟩
  rw [inNetwork_iff, get?_deletePeersWhere_peers] at hp
  split at hp
  · obtain ⟨row, hrow, -⟩ := hp
    cases hrow
  · exact inNetwork_iff.mpr hp

theorem upsertReports_networks (db : Db) (q : PeerId) (reports : List HealthReport) (now : Int) :
    (upsertReports db q reports now).networks = db.networks := by
  refine upsertReports_rule (I := fun db' => db'.networks = db.networks) ?_ reports rfl
  intro db1 db2 x row h hupsert
  rw [Db.eq_of_upsertLink hupsert]
  exact h

/-- The reports and the reaper leave the flags and the networks of peers. -/
theorem RecordStep.relayEnabled {cfg : Config} {e : Event} {r r' : Records}
    (hstep : RecordStep cfg e r r') (he : ∀ w, e ≠ .api w) (h : RelayEnabled r.db a b) :
    RelayEnabled r'.db a b := by
  cases hstep with
  | forced p q mode g found event => exact h.congr rfl rfl
  | reported p reports now =>
    exact h.congr (upsertReports_peers ..) (upsertReports_networks ..)
  | deleted now event =>
    refine foldl_invariant (I := fun db : Db => RelayEnabled db a b) _ _ ?_ h
    intro db x _ hdb
    exact hdb.deletePeersWhere _
  | wrote w event => exact absurd event (he w)
  | _ => exact h

theorem relayEnabled_steps {cfg : Config} {e : Event} {r r' : Records}
    (hsteps : ReflTransGen (RecordStep cfg e) r r') (he : ∀ w, e ≠ .api w)
    (h : RelayEnabled r.db a b) : RelayEnabled r'.db a b := by
  induction hsteps with
  | refl => exact h
  | tail _ hstep ih => exact hstep.relayEnabled he ih

end

/-! ## Requests -/

/-- A request keeps the flag of the two peers, unless it turns relay off in their network or
registers one of them. -/
theorem relayEnabled_apply {db : Db} {a b : PeerId} (w : ApiWrite) (h : RelayEnabled db a b)
    (hoff : ∀ net, w = .setRelayEnabled net false →
      ¬ (db.inNetwork net a = true ∧ db.inNetwork net b = true))
    (hnew : ∀ id row, w = .registerPeer id row → a ≠ id ∧ b ≠ id) :
    RelayEnabled (w.apply db) a b := by
  have hupdate : ∀ id f, RelayEnabled (db.updatePeer id f) a b := by
    intro id f
    refine h.of_le (fun net p _ hp => ?_) fun net row _ _ hrow hflag => ⟨row, hrow, hflag⟩
    obtain ⟨row', hrow', hnet⟩ := inNetwork_iff.mp hp
    simp only [Db.updatePeer, OMap.get?_mapVals, Option.map_eq_some_iff] at hrow'
    obtain ⟨row, hrow, rfl⟩ := hrow'
    refine inNetwork_iff.mpr ⟨row, hrow, ?_⟩
    split at hnet <;> exact hnet
  cases w with
  | createNetwork id row =>
    simp only [ApiWrite.apply, Db.insertNetwork]
    split
    · exact h
    · rename_i hfree
      refine h.of_le (fun _ _ _ hp => hp) fun net row' _ _ hrow hflag => ⟨row', ?_, hflag⟩
      -- a network that is there keeps its row
      have hne : id ≠ net := by
        rintro rfl
        exact hfree (OMap.has_of_get? hrow)
      exact (OMap.get?_set_ne _ _ hne).trans hrow
  | setRelayEnabled id enabled =>
    refine h.of_le (fun _ _ _ hp => hp) fun net row ha hb hrow hflag => ?_
    simp only [ApiWrite.apply, Db.setRelayEnabled, OMap.get?_mapVals, hrow, Option.map_some,
      Option.some.injEq, exists_eq_left']
    by_cases hid : net = id
    · subst hid
      cases enabled with
      | true => simp
      | false => exact absurd ⟨ha, hb⟩ (hoff net rfl)
    · simp [hid, hflag]
  | deleteNetwork id =>
    refine (h.deletePeersWhere (db.inNetwork id)).of_le (fun _ _ _ hp => hp)
      fun net row ha hb hrow hflag => ⟨row, ?_, hflag⟩
    -- a network that still has peers is another one
    have hne : id ≠ net := by
      rintro rfl
      rw [inNetwork_iff, ApiWrite.apply, deleteNetwork_eq] at ha
      obtain ⟨rowA, hA, hnet⟩ := ha
      rw [get?_deletePeersWhere_peers] at hA
      split at hA
      · cases hA
      · rename_i hout
        exact hout (inNetwork_iff.mpr ⟨rowA, hA, hnet⟩)
    exact (OMap.get?_delete_ne _ hne).trans hrow
  | registerPeer id row =>
    simp only [ApiWrite.apply, Db.insertPeer]
    split
    · exact h
    · refine h.of_le (fun net p hp hin => ?_) fun net row' _ _ hrow hflag => ⟨row', hrow, hflag⟩
      obtain ⟨hA, hB⟩ := hnew id row rfl
      have hne : id ≠ p := by
        rcases hp with rfl | rfl
        · exact hA.symm
        · exact hB.symm
      rw [inNetwork_iff] at hin ⊢
      rwa [OMap.get?_set_ne _ _ hne] at hin
  | updatePeer id pubkey publicIp ttlSeconds => exact hupdate id _
  | touchLastSeen id now => exact hupdate id _
  | deletePeer id => exact h.deletePeersWhere _
  | putPorts id ports =>
    obtain ⟨peerPorts, he⟩ := db.putPorts_eq id ports
    rw [ApiWrite.apply, he]
    exact h.congr rfl rfl

/-! ## The relay probes after an event -/

/-- Every relay probe that is active in `s'` is one of `s`. -/
def NoNewRelayProbe (s s' : ServerState) : Prop :=
  ∀ k n, s'.activeNegotiations.get? k = some n → n.type = .relayProbe →
    s.activeNegotiations.get? k = some n

section
variable {s s' s'' : ServerState}

theorem NoNewRelayProbe.refl (s : ServerState) : NoNewRelayProbe s s := fun _ _ hn _ => hn

theorem NoNewRelayProbe.trans (h : NoNewRelayProbe s s') (h' : NoNewRelayProbe s' s'') :
    NoNewRelayProbe s s'' :=
  fun k n hn htype => h k n (h' k n hn htype) htype

theorem NoNewRelayProbe.congr (h : s'.activeNegotiations = s.activeNegotiations) :
    NoNewRelayProbe s s' :=
  fun _ _ hn _ => h ▸ hn

theorem NoNewRelayProbe.mem (h : NoNewRelayProbe s s') {n : NegotiationState}
    (hn : n ∈ s'.relayProbes) : n ∈ s.relayProbes := by
  obtain ⟨k, hk, htype⟩ := mem_relayProbes.mp hn
  exact mem_relayProbes.mpr ⟨k, h k n hk htype, htype⟩

theorem noNewRelayProbe_abort (s : ServerState) (key : PairKey) (reason : AbortReason) :
    NoNewRelayProbe s (s.abortNegotiation key reason) := by
  intro k n hn _
  rw [get?_abortNegotiation] at hn
  split at hn
  · cases hn
  · exact hn

theorem noNewRelayProbe_finish (s : ServerState) (key : PairKey) :
    NoNewRelayProbe s (s.finishNegotiation key) := by
  intro k n hn _
  cases hg : s.activeNegotiations.get? key with
  | none =>
    simp only [finishNegotiation, hg] at hn
    exact hn
  | some m =>
    rw [finishNegotiation_eq _ hg] at hn
    exact (OMap.get?_of_get?_delete hn).2

theorem noNewRelayProbe_verdict (s : ServerState) (neg : NegotiationState) (action : VerdictAction)
    (key : PairKey) : NoNewRelayProbe s ((s.sendVerdict neg action).finishNegotiation key) := by
  refine NoNewRelayProbe.trans (.congr ?_) (noNewRelayProbe_finish _ key)
  unfold sendVerdict
  rw [sendMsg_active, sendMsg_active]

/-- A negotiation that is written back and is no relay probe. -/
theorem noNewRelayProbe_set {key : PairKey} {m : NegotiationState} (hm : m.type = .directProbe) :
    NoNewRelayProbe s { s with activeNegotiations := s.activeNegotiations.set key m } := by
  intro k n hn htype
  rcases OMap.get?_set_cases hn with ⟨-, rfl⟩ | ⟨-, hn⟩
  · rw [hm] at htype
    cases htype
  · exact hn

end

section
variable {s : ServerState}

theorem sendDirectGo_relayProbes {key : PairKey} {m : NegotiationState} (hm : m.type = .directProbe)
    (readyA readyB : DirectReady) : NoNewRelayProbe s (s.sendDirectGo key m readyA readyB) := by
  unfold sendDirectGo
  simp only [clearTimeout_eq, sendMsg_eq]
  split
  · exact noNewRelayProbe_set hm
  · exact (NoNewRelayProbe.congr rfl).trans (noNewRelayProbe_abort _ key .timeout)

/-- A probe message starts no negotiation, and leaves a relay probe as it is or ends it. -/
theorem noNewRelayProbe_message (cfg : Config) (ws : Ws) (now : Int) {msg : AgentMsg} {q : PeerId}
    (hq : msg.peer? = some q) : NoNewRelayProbe s (s.handleMessage cfg ws now msg) := by
  cases hg : s.activeNegotiations.get? (pairKey ws.peerId q) with
  | none => rw [handleMessage_idle cfg ws now hq hg]; exact .congr rfl
  | some neg =>
    have hnote : NoNewRelayProbe s
        (s.note (.recv ws.peerId msg (s.negotiationMet ws.peerId msg))) := .congr rfl
    unfold handleMessage
    simp only [hq]
    refine hnote.trans ?_
    have hg' : (s.note (.recv ws.peerId msg (s.negotiationMet ws.peerId msg))).activeNegotiations.get?
        (pairKey ws.peerId q) = some neg := hg
    generalize s.note (.recv ws.peerId msg (s.negotiationMet ws.peerId msg)) = t at hg' ⊢
    cases msg with
    | healthReport reports => cases hq
    | probeRelayReady x meshIpv4 tcpPort nonce =>
      cases hq
      simp only [handleNegotiateMessage, handleProbeRelayReady, hg']
      split
      · exact .refl t
      · split
        · exact .refl t
        · split
          · exact .congr (sendMsg_active ..)
          · exact noNewRelayProbe_abort t _ _
    | probeRelayResult x success =>
      cases hq
      simp only [handleNegotiateMessage, handleProbeRelayResult, hg']
      split
      · exact .refl t
      · split
        · exact .refl t
        · generalize (if success then VerdictAction.switchRelay else .stay) = action
          exact (noNewRelayProbe_verdict t neg action _).trans (.congr (updateHealth_active ..))
    | probeDirectReady x udpPort nonce =>
      cases hq
      simp only [handleNegotiateMessage, handleProbeDirectReady, hg']
      split
      · exact .refl t
      · rename_i hdirect
        generalize hm : (if ws.peerId = (parsePairKey (pairKey ws.peerId q)).1 then
          { neg with readyA := some (⟨udpPort, nonce⟩ : DirectReady) } else
          { neg with readyB := some ⟨udpPort, nonce⟩ }) = m
        have htype : m.type = .directProbe := by
          subst hm
          split <;> simpa using hdirect
        split
        · exact (noNewRelayProbe_set htype).trans (sendDirectGo_relayProbes htype _ _)
        · exact noNewRelayProbe_set htype
    | probeDirectResult x success =>
      cases hq
      simp only [handleNegotiateMessage, handleProbeDirectResult, hg']
      split
      · exact .refl t
      · rename_i hdirect
        generalize hm : (if ws.peerId = (parsePairKey (pairKey ws.peerId q)).1 then
          { neg with resultA := some success } else { neg with resultB := some success }) = m
        have htype : m.type = .directProbe := by
          subst hm
          split <;> simpa using hdirect
        refine (@noNewRelayProbe_set t (pairKey ws.peerId q) m htype).trans ?_
        generalize { t with
          activeNegotiations := t.activeNegotiations.set (pairKey ws.peerId q) m } = u
        split
        · rename_i resultA resultB _ _
          generalize (if (resultA && resultB) = true then VerdictAction.switchDirect
            else .stay) = action
          exact (noNewRelayProbe_verdict u m action _).trans (.congr (updateHealth_active ..))
        · exact .refl u
    | probeError x error =>
      cases hq
      simp only [handleNegotiateMessage, handleProbeError, hg']
      refine NoNewRelayProbe.trans ?_ (noNewRelayProbe_abort _ _ .timeout)
      split
      · exact .congr (updateHealth_active ..)
      · exact .refl t

/-- The sweep starts direct probes only. -/
theorem noNewRelayProbe_sweep (cfg : Config) (now : Int) :
    NoNewRelayProbe s (s.staleSweep cfg now) := by
  have hstart : ∀ (t : ServerState) (key : PairKey) (health : PairHealth),
      NoNewRelayProbe t (t.initiateDirectProbe key health now) := by
    intro t key health k n hn htype
    unfold initiateDirectProbe at hn
    simp only [armTimeout] at hn
    rw [sendMsg_active, sendMsg_active, OMap.set_set] at hn
    exact noNewRelayProbe_set rfl k n hn htype
  have hprobe : ∀ (t : ServerState) (row : PeerId × PeerId),
      NoNewRelayProbe t (checkDirectProbe now t row) := by
    intro t row
    unfold checkDirectProbe
    dsimp only
    cases t.pairHealthMap.get? (pairKey row.1 row.2) with
    | none => exact .refl t
    | some health =>
      dsimp only
      -- each guard leaves the state as it is
      split
      · exact .refl t
      · split
        · exact .refl t
        · split
          · exact .refl t
          · split
            · exact .refl t
            · exact hstart t _ health
  have hstale : NoNewRelayProbe s (s.activeNegotiations.entries.foldl (abortIfStale now) s) :=
    fun k n hn _ => (get?_abortStale now _ hn).1
  exact foldl_invariant (I := NoNewRelayProbe s) _ _ (fun t row _ ht => ht.trans (hprobe t row))
    hstale

/-- A relay probe that an entry of a report starts is of the pair of the sender and the peer it
names, and relay is enabled for the sender. -/
theorem handleReportEntry_relayProbe (cfg : Config) (p : PeerId) (now : Int) (r : HealthReport)
    {k : PairKey} {n : NegotiationState}
    (hn : (handleReportEntry cfg p now s r).activeNegotiations.get? k = some n) :
    s.activeNegotiations.get? k = some n ∨
      (k = pairKey p r.peerId ∧ s.relayEnabledFor p = true) := by
  obtain ⟨hactive, -, hdb, -⟩ := getOrCreateHealth_frame cfg s (pairKey p r.peerId)
  rw [handleReportEntry_eq] at hn
  generalize getOrCreateHealth cfg s (pairKey p r.peerId) = made at hn hactive hdb
  obtain ⟨h0, t0⟩ := made
  simp only at hn hactive hdb
  generalize entryHealth cfg h0 (onSideA p r.peerId) now r.mode r.rxAlive = h1 at hn
  generalize ht1 : (t0.note (entryItem p now r)).putHealth (pairKey p r.peerId) h1 = t1 at hn
  have hactive1 : t1.activeNegotiations = s.activeNegotiations := by rw [← ht1]; exact hactive
  have hdb1 : t1.db = s.db := by rw [← ht1]; exact hdb
  split at hn
  · rw [hactive1] at hn
    exact Or.inl hn
  · have hactive2 := shouldInitiateRelayProbe_active cfg t1 p r.peerId (pairKey p r.peerId) h1
    have hiff := shouldInitiateRelayProbe_iff cfg t1 p r.peerId (pairKey p r.peerId) h1
    unfold checkStreaks at hn
    split at hn
    · generalize shouldInitiateRelayProbe cfg t1 p r.peerId (pairKey p r.peerId) h1 = answer at *
      obtain ⟨start, t2⟩ := answer
      cases start with
      | false =>
        rw [← hactive1, ← hactive2]
        exact Or.inl hn
      | true =>
        obtain ⟨-, -, -, -, hflag⟩ := hiff.mp rfl
        simp only [if_true] at hn
        unfold initiateRelayProbe armTimeout at hn
        rw [sendMsg_active] at hn
        rcases OMap.get?_set_cases hn with ⟨hk, -⟩ | ⟨hne, hn⟩
        · rw [relayEnabledFor_iff, lookupPeer, hdb1] at hflag
          exact Or.inr ⟨hk.symm, (relayEnabledFor_iff s p).mpr hflag⟩
        · rw [OMap.get?_set_ne _ _ hne] at hn
          rw [← hactive1, ← hactive2]
          exact Or.inl hn
    · rw [hactive1] at hn
      exact Or.inl hn

/-! ## The invariant -/

/-- Relay is enabled for the peers of every relay probe. -/
def FlagInv (s : ServerState) : Prop := ∀ n ∈ s.relayProbes, RelayEnabled s.db n.peerA n.peerB

theorem relayEnabled_of_starter {a b p : PeerId} (hp : p = a ∨ p = b)
    (h : s.relayEnabledFor p = true) : RelayEnabled s.db a b := by
  intro net ha hb
  obtain ⟨peer, network, hpeer, hnetwork, hflag⟩ := (relayEnabledFor_iff s p).mp h
  have hin : s.db.inNetwork net p = true := by
    rcases hp with rfl | rfl
    · exact ha
    · exact hb
  obtain ⟨row, hrow, rfl⟩ := inNetwork_iff.mp hin
  obtain rfl : peer = row := Option.some.inj (hpeer.symm.trans hrow)
  exact ⟨network, hnetwork, hflag⟩

theorem flagInv_report (cfg : Config) (hi : TableInv s) (h : FlagInv s) (p : PeerId) (now : Int)
    (reports : List HealthReport) : FlagInv (s.handleHealthReport cfg p reports now) := by
  refine handleHealthReport_rule cfg hi (I := FlagInv) (fun n hn => ?_) ?_
  · exact (h n hn).congr (upsertReports_peers ..) (upsertReports_networks ..)
  · intro t r _ _ hit' ht htwin n hn
    obtain ⟨k, hk, htype⟩ := mem_relayProbes.mp hn
    refine @RelayEnabled.congr t.db _ _ _ ?_ htwin.apart.peers htwin.apart.networks
    rcases handleReportEntry_relayProbe cfg p now r hk with hold | ⟨rfl, hflag⟩
    · exact ht n (mem_relayProbes.mpr ⟨k, hold, htype⟩)
    · refine relayEnabled_of_starter (p := p) ?_ hflag
      rcases (hit'.keyed _ n hk).side with ⟨hA, -, -⟩ | ⟨hB, -, -⟩
      · exact Or.inl hA
      · exact Or.inr hB

/-- An event that starts no relay probe and is no request. -/
theorem FlagInv.of_noNew {cfg : Config} {e : Event} (h : FlagInv s)
    (hnew : NoNewRelayProbe s (step cfg s e)) (hrestart : e ≠ .restart) (hapi : ∀ w, e ≠ .api w) :
    FlagInv (step cfg s e) :=
  fun n hn => relayEnabled_steps (recordSteps_of_step hrestart) hapi (h n (hnew.mem hn))

/-- **One step** keeps relay enabled for the peers of every relay probe. -/
theorem flagInv_step (cfg : Config) (hi : TableInv s) (h : FlagInv s) {e : Event}
    (hkeeps : KeepsFlag s e) : FlagInv (step cfg s e) := by
  cases e with
  | «open» ws => exact h.of_noNew (.congr rfl) (by simp) (by simp)
  | close ws =>
    exact h.of_noNew (fun k n hn _ => (abortPeerNegotiations_subset hn).1) (by simp) (by simp)
  | message ws now msg =>
    cases hq : msg.peer? with
    | some q => exact h.of_noNew (noNewRelayProbe_message cfg ws now hq) (by simp) (by simp)
    | none =>
      cases msg with
      | healthReport reports => exact flagInv_report cfg hi h ws.peerId now reports
      | _ => cases hq
  | timer id =>
    refine h.of_noNew (fun k n hn _ => ?_) (by simp) (by simp)
    cases ht : s.timers.get? id with
    | none => rwa [step, fireTimer, ht] at hn
    | some tm =>
      rw [step, fireTimer_active hi ht] at hn
      exact (OMap.get?_of_get?_delete hn).2
  | sweep now => exact h.of_noNew (noNewRelayProbe_sweep cfg now) (by simp) (by simp)
  | reap now fails => exact h.of_noNew (fun k n hn _ => reap_subset hn) (by simp) (by simp)
  | forceMode p q mode =>
    exact h.of_noNew (fun k n hn _ => postForceMode_subset cfg hi hn) (by simp) (by simp)
  | api write =>
    intro n hn
    have hkept : write.KeepsFlag s := hkeeps
    refine relayEnabled_apply write (h n hn) (fun net hw => ?_) fun id row hw => ?_
    · subst hw
      exact hkept rfl n hn
    · subst hw
      exact hkept n hn
  | restart => exact fun n hn => by cases hn

end

/-! ## Verdicts to switch to relay -/

def TraceItem.isRelaySwitch : TraceItem → Bool
  | .sent _ _ (.probeVerdict _ .switchRelay) _ => true
  | _ => false

theorem isRelaySwitch_of_none {it : TraceItem} (h : it.switch? = none) :
    it.isRelaySwitch = false := by
  unfold TraceItem.isRelaySwitch
  split
  · cases h
  · rfl

section
variable {C : ServerState → PeerId → AgentMsg → Prop} {D : Nat → PeerId → AbortReason → Prop}
  {F : TraceItem → Prop} {s s' : ServerState}

/-- From `s` to `s'` no verdict to switch to relay was sent. -/
def NoRelaySwitch (s s' : ServerState) : Prop :=
  ∃ items, s'.trace = items ++ s.trace ∧ ∀ it ∈ items, it.isRelaySwitch = false

/-- Without a successful result of a relay probe no verdict to switch to relay is sent. -/
theorem TableStep.noRelaySwitch (h : TableStep C D F s s')
    (hC : ∀ t p q, ¬ C t p (.probeRelayResult q true))
    (hF : ∀ it, F it → it.isRelaySwitch = false) : NoRelaySwitch s s' := by
  cases h with
  | quiet items untagged active timers ref trace connIds connected health =>
    refine ⟨items, trace, fun it hit => ?_⟩
    rcases (untagged it hit).2 with h | h
    · exact isRelaySwitch_of_none h
    · exact hF it h
  | ignored p msg idle => exact ⟨[_], rfl, by simp [TraceItem.isRelaySwitch]⟩
  | stored p q msg neg neg' counts direct store pending =>
    exact ⟨[_], rfl, by simp [TraceItem.isRelaySwitch]⟩
  | checked p q neg client meshIpv4 tcpPort nonce clientPubkey serverPubkey counts role =>
    refine ⟨sentItems s.connections (some neg.nid) client
        (.probeRelayCheck p meshIpv4 tcpPort nonce clientPubkey serverPubkey) ++
      [.recv p (.probeRelayReady q meshIpv4 tcpPort nonce) (some neg.nid)], by simp,
      fun it hit => ?_⟩
    rcases List.mem_append.mp hit with hit | hit
    · exact isRelaySwitch_of_none (switch?_of_mem_sentItems rfl hit)
    · rw [List.mem_singleton.mp hit]
      rfl
  | went p q udpPort nonce neg neg' infoA infoB readyA readyB counts store ready =>
    refine ⟨goItems s.connections neg' infoA infoB readyA readyB ++
      [.recv p (.probeDirectReady q udpPort nonce) (some neg'.nid)], by simp [go], fun it hit => ?_⟩
    rcases List.mem_append.mp hit with hit | hit
    · rcases List.mem_append.mp hit with hit | hit <;>
        exact isRelaySwitch_of_none (switch?_of_mem_sentItems rfl hit)
    · rw [List.mem_singleton.mp hit]
      rfl
  | started key neg callback delay now backoff items may =>
    refine ⟨items ++ [.started key s.nextRef neg.type now backoff], by simp [begin],
      fun it hit => ?_⟩
    rcases List.mem_append.mp hit with hit | hit
    · rcases may.items with ⟨q, client, -, -, -, he⟩ | ⟨-, he⟩ <;> rw [he] at hit
      · exact isRelaySwitch_of_none (switch?_of_mem_sentItems rfl hit)
      · rcases List.mem_append.mp hit with hit | hit <;>
          exact isRelaySwitch_of_none (switch?_of_mem_sentItems rfl hit)
    · rw [List.mem_singleton.mp hit]
      rfl
  | concluded key neg receipt ending active counts allowed =>
    refine ⟨ending.items s.connections neg ++ receiptItems neg receipt, by simp [conclude],
      fun it hit => ?_⟩
    rcases List.mem_append.mp hit with hit | hit
    · cases ending with
      | abort reason =>
        rcases List.mem_append.mp hit with hit | hit <;>
          exact isRelaySwitch_of_none (switch?_of_mem_sentItems rfl hit)
      | abortOther p reason => exact isRelaySwitch_of_none (switch?_of_mem_sentItems rfl hit)
      | verdict action =>
        cases action with
        | switchRelay =>
          obtain ⟨-, p, q, rfl⟩ := allowed
          obtain ⟨_, -, hcounts⟩ := counts p _ rfl
          exact absurd hcounts.known (hC s p q)
        | switchDirect =>
          rcases List.mem_append.mp hit with hit | hit <;> obtain ⟨ws, rfl⟩ := mem_sentItems hit <;>
            rfl
        | stay =>
          rcases List.mem_append.mp hit with hit | hit <;>
            exact isRelaySwitch_of_none (switch?_of_mem_sentItems rfl hit)
    · cases receipt with
      | none => cases hit
      | some r => rw [List.mem_singleton.mp hit]; rfl

theorem noRelaySwitch_steps (hsteps : ReflTransGen (TableStep C D F) s s')
    (hC : ∀ t p q, ¬ C t p (.probeRelayResult q true))
    (hF : ∀ it, F it → it.isRelaySwitch = false) : NoRelaySwitch s s' := by
  induction hsteps with
  | refl => exact ⟨[], rfl, by simp⟩
  | tail _ hstep ih =>
    obtain ⟨items, htrace, hitems⟩ := ih
    obtain ⟨items', htrace', hitems'⟩ := hstep.noRelaySwitch hC hF
    refine ⟨items' ++ items, by rw [htrace', htrace, List.append_assoc], fun it hit => ?_⟩
    rcases List.mem_append.mp hit with hit | hit
    · exact hitems' it hit
    · exact hitems it hit

theorem NoRelaySwitch.not_adds (h : NoRelaySwitch s s') {it : TraceItem}
    (hit : it.isRelaySwitch = true) : ¬ Adds s s' it := by
  rintro ⟨items, htrace, hmem⟩
  obtain ⟨items', htrace', hnone⟩ := h
  rw [List.append_cancel_right (htrace.symm.trans htrace')] at hmem
  rw [hnone it hmem] at hit
  cases hit

/-- The event is no successful result of a relay probe. -/
theorem noRelaySwitch_step (cfg : Config) (hi : TableInv s) {e : Event} (hids : e.idsOk)
    (he : ∀ ws now q, e ≠ .message ws now (.probeRelayResult q true)) :
    NoRelaySwitch s (step cfg s e) := by
  by_cases hrestart : e = .restart
  · subst hrestart
    exact ⟨[], rfl, by simp⟩
  · refine noRelaySwitch_steps (steps_of_step cfg
      (C := fun _ p msg => ∃ ws now, e = .message ws now msg ∧ ws.peerId = p) hi e hids ?_ hrestart)
      ?_ ?_
    · cases e with
      | message ws now msg => exact ⟨ws, now, rfl, rfl⟩
      | _ => trivial
    · rintro t p q ⟨ws, now, rfl, -⟩
      exact he ws now q rfl
    · rintro it ⟨a, b, mode, ws, -, rfl | rfl⟩ <;> rfl

/-- The result of a relay probe that its client node sends: both peers are told the verdict. -/
theorem relayResult_trace (cfg : Config) (ws : Ws) (now : Int) {q : PeerId} (success : Bool)
    {n : NegotiationState} (hn : s.activeNegotiations.get? (pairKey ws.peerId q) = some n)
    (htype : n.type = .relayProbe) (hclient : n.clientNode = some ws.peerId) :
    (s.handleMessage cfg ws now (.probeRelayResult q success)).trace =
      .relayResult (pairKey ws.peerId q) ::
        (Ending.items s.connections n (.verdict (if success then .switchRelay else .stay)) ++
          .recv ws.peerId (.probeRelayResult q success) (some n.nid) :: s.trace) := by
  have hmet : s.negotiationMet ws.peerId (.probeRelayResult q success) = some n.nid := by
    rw [negotiationMet_eq rfl, hn]; rfl
  unfold handleMessage
  simp only [AgentMsg.peer?, handleNegotiateMessage, handleProbeRelayResult, hmet]
  generalize hs1 : s.note (.recv ws.peerId (.probeRelayResult q success) (some n.nid)) = s1
  have hn1 : s1.activeNegotiations.get? (pairKey ws.peerId q) = some n := by rw [← hs1]; exact hn
  have htrace : ∀ (t : ServerState) (key : PairKey) (f : PairHealth → PairHealth),
      (t.updateHealth key f).trace = t.trace := by
    intro t key f
    unfold updateHealth
    split <;> rfl
  simp only [hn1, htype, hclient, ne_eq, not_true_eq_false, if_false, htrace, note,
    sendVerdict_finish_eq _ hn1]
  subst hs1
  rfl

/-- Another result of a relay probe is dropped. -/
theorem relayResult_dropped (cfg : Config) (ws : Ws) (now : Int) {q : PeerId} (success : Bool)
    (hn : ∀ n, s.activeNegotiations.get? (pairKey ws.peerId q) = some n →
      ¬ (n.type = .relayProbe ∧ n.clientNode = some ws.peerId)) :
    NoRelaySwitch s (s.handleMessage cfg ws now (.probeRelayResult q success)) := by
  cases hg : s.activeNegotiations.get? (pairKey ws.peerId q) with
  | none =>
    rw [handleMessage_idle cfg ws now rfl hg]
    exact ⟨[_], rfl, by simp [TraceItem.isRelaySwitch]⟩
  | some n =>
    unfold handleMessage
    simp only [AgentMsg.peer?, handleNegotiateMessage, handleProbeRelayResult, note, hg]
    have hnot := hn n hg
    split
    · exact ⟨[_], rfl, by simp [TraceItem.isRelaySwitch]⟩
    · rename_i htype
      rw [if_pos fun h => hnot ⟨by simpa using htype, h.symm⟩]
      exact ⟨[_], rfl, by simp [TraceItem.isRelaySwitch]⟩

theorem RelayEnabled.symm {db : Db} {a b : PeerId} (h : RelayEnabled db a b) : RelayEnabled db b a :=
  fun net hb ha => h net ha hb

/-- **One step** sends a verdict to switch to relay only while the flag is on. -/
theorem switchAllowed_step (cfg : Config) (hi : TableInv s) (h : FlagInv s) {e : Event}
    (hids : e.idsOk) : SwitchAllowed cfg s e := by
  intro p w q neg hadds
  by_cases he : ∃ ws now x, e = .message ws now (.probeRelayResult x true)
  · obtain ⟨ws, now, x, rfl⟩ := he
    by_cases hn : ∃ n, s.activeNegotiations.get? (pairKey ws.peerId x) = some n ∧
        n.type = .relayProbe ∧ n.clientNode = some ws.peerId
    · obtain ⟨n, hn, htype, hclient⟩ := hn
      have hflag := h n (mem_relayProbes.mpr ⟨_, hn, htype⟩)
      obtain ⟨items, htrace, hmem⟩ := hadds
      have hitems : items = .relayResult (pairKey ws.peerId x) ::
          (Ending.items s.connections n (.verdict .switchRelay) ++
            [.recv ws.peerId (.probeRelayResult x true) (some n.nid)]) := by
        refine List.append_cancel_right (htrace.symm.trans ?_)
        rw [step, relayResult_trace cfg ws now true hn htype hclient]
        simp
      rw [hitems] at hmem
      -- the verdict is one of the two messages that end the probe
      simp only [List.mem_cons, reduceCtorEq, List.mem_append, List.not_mem_nil, or_false,
        false_or] at hmem
      rcases List.mem_append.mp hmem with hB | hA
      · obtain ⟨_, hsent⟩ := mem_sentItems hB
        cases hsent
        exact hflag.symm
      · obtain ⟨_, hsent⟩ := mem_sentItems hA
        cases hsent
        exact hflag
    · refine absurd hadds ((relayResult_dropped cfg ws now true ?_).not_adds rfl)
      exact fun n hg hboth => hn ⟨n, hg, hboth⟩
  · refine absurd hadds ((noRelaySwitch_step cfg hi hids ?_).not_adds rfl)
    exact fun ws now x hx => he ⟨ws, now, x, hx⟩

/-- When relay is turned off during a relay probe, the result of the probe brings a verdict that
finds it off. -/
theorem switch_after_off (cfg : Config) (hi : TableInv s) {net : NetworkId}
    (hoff : ¬ KeepsFlag s (.api (.setRelayEnabled net false))) :
    ∃ ws now q, ¬ SwitchAllowed cfg (step cfg s (.api (.setRelayEnabled net false)))
      (.message ws now (.probeRelayResult q true)) := by
  obtain ⟨n, hmem, hA, hB⟩ : ∃ n ∈ s.relayProbes,
      s.db.inNetwork net n.peerA = true ∧ s.db.inNetwork net n.peerB = true := by
    by_contra hnone
    exact hoff fun _ n hn hin => hnone ⟨n, hn, hin⟩
  obtain ⟨k, hk, htype⟩ := mem_relayProbes.mp hmem
  have hkeyed := hi.keyed k n hk
  obtain ⟨hconnA, hconnB⟩ := hi.connected k n hk
  obtain ⟨client, server, hclient, hpair, hconn⟩ : ∃ client server, n.clientNode = some client ∧
      pairKey client server = k ∧ s.isConnected client = true := by
    rcases hkeyed.roles htype with ⟨-, hc⟩ | ⟨-, hc⟩
    · exact ⟨n.peerB, n.peerA, hc, by rw [pairKey_comm, hkeyed.pair], hconnB⟩
    · exact ⟨n.peerA, n.peerB, hc, hkeyed.pair, hconnA⟩
  obtain ⟨ws, hws⟩ := (OMap.has_iff s.connections client).mp hconn
  obtain ⟨rfl, -⟩ := hi.connIds client ws hws
  subst hpair
  refine ⟨ws, 0, server, fun hallowed => ?_⟩
  generalize hs1 : step cfg s (.api (.setRelayEnabled net false)) = s1 at hallowed
  have hn1 : s1.activeNegotiations.get? (pairKey ws.peerId server) = some n := by
    rw [← hs1]; exact hk
  have hdb1 : s1.db = s.db.setRelayEnabled net false := by rw [← hs1]; rfl
  have hconnA1 : isPeerConnected s1.connections n.peerA = true := by rw [← hs1]; exact hconnA
  -- the verdict to the first peer of the pair
  obtain ⟨w, hsent⟩ := sentItems_of_connected hconnA1 (some n.nid)
    (.probeVerdict n.peerB .switchRelay)
  have hadds : Adds s1 (step cfg s1 (.message ws 0 (.probeRelayResult server true)))
      (.sent n.peerA w (.probeVerdict n.peerB .switchRelay) (some n.nid)) := by
    refine ⟨.relayResult (pairKey ws.peerId server) ::
        (Ending.items s1.connections n (.verdict .switchRelay) ++
          [.recv ws.peerId (.probeRelayResult server true) (some n.nid)]), ?_, ?_⟩
    · rw [step, relayResult_trace cfg ws 0 true hn1 htype hclient]
      simp
    · simp [Ending.items, hsent]
  obtain ⟨row, hrow, hflag⟩ := hallowed _ _ _ _ hadds net (by rw [hdb1]; exact hA)
    (by rw [hdb1]; exact hB)
  rw [hdb1, Db.setRelayEnabled, OMap.get?_mapVals, Option.map_eq_some_iff] at hrow
  obtain ⟨old, -, rfl⟩ := hrow
  simp at hflag

end

/-! ## Top theorem -/

/-- **A disabled relay is not switched to**, in every run in which relay is not turned off in the
network of two peers during a relay probe of them; and such a request can be followed by a verdict
that finds it off. -/
theorem switched_only_while_enabled (cfg : Config) (db : Db) (es : List Event) (hids : IdsOk es)
    (hkeeps : Along (step cfg) KeepsFlag (ServerState.init db) es) :
    Along (step cfg) (SwitchAllowed cfg) (ServerState.init db) es ∧
    ∀ net, ¬ KeepsFlag (exec cfg db es) (.api (.setRelayEnabled net false)) →
      ∃ ws now q, ¬ Along (step cfg) (SwitchAllowed cfg) (ServerState.init db)
        (es ++ [.api (.setRelayEnabled net false), .message ws now (.probeRelayResult q true)]) := by
  have hstep : ∀ (s : ServerState) (e : Event), TableInv s ∧ FlagInv s →
      e.idsOk ∧ KeepsFlag s e → TableInv (step cfg s e) ∧ FlagInv (step cfg s e) :=
    fun s e h he => ⟨tableInv_step cfg h.1 he.1, flagInv_step cfg h.1 h.2 he.2⟩
  have hstart : TableInv (ServerState.init db) ∧ FlagInv (ServerState.init db) :=
    ⟨TableInv.init db, fun n hn => by cases hn⟩
  have hrun := along_and (step cfg) (along_idsOk hids) hkeeps
  refine ⟨?_, fun net hoff => ?_⟩
  · exact along_of_invariant (step cfg) hstep
      (fun s e h he => switchAllowed_step cfg h.1 h.2 he.1) hstart hrun
  · have hinv : TableInv (exec cfg db es) := tableInv_exec cfg db hids
    obtain ⟨ws, now, q, hnot⟩ := switch_after_off cfg hinv hoff
    refine ⟨ws, now, q, fun halong => hnot ?_⟩
    exact ((along_append (step cfg) _ _ _ _).mp halong).2.2.1

/-- Relay is off before a relay probe and after its verdict. -/
def toggledRun : List Event :=
  [.api (.setRelayEnabled [110] false), .api (.setRelayEnabled [110] true)] ++ relayProbeRun ++
    [.message wsOne 24500 (.probeRelayReady peerTwo [] 7000 []),
     .message wsTwo 25000 (.probeRelayResult peerOne true), .api (.setRelayEnabled [110] false)]

theorem switched_only_while_enabled_toggledRun :
    Along (step {}) (SwitchAllowed {}) (ServerState.init twoPeers) toggledRun :=
  (switched_only_while_enabled {} twoPeers toggledRun (by decide) (by decide)).1

/-- Relay is turned off while the client node of a relay probe tries the other one. -/
def disabledRun : List Event :=
  relayProbeRun ++ [.message wsOne 24500 (.probeRelayReady peerTwo [] 7000 []),
    .api (.setRelayEnabled [110] false)]

/-- A relay that was disabled during its probe is switched to. -/
theorem switched_to_disabled_relay : ¬ ∀ (cfg : Config) (db : Db) (es : List Event), IdsOk es →
    Along (step cfg) (SwitchAllowed cfg) (ServerState.init db) es := by
  intro h
  have halong := h {} twoPeers (disabledRun ++ [.message wsTwo 25000 (.probeRelayResult peerOne true)])
    (by decide)
  have hallowed := ((along_append (step {}) _ _ _ _).mp halong).2.1
  have hadds : Adds (exec {} twoPeers disabledRun)
      (step {} (exec {} twoPeers disabledRun) (.message wsTwo 25000 (.probeRelayResult peerOne true)))
      (.sent peerOne wsOne (.probeVerdict peerTwo .switchRelay) (some 1)) :=
    ⟨(step {} (exec {} twoPeers disabledRun)
      (.message wsTwo 25000 (.probeRelayResult peerOne true))).trace.take 4, by decide, by decide⟩
  obtain ⟨row, hrow, hflag⟩ := hallowed _ _ _ _ hadds [110] (by decide) (by decide)
  have hoff : (exec {} twoPeers disabledRun).db.networks.get? [110] = some { relayEnabled := 0 } := by
    decide
  obtain rfl := Option.some.inj (hrow.symm.trans hoff)
  exact hflag rfl

end Meshezia
