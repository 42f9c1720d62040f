import Meshezia.Server.Pairs

/-!
# The handlers of a pair are local and keep to renaming

`Twin` handler by handler: each lemma composes the lemmas of the operations in the
order of the source.  The state `t` holds the same for the pair as `s` up to `ρ`, so both
runs of a handler take the same branches.
-/

namespace Meshezia

open ServerState

section
variable {ρ : Nat → Nat} {a b : PeerId} {s t : ServerState}

/-! ## What the two states agree on -/

theorem Twin.isConnected (h : Twin ρ a b s t) (p : PeerId) : t.isConnected p = s.isConnected p :=
  isConnected_congr h.connections p

theorem Twin.lookupPeer (h : Twin ρ a b s t) (p : PeerId) : t.lookupPeer p = s.lookupPeer p := by
  unfold ServerState.lookupPeer
  rw [h.peers]

theorem Twin.relayEnabledFor (h : Twin ρ a b s t) (p : PeerId) :
    t.relayEnabledFor p = s.relayEnabledFor p := by
  unfold ServerState.relayEnabledFor
  rw [h.lookupPeer p]
  unfold isRelayEnabledForNetwork
  rw [h.networks]

theorem linksBetween_eq (db : Db) (a b : PeerId) :
    db.linksBetween a b = (db.pairLinks a b).map Prod.snd := by
  simp [Db.linksBetween, Db.pairLinks, isPair]

theorem Twin.getForcedModeFromDb (h : Twin ρ a b s t) (cfg : Config) :
    ServerState.getForcedModeFromDb cfg t a b = ServerState.getForcedModeFromDb cfg s a b := by
  unfold ServerState.getForcedModeFromDb
  rw [linksBetween_eq, linksBetween_eq, h.links]

theorem Twin.has (h : Twin ρ a b s t) :
    t.activeNegotiations.has (pairKey a b) = s.activeNegotiations.has (pairKey a b) := by
  unfold OMap.has
  rw [h.active, Option.isSome_map]

theorem free_of_connected (hc : ConnIds s.connections) {p : PeerId}
    (hp : s.isConnected p = true) : ColonFree p := by
  obtain ⟨ws, hws⟩ := (OMap.has_iff _ _).mp hp
  exact (hc p ws hws).2

/-- A relay probe starts between connected peers. -/
theorem connected_of_start {cfg : Config} {key : PairKey} {health : PairHealth}
    (h : (ServerState.shouldInitiateRelayProbe cfg s a b key health).1 = true) :
    s.isConnected a = true ∧ s.isConnected b = true := by
  unfold ServerState.shouldInitiateRelayProbe at h
  split at h
  · cases h
  · simp only at h
    split at h
    · split at h <;> cases h
    · split at h
      · cases h
      · rename_i hconn
        simpa using hconn

/-! ## Verdicts and probes -/

theorem Twin.sendVerdict (h : Twin ρ a b s t) {n : NegotiationState} (hn : n.Within a b)
    (action : VerdictAction) :
    TwinStep ρ a b s t (s.sendVerdict n action) (t.sendVerdict (n.rename ρ) action) := by
  have h1 := h.sendMsg (some n.nid) hn.peerA (.probeVerdict n.peerB action)
  exact h1.trans (h1.twin.sendMsg (some n.nid) hn.peerB (.probeVerdict n.peerA action))

/-- The two parts of the key are the two peers. -/
def KeyParts (a b : PeerId) : Prop :=
  ((parsePairKey (pairKey a b)).1 = a ∨ (parsePairKey (pairKey a b)).1 = b) ∧
    ((parsePairKey (pairKey a b)).2 = a ∨ (parsePairKey (pairKey a b)).2 = b)

theorem keyParts (ha : ColonFree a) (hb : ColonFree b) : KeyParts a b := by
  unfold KeyParts
  rcases parsePairKey_pairKey ha hb with h | h <;> simp [h]

/-- The identity of the record is not read. -/
theorem initiateRelayProbe_rename (ρ : Nat → Nat) (t : ServerState) (key : PairKey)
    (health : PairHealth) (now : Int) :
    t.initiateRelayProbe key (health.rename ρ) now = t.initiateRelayProbe key health now := rfl

theorem Twin.initiateRelayProbe (h : Twin ρ a b s t) (hρ : Function.Injective ρ)
    (hparts : KeyParts a b) (health : PairHealth) (now : Int) :
    TwinStep ρ a b s t (s.initiateRelayProbe (pairKey a b) health now)
      (t.initiateRelayProbe (pairKey a b) (health.rename ρ) now) := by
  obtain ⟨hA, hB⟩ := hparts
  have href : ρ s.nextRef = t.nextRef := h.ref 0
  rw [initiateRelayProbe_rename]
  unfold ServerState.initiateRelayProbe
  cases hparse : parsePairKey (pairKey a b) with
  | mk peerA peerB =>
    rw [hparse] at hA hB
    simp only
    generalize hserver : (if health.streakAB ≥ health.streakBA then peerA else peerB) = serverNode
    generalize hclient : (if serverNode = peerA then peerB else peerA) = clientNode
    have hs : serverNode = a ∨ serverNode = b := by
      rw [← hserver]
      split
      · exact hA
      · exact hB
    have hc : clientNode = a ∨ clientNode = b := by
      rw [← hclient]
      split
      · exact hB
      · exact hA
    let n : NegotiationState :=
      { nid := s.nextRef, type := .relayProbe, pairKey := pairKey a b, peerA, peerB,
        startedAt := now, serverNode := some serverNode, clientNode := some clientNode }
    have hn : n.Within a b := ⟨hA, hB, fun _ => ⟨clientNode, rfl, hc⟩⟩
    have h1 := h.enter hn rfl now health.directProbeBackoff
    have h2 := h1.twin.armTimeout hρ hn (.relayProbeTimeout (pairKey a b)) rfl
      RELAY_PROBE_TIMEOUT_MS
    have h3 := h1.trans (h2.trans (h2.twin.sendMsg (some n.nid) hs (.probeRelayServe clientNode)))
    simpa only [n, NegotiationState.rename, Option.map_none, Option.map_some, href,
      TimerCallback.rename] using h3

/-! ## Health reports -/

/-- From the answer of `shouldInitiateRelayProbe` on, the two runs go on alike. -/
theorem Twin.shouldInitiateRelayProbe (h : Twin ρ a b s t) (cfg : Config) {health : PairHealth}
    (hg : s.pairHealthMap.get? (pairKey a b) = some health) :
    (ServerState.shouldInitiateRelayProbe cfg t a b (pairKey a b) (health.rename ρ)).1 =
        (ServerState.shouldInitiateRelayProbe cfg s a b (pairKey a b) health).1 ∧
      TwinStep ρ a b s t
        (ServerState.shouldInitiateRelayProbe cfg s a b (pairKey a b) health).2
        (ServerState.shouldInitiateRelayProbe cfg t a b (pairKey a b) (health.rename ρ)).2 := by
  unfold ServerState.shouldInitiateRelayProbe
  rw [h.has, h.getForcedModeFromDb cfg, h.isConnected, h.isConnected, h.relayEnabledFor]
  have hforced : (health.rename ρ).forcedMode = health.forcedMode := rfl
  rw [hforced]
  cases s.activeNegotiations.has (pairKey a b) with
  | true => exact ⟨rfl, h.refl⟩
  | false =>
    simp only [Bool.false_eq_true, if_false]
    split
    · rename_i m _
      split
      · exact ⟨rfl, h.putHealth hg _ rfl⟩
      · exact ⟨rfl, h.refl⟩
    · split
      · exact ⟨rfl, h.refl⟩
      · split
        · exact ⟨rfl, h.refl⟩
        · exact ⟨rfl, h.refl⟩

theorem Twin.checkStreaks (h : Twin ρ a b s t) (hρ : Function.Injective ρ)
    (hc : ConnIds s.connections) (cfg : Config) {health : PairHealth}
    (hg : s.pairHealthMap.get? (pairKey a b) = some health) (now : Int) :
    TwinStep ρ a b s t (s.checkStreaks cfg a b (pairKey a b) health now)
      (t.checkStreaks cfg a b (pairKey a b) (health.rename ρ) now) := by
  obtain ⟨hsame, hstep⟩ := h.shouldInitiateRelayProbe cfg hg
  unfold ServerState.checkStreaks
  have hAB : (health.rename ρ).streakAB = health.streakAB := rfl
  have hBA : (health.rename ρ).streakBA = health.streakBA := rfl
  rw [hAB, hBA]
  split
  · cases hstart : (ServerState.shouldInitiateRelayProbe cfg s a b (pairKey a b) health).1 with
    | false =>
      rw [hstart] at hsame
      simp only [hsame, hstart, Bool.false_eq_true, if_false]
      exact hstep
    | true =>
      rw [hstart] at hsame
      simp only [hsame, hstart, if_true]
      obtain ⟨ha, hb⟩ := connected_of_start hstart
      exact hstep.trans (hstep.twin.initiateRelayProbe hρ
        (keyParts (free_of_connected hc ha) (free_of_connected hc hb)) health now)
  · exact h.refl

theorem recordJoin_rename (ρ : Nat → Nat) (h : PairHealth) (isFromA : Bool) (now : Int) :
    recordJoin (h.rename ρ) isFromA now = (recordJoin h isFromA now).rename ρ := by
  cases h with
  | mk hid streakAB streakBA probeAt backoff forced joinedAtA joinedAtB =>
    cases isFromA <;> cases joinedAtA <;> cases joinedAtB <;> rfl

theorem updateStreak_rename (ρ : Nat → Nat) (h : PairHealth) (isFromA rxAlive : Bool) :
    updateStreak (h.rename ρ) isFromA rxAlive = (updateStreak h isFromA rxAlive).rename ρ := by
  cases isFromA <;> cases rxAlive <;> rfl

theorem Twin.handleReportEntry (h : Twin ρ a b s t) (hρ : Function.Injective ρ)
    (hc : ConnIds s.connections) (cfg : Config) (now : Int) {report : HealthReport}
    (hpeer : report.peerId = b) :
    TwinStep ρ a b s t (handleReportEntry cfg a now s report)
      (handleReportEntry cfg a now t report) := by
  obtain ⟨hcreate, hsame, hget⟩ := h.getOrCreateHealth cfg
  unfold ServerState.handleReportEntry
  simp only [hpeer]
  generalize ServerState.getOrCreateHealth cfg s (pairKey a b) = created at hcreate hsame hget ⊢
  generalize ServerState.getOrCreateHealth cfg t (pairKey a b) = created' at hcreate hsame ⊢
  obtain ⟨health, s1⟩ := created
  obtain ⟨health', t1⟩ := created'
  simp only at hcreate hsame hget ⊢
  subst hsame
  generalize hfrom : decide (a = (parsePairKey (pairKey a b)).1) = isFromA
  rw [recordJoin_rename]
  have hjoinHid := (recordJoin_hid health isFromA now).1
  generalize recordJoin health isFromA now = joined at hjoinHid ⊢
  have hnote := hcreate.trans (hcreate.twin.note (.entry a b now report.mode report.rxAlive) rfl)
  have hjoin := hnote.trans (hnote.twin.putHealth hget _ hjoinHid)
  have hgrace : inGracePeriod cfg (joined.rename ρ) isFromA now =
      inGracePeriod cfg joined isFromA now := rfl
  rw [hgrace]
  split
  · exact hjoin
  · split
    · exact hjoin
    · rw [updateStreak_rename]
      have hstreak := hjoin.trans (hjoin.twin.putHealth (OMap.get?_set_self ..) _
        (updateStreak_hid joined isFromA report.rxAlive))
      have hc' : ConnIds (((s1.note (.entry a b now report.mode report.rxAlive)).putHealth
          (pairKey a b) joined).putHealth (pairKey a b)
            (updateStreak joined isFromA report.rxAlive)).connections := by
        rw [hstreak.apart.connections]
        exact hc
      exact hstreak.trans (hstreak.twin.checkStreaks hρ hc' cfg (OMap.get?_set_self ..) now)

theorem isPair_self (a b : PeerId) : isPair a b (a, b) = true := by simp [isPair]

/-- A write to the link rows of the pair. -/
theorem Twin.setLinks (h : Twin ρ a b s t) {db db' : Db} (hnet : db.networks = s.db.networks)
    (hpeers : db.peers = s.db.peers) (hports : db.peerPorts = s.db.peerPorts)
    (hother : db.otherLinks a b = s.db.otherLinks a b) (hnet' : db'.networks = t.db.networks)
    (hpeers' : db'.peers = t.db.peers) (hlinks : db'.pairLinks a b = db.pairLinks a b) :
    TwinStep ρ a b s t { s with db := db } { t with db := db' } where
  apart := { Apart.refl a b s with
    networks := hnet, peers := hpeers, ports := hports, links := hother }
  twin := ⟨⟨h.parties, h.own, h.fresh⟩, h.ref, h.health, h.active, h.timers, h.connections,
    hnet'.trans (h.networks.trans hnet.symm), hpeers'.trans (h.peers.trans hpeers.symm), hlinks⟩
  trace := ⟨[], by simp⟩

/-- The row of one direction is upserted. -/
theorem Twin.upsertReport (h : Twin ρ a b s t) {report : HealthReport} (hpeer : report.peerId = b)
    (now : Int) :
    TwinStep ρ a b s t { s with db := upsertReports s.db a [report] now }
      { t with db := upsertReports t.db a [report] now } := by
  have hget : t.db.peerLinks.get? (a, b) = s.db.peerLinks.get? (a, b) := by
    have hassoc := congrArg (OMap.assoc · (a, b)) h.links
    simp only [Db.pairLinks, OMap.assoc_filter_of _ _ (isPair_self a b)] at hassoc
    exact hassoc
  simp only [upsertReports, List.foldlM_cons, List.foldlM_nil, bind_pure, Db.upsertLink, hpeer,
    h.peers, hget]
  split
  · simp only [Option.getD_some]
    refine h.setLinks rfl rfl rfl ?_ rfl h.peers.symm ?_
    · exact OMap.filter_assocSet_of_not _ (fun k => !isPair a b k) (by simp [isPair_self]) _
    · simp only [Db.pairLinks, OMap.set]
      rw [OMap.filter_assocSet_of _ _ (isPair_self a b), OMap.filter_assocSet_of _ _ (isPair_self a b)]
      exact congrArg (OMap.assocSet · _ _) h.links
  · exact h.refl

theorem Twin.handleHealthReport (h : Twin ρ a b s t) (hρ : Function.Injective ρ)
    (hc : ConnIds s.connections) (cfg : Config) {report : HealthReport} (hpeer : report.peerId = b)
    (now : Int) :
    TwinStep ρ a b s t (s.handleHealthReport cfg a [report] now)
      (t.handleHealthReport cfg a [report] now) := by
  have hupsert := h.upsertReport hpeer now
  exact hupsert.trans (hupsert.twin.handleReportEntry hρ hc cfg now hpeer)

/-! ## Probe messages -/

theorem keepsHid_backOff (ρ : Nat → Nat) : KeepsHid ρ PairHealth.backOff := fun _ => ⟨rfl, rfl⟩

theorem Twin.active_none (h : Twin ρ a b s t)
    (hg : s.activeNegotiations.get? (pairKey a b) = none) :
    t.activeNegotiations.get? (pairKey a b) = none := by
  rw [h.active, hg, Option.map_none]

theorem Twin.active_some (h : Twin ρ a b s t) {n : NegotiationState}
    (hg : s.activeNegotiations.get? (pairKey a b) = some n) :
    t.activeNegotiations.get? (pairKey a b) = some (n.rename ρ) := by
  rw [h.active, hg, Option.map_some]

theorem Twin.handleProbeRelayReady (h : Twin ρ a b s t) (hρ : Function.Injective ρ)
    (meshIpv4 : JsString) (tcpPort : Int) (nonce : JsString) :
    TwinStep ρ a b s t (s.handleProbeRelayReady a b meshIpv4 tcpPort nonce)
      (t.handleProbeRelayReady a b meshIpv4 tcpPort nonce) := by
  unfold ServerState.handleProbeRelayReady
  cases hg : s.activeNegotiations.get? (pairKey a b) with
  | none =>
    simp only [hg, h.active_none hg]
    exact h.refl
  | some n =>
    have htype : (n.rename ρ).type = n.type := rfl
    have hserver : (n.rename ρ).serverNode = n.serverNode := rfl
    have hclient : (n.rename ρ).clientNode = n.clientNode := rfl
    simp only [hg, h.active_some hg, htype, hserver, hclient, h.lookupPeer]
    split
    · exact h.refl
    · rename_i hrelay
      obtain ⟨client, hc, hmem⟩ := (h.parties n hg).client (by simpa using hrelay)
      split
      · exact h.refl
      · simp only [hc, Option.getD_some]
        split
        · exact h.sendMsg (some n.nid) hmem _
        · exact h.abortNegotiation hρ .timeout

theorem Twin.handleProbeRelayResult (h : Twin ρ a b s t) (hρ : Function.Injective ρ)
    (success : Bool) :
    TwinStep ρ a b s t (s.handleProbeRelayResult a b success)
      (t.handleProbeRelayResult a b success) := by
  unfold ServerState.handleProbeRelayResult
  cases hg : s.activeNegotiations.get? (pairKey a b) with
  | none =>
    simp only [hg, h.active_none hg]
    exact h.refl
  | some n =>
    have htype : (n.rename ρ).type = n.type := rfl
    have hclient : (n.rename ρ).clientNode = n.clientNode := rfl
    simp only [hg, h.active_some hg, htype, hclient]
    split
    · exact h.refl
    · split
      · exact h.refl
      · have h1 := h.sendVerdict (h.parties n hg) (if success then .switchRelay else .stay)
        have h2 := h1.trans (h1.twin.finishNegotiation hρ)
        have h3 := h2.trans (h2.twin.note (.relayResult (pairKey a b)) rfl)
        exact h3.trans (h3.twin.updateHealth fun _ => ⟨rfl, rfl⟩)

/-- Both sides are ready: `n` has been stored in the table already. -/
theorem Twin.sendDirectGo (h : Twin ρ a b s t) (hρ : Function.Injective ρ) {n : NegotiationState}
    (hg : s.activeNegotiations.get? (pairKey a b) = some n) (readyA readyB : DirectReady) :
    TwinStep ρ a b s t (s.sendDirectGo (pairKey a b) n readyA readyB)
      (t.sendDirectGo (pairKey a b) (n.rename ρ) readyA readyB) := by
  have hwithin := h.parties n hg
  have hclear := h.clearTimeout hρ hg (rfl : n.timeoutId = n.timeoutId)
  unfold ServerState.sendDirectGo
  simp only
  have hA : (n.rename ρ).peerA = n.peerA := rfl
  have hB : (n.rename ρ).peerB = n.peerB := rfl
  rw [hA, hB, hclear.twin.lookupPeer, hclear.twin.lookupPeer]
  split
  · rename_i infoA infoB _ _
    have h1 := hclear.trans (hclear.twin.sendMsg (some n.nid) hwithin.peerA
      (.probeDirectGo n.peerB infoB.publicIp readyB.udpPort readyB.nonce))
    have h2 := h1.trans (h1.twin.sendMsg (some n.nid) hwithin.peerB
      (.probeDirectGo n.peerA infoA.publicIp readyA.udpPort readyA.nonce))
    exact h2.trans (h2.twin.armTimeout hρ hwithin
      (.directResultTimeout (pairKey a b) n.peerA n.peerB) rfl _)
  · exact hclear.trans (hclear.twin.abortNegotiation hρ .timeout)

theorem store_rename (ρ : Nat → Nat) (n : NegotiationState) (isA : Bool) (msg : AgentMsg) :
    (n.rename ρ).store isA msg = (n.store isA msg).rename ρ := by
  cases msg <;> cases isA <;> rfl

/-- What a ready or a result is stored as. -/
theorem Twin.store (h : Twin ρ a b s t) {n : NegotiationState}
    (hg : s.activeNegotiations.get? (pairKey a b) = some n) (isA : Bool) (msg : AgentMsg) :
    TwinStep ρ a b s t
      { s with activeNegotiations := s.activeNegotiations.set (pairKey a b) (n.store isA msg) }
      { t with activeNegotiations :=
          t.activeNegotiations.set (pairKey a b) ((n.store isA msg).rename ρ) } := by
  have hwithin := h.parties n hg
  refine h.setNeg hg (by simp) ⟨?_, ?_, ?_⟩
  · simpa using hwithin.peerA
  · simpa using hwithin.peerB
  · simpa using hwithin.client

theorem Twin.handleProbeDirectReady (h : Twin ρ a b s t) (hρ : Function.Injective ρ)
    (udpPort : Int) (nonce : JsString) :
    TwinStep ρ a b s t (s.handleProbeDirectReady a b udpPort nonce)
      (t.handleProbeDirectReady a b udpPort nonce) := by
  unfold ServerState.handleProbeDirectReady
  cases hg : s.activeNegotiations.get? (pairKey a b) with
  | none =>
    simp only [hg, h.active_none hg]
    exact h.refl
  | some n =>
    have hstore : ∀ m : NegotiationState, (if a = (parsePairKey (pairKey a b)).1 then
          { m with readyA := some { udpPort, nonce } }
        else { m with readyB := some { udpPort, nonce } }) =
        m.store (isSideA a (pairKey a b)) (.probeDirectReady b udpPort nonce) := by
      intro m
      simp [NegotiationState.store, isSideA]
    have htype : (n.rename ρ).type = n.type := rfl
    simp only [hg, h.active_some hg, hstore, store_rename]
    rw [htype]
    split
    · exact h.refl
    · have hset := h.store hg (isSideA a (pairKey a b)) (.probeDirectReady b udpPort nonce)
      generalize n.store (isSideA a (pairKey a b)) (.probeDirectReady b udpPort nonce) = new at hset ⊢
      have hA : (new.rename ρ).readyA = new.readyA := rfl
      have hB : (new.rename ρ).readyB = new.readyB := rfl
      rw [hA, hB]
      split
      · exact hset.trans (hset.twin.sendDirectGo hρ (OMap.get?_set_self ..) _ _)
      · exact hset

theorem Twin.handleProbeDirectResult (h : Twin ρ a b s t) (hρ : Function.Injective ρ)
    (cfg : Config) (success : Bool) :
    TwinStep ρ a b s t (s.handleProbeDirectResult cfg a b success)
      (t.handleProbeDirectResult cfg a b success) := by
  unfold ServerState.handleProbeDirectResult
  cases hg : s.activeNegotiations.get? (pairKey a b) with
  | none =>
    simp only [hg, h.active_none hg]
    exact h.refl
  | some n =>
    have hstore : ∀ m : NegotiationState, (if a = (parsePairKey (pairKey a b)).1 then
          { m with resultA := some success } else { m with resultB := some success }) =
        m.store (isSideA a (pairKey a b)) (.probeDirectResult b success) := by
      intro m
      simp [NegotiationState.store, isSideA]
    have htype : (n.rename ρ).type = n.type := rfl
    simp only [hg, h.active_some hg, hstore, store_rename]
    rw [htype]
    split
    · exact h.refl
    · have hset := h.store hg (isSideA a (pairKey a b)) (.probeDirectResult b success)
      generalize n.store (isSideA a (pairKey a b)) (.probeDirectResult b success) = new at hset ⊢
      have hA : (new.rename ρ).resultA = new.resultA := rfl
      have hB : (new.rename ρ).resultB = new.resultB := rfl
      rw [hA, hB]
      split
      · rename_i resultA resultB _ _
        have hverdict := hset.trans (hset.twin.sendVerdict
          (hset.twin.parties new (OMap.get?_set_self ..))
          (if resultA && resultB then .switchDirect else .stay))
        have hfinish := hverdict.trans (hverdict.twin.finishNegotiation hρ)
        refine hfinish.trans (hfinish.twin.updateHealth fun g => ?_)
        cases resultA && resultB <;> exact ⟨rfl, rfl⟩
      · exact hset

theorem Twin.handleProbeError (h : Twin ρ a b s t) (hρ : Function.Injective ρ) :
    TwinStep ρ a b s t (s.handleProbeError a b) (t.handleProbeError a b) := by
  unfold ServerState.handleProbeError
  cases hg : s.activeNegotiations.get? (pairKey a b) with
  | none =>
    simp only [hg, h.active_none hg]
    exact h.refl
  | some n =>
    have htype : (n.rename ρ).type = n.type := rfl
    simp only [hg, h.active_some hg, htype]
    split
    · have hback := h.updateHealth (keepsHid_backOff ρ)
      exact hback.trans (hback.twin.abortNegotiation hρ .timeout)
    · exact h.abortNegotiation hρ .timeout

/-! ## Force mode -/

theorem Twin.abortForForce (h : Twin ρ a b s t) (hρ : Function.Injective ρ) :
    TwinStep ρ a b s t (s.abortForForce (pairKey a b)) (t.abortForForce (pairKey a b)) := by
  unfold ServerState.abortForForce
  cases hg : s.activeNegotiations.get? (pairKey a b) with
  | none =>
    simp only [h.active_none hg]
    exact h.refl
  | some n =>
    have hwithin := h.parties n hg
    simp only [h.active_some hg]
    have h1 := h.sendMsg (some n.nid) hwithin.peerA (.negotiateAbort n.peerB .adminForce)
    have h2 := h1.trans (h1.twin.sendMsg (some n.nid) hwithin.peerB (.negotiateAbort n.peerA .adminForce))
    exact h2.trans (h2.twin.finishNegotiation hρ)

theorem Twin.setForcedMode (h : Twin ρ a b s t) (mode : Option ForcedMode) :
    TwinStep ρ a b s t { s with db := s.db.setForcedMode a b mode }
      { t with db := t.db.setForcedMode a b mode } := by
  refine h.setLinks rfl rfl rfl ?_ rfl rfl ?_
  · -- the rows of other pairs are mapped to themselves
    unfold Db.otherLinks Db.setForcedMode OMap.mapVals
    rw [List.filter_map]
    refine (List.map_congr_left fun e he => ?_).trans (List.map_id _)
    have hnot : ¬ (e.1 = (a, b) ∨ e.1 = (b, a)) := by
      simpa [isPair] using (List.mem_filter.mp he).2
    simp only [if_neg hnot, id]
  · unfold Db.pairLinks Db.setForcedMode OMap.mapVals
    rw [List.filter_map, List.filter_map]
    exact congrArg (List.map _) h.links

theorem forceHealth_rename (ρ : Nat → Nat) (cfg : Config) (h : PairHealth) (mode : ForceCommand) :
    forceHealth cfg (h.rename ρ) mode = (forceHealth cfg h mode).rename ρ := by
  cases mode <;> rfl

theorem forceHealth_hid (cfg : Config) (h : PairHealth) (mode : ForceCommand) :
    (forceHealth cfg h mode).hid = h.hid := by
  cases mode <;> rfl

theorem Twin.handleForceMode (h : Twin ρ a b s t) (hρ : Function.Injective ρ) (cfg : Config)
    (mode : ForceCommand) :
    TwinStep ρ a b s t (s.handleForceMode cfg a b mode) (t.handleForceMode cfg a b mode) := by
  have habort := h.abortForForce hρ
  obtain ⟨hcreate, hsame, hget⟩ := habort.twin.getOrCreateHealth cfg
  unfold ServerState.handleForceMode
  simp only
  generalize ServerState.getOrCreateHealth cfg (s.abortForForce (pairKey a b)) (pairKey a b) =
    created at hcreate hsame hget ⊢
  generalize ServerState.getOrCreateHealth cfg (t.abortForForce (pairKey a b)) (pairKey a b) =
    created' at hcreate hsame ⊢
  obtain ⟨health, s1⟩ := created
  obtain ⟨health', t1⟩ := created'
  simp only at hcreate hsame hget ⊢
  subst hsame
  rw [forceHealth_rename]
  have h1 := habort.trans hcreate
  have h2 := h1.trans (h1.twin.setForcedMode mode.column)
  have h3 := h2.trans (h2.twin.putHealth hget _ (forceHealth_hid cfg health mode))
  have h4 := h3.trans (h3.twin.note (.forced (pairKey a b) mode) rfl)
  have h5 := h4.trans (h4.twin.sendMsg none (Or.inl rfl) (.forceMode b mode))
  exact h5.trans (h5.twin.sendMsg none (Or.inr rfl) (.forceMode a mode))

theorem Twin.postForceMode (h : Twin ρ a b s t) (hρ : Function.Injective ρ) (cfg : Config)
    (mode : ForceCommand) :
    TwinStep ρ a b s t (s.postForceMode cfg a b mode) (t.postForceMode cfg a b mode) := by
  have hnet : t.db.sameNetwork a b = s.db.sameNetwork a b := by
    unfold Db.sameNetwork
    rw [h.peers]
  rw [postForceMode_eq, postForceMode_eq, hnet]
  split
  · exact h.handleForceMode hρ cfg mode
  · exact h.refl

/-! ## Timers -/

/-- The peers and the record a callback names are the pair's. -/
def TimerCallback.Within (a b : PeerId) : TimerCallback → Prop
  | .relayProbeTimeout _ => True
  | .directReadyTimeout _ x y ref =>
    (x = a ∨ x = b) ∧ (y = a ∨ y = b) ∧ ref.key = pairKey a b
  | .directResultTimeout _ x y => (x = a ∨ x = b) ∧ (y = a ∨ y = b)

theorem Twin.runCallback (h : Twin ρ a b s t) (hρ : Function.Injective ρ) (owner : Nat)
    {callback : TimerCallback} (hkey : callback.key = pairKey a b) (hwithin : callback.Within a b) :
    TwinStep ρ a b s t (s.runCallback owner callback)
      (t.runCallback (ρ owner) (callback.rename ρ)) := by
  cases callback with
  | relayProbeTimeout key =>
    cases hkey
    exact h.abortNegotiation hρ .timeout
  | directReadyTimeout key x y ref =>
    obtain ⟨refKey, hid⟩ := ref
    obtain ⟨hx, hy, hrefKey⟩ := hwithin
    cases hkey
    cases hrefKey
    have h1 := h.sendIfConnected (some owner) hx (.probeVerdict y .stay)
    have h2 := h1.trans (h1.twin.sendIfConnected (some owner) hy (.probeVerdict x .stay))
    have h3 := h2.trans (h2.twin.finishNegotiation hρ)
    exact h3.trans (h3.twin.updateHealthRef hρ hid (keepsHid_backOff ρ))
  | directResultTimeout key x y =>
    obtain ⟨hx, hy⟩ := hwithin
    cases hkey
    have h1 := h.sendMsg (some owner) hx (.probeVerdict y .stay)
    have h2 := h1.trans (h1.twin.sendMsg (some owner) hy (.probeVerdict x .stay))
    have h3 := h2.trans (h2.twin.finishNegotiation hρ)
    exact h3.trans (h3.twin.updateHealth (keepsHid_backOff ρ))

/-- The timer of the pair fires, under its name in each of the two runs. -/
theorem Twin.fireTimer (h : Twin ρ a b s t) (hρ : Function.Injective ρ) {id : Nat} {tm : Timer}
    (hid : s.timers.get? id = some tm) (hkey : tm.callback.key = pairKey a b)
    (hwithin : tm.callback.Within a b) :
    TwinStep ρ a b s t (s.fireTimer id) (t.fireTimer (ρ id)) := by
  have htimer := h.timers id
  rw [timerOf, timerOf, hid, Option.filter_some, if_pos (by simpa using hkey), Option.map_some,
    Option.filter_eq_some_iff] at htimer
  unfold ServerState.fireTimer
  simp only [hid, htimer.1]
  have hdelete := h.deleteTimer hρ id fun tm' htm' => by
    rw [hid] at htm'
    cases htm'
    exact hkey
  exact hdelete.trans (hdelete.twin.runCallback hρ tm.owner hkey hwithin)

/-! ## Messages and direct probes -/

/-- A message of `a` about `b`. -/
theorem Twin.handleMessage (h : Twin ρ a b s t) (hρ : Function.Injective ρ) (cfg : Config)
    {ws : Ws} (hws : ws.peerId = a) (now : Int) {msg : AgentMsg} (hmsg : msg.peer? = some b) :
    TwinStep ρ a b s t (s.handleMessage cfg ws now msg) (t.handleMessage cfg ws now msg) := by
  have hmet : t.negotiationMet a msg = (s.negotiationMet a msg).map ρ := by
    rw [negotiationMet_eq hmsg, negotiationMet_eq hmsg, h.active]
    cases s.activeNegotiations.get? (pairKey a b) <;> rfl
  have hnote : TwinStep ρ a b s t (s.note (.recv a msg (s.negotiationMet a msg)))
      (t.note (.recv a msg (t.negotiationMet a msg))) := by
    rw [hmet]
    exact h.note _ rfl
  unfold ServerState.handleMessage
  simp only [hmsg, hws]
  refine hnote.trans ?_
  unfold handleNegotiateMessage
  cases msg with
  | healthReport reports => cases hmsg
  | probeRelayReady peer meshIpv4 tcpPort nonce =>
    cases hmsg
    exact hnote.twin.handleProbeRelayReady hρ meshIpv4 tcpPort nonce
  | probeRelayResult peer success =>
    cases hmsg
    exact hnote.twin.handleProbeRelayResult hρ success
  | probeDirectReady peer udpPort nonce =>
    cases hmsg
    exact hnote.twin.handleProbeDirectReady hρ udpPort nonce
  | probeDirectResult peer success =>
    cases hmsg
    exact hnote.twin.handleProbeDirectResult hρ cfg success
  | probeError peer error =>
    cases hmsg
    exact hnote.twin.handleProbeError hρ

theorem Twin.initiateDirectProbe (h : Twin ρ a b s t) (hρ : Function.Injective ρ)
    (hparts : KeyParts a b) {health : PairHealth}
    (hg : s.pairHealthMap.get? (pairKey a b) = some health) (now : Int) :
    TwinStep ρ a b s t (s.initiateDirectProbe (pairKey a b) health now)
      (t.initiateDirectProbe (pairKey a b) (health.rename ρ) now) := by
  obtain ⟨hA, hB⟩ := hparts
  have href : ρ s.nextRef = t.nextRef := h.ref 0
  have hput := h.putHealth hg { health with lastDirectProbeAt := now } rfl
  unfold ServerState.initiateDirectProbe
  cases hparse : parsePairKey (pairKey a b) with
  | mk peerA peerB =>
    rw [hparse] at hA hB
    simp only
    let n : NegotiationState :=
      { nid := s.nextRef, type := .directProbe, pairKey := pairKey a b, peerA, peerB,
        startedAt := now }
    have hn : n.Within a b := ⟨hA, hB, fun htype => by cases htype⟩
    have h1 := hput.trans (hput.twin.enter hn rfl now health.directProbeBackoff)
    have h2 := h1.trans (h1.twin.armTimeout hρ hn
      (.directReadyTimeout (pairKey a b) peerA peerB ⟨pairKey a b, health.hid⟩) rfl
      DIRECT_READY_TIMEOUT_MS)
    have h3 := h2.trans (h2.twin.sendMsg (some n.nid) hA (.probeDirectStart peerB))
    have h4 := h3.trans (h3.twin.sendMsg (some n.nid) hB (.probeDirectStart peerA))
    simpa only [n, NegotiationState.rename, Option.map_none, Option.map_some, href,
      TimerCallback.rename, HealthRef.rename, PairHealth.rename, ServerState.putHealth] using h4

theorem Twin.checkDirectProbe (h : Twin ρ a b s t) (hρ : Function.Injective ρ)
    (hc : ConnIds s.connections) (now : Int) :
    TwinStep ρ a b s t (checkDirectProbe now s (a, b)) (checkDirectProbe now t (a, b)) := by
  unfold ServerState.checkDirectProbe
  cases hg : s.pairHealthMap.get? (pairKey a b) with
  | none =>
    have hg' : t.pairHealthMap.get? (pairKey a b) = none := by rw [h.health, hg, Option.map_none]
    simp only [hg, hg']
    exact h.refl
  | some health =>
    have hg' : t.pairHealthMap.get? (pairKey a b) = some (health.rename ρ) := by
      rw [h.health, hg, Option.map_some]
    have hprobe : (health.rename ρ).lastDirectProbeAt = health.lastDirectProbeAt := rfl
    have hback : (health.rename ρ).directProbeBackoff = health.directProbeBackoff := rfl
    simp only [hg, hg', h.has, h.isConnected, h.relayEnabledFor, hprobe, hback]
    split
    · exact h.refl
    · split
      · exact h.refl
      · rename_i hconn
        split
        · exact h.refl
        · split
          · exact h.refl
          · simp only [Bool.or_eq_true, Bool.not_eq_true', not_or, Bool.not_eq_false] at hconn
            exact h.initiateDirectProbe hρ (keyParts (free_of_connected hc hconn.1)
              (free_of_connected hc hconn.2)) hg now

end

end Meshezia
