import Mathlib.Logic.Relation
import Meshezia.Server.Step

/-!
# What a step can do to the health records

The records of the server are its health records, its database and the part of the
history that is not about messages (`log`).  Sending, arming timers and ending
negotiations leave them alone (the `simp` lemmas); an event changes them by the steps
of `RecordStep` (`recordSteps_of_step`).
-/

namespace Meshezia

open ServerState Relation

/-- Not a message received or sent. -/
def TraceItem.isLog : TraceItem → Bool
  | .recv _ _ _ => false
  | .sent _ _ _ _ => false
  | _ => true

structure Records where
  health : OMap PairKey PairHealth
  db : Db
  log : List TraceItem

namespace ServerState

def log (s : ServerState) : List TraceItem := s.trace.filter TraceItem.isLog

def records (s : ServerState) : Records := ⟨s.pairHealthMap, s.db, s.log⟩

variable (s : ServerState)

/-! ## What leaves the records alone -/

@[simp] theorem records_sendMsg (neg : Option Nat) (p : PeerId) (msg : ServerMsg) :
    (s.sendMsg neg p msg).records = s.records := by
  unfold sendMsg
  split <;> rfl

@[simp] theorem records_sendIfConnected (neg : Option Nat) (p : PeerId) (msg : ServerMsg) :
    (s.sendIfConnected neg p msg).records = s.records := by
  unfold sendIfConnected
  split
  · exact s.records_sendMsg neg p msg
  · rfl

@[simp] theorem records_recv (p : PeerId) (msg : AgentMsg) (neg : Option Nat) :
    (s.note (.recv p msg neg)).records = s.records := rfl

@[simp] theorem records_clearTimeout (timeoutId : Option Nat) :
    (s.clearTimeout timeoutId).records = s.records := by
  cases timeoutId <;> rfl

@[simp] theorem records_armTimeout (key : PairKey) (neg : NegotiationState)
    (callback : TimerCallback) (delay : Int) :
    (s.armTimeout key neg callback delay).records = s.records := rfl

@[simp] theorem records_finishNegotiation (key : PairKey) :
    (s.finishNegotiation key).records = s.records := by
  unfold finishNegotiation
  split
  · rfl
  · exact s.records_clearTimeout _

@[simp] theorem records_abortNegotiation (key : PairKey) (reason : AbortReason) :
    (s.abortNegotiation key reason).records = s.records := by
  unfold abortNegotiation
  split
  · rfl
  · simp

@[simp] theorem records_abortForForce (key : PairKey) :
    (s.abortForForce key).records = s.records := by
  unfold abortForForce
  split
  · rfl
  · simp

@[simp] theorem records_sendVerdict (neg : NegotiationState) (action : VerdictAction) :
    (s.sendVerdict neg action).records = s.records := by
  simp [sendVerdict]

@[simp] theorem records_abortPeerNegotiations (p : PeerId) (reason : AbortReason) :
    (s.abortPeerNegotiations p reason).records = s.records := by
  unfold abortPeerNegotiations
  refine foldl_invariant (I := fun t : ServerState => t.records = s.records) _ _ ?_ rfl
  intro t e _ ht
  unfold abortPeerEntry
  simp only []
  split
  · simp [ht]
  · exact ht

@[simp] theorem records_handleProbeRelayReady (p q : PeerId) (meshIpv4 : JsString) (tcpPort : Int)
    (nonce : JsString) :
    (s.handleProbeRelayReady p q meshIpv4 tcpPort nonce).records = s.records := by
  unfold handleProbeRelayReady
  simp only []
  repeat' split
  all_goals simp

@[simp] theorem records_sendDirectGo (key : PairKey) (neg : NegotiationState)
    (readyA readyB : DirectReady) :
    (s.sendDirectGo key neg readyA readyB).records = s.records := by
  unfold sendDirectGo
  simp only []
  split <;> simp

@[simp] theorem records_handleProbeDirectReady (p q : PeerId) (udpPort : Int) (nonce : JsString) :
    (s.handleProbeDirectReady p q udpPort nonce).records = s.records := by
  unfold handleProbeDirectReady
  simp only []
  split
  · rfl
  · split
    · rfl
    · split
      · rw [records_sendDirectGo]; rfl
      · rfl

@[simp] theorem records_notifyRemoved (e : NetworkId × List PeerId) :
    (notifyRemoved s e).records = s.records := by
  unfold notifyRemoved
  simp only []
  refine foldl_invariant (I := fun t : ServerState => t.records = s.records) _ _ ?_ rfl
  intro t deletedId _ ht
  refine foldl_invariant (I := fun u : ServerState => u.records = s.records) _ _ ?_ ht
  intro u peer _ hu
  rw [records_sendMsg]
  exact hu

theorem records_foldl_abortIfStale (now : Int) (l : List (PairKey × NegotiationState)) :
    (l.foldl (abortIfStale now) s).records = s.records := by
  refine foldl_invariant (I := fun t : ServerState => t.records = s.records) _ _ ?_ rfl
  intro t e _ ht
  unfold abortIfStale
  split
  · rw [records_abortNegotiation]; exact ht
  · exact ht

end ServerState

/-! ## The steps -/

/-- The record after an entry of a health report. -/
def entryHealth (cfg : Config) (h : PairHealth) (isFromA : Bool) (now : Int) (mode : Mode)
    (rxAlive : Bool) : PairHealth :=
  let h := recordJoin h isFromA now
  if inGracePeriod cfg h isFromA now then h
  else if mode = .relay then h
  else updateStreak h isFromA rxAlive

theorem entryHealth_forcedMode (cfg : Config) (h : PairHealth) (isA : Bool) (now : Int) (mode : Mode)
    (rxAlive : Bool) : (entryHealth cfg h isA now mode rxAlive).forcedMode = h.forcedMode := by
  have hjoin : (recordJoin h isA now).forcedMode = h.forcedMode := by
    unfold recordJoin
    split
    · rfl
    · split <;> rfl
  unfold entryHealth
  simp only []
  split
  · exact hjoin
  · split
    · exact hjoin
    · rw [← hjoin]
      cases isA <;> cases rxAlive <;> rfl

def resetStreaks (h : PairHealth) : PairHealth := { h with streakAB := 0, streakBA := 0 }

/-- The events after which a direct-probe backoff is written, `forceMode` apart. -/
def Event.mayBackOff : Event → Bool
  | .timer _ => true
  | .message _ _ (.probeDirectResult _ _) => true
  | .message _ _ (.probeError _ _) => true
  | _ => false

inductive RecordStep (cfg : Config) (e : Event) : Records → Records → Prop
  | created {r : Records} (key : PairKey) (hid : Nat) (free : r.health.get? key = none)
      (live : ∀ now fails, e ≠ .reap now fails) :
      RecordStep cfg e r ⟨r.health.set key
        { hid, directProbeBackoff := cfg.directProbeBackoffInitMs }, r.db, .healthCreated key :: r.log⟩
  | entered {r : Records} (p q : PeerId) (now : Int) (mode : Mode) (rxAlive : Bool) (h : PairHealth)
      (found : r.health.get? (pairKey p q) = some h)
      (event : ∃ ws reports, e = .message ws now (.healthReport reports) ∧ ws.peerId = p) :
      RecordStep cfg e r ⟨r.health.set (pairKey p q)
        (entryHealth cfg h (decide (p = (parsePairKey (pairKey p q)).1)) now mode rxAlive), r.db,
        .entry p q now mode rxAlive :: r.log⟩
  | synced {r : Records} (p q : PeerId) (h : PairHealth) (row : LinkRow) (m : ForcedMode)
      (found : r.health.get? (pairKey p q) = some h)
      (read : cfg.plan.limitOne p q (r.db.linksBetween p q) = some row)
      (forced : row.forcedMode = some m) :
      RecordStep cfg e r
        ⟨r.health.set (pairKey p q) { h with forcedMode := some m }, r.db, r.log⟩
  | relayStarted {r : Records} (p q : PeerId) (h : PairHealth) (n : Nat) (now : Int)
      (found : r.health.get? (pairKey p q) = some h) (cached : h.forcedMode = none)
      (read : ∀ row, cfg.plan.limitOne p q (r.db.linksBetween p q) = some row →
        row.forcedMode = none) :
      RecordStep cfg e r ⟨r.health, r.db,
        .started (pairKey p q) n .relayProbe now h.directProbeBackoff :: r.log⟩
  | directStarted {r : Records} (p q : PeerId) (h : PairHealth) (n : Nat) (now : Int)
      (found : r.health.get? (pairKey p q) = some h) (row : (p, q) ∈ r.db.relayPairs)
      (due : h.directProbeBackoff ≤ now - h.lastDirectProbeAt) :
      RecordStep cfg e r
        ⟨r.health.set (pairKey p q) { h with lastDirectProbeAt := now }, r.db,
        .started (pairKey p q) n .directProbe now h.directProbeBackoff :: r.log⟩
  | answered {r : Records} (key : PairKey) :
      RecordStep cfg e r ⟨match r.health.get? key with
        | some h => r.health.set key (resetStreaks h)
        | none => r.health, r.db, .relayResult key :: r.log⟩
  | backedOff {r : Records} (key : PairKey) (h h' : PairHealth)
      (found : r.health.get? key = some h) (event : e.mayBackOff = true)
      (back : h' = h.backOff ∨ h' = { h with directProbeBackoff := cfg.directProbeBackoffInitMs }) :
      RecordStep cfg e r ⟨r.health.set key h', r.db, r.log⟩
  | forced {r : Records} (p q : PeerId) (mode : ForceCommand) (h : PairHealth)
      (found : r.health.get? (pairKey p q) = some h) (event : e = .forceMode p q mode) :
      RecordStep cfg e r ⟨r.health.set (pairKey p q) (forceHealth cfg h mode),
        r.db.setForcedMode p q mode.column, .forced (pairKey p q) mode :: r.log⟩
  | reported {r : Records} (p : PeerId) (reports : List HealthReport) (now : Int) :
      RecordStep cfg e r ⟨r.health, upsertReports r.db p reports now, r.log⟩
  | forgot {r : Records} (p : PeerId) (event : ∃ now fails, e = .reap now fails) :
      RecordStep cfg e r ⟨r.health.filter fun key _ =>
        let (a, b) := parsePairKey key
        !(decide (a = p) || decide (b = p)), r.db, r.log⟩
  | deleted {r : Records} (now : Int) (event : e = .reap now false) :
      RecordStep cfg e r
        ⟨r.health, (expiredPeers r.db now).foldl (fun db x => db.deletePeer x.1) r.db, r.log⟩
  | wrote {r : Records} (w : ApiWrite) (event : e = .api w) :
      RecordStep cfg e r ⟨r.health, w.apply r.db, r.log⟩

/-! ## Health reports -/

/-- The upserts of a report, one after the other or not at all. -/
theorem upsertReports_rule {I : Db → Prop} {p : PeerId} {now : Int}
    (hupsert : ∀ db db' q row, I db → db.upsertLink p q row = some db' → I db')
    (reports : List HealthReport) {db : Db} (h : I db) : I (upsertReports db p reports now) := by
  have hloop : ∀ (l : List HealthReport) (db db' : Db), I db →
      l.foldlM (fun (db : Db) r => db.upsertLink p r.peerId (linkRowOf r now)) db = some db' →
      I db' := by
    intro l
    induction l with
    | nil =>
      intro db db' h he
      simp only [List.foldlM_nil, Option.pure_def, Option.some.injEq] at he
      exact he ▸ h
    | cons x rest ih =>
      intro db db' h he
      simp only [List.foldlM_cons, Option.bind_eq_bind, Option.bind_eq_some_iff] at he
      obtain ⟨db1, h1, he⟩ := he
      exact ih db1 db' (hupsert db db1 x.peerId _ h h1) he
  unfold upsertReports
  cases he : reports.foldlM (fun (db : Db) r => db.upsertLink p r.peerId (linkRowOf r now)) db with
  | none => exact h
  | some db' => exact hloop reports db db' h he

section
variable {cfg : Config} {e : Event} {s : ServerState}

theorem getOrCreateHealth_records (cfg : Config) (s : ServerState) (key : PairKey)
    (live : ∀ now fails, e ≠ .reap now fails) :
    (getOrCreateHealth cfg s key).2.pairHealthMap.get? key =
        some (getOrCreateHealth cfg s key).1 ∧
      ReflTransGen (RecordStep cfg e) s.records (getOrCreateHealth cfg s key).2.records := by
  unfold getOrCreateHealth
  cases hg : s.pairHealthMap.get? key with
  | some h => exact ⟨hg, .refl⟩
  | none => exact ⟨by simp, .single (.created key s.nextRef hg live)⟩

theorem checkStreaks_records {p q : PeerId} {health : PairHealth}
    (hg : s.pairHealthMap.get? (pairKey p q) = some health) (now : Int) :
    ReflTransGen (RecordStep cfg e) s.records
      (s.checkStreaks cfg p q (pairKey p q) health now).records := by
  unfold checkStreaks
  split
  · unfold shouldInitiateRelayProbe
    cases hhas : s.activeNegotiations.has (pairKey p q) with
    | true => exact .refl
    | false =>
      simp only [Bool.false_eq_true, if_false]
      cases hcached : health.forcedMode with
      | some m =>
        simp only [ne_eq, not_true_eq_false, if_false]
        exact .refl
      | none =>
        cases hdb : getForcedModeFromDb cfg s p q with
        | some m =>
          -- the row read is forced: the cache is brought in line
          simp only [ne_eq, reduceCtorEq, not_false_eq_true, if_true]
          unfold getForcedModeFromDb at hdb
          split at hdb
          · rename_i row hrow
            exact .single (.synced p q health row m hg hrow hdb)
          · cases hdb
        | none =>
          have hrow : ∀ row, cfg.plan.limitOne p q (s.db.linksBetween p q) = some row →
              row.forcedMode = none := by
            intro row hrow
            simpa [getForcedModeFromDb, hrow] using hdb
          simp only
          split
          · exact .refl
          · split
            · exact .refl
            · simp only [if_true]
              unfold initiateRelayProbe
              simp only [records_sendMsg, records_armTimeout]
              exact .single (.relayStarted p q health s.nextRef now hg hcached hrow)
  · exact .refl

theorem handleReportEntry_records {w : Ws} {now : Int} {reports : List HealthReport}
    (he : e = .message w now (.healthReport reports)) (report : HealthReport) :
    ReflTransGen (RecordStep cfg e) s.records
      (handleReportEntry cfg w.peerId now s report).records := by
  unfold handleReportEntry
  simp only []
  generalize hkey : pairKey w.peerId report.peerId = key
  obtain ⟨hget, hcreate⟩ := getOrCreateHealth_records (e := e) cfg s key (by simp [he])
  generalize getOrCreateHealth cfg s key = created at hget hcreate ⊢
  obtain ⟨health, s1⟩ := created
  simp only at hget hcreate ⊢
  subst hkey
  have hentered := hcreate.tail (RecordStep.entered w.peerId report.peerId
    now report.mode report.rxAlive health hget ⟨w, reports, he, rfl⟩)
  unfold entryHealth at hentered
  simp only [] at hentered
  split
  · rename_i hgrace
    rw [if_pos hgrace] at hentered
    exact hentered
  · rename_i hgrace
    rw [if_neg hgrace] at hentered
    split
    · rename_i hmode
      rw [if_pos hmode] at hentered
      exact hentered
    · rename_i hmode
      rw [if_neg hmode] at hentered
      refine ReflTransGen.trans ?_ (checkStreaks_records (by simp [putHealth]) now)
      simpa [putHealth, records, log, note, List.filter_cons, TraceItem.isLog] using hentered

theorem handleHealthReport_records {ws : Ws} {now : Int} {reports : List HealthReport}
    (he : e = .message ws now (.healthReport reports)) :
    ReflTransGen (RecordStep cfg e) s.records
      (s.handleHealthReport cfg ws.peerId reports now).records := by
  unfold handleHealthReport
  refine foldl_invariant (I := fun t : ServerState =>
    ReflTransGen (RecordStep cfg e) s.records t.records) _ _ ?_ ?_
  · intro t r _ ht
    exact ht.trans (handleReportEntry_records he r)
  · exact .single (.reported ws.peerId reports now)

/-! ## The other events -/

theorem updateHealth_records (key : PairKey) {f : PairHealth → PairHealth}
    (event : e.mayBackOff = true)
    (back : ∀ h, f h = h.backOff ∨ f h = { h with directProbeBackoff := cfg.directProbeBackoffInitMs }) :
    ReflTransGen (RecordStep cfg e) s.records (s.updateHealth key f).records := by
  unfold updateHealth
  cases hg : s.pairHealthMap.get? key with
  | none => exact .refl
  | some h => exact .single (.backedOff key h (f h) hg event (back h))

theorem updateHealthRef_records (ref : HealthRef) (event : e.mayBackOff = true) :
    ReflTransGen (RecordStep cfg e) s.records (s.updateHealthRef ref PairHealth.backOff).records := by
  unfold updateHealthRef
  cases hg : s.pairHealthMap.get? ref.key with
  | none => exact .refl
  | some h =>
    simp only
    split
    · exact .single (.backedOff ref.key h h.backOff hg event (Or.inl rfl))
    · exact .refl

theorem message_records (ws : Ws) (now : Int) (msg : AgentMsg) :
    ReflTransGen (RecordStep cfg (.message ws now msg)) s.records
      (s.handleMessage cfg ws now msg).records := by
  cases msg with
  | healthReport reports => exact handleHealthReport_records rfl
  | probeRelayReady q meshIpv4 tcpPort nonce =>
    simp [handleMessage, AgentMsg.peer?, handleNegotiateMessage, ReflTransGen.refl]
  | probeDirectReady q udpPort nonce =>
    simp [handleMessage, AgentMsg.peer?, handleNegotiateMessage, ReflTransGen.refl]
  | probeRelayResult q success =>
    simp only [handleMessage, AgentMsg.peer?, handleNegotiateMessage, handleProbeRelayResult]
    split
    · exact .refl
    · split
      · exact .refl
      · split
        · exact .refl
        · generalize hs1 : ((s.note _).sendVerdict _ _).finishNegotiation _ = s1
          have hr : s1.records = s.records := by rw [← hs1]; simp
          rw [← hr]
          have h : RecordStep cfg (.message ws now (.probeRelayResult q success)) s1.records _ :=
            RecordStep.answered (pairKey ws.peerId q)
          refine .single ?_
          unfold updateHealth
          cases hg : s1.pairHealthMap.get? (pairKey ws.peerId q) <;>
            simpa [records, hg, note, putHealth, resetStreaks, log, List.filter_cons, TraceItem.isLog]
              using h
  | probeDirectResult q success =>
    simp only [handleMessage, AgentMsg.peer?, handleNegotiateMessage, handleProbeDirectResult]
    split
    · exact .refl
    · split
      · exact .refl
      · split
        · generalize hs1 : ServerState.finishNegotiation _ _ = s1
          have hr : s1.records = s.records := by
            rw [← hs1, records_finishNegotiation, records_sendVerdict]
            rfl
          rw [← hr]
          refine updateHealth_records _ rfl fun h => ?_
          split
          · exact Or.inr rfl
          · exact Or.inl rfl
        · exact .refl
  | probeError q error =>
    simp only [handleMessage, AgentMsg.peer?, handleNegotiateMessage, handleProbeError]
    split
    · exact .refl
    · rw [records_abortNegotiation]
      split
      · rw [← records_recv s]
        exact updateHealth_records _ rfl fun h => Or.inl rfl
      · exact .refl

theorem timer_records (id : Nat) :
    ReflTransGen (RecordStep cfg (.timer id)) s.records (s.fireTimer id).records := by
  unfold fireTimer
  split
  · exact .refl
  · rename_i tm _
    cases tm.callback with
    | relayProbeTimeout key => simp only [runCallback, records_abortNegotiation]; exact .refl
    | directReadyTimeout key a b ref =>
      simp only [runCallback]
      generalize hs1 : ServerState.finishNegotiation _ _ = s1
      have hr : s1.records = s.records := by
        rw [← hs1, records_finishNegotiation, records_sendIfConnected, records_sendIfConnected]
        rfl
      rw [← hr]
      exact updateHealthRef_records ref rfl
    | directResultTimeout key a b =>
      simp only [runCallback]
      generalize hs1 : ServerState.finishNegotiation _ _ = s1
      have hr : s1.records = s.records := by
        rw [← hs1, records_finishNegotiation, records_sendMsg, records_sendMsg]
        rfl
      rw [← hr]
      exact updateHealth_records key rfl fun h => Or.inl rfl

theorem initiateDirectProbe_records (key : PairKey) (health : PairHealth) (now : Int) :
    (s.initiateDirectProbe key health now).records =
      ⟨s.pairHealthMap.set key { health with lastDirectProbeAt := now }, s.db,
        .started key s.nextRef .directProbe now health.directProbeBackoff :: s.log⟩ := by
  unfold initiateDirectProbe
  simp only [records_sendMsg, records_armTimeout]
  rfl

theorem checkDirectProbe_records {now : Int} {row : PeerId × PeerId}
    (hrow : row ∈ s.db.relayPairs) :
    ReflTransGen (RecordStep cfg e) s.records (checkDirectProbe now s row).records := by
  unfold checkDirectProbe
  simp only []
  cases hg : s.pairHealthMap.get? (pairKey row.1 row.2) with
  | none => exact .refl
  | some h =>
    simp only
    split
    · exact .refl
    · split
      · exact .refl
      · split
        · exact .refl
        · rename_i hdue
          split
          · exact .refl
          · rw [initiateDirectProbe_records]
            exact .single (.directStarted row.1 row.2 h s.nextRef now hg hrow (by omega))

theorem checkDirectProbe_db (now : Int) (row : PeerId × PeerId) :
    (checkDirectProbe now s row).db = s.db := by
  unfold checkDirectProbe
  simp only []
  repeat' split
  all_goals try rfl
  exact congrArg Records.db (initiateDirectProbe_records _ _ now)

theorem sweep_records (now : Int) :
    ReflTransGen (RecordStep cfg (.sweep now)) s.records (s.staleSweep cfg now).records := by
  unfold staleSweep checkDirectProbes
  simp only []
  generalize hs1 : s.activeNegotiations.entries.foldl (abortIfStale now) s = s1
  have hr : s1.records = s.records := by rw [← hs1]; exact records_foldl_abortIfStale s now _
  rw [← hr]
  refine (foldl_invariant (I := fun t : ServerState => t.db = s1.db ∧
    ReflTransGen (RecordStep cfg (.sweep now)) s1.records t.records) _ _ ?_ ⟨rfl, .refl⟩).2
  intro t row hrow ht
  refine ⟨by rw [checkDirectProbe_db, ht.1], ht.2.trans (checkDirectProbe_records ?_)⟩
  rw [ht.1]
  exact (cfg.plan.rowOrder_perm _).mem_iff.mp hrow

theorem records_foldl_notifyRemoved (l : List (NetworkId × List PeerId)) (s : ServerState) :
    (l.foldl notifyRemoved s).records = s.records := by
  refine foldl_invariant (I := fun t : ServerState => t.records = s.records) _ _ ?_ rfl
  intro t x _ ht
  rw [records_notifyRemoved]
  exact ht

theorem forgetPeer_records (x : PeerId × NetworkId) :
    (forgetPeer s x).records = ⟨s.pairHealthMap.filter fun key _ =>
      let (a, b) := parsePairKey key
      !(decide (a = x.1) || decide (b = x.1)), s.db, s.log⟩ := by
  have h := records_abortPeerNegotiations s x.1 .peerRemoved
  simp only [records, Records.mk.injEq] at h
  unfold forgetPeer cleanupPeerHealth
  rw [← h.1, ← h.2.1, ← h.2.2]
  rfl

/-- Forgetting peers touches health records only. -/
theorem foldl_forgetPeer_frame (l : List (PeerId × NetworkId)) (s : ServerState) :
    (l.foldl forgetPeer s).db = s.db ∧ (l.foldl forgetPeer s).log = s.log := by
  refine foldl_invariant (I := fun t : ServerState => t.db = s.db ∧ t.log = s.log) _ _ ?_
    ⟨rfl, rfl⟩
  intro t x _ ht
  have hrec := forgetPeer_records (s := t) x
  exact ⟨(congrArg Records.db hrec).trans ht.1, (congrArg Records.log hrec).trans ht.2⟩

/-- The reaper forgets records, and deletes rows unless the transaction throws. -/
theorem reap_records_eq (now : Int) (fails : Bool) :
    (s.reap now fails).records =
      ⟨((expiredPeers s.db now).foldl forgetPeer s).pairHealthMap,
        if fails then s.db else (expiredPeers s.db now).foldl (fun db x => db.deletePeer x.1) s.db,
        s.log⟩ := by
  obtain ⟨hdb, hlog⟩ := foldl_forgetPeer_frame (expiredPeers s.db now) s
  unfold reap
  simp only []
  split
  · rw [← hlog]
    simp only [records, hdb]
  · rw [records_foldl_notifyRemoved, ← hlog]
    simp only [records, hdb]
    rfl

theorem reap_records (now : Int) (fails : Bool) :
    ReflTransGen (RecordStep cfg (.reap now fails)) s.records (s.reap now fails).records := by
  have hforget : ∀ l : List (PeerId × NetworkId), ReflTransGen (RecordStep cfg (.reap now fails))
      s.records ⟨(l.foldl forgetPeer s).pairHealthMap, s.db, s.log⟩ := by
    intro l
    have h : ReflTransGen (RecordStep cfg (.reap now fails)) s.records
        (l.foldl forgetPeer s).records := by
      refine foldl_invariant (I := fun t : ServerState =>
        ReflTransGen (RecordStep cfg (.reap now fails)) s.records t.records) _ _ ?_ .refl
      intro t x _ ht
      refine ht.tail ?_
      rw [forgetPeer_records x]
      exact .forgot x.1 ⟨now, fails, rfl⟩
    obtain ⟨hdb, hlog⟩ := foldl_forgetPeer_frame l s
    rw [← hlog, ← hdb]
    exact h
  rw [reap_records_eq]
  cases fails with
  | true => exact hforget _
  | false => exact (hforget _).tail (.deleted now rfl)

/-- What a force command writes. -/
theorem handleForceMode_records_eq (cfg : Config) (p q : PeerId) (mode : ForceCommand) :
    let created := getOrCreateHealth cfg (s.abortForForce (pairKey p q)) (pairKey p q)
    (s.handleForceMode cfg p q mode).records =
      ⟨created.2.pairHealthMap.set (pairKey p q) (forceHealth cfg created.1 mode),
        created.2.db.setForcedMode p q mode.column, .forced (pairKey p q) mode :: created.2.log⟩ := by
  unfold handleForceMode
  simp only [records_sendMsg]
  rfl

theorem forceMode_records (p q : PeerId) (mode : ForceCommand) :
    ReflTransGen (RecordStep cfg (.forceMode p q mode)) s.records
      (step cfg s (.forceMode p q mode)).records := by
  rw [step, postForceMode_eq]
  split
  · rw [handleForceMode_records_eq, ← records_abortForForce s (pairKey p q)]
    obtain ⟨hget, hcreate⟩ := getOrCreateHealth_records (e := .forceMode p q mode) cfg
      (s.abortForForce (pairKey p q)) (pairKey p q) (by simp)
    exact hcreate.tail (.forced p q mode _ hget rfl)
  · exact .refl

/-- **Every event but a restart is a sequence of record steps.** -/
theorem recordSteps_of_step (hrestart : e ≠ .restart) :
    ReflTransGen (RecordStep cfg e) s.records (step cfg s e).records := by
  cases e with
  | «open» ws => exact .refl
  | close ws =>
    have h := records_abortPeerNegotiations { s with connections := wsClose s.connections ws }
      ws.peerId .wsReset
    simp only [step, handleClose]
    rw [h]
    exact .refl
  | message ws now msg => exact message_records ws now msg
  | timer id => exact timer_records id
  | sweep now => exact sweep_records now
  | reap now fails => exact reap_records now fails
  | forceMode p q mode => exact forceMode_records p q mode
  | api w => exact .single (.wrote w rfl)
  | restart => exact absurd rfl hrestart

end

end Meshezia
