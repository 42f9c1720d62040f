import Meshezia.Lib.History
import Meshezia.Server.Lock
import Meshezia.Server.Records

/-!
# The backoff schedule of direct probes

* `BackoffBounds`: the backoff of every record lies between its initial and its maximal
  value.
* `BackoffLaw`: an event other than a restart changes it only when it ends the pair's
  direct probe by a ready or result timeout, by results or by a probe-error
  (`directEnd`), or is an accepted force-mode `auto`.
* `Spaced`: two successive starts of direct probes on one record are at least the
  backoff of the record at the second start apart.

    IdsOk es → (0 < INIT → INIT ≤ MAX → BackoffBounds …) ∧ BackoffLaw … ∧ Spaced …
                                                          (backoff_schedule)
-/

namespace Meshezia

open ServerState Relation

/-! ## What is claimed -/

def BackoffBounds (cfg : Config) (s : ServerState) : Prop :=
  ∀ key h, s.pairHealthMap.get? key = some h →
    cfg.directProbeBackoffInitMs ≤ h.directProbeBackoff ∧
      h.directProbeBackoff ≤ DIRECT_PROBE_BACKOFF_MAX_MS

/-- Whether both results are true, once both are there. -/
def NegotiationState.bothResults (neg : NegotiationState) : Option Bool :=
  match neg.resultA, neg.resultB with
  | some a, some b => some (a && b)
  | _, _ => none

/-- Does the event end the direct probe of `key` by results (true when both are true), by
a timeout of its own or by a probe-error? -/
def directEnd (s : ServerState) (key : PairKey) : Event → Option Bool
  | .timer id =>
    match (s.timers.get? id).map Timer.callback with
    | some (.directReadyTimeout k _ _ _) => if k = key then some false else none
    | some (.directResultTimeout k _ _) => if k = key then some false else none
    | _ => none
  | .message ws _ (.probeDirectResult q success) =>
    match s.activeNegotiations.get? key with
    | some neg =>
      if pairKey ws.peerId q = key ∧ neg.type = .directProbe then
        (neg.store (isSideA ws.peerId key) (.probeDirectResult q success)).bothResults
      else none
    | none => none
  | .message ws _ (.probeError q _) =>
    match s.activeNegotiations.get? key with
    | some neg => if pairKey ws.peerId q = key ∧ neg.type = .directProbe then some false else none
    | none => none
  | _ => none

/-- Does the event put the pair of `key` back to `auto`? -/
def clearsForce (s : ServerState) (key : PairKey) : Event → Bool
  | .forceMode p q .auto =>
    match s.db.peers.get? p, s.db.peers.get? q with
    | some rowP, some rowQ => decide (rowP.networkId = rowQ.networkId) && decide (pairKey p q = key)
    | _, _ => false
  | _ => false

/-- The backoff after an event. -/
def nextBackoff (cfg : Config) (s : ServerState) (key : PairKey) (e : Event) (backoff : Int) : Int :=
  if clearsForce s key e then cfg.directProbeBackoffInitMs
  else
    match directEnd s key e with
    | some true => cfg.directProbeBackoffInitMs
    | some false => min (backoff * 2) DIRECT_PROBE_BACKOFF_MAX_MS
    | none => backoff

/-- Every event but a restart changes the backoff of a record as `nextBackoff` says; where
`directEnd` says so, a direct probe of the pair was active and is over. -/
def BackoffLaw (cfg : Config) (s : ServerState) : Prop :=
  ∀ e, e ≠ .restart → ∀ key,
    (∀ h h', s.pairHealthMap.get? key = some h →
      (step cfg s e).pairHealthMap.get? key = some h' →
      h'.hid = h.hid ∧ h'.directProbeBackoff = nextBackoff cfg s key e h.directProbeBackoff) ∧
    ((directEnd s key e).isSome →
      (∃ neg, s.activeNegotiations.get? key = some neg ∧ neg.type = .directProbe) ∧
        (step cfg s e).activeNegotiations.get? key = none)

/-- Two successive direct-probe starts of one pair with no new record between them. -/
def Spaced (log : List TraceItem) : Prop :=
  ∀ later mid earlier key n n' now now' b b',
    log = later ++ .started key n' .directProbe now' b' ::
      (mid ++ .started key n .directProbe now b :: earlier) →
    (∀ it ∈ mid, it ≠ .healthCreated key ∧ ∀ m t x, it ≠ .started key m .directProbe t x) →
    b' ≤ now' - now

/-! ## Bounds -/

section
variable {cfg : Config} {e : Event} {r r' : Records}

def BoundedRecords (cfg : Config) (r : Records) : Prop :=
  ∀ key h, r.health.get? key = some h →
    cfg.directProbeBackoffInitMs ≤ h.directProbeBackoff ∧
      h.directProbeBackoff ≤ DIRECT_PROBE_BACKOFF_MAX_MS

/-- A change of one record. -/
theorem BoundedRecords.set (h : BoundedRecords cfg r) {key : PairKey} {g : PairHealth}
    (hb : cfg.directProbeBackoffInitMs ≤ g.directProbeBackoff ∧
      g.directProbeBackoff ≤ DIRECT_PROBE_BACKOFF_MAX_MS) (db : Db) (log : List TraceItem) :
    BoundedRecords cfg ⟨r.health.set key g, db, log⟩ := by
  intro k x hg
  rcases OMap.get?_set_cases hg with ⟨-, rfl⟩ | ⟨-, hg⟩
  · exact hb
  · exact h k x hg

@[simp] theorem recordJoin_backoff (h : PairHealth) (isA : Bool) (now : Int) :
    (recordJoin h isA now).hid = h.hid ∧
      (recordJoin h isA now).directProbeBackoff = h.directProbeBackoff ∧
      (recordJoin h isA now).lastDirectProbeAt = h.lastDirectProbeAt := by
  unfold recordJoin
  split
  · exact ⟨rfl, rfl, rfl⟩
  · split <;> exact ⟨rfl, rfl, rfl⟩

theorem entryHealth_backoff (cfg : Config) (h : PairHealth) (isA : Bool) (now : Int) (mode : Mode)
    (rxAlive : Bool) :
    (entryHealth cfg h isA now mode rxAlive).hid = h.hid ∧
      (entryHealth cfg h isA now mode rxAlive).directProbeBackoff = h.directProbeBackoff ∧
      (entryHealth cfg h isA now mode rxAlive).lastDirectProbeAt = h.lastDirectProbeAt := by
  have hjoin := recordJoin_backoff h isA now
  unfold entryHealth
  simp only []
  split
  · exact hjoin
  · split
    · exact hjoin
    · rw [← hjoin.1, ← hjoin.2.1, ← hjoin.2.2]
      cases isA <;> cases rxAlive <;> exact ⟨rfl, rfl, rfl⟩

theorem backOff_bounds (hpos : 0 < cfg.directProbeBackoffInitMs)
    (hmax : cfg.directProbeBackoffInitMs ≤ DIRECT_PROBE_BACKOFF_MAX_MS) {h : PairHealth}
    (hb : cfg.directProbeBackoffInitMs ≤ h.directProbeBackoff) :
    cfg.directProbeBackoffInitMs ≤ h.backOff.directProbeBackoff ∧
      h.backOff.directProbeBackoff ≤ DIRECT_PROBE_BACKOFF_MAX_MS := by
  simp only [PairHealth.backOff]
  omega

theorem RecordStep.bounded (step : RecordStep cfg e r r') (h : BoundedRecords cfg r)
    (hpos : 0 < cfg.directProbeBackoffInitMs)
    (hmax : cfg.directProbeBackoffInitMs ≤ DIRECT_PROBE_BACKOFF_MAX_MS) :
    BoundedRecords cfg r' := by
  cases step with
  | created key hid free live => exact h.set ⟨Int.le_refl _, hmax⟩ _ _
  | entered p q now mode rxAlive h0 found event =>
    refine h.set ?_ _ _
    rw [(entryHealth_backoff cfg h0 _ now mode rxAlive).2.1]
    exact h _ h0 found
  | synced p q h0 row m found read forced =>
    exact h.set (g := { h0 with forcedMode := some m }) (h _ h0 found) _ _
  | relayStarted p q h0 n now found cached read => exact h
  | directStarted p q h0 n now found row due =>
    exact h.set (g := { h0 with lastDirectProbeAt := now }) (h _ h0 found) _ _
  | answered key =>
    intro k x hg
    split at hg
    · rename_i h0 hg0
      exact h.set (g := resetStreaks h0) (h _ h0 hg0) r.db r.log k x hg
    · exact h k x hg
  | backedOff key h0 h' found event back =>
    refine h.set ?_ _ _
    rcases back with rfl | rfl
    · exact backOff_bounds hpos hmax (h _ h0 found).1
    · exact ⟨Int.le_refl _, hmax⟩
  | forced p q mode h0 found event =>
    refine h.set ?_ _ _
    cases mode with
    | auto => exact ⟨Int.le_refl _, hmax⟩
    | force m => exact h _ h0 found
  | reported p reports now => exact h
  | forgot p event =>
    intro k x hg
    rw [OMap.get?_filter] at hg
    exact h k x (Option.filter_eq_some_iff.mp hg).1
  | deleted now event => exact h
  | wrote w event => exact h

/-! ## Spacing -/

/-- Reads the time of a direct-probe start of `key`, and `none` where its record is made. -/
def startTime (key : PairKey) : TraceItem → Option (Option Int)
  | .started k _ .directProbe now _ => if k = key then some (some now) else none
  | .healthCreated k => if k = key then some none else none
  | _ => none

/-- A start comes at least the backoff after the one before it on the same record. -/
def spacedItem (it : TraceItem) (earlier : List TraceItem) : Bool :=
  match it with
  | .started key _ .directProbe now backoff =>
    match latest (startTime key) earlier with
    | some (some last, _) => decide (backoff ≤ now - last)
    | _ => true
  | _ => true

structure SpaceInv (r : Records) : Prop where
  spaced : each spacedItem r.log = true
  last : ∀ key h, r.health.get? key = some h → ∀ t rest,
    latest (startTime key) r.log = some (some t, rest) → h.lastDirectProbeAt = t

/-- No start and no new record. -/
def Timeless (it : TraceItem) : Prop := ∀ key, startTime key it = none

theorem SpaceInv.note (h : SpaceInv r) {health : OMap PairKey PairHealth} {db : Db}
    {l : List TraceItem} (hitems : ∀ it ∈ l, Timeless it)
    (hrec : ∀ k h', health.get? k = some h' → ∃ h0, r.health.get? k = some h0 ∧
      h'.lastDirectProbeAt = h0.lastDirectProbeAt) : SpaceInv ⟨health, db, l ++ r.log⟩ where
  spaced := by
    refine each_append (fun it hit earlier => ?_) h.spaced
    have ht := hitems it hit
    unfold spacedItem
    split
    · rename_i key n now backoff
      have := ht key
      simp [startTime] at this
    · rfl
  last := by
    intro key h' hg t rest hl
    obtain ⟨h0, hg0, hsame⟩ := hrec key h' hg
    rw [latest_append fun it hit => hitems it hit key] at hl
    rw [hsame]
    exact h.last key h0 hg0 t rest hl

/-- A change of one record that keeps the time of its last start. -/
theorem SpaceInv.set (h : SpaceInv r) {key : PairKey} {h0 g : PairHealth}
    (hg0 : r.health.get? key = some h0) (hsame : g.lastDirectProbeAt = h0.lastDirectProbeAt)
    {l : List TraceItem} (hitems : ∀ it ∈ l, Timeless it) (db : Db) :
    SpaceInv ⟨r.health.set key g, db, l ++ r.log⟩ := by
  refine h.note hitems fun k x hg => ?_
  rcases OMap.get?_set_cases hg with ⟨rfl, rfl⟩ | ⟨-, hg⟩
  · exact ⟨h0, hg0, hsame⟩
  · exact ⟨x, hg, rfl⟩

theorem RecordStep.spaceInv (step : RecordStep cfg e r r') (h : SpaceInv r) : SpaceInv r' := by
  cases step with
  | created key hid free live =>
    refine ⟨by rw [each, h.spaced]; rfl, ?_⟩
    intro k x hg t rest hl
    rcases OMap.get?_set_cases hg with ⟨e, -⟩ | ⟨hne, hg⟩
    · rw [latest_cons_some (b := none) (by simp [startTime, e])] at hl
      cases hl
    · rw [latest_cons_none (by simp [startTime, hne])] at hl
      exact h.last k x hg t rest hl
  | entered p q now mode rxAlive h0 found event =>
    exact h.set (l := [_]) found (entryHealth_backoff cfg h0 _ now mode rxAlive).2.2
      (by simp [Timeless, startTime]) r.db
  | synced p q h0 row m found read forced =>
    exact h.set (l := []) (g := { h0 with forcedMode := some m }) found rfl (by simp) r.db
  | relayStarted p q h0 n now found cached read =>
    exact h.note (l := [_]) (by simp [Timeless, startTime]) fun k x hg => ⟨x, hg, rfl⟩
  | directStarted p q h0 n now found row due =>
    refine ⟨?_, ?_⟩
    · rw [each, h.spaced, Bool.and_true]
      unfold spacedItem
      simp only []
      split
      · rename_i last rest hl
        rw [← h.last _ h0 found last rest hl]
        exact decide_eq_true due
      · rfl
    · intro k x hg t rest hl
      rcases OMap.get?_set_cases hg with ⟨e, rfl⟩ | ⟨hne, hg⟩
      · rw [latest_cons_some (b := some now) (by simp [startTime, e])] at hl
        cases hl
        rfl
      · rw [latest_cons_none (by simp [startTime, hne])] at hl
        exact h.last k x hg t rest hl
  | answered key =>
    refine h.note (l := [_]) (by simp [Timeless, startTime]) fun k x hg => ?_
    split at hg
    · rename_i h0 hg0
      rcases OMap.get?_set_cases hg with ⟨rfl, rfl⟩ | ⟨-, hg⟩
      · exact ⟨h0, hg0, rfl⟩
      · exact ⟨x, hg, rfl⟩
    · exact ⟨x, hg, rfl⟩
  | backedOff key h0 h' found event back =>
    refine h.set (l := []) found ?_ (by simp) r.db
    rcases back with rfl | rfl <;> rfl
  | forced p q mode h0 found event =>
    exact h.set (l := [_]) found (by cases mode <;> rfl) (by simp [Timeless, startTime]) _
  | reported p reports now =>
    exact h.note (l := []) (by simp) fun k x hg => ⟨x, hg, rfl⟩
  | forgot p event =>
    refine h.note (l := []) (by simp) fun k x hg => ⟨x, ?_, rfl⟩
    rw [OMap.get?_filter] at hg
    exact (Option.filter_eq_some_iff.mp hg).1
  | deleted now event => exact h.note (l := []) (by simp) fun k x hg => ⟨x, hg, rfl⟩
  | wrote w event => exact h.note (l := []) (by simp) fun k x hg => ⟨x, hg, rfl⟩

theorem spaced_of_each {log : List TraceItem} (h : each spacedItem log = true) : Spaced log := by
  intro later mid earlier key n n' now now' b b' he hmid
  have hitem := each_iff.mp h later _ _ he
  have hlast : latest (startTime key) (mid ++ .started key n .directProbe now b :: earlier) =
      some (some now, earlier) := by
    rw [latest_append, latest_cons_some (b := some now) (by simp [startTime])]
    intro it hit
    obtain ⟨h1, h2⟩ := hmid it hit
    cases it with
    | started k m type t x =>
      cases type with
      | relayProbe => rfl
      | directProbe =>
        have hne : k ≠ key := fun e => h2 m t x (by rw [e])
        simp [startTime, hne]
    | healthCreated k =>
      have hne : k ≠ key := fun e => h1 (by rw [e])
      simp [startTime, hne]
    | _ => rfl
  unfold spacedItem at hitem
  simp only [hlast, decide_eq_true_eq] at hitem
  exact hitem

/-! ## Events that leave the backoff alone -/

/-- The record is still there, with its backoff. -/
theorem RecordStep.keeps (step : RecordStep cfg e r r') (hback : e.mayBackOff = false)
    (hforce : ∀ p q m, e ≠ .forceMode p q m) (hreap : ∀ now fails, e ≠ .reap now fails)
    {key : PairKey} {h : PairHealth} (hg : r.health.get? key = some h) :
    ∃ h', r'.health.get? key = some h' ∧ h'.hid = h.hid ∧
      h'.directProbeBackoff = h.directProbeBackoff := by
  have hset : ∀ (k : PairKey) (h0 h' : PairHealth), r.health.get? k = some h0 →
      (h'.hid = h0.hid ∧ h'.directProbeBackoff = h0.directProbeBackoff) →
      ∃ h'', (r.health.set k h').get? key = some h'' ∧ h''.hid = h.hid ∧
        h''.directProbeBackoff = h.directProbeBackoff := by
    intro k h0 h' hk hsame
    by_cases hkey : k = key
    · subst hkey
      rw [hg] at hk
      cases hk
      exact ⟨h', by simp, hsame⟩
    · exact ⟨h, by rw [OMap.get?_set_ne _ _ hkey, hg], rfl, rfl⟩
  cases step with
  | created k hid free live =>
    have hne : k ≠ key := by
      rintro rfl
      rw [hg] at free
      cases free
    exact ⟨h, by rw [OMap.get?_set_ne _ _ hne, hg], rfl, rfl⟩
  | entered p q now mode rxAlive h0 found event =>
    have hb := entryHealth_backoff cfg h0 (decide (p = (parsePairKey (pairKey p q)).1)) now mode rxAlive
    exact hset _ h0 _ found ⟨hb.1, hb.2.1⟩
  | synced p q h0 row m found read forced => exact hset _ h0 _ found ⟨rfl, rfl⟩
  | relayStarted p q h0 n now found cached read => exact ⟨h, hg, rfl, rfl⟩
  | directStarted p q h0 n now found row due => exact hset _ h0 _ found ⟨rfl, rfl⟩
  | answered k =>
    simp only []
    split
    · rename_i h0 hg0
      exact hset k h0 _ hg0 ⟨rfl, rfl⟩
    · exact ⟨h, hg, rfl, rfl⟩
  | backedOff k h0 h' found event back => rw [hback] at event; cases event
  | forced p q mode h0 found event => exact absurd event (hforce p q mode)
  | reported p reports now => exact ⟨h, hg, rfl, rfl⟩
  | forgot p event =>
    obtain ⟨now, fails, rfl⟩ := event
    exact absurd rfl (hreap now fails)
  | deleted now event => exact ⟨h, hg, rfl, rfl⟩
  | wrote w event => exact ⟨h, hg, rfl, rfl⟩

theorem keeps_steps (hsteps : ReflTransGen (RecordStep cfg e) r r') (hback : e.mayBackOff = false)
    (hforce : ∀ p q m, e ≠ .forceMode p q m) (hreap : ∀ now fails, e ≠ .reap now fails)
    {key : PairKey} {h : PairHealth} (hg : r.health.get? key = some h) :
    ∃ h', r'.health.get? key = some h' ∧ h'.hid = h.hid ∧
      h'.directProbeBackoff = h.directProbeBackoff := by
  induction hsteps with
  | refl => exact ⟨h, hg, rfl, rfl⟩
  | tail _ hstep ih =>
    obtain ⟨h1, hg1, h2, h3⟩ := ih
    obtain ⟨h', hg', h2', h3'⟩ := hstep.keeps hback hforce hreap hg1
    exact ⟨h', hg', by rw [h2', h2], by rw [h3', h3]⟩

end

section
variable {s : ServerState}

theorem reap_health (now : Int) (fails : Bool) {key : PairKey} {h : PairHealth}
    (hg : (s.reap now fails).pairHealthMap.get? key = some h) :
    s.pairHealthMap.get? key = some h := by
  have hforget : ∀ l : List (PeerId × NetworkId), ∀ h,
      (l.foldl forgetPeer s).pairHealthMap.get? key = some h → s.pairHealthMap.get? key = some h := by
    intro l
    refine foldl_invariant (I := fun t : ServerState => ∀ h,
      t.pairHealthMap.get? key = some h → s.pairHealthMap.get? key = some h) _ _ ?_ fun h => id
    intro t x _ ht h hx
    rw [show (forgetPeer t x).pairHealthMap = _ from congrArg Records.health (forgetPeer_records x),
      OMap.get?_filter] at hx
    exact ht h (Option.filter_eq_some_iff.mp hx).1
  exact hforget (expiredPeers s.db now) h
    (congrArg (fun r : Records => r.health.get? key) (reap_records_eq now fails) ▸ hg)

theorem get?_updateHealth (key : PairKey) (f : PairHealth → PairHealth) (k : PairKey) :
    (s.updateHealth key f).pairHealthMap.get? k =
      if key = k then (s.pairHealthMap.get? k).map f else s.pairHealthMap.get? k := by
  unfold updateHealth
  cases hg : s.pairHealthMap.get? key with
  | none =>
    by_cases hk : key = k
    · simp [← hk, hg]
    · simp [hk]
  | some h =>
    simp only [putHealth]
    by_cases hk : key = k
    · simp [← hk, hg]
    · simp [OMap.get?_set_ne _ _ hk, hk]

/-- A write through a reference to the record in the map. -/
theorem updateHealthRef_eq {ref : HealthRef}
    (href : (s.pairHealthMap.get? ref.key).map PairHealth.hid = some ref.hid)
    (f : PairHealth → PairHealth) : s.updateHealthRef ref f = s.updateHealth ref.key f := by
  obtain ⟨h, hg, hhid⟩ := Option.map_eq_some_iff.mp href
  simp [updateHealthRef, updateHealth, hg, hhid]

/-! ## Ends of direct probes -/

/-- What an end of a direct probe does to the record of its pair. -/
def endHealth (cfg : Config) : Option Bool → PairHealth → PairHealth
  | some true, h => { h with directProbeBackoff := cfg.directProbeBackoffInitMs }
  | some false, h => h.backOff
  | none, h => h

/-- The event writes the records as `directEnd` says. -/
def WritesEnd (cfg : Config) (s : ServerState) (e : Event) : Prop :=
  ∀ k, (step cfg s e).pairHealthMap.get? k =
      (s.pairHealthMap.get? k).map (endHealth cfg (directEnd s k e)) ∧
    ((directEnd s k e).isSome →
      (∃ neg, s.activeNegotiations.get? k = some neg ∧ neg.type = .directProbe) ∧
        (step cfg s e).activeNegotiations.get? k = none)

theorem map_endHealth_none (cfg : Config) (o : Option PairHealth) :
    o.map (endHealth cfg none) = o := by cases o <;> rfl

theorem writesEnd_timer (cfg : Config) (hi : TableInv s) (id : Nat) :
    WritesEnd cfg s (.timer id) := by
  intro k
  cases ht : s.timers.get? id with
  | none => simp [step, fireTimer, ht, directEnd, map_endHealth_none]
  | some tm =>
    have hactive := fireTimer_active hi ht
    obtain ⟨neg, hg, -, -, hfits⟩ := hi.owned id tm ht
    have hrefs := hi.refs id tm ht
    cases hcb : tm.callback with
    | relayProbeTimeout key =>
      have hend : directEnd s k (.timer id) = none := by simp [directEnd, ht, hcb]
      rw [hend, map_endHealth_none]
      refine ⟨?_, by simp⟩
      simp only [step, fireTimer, ht, hcb, runCallback]
      exact congrArg (fun r : Records => r.health.get? k) (records_abortNegotiation _ key .timeout)
    | directReadyTimeout key a b ref =>
      rw [hcb] at hg hfits hrefs hactive
      obtain ⟨hrefkey, hrefhid⟩ := hrefs
      have hend : directEnd s k (.timer id) = if key = k then some false else none := by
        simp [directEnd, ht, hcb]
      rw [hend]
      refine ⟨?_, fun hsome => ?_⟩
      · simp only [step, fireTimer, ht, hcb, runCallback]
        generalize hs1 : ServerState.finishNegotiation _ _ = s1
        have hhealth : s1.pairHealthMap = s.pairHealthMap := by
          rw [← hs1]
          refine (congrArg Records.health ((records_finishNegotiation _ key).trans
            ((records_sendIfConnected _ _ b _).trans (records_sendIfConnected _ _ a _)))).trans rfl
        rw [updateHealthRef_eq (by rw [hhealth, hrefkey]; exact hrefhid), get?_updateHealth, hhealth,
          hrefkey]
        split
        · rfl
        · rw [map_endHealth_none]
      · split at hsome
        · rename_i hk
          subst hk
          exact ⟨⟨neg, hg, hfits.1⟩, by rw [step, hactive]; exact OMap.get?_delete_self ..⟩
        · cases hsome
    | directResultTimeout key a b =>
      rw [hcb] at hg hfits hactive
      have hend : directEnd s k (.timer id) = if key = k then some false else none := by
        simp [directEnd, ht, hcb]
      rw [hend]
      refine ⟨?_, fun hsome => ?_⟩
      · simp only [step, fireTimer, ht, hcb, runCallback]
        generalize hs1 : ServerState.finishNegotiation _ _ = s1
        have hhealth : s1.pairHealthMap = s.pairHealthMap := by
          rw [← hs1]
          refine (congrArg Records.health ((records_finishNegotiation _ key).trans
            ((records_sendMsg _ _ b _).trans (records_sendMsg _ _ a _)))).trans rfl
        rw [get?_updateHealth, hhealth]
        split
        · rfl
        · rw [map_endHealth_none]
      · split at hsome
        · rename_i hk
          subst hk
          exact ⟨⟨neg, hg, hfits.1⟩, by rw [step, hactive]; exact OMap.get?_delete_self ..⟩
        · cases hsome

/-- A result ends the probe it meets when it is the second. -/
theorem directEnd_result (ws : Ws) (now : Int) (q : PeerId) (success : Bool) (k : PairKey) :
    directEnd s k (.message ws now (.probeDirectResult q success)) =
      if pairKey ws.peerId q = k then
        (s.activeNegotiations.get? (pairKey ws.peerId q)).bind fun neg =>
          if neg.type = .directProbe then
            (neg.store (isSideA ws.peerId (pairKey ws.peerId q))
              (.probeDirectResult q success)).bothResults
          else none
      else none := by
  by_cases hk : pairKey ws.peerId q = k
  · subst hk
    cases hg : s.activeNegotiations.get? (pairKey ws.peerId q) <;> simp [directEnd, hg]
  · cases hg : s.activeNegotiations.get? k <;> simp [directEnd, hg, hk]

/-- A probe-error ends the probe it meets. -/
theorem directEnd_error (ws : Ws) (now : Int) (q : PeerId) (error : JsString) (k : PairKey) :
    directEnd s k (.message ws now (.probeError q error)) =
      if pairKey ws.peerId q = k then
        (s.activeNegotiations.get? (pairKey ws.peerId q)).bind fun neg =>
          if neg.type = .directProbe then some false else none
      else none := by
  by_cases hk : pairKey ws.peerId q = k
  · subst hk
    cases hg : s.activeNegotiations.get? (pairKey ws.peerId q) <;> simp [directEnd, hg]
  · cases hg : s.activeNegotiations.get? k <;> simp [directEnd, hg, hk]

theorem writesEnd_result (cfg : Config) (ws : Ws) (now : Int) (q : PeerId) (success : Bool) :
    WritesEnd cfg s (.message ws now (.probeDirectResult q success)) := by
  intro k
  generalize hs0 : s.note (.recv ws.peerId (.probeDirectResult q success)
    (s.negotiationMet ws.peerId (.probeDirectResult q success))) = s0
  have hactive0 : s0.activeNegotiations = s.activeNegotiations := by rw [← hs0]; rfl
  have hhealth0 : s0.pairHealthMap = s.pairHealthMap := by rw [← hs0]; rfl
  have hstep : step cfg s (.message ws now (.probeDirectResult q success)) =
      s0.handleProbeDirectResult cfg ws.peerId q success := by rw [← hs0]; rfl
  rw [hstep]
  unfold handleProbeDirectResult
  simp only [hactive0]
  cases hg : s.activeNegotiations.get? (pairKey ws.peerId q) with
  | none =>
    rw [directEnd_result, hg, Option.bind_none, ite_self, map_endHealth_none, hhealth0]
    exact ⟨rfl, by simp⟩
  | some neg =>
    simp only
    by_cases htype : neg.type = .directProbe
    · rw [if_neg (by simp [htype])]
      have hstore : (if ws.peerId = (parsePairKey (pairKey ws.peerId q)).1 then
            { neg with resultA := some success } else { neg with resultB := some success }) =
          neg.store (isSideA ws.peerId (pairKey ws.peerId q)) (.probeDirectResult q success) := by
        simp [NegotiationState.store, isSideA]
      have hend : directEnd s k (.message ws now (.probeDirectResult q success)) =
          if pairKey ws.peerId q = k then
            (neg.store (isSideA ws.peerId (pairKey ws.peerId q))
              (.probeDirectResult q success)).bothResults else none := by
        simp [directEnd_result, hg, htype]
      rw [hend]
      simp only [hstore]
      generalize hneg' : neg.store (isSideA ws.peerId (pairKey ws.peerId q))
        (.probeDirectResult q success) = neg'
      split
      · rename_i a b ha hb
        have hboth : neg'.bothResults = some (a && b) := by
          simp [NegotiationState.bothResults, ha, hb]
        rw [hboth]
        rw [sendVerdict_finish_eq _ (n := neg') (by simp)]
        rw [get?_updateHealth, updateHealth_active]
        simp only [conclude, hhealth0, OMap.delete_set]
        refine ⟨?_, fun hsome => ?_⟩
        · split
          · cases a && b <;> rfl
          · rw [map_endHealth_none]
        · split at hsome
          · rename_i hk
            subst hk
            exact ⟨⟨neg, hg, htype⟩, OMap.get?_delete_self ..⟩
          · cases hsome
      · rename_i hnot
        have hboth : neg'.bothResults = none := by
          unfold NegotiationState.bothResults
          split
          · rename_i a b ha hb
            exact absurd hb (hnot a b ha)
          · rfl
        rw [hboth, ite_self, map_endHealth_none, hhealth0]
        exact ⟨rfl, by simp⟩
    · rw [if_pos (by simpa using htype)]
      have hend : directEnd s k (.message ws now (.probeDirectResult q success)) = none := by
        simp [directEnd_result, hg, htype]
      rw [hend, map_endHealth_none, hhealth0]
      exact ⟨rfl, by simp⟩

theorem writesEnd_error (cfg : Config) (ws : Ws) (now : Int) (q : PeerId) (error : JsString) :
    WritesEnd cfg s (.message ws now (.probeError q error)) := by
  intro k
  generalize hs0 : s.note (.recv ws.peerId (.probeError q error)
    (s.negotiationMet ws.peerId (.probeError q error))) = s0
  have hactive0 : s0.activeNegotiations = s.activeNegotiations := by rw [← hs0]; rfl
  have hhealth0 : s0.pairHealthMap = s.pairHealthMap := by rw [← hs0]; rfl
  have hstep : step cfg s (.message ws now (.probeError q error)) =
      s0.handleProbeError ws.peerId q := by rw [← hs0]; rfl
  rw [hstep]
  unfold handleProbeError
  simp only [hactive0]
  have habort : ∀ t : ServerState, (t.abortNegotiation (pairKey ws.peerId q) .timeout).pairHealthMap =
      t.pairHealthMap := fun t => congrArg Records.health (records_abortNegotiation t _ .timeout)
  cases hg : s.activeNegotiations.get? (pairKey ws.peerId q) with
  | none =>
    rw [directEnd_error, hg, Option.bind_none, ite_self, map_endHealth_none, hhealth0]
    exact ⟨rfl, by simp⟩
  | some neg =>
    simp only [habort]
    have hend : directEnd s k (.message ws now (.probeError q error)) =
        if pairKey ws.peerId q = k ∧ neg.type = .directProbe then some false else none := by
      rw [directEnd_error, hg, Option.bind_some, ite_and]
    rw [hend]
    by_cases htype : neg.type = .directProbe
    · simp only [htype, if_true, and_true]
      rw [get?_updateHealth, hhealth0, get?_abortNegotiation, updateHealth_active, hactive0]
      refine ⟨?_, fun hsome => ?_⟩
      · split
        · rfl
        · rw [map_endHealth_none]
      · split at hsome
        · rename_i hk
          subst hk
          exact ⟨⟨neg, hg, htype⟩, by simp⟩
        · cases hsome
    · simp only [htype, and_false, if_false, map_endHealth_none, hhealth0]
      exact ⟨trivial, by simp⟩

/-! ## Force mode -/

/-- A force-mode command writes the one record of its pair. -/
theorem forceMode_health (cfg : Config) (p q : PeerId) (mode : ForceCommand) {key : PairKey}
    {h h' : PairHealth} (hg : s.pairHealthMap.get? key = some h)
    (hg' : (step cfg s (.forceMode p q mode)).pairHealthMap.get? key = some h') :
    h'.hid = h.hid ∧
      h'.directProbeBackoff = nextBackoff cfg s key (.forceMode p q mode) h.directProbeBackoff := by
  simp only [step, postForceMode] at hg'
  cases hp : s.db.peers.get? p with
  | none =>
    simp only [hp] at hg'
    rw [hg] at hg'
    cases hg'
    have hclear : clearsForce s key (.forceMode p q mode) = false := by
      cases mode <;> simp [clearsForce, hp]
    simp [nextBackoff, hclear, directEnd]
  | some rowP =>
    cases hq : s.db.peers.get? q with
    | none =>
      simp only [hp, hq] at hg'
      rw [hg] at hg'
      cases hg'
      have hclear : clearsForce s key (.forceMode p q mode) = false := by
        cases mode <;> simp [clearsForce, hp, hq]
      simp [nextBackoff, hclear, directEnd]
    | some rowQ =>
      simp only [hp, hq] at hg'
      split at hg'
      · rename_i hnet
        have hhealth : (s.abortForForce (pairKey p q)).pairHealthMap = s.pairHealthMap :=
          congrArg Records.health (records_abortForForce s (pairKey p q))
        simp only [handleForceMode, getOrCreateHealth, hhealth] at hg'
        have hsend : ∀ (t : ServerState) (n : Option Nat) (x : PeerId) (m : ServerMsg),
            (t.sendMsg n x m).pairHealthMap = t.pairHealthMap := fun t n x m =>
          congrArg Records.health (records_sendMsg t n x m)
        rw [hsend, hsend] at hg'
        by_cases hkey : pairKey p q = key
        · simp only [hkey, hg, note, putHealth, OMap.get?_set_self, Option.some.injEq] at hg'
          subst hg'
          cases mode with
          | auto =>
            have hclear : clearsForce s key (.forceMode p q .auto) = true := by
              simp [clearsForce, hp, hq, hnet, hkey]
            simp [nextBackoff, hclear, forceHealth]
          | force m => simp [nextBackoff, clearsForce, directEnd, forceHealth]
        · have hclear : clearsForce s key (.forceMode p q mode) = false := by
            cases mode <;> simp [clearsForce, hp, hq, hkey]
          have hsame : s.pairHealthMap.get? key = some h' := by
            simp only [note, putHealth] at hg'
            rw [OMap.get?_set_ne _ _ hkey] at hg'
            split at hg'
            · rw [← hg', hhealth]
            · rw [← hg', OMap.get?_set_ne _ _ hkey]
          rw [hg] at hsame
          cases hsame
          simp [nextBackoff, hclear, directEnd]
      · rename_i hnet
        rw [hg] at hg'
        cases hg'
        have hclear : clearsForce s key (.forceMode p q mode) = false := by
          cases mode <;> simp [clearsForce, hp, hq, hnet]
        simp [nextBackoff, hclear, directEnd]

/-! ## The law -/

theorem nextBackoff_endHealth {e : Event} {key : PairKey} (hclear : clearsForce s key e = false)
    (cfg : Config) (h : PairHealth) :
    (endHealth cfg (directEnd s key e) h).hid = h.hid ∧
      (endHealth cfg (directEnd s key e) h).directProbeBackoff =
        nextBackoff cfg s key e h.directProbeBackoff := by
  unfold nextBackoff
  rw [hclear, if_neg Bool.false_ne_true]
  cases directEnd s key e with
  | none => exact ⟨rfl, rfl⟩
  | some both => cases both <;> exact ⟨rfl, rfl⟩

theorem WritesEnd.law {cfg : Config} {e : Event} (hwrites : WritesEnd cfg s e)
    (hclear : ∀ key, clearsForce s key e = false) (key : PairKey) {h h' : PairHealth}
    (hg : s.pairHealthMap.get? key = some h)
    (hg' : (step cfg s e).pairHealthMap.get? key = some h') :
    h'.hid = h.hid ∧ h'.directProbeBackoff = nextBackoff cfg s key e h.directProbeBackoff := by
  rw [(hwrites key).1, hg, Option.map_some, Option.some.injEq] at hg'
  rw [← hg']
  exact nextBackoff_endHealth (hclear key) cfg h

/-- An event that neither ends a direct probe nor is a command nor removes records. -/
theorem quiet_backoff {cfg : Config} {e : Event} (hrestart : e ≠ .restart)
    (hback : e.mayBackOff = false) (hforce : ∀ p q m, e ≠ .forceMode p q m)
    (hreap : ∀ now fails, e ≠ .reap now fails) {key : PairKey} {h h' : PairHealth}
    (hg : s.pairHealthMap.get? key = some h)
    (hg' : (step cfg s e).pairHealthMap.get? key = some h') :
    h'.hid = h.hid ∧ h'.directProbeBackoff = h.directProbeBackoff := by
  obtain ⟨h1, hg1, hsame⟩ := keeps_steps (recordSteps_of_step hrestart) hback hforce hreap hg
  cases hg'.symm.trans hg1
  exact hsame

theorem backoffLaw_of_tableInv (cfg : Config) (hi : TableInv s) : BackoffLaw cfg s := by
  intro e hrestart key
  cases e with
  | timer id =>
    have hwrites := writesEnd_timer cfg hi id
    exact ⟨fun h h' => hwrites.law (fun _ => rfl) key, (hwrites key).2⟩
  | message ws now msg =>
    cases msg with
    | probeDirectResult q success =>
      have hwrites := writesEnd_result (s := s) cfg ws now q success
      exact ⟨fun h h' => hwrites.law (fun _ => rfl) key, (hwrites key).2⟩
    | probeError q error =>
      have hwrites := writesEnd_error (s := s) cfg ws now q error
      exact ⟨fun h h' => hwrites.law (fun _ => rfl) key, (hwrites key).2⟩
    | _ => exact ⟨fun h h' => quiet_backoff hrestart rfl (by simp) (by simp), by simp [directEnd]⟩
  | forceMode p q mode => exact ⟨fun h h' => forceMode_health cfg p q mode, by simp [directEnd]⟩
  | reap now fails =>
    refine ⟨fun h h' hg hg' => ?_, by simp [directEnd]⟩
    cases hg.symm.trans (reap_health now fails hg')
    exact ⟨rfl, rfl⟩
  | restart => exact absurd rfl hrestart
  | _ => exact ⟨fun h h' => quiet_backoff hrestart rfl (by simp) (by simp), by simp [directEnd]⟩

/-! ## Runs -/

/-- What every record step keeps and a restart keeps holds after every run. -/
theorem records_exec {cfg : Config} {I : Records → Prop} (db : Db)
    (hinit : I (ServerState.init db).records)
    (hstep : ∀ e r r', RecordStep cfg e r r' → I r → I r')
    (hrestart : ∀ t : ServerState, I t.records → I (step cfg t .restart).records)
    (es : List Event) : I (exec cfg db es).records := by
  refine run_invariant (step cfg) (I := fun t : ServerState => I t.records) ?_ hinit es
  intro t e ht
  by_cases he : e = .restart
  · exact he ▸ hrestart t ht
  · have hsteps : Relation.ReflTransGen (RecordStep cfg e) t.records (step cfg t e).records :=
      recordSteps_of_step he
    generalize (step cfg t e).records = r' at hsteps ⊢
    induction hsteps with
    | refl => exact ht
    | tail _ hlast ih => exact hstep e _ _ hlast ih

theorem bounds_exec {cfg : Config} (hpos : 0 < cfg.directProbeBackoffInitMs)
    (hmax : cfg.directProbeBackoffInitMs ≤ DIRECT_PROBE_BACKOFF_MAX_MS) (db : Db)
    (es : List Event) : BackoffBounds cfg (exec cfg db es) :=
  records_exec (I := BoundedRecords cfg) db (fun key h hg => by cases hg)
    (fun e r r' hstep h => hstep.bounded h hpos hmax) (fun t _ key h hg => by cases hg) es

theorem spaceInv_exec (cfg : Config) (db : Db) (es : List Event) :
    SpaceInv (exec cfg db es).records :=
  records_exec db ⟨rfl, fun key h hg => by cases hg⟩ (fun e r r' hstep h => hstep.spaceInv h)
    (fun t h => ⟨h.spaced, fun key x hg => by cases hg⟩) es

/-! ## Top theorem -/

/-- **The backoff of direct probes follows its schedule.** -/
theorem backoff_schedule (cfg : Config) (db : Db) (es : List Event) (hids : IdsOk es) :
    (0 < cfg.directProbeBackoffInitMs →
        cfg.directProbeBackoffInitMs ≤ DIRECT_PROBE_BACKOFF_MAX_MS →
        BackoffBounds cfg (exec cfg db es)) ∧
      BackoffLaw cfg (exec cfg db es) ∧
      Spaced (exec cfg db es).log :=
  ⟨fun hpos hmax => bounds_exec hpos hmax db es,
    backoffLaw_of_tableInv cfg (tableInv_exec cfg db hids),
    spaced_of_each (spaceInv_exec cfg db es).spaced⟩

/-- The direct probe of the run times out: the backoff doubles. -/
theorem backoff_schedule_directProbeRun :
    let s := exec {} twoPeers directProbeRun
    BackoffBounds {} s ∧ Spaced s.log ∧
      ∃ h h', s.pairHealthMap.get? (pairKey peerOne peerTwo) = some h ∧
        (step {} s (.timer 2)).pairHealthMap.get? (pairKey peerOne peerTwo) = some h' ∧
        h.directProbeBackoff = 30000 ∧ h'.directProbeBackoff = 60000 := by
  intro s
  obtain ⟨hbounds, hlaw, hspaced⟩ := backoff_schedule {} twoPeers directProbeRun (by decide)
  obtain ⟨h, hget⟩ := Option.isSome_iff_exists.mp
    (show (s.pairHealthMap.get? (pairKey peerOne peerTwo)).isSome = true by decide +kernel)
  obtain ⟨h', hget'⟩ := Option.isSome_iff_exists.mp
    (show ((step {} s (.timer 2)).pairHealthMap.get? (pairKey peerOne peerTwo)).isSome = true by
      decide +kernel)
  have hold : ∀ x ∈ s.pairHealthMap.get? (pairKey peerOne peerTwo), x.directProbeBackoff = 30000 := by
    decide +kernel
  have hdoubles : nextBackoff {} s (pairKey peerOne peerTwo) (.timer 2) 30000 = 60000 := by
    decide +kernel
  refine ⟨hbounds (by decide) (by decide), hspaced, h, h', hget, hget', hold h hget, ?_⟩
  obtain ⟨-, hnext⟩ := (hlaw (.timer 2) (by simp) _).1 h h' hget hget'
  rw [hnext, hold h hget, hdoubles]

end

end Meshezia
