import Meshezia.Lib.History
import Meshezia.Server.Records
import Meshezia.Server.PairKey

/-!
# Relay probes start on sustained two-sided loss

`lossStreak cfg p q log` counts, in the history, the eligible dead entries of `p` about
`q` since the last thing that resets them.  In every reachable state the two counters
of a health record are the loss streaks of its two sides (`StreaksTrack`), and the
processing of a report entry starts a relay probe exactly when the entry is eligible,
both loss streaks have reached the threshold and nothing stands in the way (`MayProbe`).

    TimesPositive es → StreaksTrack cfg (exec cfg db es) ∧ …   (relay_probe_on_sustained_loss)
-/

namespace Meshezia

open ServerState Relation

/-! ## What is claimed -/

/-- When `p` first reported about `q` on the present health record of the pair. -/
def joinTime (p q : PeerId) : List TraceItem → Option Int
  | [] => none
  | it :: earlier =>
    match it with
    | .healthCreated key => if key = pairKey p q then none else joinTime p q earlier
    | .entry x y now _ _ =>
      if x = p ∧ y = q then some ((joinTime p q earlier).getD now) else joinTime p q earlier
    | _ => joinTime p q earlier

/-- `rxAlive` of an eligible entry of `p` about `q`: past the grace period, not in relay mode. -/
def eligible (cfg : Config) (p q : PeerId) (it : TraceItem) (earlier : List TraceItem) :
    Option Bool :=
  match it with
  | .entry x y now mode rxAlive =>
    if (x = p ∧ y = q) ∧ mode ≠ .relay ∧
        cfg.gracePeriodMs ≤ now - (joinTime p q earlier).getD now then some rxAlive
    else none
  | _ => none

/-- What sets the streak of `p` about `q` back to 0. -/
def resetsStreak (cfg : Config) (p q : PeerId) (it : TraceItem) (earlier : List TraceItem) : Bool :=
  match it with
  | .relayResult key => decide (key = pairKey p q)
  | .forced key _ => decide (key = pairKey p q)
  | .healthCreated key => decide (key = pairKey p q)
  | it => decide (eligible cfg p q it earlier = some true)

def countsLoss (cfg : Config) (p q : PeerId) (it : TraceItem) (earlier : List TraceItem) : Bool :=
  decide (eligible cfg p q it earlier = some false)

def lossStreak (cfg : Config) (p q : PeerId) (log : List TraceItem) : Nat :=
  countSince (resetsStreak cfg p q) (countsLoss cfg p q) log

/-- The first peer of `pairKey p q` is `p`. -/
def onSideA (p q : PeerId) : Bool := decide (p = (parsePairKey (pairKey p q)).1)

def streakOf (h : PairHealth) (isA : Bool) : Nat := if isA then h.streakAB else h.streakBA

def joinedOf (h : PairHealth) (isA : Bool) : Option Int := if isA then h.joinedAtA else h.joinedAtB

/-- The counters of every health record are the loss streaks of its sides. -/
def StreaksTrack (cfg : Config) (s : ServerState) : Prop :=
  ∀ p q, ColonFree p → ColonFree q → p ≠ q → ∀ h, s.pairHealthMap.get? (pairKey p q) = some h →
    streakOf h (onSideA p q) = lossStreak cfg p q s.log

def Event.timeOk : Event → Prop
  | .message _ now _ => 0 < now
  | _ => True

def TimesPositive (es : List Event) : Prop := ∀ e ∈ es, e.timeOk

instance : (e : Event) → Decidable e.timeOk
  | .message _ now _ => inferInstanceAs (Decidable (0 < now))
  | .open _ => isTrue trivial
  | .close _ => isTrue trivial
  | .timer _ => isTrue trivial
  | .sweep _ => isTrue trivial
  | .reap _ _ => isTrue trivial
  | .forceMode _ _ _ => isTrue trivial
  | .api _ => isTrue trivial
  | .restart => isTrue trivial

instance (es : List Event) : Decidable (TimesPositive es) :=
  inferInstanceAs (Decidable (∀ e ∈ es, e.timeOk))

/-- The state in which `handleHealthReport` has processed the entries `pre` of `reports`. -/
def afterEntries (cfg : Config) (s : ServerState) (p : PeerId) (now : Int)
    (reports pre : List HealthReport) : ServerState :=
  pre.foldl (handleReportEntry cfg p now) { s with db := upsertReports s.db p reports now }

theorem handleHealthReport_split (cfg : Config) (s : ServerState) (p : PeerId) (now : Int)
    (pre : List HealthReport) (r : HealthReport) (post : List HealthReport) :
    s.handleHealthReport cfg p (pre ++ r :: post) now =
      post.foldl (handleReportEntry cfg p now)
        (handleReportEntry cfg p now (afterEntries cfg s p now (pre ++ r :: post) pre) r) := by
  simp [handleHealthReport, afterEntries, List.foldl_append]

/-- The entry as an item of the history, and the history before it. -/
def entryItem (p : PeerId) (now : Int) (r : HealthReport) : TraceItem :=
  .entry p r.peerId now r.mode r.rxAlive

def logBefore (cfg : Config) (t : ServerState) (p q : PeerId) : List TraceItem :=
  (getOrCreateHealth cfg t (pairKey p q)).2.log

/-- Nothing stands in the way of a relay probe of `p` and `q`. -/
structure MayProbe (cfg : Config) (t : ServerState) (p q : PeerId) : Prop where
  free : t.activeNegotiations.get? (pairKey p q) = none
  cached : ∀ h, t.pairHealthMap.get? (pairKey p q) = some h → h.forcedMode = none
  row : getForcedModeFromDb cfg t p q = none
  connected : t.isConnected p = true ∧ t.isConnected q = true
  relay : ∃ peer network, t.lookupPeer p = some peer ∧
    t.db.networks.get? peer.networkId = some network ∧ network.relayEnabled ≠ 0

/-- From `t` to `t'` a relay probe starts at `key`. -/
def StartsRelayProbe (key : PairKey) (t t' : ServerState) : Prop :=
  ∃ neg, t'.activeNegotiations.get? key = some neg ∧ neg.type = .relayProbe ∧
    t.activeNegotiations.get? key ≠ some neg

/-! ## Items and loss streaks -/

theorem lossStreak_entry_self (cfg : Config) (p q : PeerId) (now : Int) (mode : Mode)
    (rxAlive : Bool) (log : List TraceItem) :
    lossStreak cfg p q (.entry p q now mode rxAlive :: log) =
      if mode ≠ .relay ∧ cfg.gracePeriodMs ≤ now - (joinTime p q log).getD now then
        if rxAlive then 0 else lossStreak cfg p q log + 1
      else lossStreak cfg p q log := by
  unfold lossStreak
  rw [countSince]
  by_cases he : mode ≠ .relay ∧ cfg.gracePeriodMs ≤ now - (joinTime p q log).getD now
  · rw [if_pos he]
    cases rxAlive <;> simp [resetsStreak, countsLoss, eligible, he]
  · rw [if_neg he]
    simp [resetsStreak, countsLoss, eligible, he]

/-- An item that is not about the pair changes neither join times nor streaks. -/
def AboutOther (p q : PeerId) : TraceItem → Prop
  | .relayResult key => key ≠ pairKey p q
  | .forced key _ => key ≠ pairKey p q
  | .healthCreated key => key ≠ pairKey p q
  | .entry x y _ _ _ => ¬ (x = p ∧ y = q)
  | _ => True

theorem lossStreak_other {cfg : Config} {p q : PeerId} {it : TraceItem} (h : AboutOther p q it)
    (log : List TraceItem) : lossStreak cfg p q (it :: log) = lossStreak cfg p q log := by
  refine countSince_append (k := [it]) (fun it' hit earlier => ?_) log
  rw [List.mem_singleton.mp hit]
  cases it <;> simp_all [AboutOther, resetsStreak, countsLoss, eligible]

theorem joinTime_other {p q : PeerId} {it : TraceItem} (h : AboutOther p q it)
    (log : List TraceItem) : joinTime p q (it :: log) = joinTime p q log := by
  cases it <;> simp_all [AboutOther, joinTime]

theorem lossStreak_reset {cfg : Config} {p q : PeerId} {it : TraceItem}
    (h : ∀ log, resetsStreak cfg p q it log = true) (log : List TraceItem) :
    lossStreak cfg p q (it :: log) = 0 := by
  simp [lossStreak, countSince, h]

/-! ## One record -/

/-- One side of a record and the history agree. -/
structure SideTracks (cfg : Config) (log : List TraceItem) (p q : PeerId) (h : PairHealth) :
    Prop where
  joined : joinedOf h (onSideA p q) = joinTime p q log
  streak : streakOf h (onSideA p q) = lossStreak cfg p q log

structure HealthInv (cfg : Config) (r : Records) : Prop where
  sides : ∀ p q, ColonFree p → ColonFree q → p ≠ q → ∀ h,
    r.health.get? (pairKey p q) = some h → SideTracks cfg r.log p q h
  joinPos : ∀ p q, joinTime p q r.log ≠ some 0

theorem onSideA_swap {p q : PeerId} (hp : ColonFree p) (hq : ColonFree q) (hne : p ≠ q) :
    onSideA q p = !onSideA p q := by
  unfold onSideA
  rw [pairKey_comm q p]
  rcases parsePairKey_pairKey hp hq with e | e <;> rw [e] <;> simp [hne, hne.symm]

theorem joinedOf_recordJoin (h : PairHealth) (isA : Bool) (now : Int) :
    joinedOf (recordJoin h isA now) isA = some ((joinedOf h isA).getD now) ∧
      joinedOf (recordJoin h isA now) (!isA) = joinedOf h (!isA) := by
  cases isA <;> cases hA : h.joinedAtA <;> cases hB : h.joinedAtB <;>
    simp [recordJoin, joinedOf, hA, hB]

theorem streakOf_recordJoin (h : PairHealth) (isA side : Bool) (now : Int) :
    streakOf (recordJoin h isA now) side = streakOf h side := by
  unfold recordJoin
  split
  · rfl
  · split <;> rfl

theorem streakOf_updateStreak (h : PairHealth) (isA rxAlive : Bool) :
    streakOf (updateStreak h isA rxAlive) isA = (if rxAlive then 0 else streakOf h isA + 1) ∧
      streakOf (updateStreak h isA rxAlive) (!isA) = streakOf h (!isA) := by
  cases isA <;> cases rxAlive <;> simp [updateStreak, streakOf]

theorem joinedOf_updateStreak (h : PairHealth) (isA side rxAlive : Bool) :
    joinedOf (updateStreak h isA rxAlive) side = joinedOf h side := by
  cases isA <;> cases rxAlive <;> cases side <;> rfl

theorem inGracePeriod_eq (cfg : Config) {h : PairHealth} {isA : Bool} {joinedAt : Int}
    (hj : joinedOf h isA = some joinedAt) (hne : joinedAt ≠ 0) (now : Int) :
    inGracePeriod cfg h isA now = decide (now - joinedAt < cfg.gracePeriodMs) := by
  unfold joinedOf at hj
  simp [inGracePeriod, hj, hne]

/-- The other side of the record of an entry stays. -/
theorem entryHealth_otherSide (cfg : Config) (h : PairHealth) (isA : Bool) (now : Int) (mode : Mode)
    (rxAlive : Bool) :
    joinedOf (entryHealth cfg h isA now mode rxAlive) (!isA) = joinedOf h (!isA) ∧
      streakOf (entryHealth cfg h isA now mode rxAlive) (!isA) = streakOf h (!isA) := by
  have hj := (joinedOf_recordJoin h isA now).2
  have hs := streakOf_recordJoin h isA (!isA) now
  unfold entryHealth
  simp only []
  split
  · exact ⟨hj, hs⟩
  · split
    · exact ⟨hj, hs⟩
    · exact ⟨by rw [joinedOf_updateStreak, hj], by rw [(streakOf_updateStreak _ _ _).2, hs]⟩

/-- The side an entry comes from follows the history. -/
theorem entryHealth_ownSide (cfg : Config) {p q : PeerId} {h : PairHealth} {log : List TraceItem}
    (hside : SideTracks cfg log p q h) (hpos : joinTime p q log ≠ some 0) {now : Int}
    (hnow : now ≠ 0) (mode : Mode) (rxAlive : Bool) :
    SideTracks cfg (.entry p q now mode rxAlive :: log) p q
      (entryHealth cfg h (onSideA p q) now mode rxAlive) := by
  have hj := (joinedOf_recordJoin h (onSideA p q) now).1
  rw [hside.joined] at hj
  have hs := streakOf_recordJoin h (onSideA p q) (onSideA p q) now
  rw [hside.streak] at hs
  have hne : (joinTime p q log).getD now ≠ 0 := by
    cases hjoin : joinTime p q log with
    | none => exact hnow
    | some t =>
      intro e
      exact hpos (by rw [hjoin]; exact congrArg some e)
  have hjoinItem : joinTime p q (.entry p q now mode rxAlive :: log) =
      some ((joinTime p q log).getD now) := by simp [joinTime]
  constructor
  · rw [hjoinItem]
    unfold entryHealth
    simp only []
    split
    · exact hj
    · split
      · exact hj
      · rw [joinedOf_updateStreak]; exact hj
  · rw [lossStreak_entry_self]
    unfold entryHealth
    simp only [inGracePeriod_eq cfg hj hne, decide_eq_true_eq]
    by_cases hgrace : now - (joinTime p q log).getD now < cfg.gracePeriodMs
    · rw [if_pos hgrace, if_neg (fun hc => by omega)]
      exact hs
    · rw [if_neg hgrace]
      by_cases hmode : mode = .relay
      · rw [if_pos hmode, if_neg (fun hc => hc.1 hmode)]
        exact hs
      · rw [if_neg hmode, if_pos ⟨hmode, by omega⟩, (streakOf_updateStreak _ _ _).1, hs]

/-! ## Every step -/

section
variable {cfg : Config} {e : Event} {r r' : Records}

/-- Steps that leave the history alone and the streaks and join times of every record. -/
theorem HealthInv.same (h : HealthInv cfg r) (hlog : r'.log = r.log)
    (hrec : ∀ k h', r'.health.get? k = some h' → ∃ h0, r.health.get? k = some h0 ∧
      ∀ side, streakOf h' side = streakOf h0 side ∧ joinedOf h' side = joinedOf h0 side) :
    HealthInv cfg r' where
  sides := by
    intro p q hp hq hne h' hg
    obtain ⟨h0, hg0, hsame⟩ := hrec _ h' hg
    obtain ⟨h1, h2⟩ := h.sides p q hp hq hne h0 hg0
    rw [hlog]
    exact ⟨by rw [(hsame _).2, h1], by rw [(hsame _).1, h2]⟩
  joinPos := by rw [hlog]; exact h.joinPos

/-- A change at one key that keeps streaks and join times. -/
theorem HealthInv.same_set (h : HealthInv cfg r) {key : PairKey} {h0 g : PairHealth}
    (hg0 : r.health.get? key = some h0)
    (hsame : ∀ side, streakOf g side = streakOf h0 side ∧ joinedOf g side = joinedOf h0 side)
    (db : Db) : HealthInv cfg ⟨r.health.set key g, db, r.log⟩ := by
  refine h.same rfl fun k x hg => ?_
  rcases OMap.get?_set_cases hg with ⟨rfl, rfl⟩ | ⟨-, hg⟩
  · exact ⟨h0, hg0, hsame⟩
  · exact ⟨x, hg, fun _ => ⟨rfl, rfl⟩⟩

/-- An item that says nothing about any side. -/
theorem HealthInv.note (h : HealthInv cfg r) {i : TraceItem}
    (hother : ∀ p q, AboutOther p q i) : HealthInv cfg ⟨r.health, r.db, i :: r.log⟩ where
  sides := by
    intro p q hp hq hne x hg
    obtain ⟨h1, h2⟩ := h.sides p q hp hq hne x hg
    exact ⟨by rw [joinTime_other (hother p q), h1], by rw [lossStreak_other (hother p q), h2]⟩
  joinPos := fun p q => by rw [joinTime_other (hother p q)]; exact h.joinPos p q

/-- The streaks of one key are reset, in the record and in the history. -/
theorem HealthInv.reset (h : HealthInv cfg r) {key : PairKey} {it : TraceItem}
    {health : OMap PairKey PairHealth} (db : Db)
    (hself : ∀ p q, key = pairKey p q → (∀ log, resetsStreak cfg p q it log = true) ∧
      ∀ log, joinTime p q (it :: log) = joinTime p q log)
    (hother : ∀ p q, key ≠ pairKey p q → AboutOther p q it)
    (hkey : ∀ h', health.get? key = some h' → ∃ h0, r.health.get? key = some h0 ∧
      ∀ side, streakOf h' side = 0 ∧ joinedOf h' side = joinedOf h0 side)
    (hne : ∀ k, key ≠ k → health.get? k = r.health.get? k) :
    HealthInv cfg ⟨health, db, it :: r.log⟩ where
  sides := by
    intro p q hp hq hpq x hg
    by_cases hk : key = pairKey p q
    · obtain ⟨h0, hg0, hzero⟩ := hkey x (hk ▸ hg)
      obtain ⟨h1, -⟩ := h.sides p q hp hq hpq h0 (hk ▸ hg0)
      obtain ⟨hreset, hjoin⟩ := hself p q hk
      exact ⟨by rw [(hzero _).2, h1, hjoin], by rw [(hzero _).1, lossStreak_reset hreset]⟩
    · rw [hne _ hk] at hg
      obtain ⟨h1, h2⟩ := h.sides p q hp hq hpq x hg
      exact ⟨by rw [joinTime_other (hother p q hk), h1], by
        rw [lossStreak_other (hother p q hk), h2]⟩
  joinPos := by
    intro p q
    by_cases hk : key = pairKey p q
    · rw [(hself p q hk).2]; exact h.joinPos p q
    · rw [joinTime_other (hother p q hk)]; exact h.joinPos p q

/-- A new record. -/
theorem HealthInv.created (h : HealthInv cfg r) (key : PairKey) (hid : Nat) (backoff : Int) :
    HealthInv cfg ⟨r.health.set key { hid, directProbeBackoff := backoff }, r.db,
      .healthCreated key :: r.log⟩ where
  sides := by
    intro p q hp hq hne x hg
    rcases OMap.get?_set_cases hg with ⟨rfl, rfl⟩ | ⟨hk, hg⟩
    · constructor
      · unfold joinedOf
        simp [joinTime]
      · rw [lossStreak_reset fun log => by simp [resetsStreak]]
        unfold streakOf
        simp
    · have hother : AboutOther p q (.healthCreated key) := hk
      obtain ⟨h1, h2⟩ := h.sides p q hp hq hne x hg
      exact ⟨by rw [joinTime_other hother, h1], by rw [lossStreak_other hother, h2]⟩
  joinPos := by
    intro p q
    unfold joinTime
    simp only []
    split
    · simp
    · exact h.joinPos p q

/-- An entry of `x` about `y`. -/
theorem HealthInv.entered (h : HealthInv cfg r) {x y : PeerId} {now : Int} (hnow : now ≠ 0)
    (mode : Mode) (rxAlive : Bool) {h0 : PairHealth}
    (hg0 : r.health.get? (pairKey x y) = some h0) :
    HealthInv cfg ⟨r.health.set (pairKey x y) (entryHealth cfg h0 (onSideA x y) now mode rxAlive),
      r.db, .entry x y now mode rxAlive :: r.log⟩ where
  sides := by
    intro p q hp hq hne h' hg
    rcases OMap.get?_set_cases hg with ⟨hk, rfl⟩ | ⟨hk, hg⟩
    · have hfree := colonFree_of_pairKey_eq hp hq hk
      rcases pairKey_inj hfree.1 hfree.2 hp hq hk with ⟨rfl, rfl⟩ | ⟨rfl, rfl⟩
      · exact entryHealth_ownSide cfg (h.sides x y hp hq hne h0 hg0) (h.joinPos x y) hnow mode
          rxAlive
      · -- the entry comes from the other side
        have hother : AboutOther y x (.entry x y now mode rxAlive) := fun he => hne he.2
        obtain ⟨h1, h2⟩ := h.sides y x hp hq hne h0 (by rw [pairKey_comm]; exact hg0)
        obtain ⟨hj, hs⟩ := entryHealth_otherSide cfg h0 (onSideA x y) now mode rxAlive
        rw [← onSideA_swap hq hp hne.symm] at hj hs
        exact ⟨by rw [hj, h1, joinTime_other hother], by rw [hs, h2, lossStreak_other hother]⟩
    · have hother : AboutOther p q (.entry x y now mode rxAlive) := by
        rintro ⟨rfl, rfl⟩
        exact hk rfl
      obtain ⟨h1, h2⟩ := h.sides p q hp hq hne h' hg
      exact ⟨by rw [joinTime_other hother, h1], by rw [lossStreak_other hother, h2]⟩
  joinPos := by
    intro p q
    unfold joinTime
    simp only []
    split
    · cases hj : joinTime p q r.log with
      | none => simpa using hnow
      | some t =>
        have := h.joinPos p q
        rw [hj] at this
        exact this
    · exact h.joinPos p q

/-- **One record step.** -/
theorem RecordStep.healthInv (step : RecordStep cfg e r r') (h : HealthInv cfg r)
    (htime : e.timeOk) : HealthInv cfg r' := by
  cases step with
  | created key hid free live => exact h.created key hid _
  | entered p q now mode rxAlive h0 found event =>
    obtain ⟨ws, reports, rfl, -⟩ := event
    have hnow : (0 : Int) < now := htime
    exact h.entered (by omega) mode rxAlive found
  | synced p q h0 row m found read forced =>
    exact h.same_set (g := { h0 with forcedMode := some m }) found (fun _ => ⟨rfl, rfl⟩) r.db
  | relayStarted p q h0 n now found cached read => exact h.note fun _ _ => trivial
  | directStarted p q h0 n now found row due =>
    exact (h.same_set (g := { h0 with lastDirectProbeAt := now }) found (fun _ => ⟨rfl, rfl⟩)
      r.db).note (i := .started (pairKey p q) n .directProbe now h0.directProbeBackoff)
        fun _ _ => trivial
  | answered key =>
    refine h.reset r.db (fun p q hk => ⟨fun log => by simp [resetsStreak, hk], fun _ => rfl⟩)
      (fun p q hk => hk) ?_ ?_
    · intro h' hg
      split at hg
      · rename_i h0 hg0
        rw [OMap.get?_set_self] at hg
        cases hg
        exact ⟨h0, hg0, fun side => by cases side <;> exact ⟨rfl, rfl⟩⟩
      · rename_i hnone
        rw [hnone] at hg
        cases hg
    · intro k hk
      split
      · exact OMap.get?_set_ne _ _ hk
      · rfl
  | backedOff key h0 h' found event back =>
    refine h.same_set found (fun _ => ?_) r.db
    rcases back with rfl | rfl <;> exact ⟨rfl, rfl⟩
  | forced p q mode h0 found event =>
    refine h.reset _ (fun x y hk => ⟨fun log => by simp [resetsStreak, hk], fun _ => rfl⟩)
      (fun x y hk => hk) ?_ (fun k hk => OMap.get?_set_ne _ _ hk)
    intro h' hg
    rw [OMap.get?_set_self] at hg
    cases hg
    exact ⟨h0, found, fun side => by cases mode <;> cases side <;> exact ⟨rfl, rfl⟩⟩
  | reported p reports now => exact h.same rfl fun k x hg => ⟨x, hg, fun _ => ⟨rfl, rfl⟩⟩
  | forgot p event =>
    refine h.same rfl fun k x hg => ⟨x, ?_, fun _ => ⟨rfl, rfl⟩⟩
    rw [OMap.get?_filter] at hg
    exact (Option.filter_eq_some_iff.mp hg).1
  | deleted now event => exact h.same rfl fun k x hg => ⟨x, hg, fun _ => ⟨rfl, rfl⟩⟩
  | wrote w event => exact h.same rfl fun k x hg => ⟨x, hg, fun _ => ⟨rfl, rfl⟩⟩

theorem healthInv_steps (hsteps : ReflTransGen (RecordStep cfg e) r r') (h : HealthInv cfg r)
    (htime : e.timeOk) : HealthInv cfg r' := by
  induction hsteps with
  | refl => exact h
  | tail _ hstep ih => exact hstep.healthInv ih htime

end

/-! ## Starting a relay probe -/

theorem not_starts_of_active_eq {key : PairKey} {t t' : ServerState}
    (h : t'.activeNegotiations = t.activeNegotiations) : ¬ StartsRelayProbe key t t' := by
  rintro ⟨neg, hneg, -, hold⟩
  rw [h] at hneg
  exact hold hneg

theorem initiateRelayProbe_starts {t : ServerState} {key : PairKey}
    (hfree : t.activeNegotiations.get? key = none) (h : PairHealth) (now : Int) :
    StartsRelayProbe key t (t.initiateRelayProbe key h now) := by
  have hactive : ∀ (u : ServerState) (neg : Option Nat) p msg,
      (u.sendMsg neg p msg).activeNegotiations = u.activeNegotiations := by
    intro u neg p msg
    unfold sendMsg
    split <;> rfl
  unfold StartsRelayProbe initiateRelayProbe
  simp only [hactive, armTimeout, OMap.get?_set_self]
  exact ⟨_, rfl, rfl, by rw [hfree]; simp⟩

theorem relayEnabledFor_iff (t : ServerState) (p : PeerId) :
    t.relayEnabledFor p = true ↔ ∃ peer network, t.lookupPeer p = some peer ∧
      t.db.networks.get? peer.networkId = some network ∧ network.relayEnabled ≠ 0 := by
  unfold relayEnabledFor isRelayEnabledForNetwork
  cases hp : t.lookupPeer p with
  | none => simp
  | some peer =>
    cases hn : t.db.networks.get? peer.networkId with
    | none => simp [hn]
    | some network => simp [hn]

theorem shouldInitiateRelayProbe_active (cfg : Config) (t : ServerState) (p q : PeerId)
    (key : PairKey) (h : PairHealth) :
    (shouldInitiateRelayProbe cfg t p q key h).2.activeNegotiations = t.activeNegotiations := by
  unfold shouldInitiateRelayProbe
  simp only []
  repeat' split
  all_goals rfl

theorem shouldInitiateRelayProbe_iff (cfg : Config) (t : ServerState) (p q : PeerId)
    (key : PairKey) (h : PairHealth) :
    (shouldInitiateRelayProbe cfg t p q key h).1 = true ↔
      t.activeNegotiations.get? key = none ∧ h.forcedMode = none ∧
        getForcedModeFromDb cfg t p q = none ∧ (t.isConnected p = true ∧ t.isConnected q = true) ∧
          t.relayEnabledFor p = true := by
  rw [← OMap.has_eq_false_iff]
  unfold shouldInitiateRelayProbe
  cases t.activeNegotiations.has key <;> cases h.forcedMode <;>
    cases getForcedModeFromDb cfg t p q <;> cases t.isConnected p <;> cases t.isConnected q <;>
    cases t.relayEnabledFor p <;> simp

theorem checkStreaks_starts_iff (cfg : Config) (t : ServerState) (p q : PeerId) (key : PairKey)
    (h : PairHealth) (now : Int) :
    StartsRelayProbe key t (t.checkStreaks cfg p q key h now) ↔
      (h.streakAB ≥ STREAK_THRESHOLD ∧ h.streakBA ≥ STREAK_THRESHOLD) ∧
        (shouldInitiateRelayProbe cfg t p q key h).1 = true := by
  have hactive := shouldInitiateRelayProbe_active cfg t p q key h
  unfold checkStreaks
  by_cases hstreaks : h.streakAB ≥ STREAK_THRESHOLD ∧ h.streakBA ≥ STREAK_THRESHOLD
  · rw [if_pos hstreaks]
    have hiff := shouldInitiateRelayProbe_iff cfg t p q key h
    generalize shouldInitiateRelayProbe cfg t p q key h = answer at hactive hiff ⊢
    obtain ⟨start, t'⟩ := answer
    simp only at hactive hiff ⊢
    cases start with
    | false => simpa using not_starts_of_active_eq hactive
    | true =>
      have hfree : t'.activeNegotiations.get? key = none := by
        rw [hactive]
        exact (hiff.mp rfl).1
      obtain ⟨neg, h1, h2, h3⟩ := initiateRelayProbe_starts hfree h now
      exact ⟨fun _ => ⟨hstreaks, rfl⟩, fun _ => ⟨neg, h1, h2, by rw [← hactive]; exact h3⟩⟩
  · rw [if_neg hstreaks]
    exact ⟨fun hs => absurd hs (not_starts_of_active_eq rfl), fun hs => absurd hs.1 hstreaks⟩

theorem getOrCreateHealth_frame (cfg : Config) (t : ServerState) (key : PairKey) :
    (getOrCreateHealth cfg t key).2.activeNegotiations = t.activeNegotiations ∧
      (getOrCreateHealth cfg t key).2.connections = t.connections ∧
      (getOrCreateHealth cfg t key).2.db = t.db ∧
      ((getOrCreateHealth cfg t key).1.forcedMode = none ↔
        ∀ h, t.pairHealthMap.get? key = some h → h.forcedMode = none) := by
  unfold getOrCreateHealth
  cases hg : t.pairHealthMap.get? key with
  | none => simp
  | some h => simp

/-- What an entry does: it is noted and its record written, then, past the grace period
and out of relay mode, the streaks are checked. -/
theorem handleReportEntry_eq (cfg : Config) (p : PeerId) (now : Int) (t : ServerState)
    (r : HealthReport) :
    handleReportEntry cfg p now t r =
      let made := getOrCreateHealth cfg t (pairKey p r.peerId)
      let joined := recordJoin made.1 (onSideA p r.peerId) now
      let health := entryHealth cfg made.1 (onSideA p r.peerId) now r.mode r.rxAlive
      let t1 := (made.2.note (entryItem p now r)).putHealth (pairKey p r.peerId) health
      if inGracePeriod cfg joined (onSideA p r.peerId) now = true ∨ r.mode = .relay then t1
      else t1.checkStreaks cfg p r.peerId (pairKey p r.peerId) health now := by
  unfold handleReportEntry entryHealth
  simp only [onSideA]
  generalize getOrCreateHealth cfg t (pairKey p r.peerId) = made
  obtain ⟨health, t1⟩ := made
  simp only []
  by_cases hgrace : inGracePeriod cfg
      (recordJoin health (decide (p = (parsePairKey (pairKey p r.peerId)).1)) now)
      (decide (p = (parsePairKey (pairKey p r.peerId)).1)) now = true
  · simp [hgrace, entryItem]
  · by_cases hmode : r.mode = .relay
    · simp [hgrace, hmode, entryItem]
    · simp [hgrace, hmode, entryItem, putHealth]

/-- The entry is eligible exactly when the source goes on to the streaks. -/
theorem eligible_entry_iff {cfg : Config} {p : PeerId} {now : Int} {r : HealthReport}
    {h : PairHealth} {log : List TraceItem} (hside : SideTracks cfg log p r.peerId h)
    (hpos : joinTime p r.peerId log ≠ some 0) (hnow : now ≠ 0) :
    (eligible cfg p r.peerId (entryItem p now r) log).isSome ↔
      ¬ (inGracePeriod cfg (recordJoin h (onSideA p r.peerId) now) (onSideA p r.peerId) now = true ∨
        r.mode = .relay) := by
  have hj := (joinedOf_recordJoin h (onSideA p r.peerId) now).1
  rw [hside.joined] at hj
  have hne : (joinTime p r.peerId log).getD now ≠ 0 := by
    cases hjoin : joinTime p r.peerId log with
    | none => exact hnow
    | some t =>
      intro e
      exact hpos (by rw [hjoin]; exact congrArg some e)
  rw [inGracePeriod_eq cfg hj hne]
  by_cases hmode : r.mode = .relay
  · simp [eligible, entryItem, hmode]
  · by_cases hgrace : cfg.gracePeriodMs ≤ now - (joinTime p r.peerId log).getD now
    · simp [eligible, entryItem, hmode, hgrace]
    · simp only [eligible, entryItem, hgrace, and_false, if_false, Option.isSome_none,
        Bool.false_eq_true, false_iff, not_not]
      exact Or.inl (decide_eq_true (by omega))

/-- **The processing of one entry**, from any state whose records follow the history. -/
theorem handleReportEntry_starts_iff (cfg : Config) {t : ServerState}
    (hinv : HealthInv cfg t.records) {p : PeerId} {now : Int} {r : HealthReport} (hnow : 0 < now)
    (hp : ColonFree p) (hq : ColonFree r.peerId) (hne : p ≠ r.peerId) :
    StartsRelayProbe (pairKey p r.peerId) t (handleReportEntry cfg p now t r) ↔
      (eligible cfg p r.peerId (entryItem p now r) (logBefore cfg t p r.peerId)).isSome ∧
      (STREAK_THRESHOLD ≤
          lossStreak cfg p r.peerId (entryItem p now r :: logBefore cfg t p r.peerId) ∧
        STREAK_THRESHOLD ≤
          lossStreak cfg r.peerId p (entryItem p now r :: logBefore cfg t p r.peerId)) ∧
      MayProbe cfg t p r.peerId := by
  have hnow0 : now ≠ 0 := by omega
  obtain ⟨hget, hcreate⟩ := getOrCreateHealth_records (e := .message ⟨0, p⟩ now (.healthReport [r]))
    cfg t (pairKey p r.peerId) (by simp)
  have hinv1 := healthInv_steps hcreate hinv (show (0 : Int) < now from hnow)
  obtain ⟨hactive, hconn, hdb, hforced⟩ := getOrCreateHealth_frame cfg t (pairKey p r.peerId)
  rw [handleReportEntry_eq]
  unfold logBefore
  generalize getOrCreateHealth cfg t (pairKey p r.peerId) = made at *
  obtain ⟨h0, t0⟩ := made
  simp only at hget hinv1 hactive hconn hdb hforced ⊢
  have hside := hinv1.sides p r.peerId hp hq hne h0 hget
  have helig := eligible_entry_iff (r := r) hside (hinv1.joinPos p r.peerId) hnow0
  rw [show t0.records.log = t0.log from rfl] at helig
  rw [helig]
  have hinv2 := hinv1.entered hnow0 r.mode r.rxAlive hget
  have hlossP := (hinv2.sides p r.peerId hp hq hne _ (OMap.get?_set_self ..)).streak
  have hlossQ := (hinv2.sides r.peerId p hq hp hne.symm
    (entryHealth cfg h0 (onSideA p r.peerId) now r.mode r.rxAlive)
    (by rw [pairKey_comm]; exact OMap.get?_set_self ..)).streak
  rw [onSideA_swap hp hq hne] at hlossQ
  have hfm := entryHealth_forcedMode cfg h0 (onSideA p r.peerId) now r.mode r.rxAlive
  generalize entryHealth cfg h0 (onSideA p r.peerId) now r.mode r.rxAlive = h1 at *
  -- the two counters are the two loss streaks, on whichever side `p` is
  have hstreaks : (h1.streakAB ≥ STREAK_THRESHOLD ∧ h1.streakBA ≥ STREAK_THRESHOLD) ↔
      (STREAK_THRESHOLD ≤ lossStreak cfg p r.peerId (entryItem p now r :: t0.log) ∧
        STREAK_THRESHOLD ≤ lossStreak cfg r.peerId p (entryItem p now r :: t0.log)) := by
    have hP : streakOf h1 (onSideA p r.peerId) =
      lossStreak cfg p r.peerId (entryItem p now r :: t0.log) := hlossP
    have hQ : streakOf h1 (!onSideA p r.peerId) =
      lossStreak cfg r.peerId p (entryItem p now r :: t0.log) := hlossQ
    rw [← hP, ← hQ]
    cases onSideA p r.peerId <;> simp [streakOf, and_comm]
  rw [← hstreaks]
  by_cases hskip : inGracePeriod cfg (recordJoin h0 (onSideA p r.peerId) now)
      (onSideA p r.peerId) now = true ∨ r.mode = .relay
  · rw [if_pos hskip]
    exact ⟨fun hs => absurd hs (not_starts_of_active_eq hactive), fun hs => absurd hskip hs.1⟩
  · rw [if_neg hskip]
    generalize ht1 : (t0.note (entryItem p now r)).putHealth (pairKey p r.peerId) h1 = t1
    have hactive1 : t1.activeNegotiations = t.activeNegotiations := by rw [← ht1]; exact hactive
    have hconn1 : t1.connections = t.connections := by rw [← ht1]; exact hconn
    have hdb1 : t1.db = t.db := by rw [← ht1]; exact hdb
    have hsame : StartsRelayProbe (pairKey p r.peerId) t
        (t1.checkStreaks cfg p r.peerId (pairKey p r.peerId) h1 now) ↔
        StartsRelayProbe (pairKey p r.peerId) t1
          (t1.checkStreaks cfg p r.peerId (pairKey p r.peerId) h1 now) := by
      unfold StartsRelayProbe
      rw [hactive1]
    rw [hsame, checkStreaks_starts_iff, shouldInitiateRelayProbe_iff, relayEnabledFor_iff, hactive1,
      hfm, hforced]
    simp only [hskip, not_false_eq_true, true_and, isConnected, hconn1, getForcedModeFromDb,
      lookupPeer, hdb1]
    constructor
    · rintro ⟨h3, h4, h5, h6, h7, h8⟩
      exact ⟨h3, h4, h5, h6, h7, h8⟩
    · rintro ⟨h3, h4, h5, h6, h7, h8⟩
      exact ⟨h3, h4, h5, h6, h7, h8⟩

/-! ## Runs -/

theorem healthInv_restart (cfg : Config) {s : ServerState} (h : HealthInv cfg s.records) :
    HealthInv cfg (step cfg s .restart).records where
  sides := fun _ _ _ _ _ x hg => by simp [step, records, OMap.get?_empty] at hg
  joinPos := h.joinPos

theorem healthInv_exec (cfg : Config) (db : Db) {es : List Event} (htimes : TimesPositive es) :
    HealthInv cfg (exec cfg db es).records := by
  induction es using List.reverseRecOn with
  | nil =>
    exact ⟨fun _ _ _ _ _ x hg => by simp [exec, ServerState.init, records, OMap.get?_empty] at hg,
      fun p q => by simp [exec, ServerState.init, records, log, joinTime]⟩
  | append_singleton es e ih =>
    have h := ih fun e' he => htimes e' (by simp [he])
    rw [exec_concat]
    by_cases hrestart : e = .restart
    · subst hrestart; exact healthInv_restart cfg h
    · exact healthInv_steps (recordSteps_of_step hrestart) h (htimes e (by simp))

theorem healthInv_afterEntries (cfg : Config) {s : ServerState} (h : HealthInv cfg s.records)
    {p : PeerId} {now : Int} (hnow : 0 < now) (reports pre : List HealthReport) :
    HealthInv cfg (afterEntries cfg s p now reports pre).records := by
  have htime : (Event.message ⟨0, p⟩ now (.healthReport reports)).timeOk := hnow
  refine healthInv_steps (e := .message ⟨0, p⟩ now (.healthReport reports)) ?_ h htime
  unfold afterEntries
  refine foldl_invariant (I := fun t : ServerState => ReflTransGen
    (RecordStep cfg (.message ⟨0, p⟩ now (.healthReport reports))) s.records t.records) _ _ ?_ ?_
  · intro t r _ ht
    exact ht.trans (handleReportEntry_records (w := ⟨0, p⟩) rfl r)
  · exact .single (.reported p reports now)

theorem streaksTrack_of_inv {cfg : Config} {s : ServerState} (h : HealthInv cfg s.records) :
    StreaksTrack cfg s := fun p q hp hq hne x hg => (h.sides p q hp hq hne x hg).streak

/-! ## Top theorem -/

/-- **Relay probes start exactly on sustained two-sided loss.**  The streaks are what the
history says, after every event and in the middle of every report, and the processing
of an entry, which is a part of the step of its report, starts a relay probe exactly when they
have both reached the threshold. -/
theorem relay_probe_on_sustained_loss (cfg : Config) (db : Db) (es : List Event)
    (htimes : TimesPositive es) :
    StreaksTrack cfg (exec cfg db es) ∧
      ∀ (ws : Ws) (now : Int) (pre : List HealthReport) (r : HealthReport)
        (post : List HealthReport), 0 < now → ColonFree ws.peerId → ColonFree r.peerId →
        ws.peerId ≠ r.peerId →
        let p := ws.peerId
        let t := afterEntries cfg (exec cfg db es) p now (pre ++ r :: post) pre
        let log := entryItem p now r :: logBefore cfg t p r.peerId
        step cfg (exec cfg db es) (.message ws now (.healthReport (pre ++ r :: post))) =
          post.foldl (handleReportEntry cfg p now) (handleReportEntry cfg p now t r) ∧
        StreaksTrack cfg t ∧
          (StartsRelayProbe (pairKey p r.peerId) t (handleReportEntry cfg p now t r) ↔
            (eligible cfg p r.peerId (entryItem p now r) (logBefore cfg t p r.peerId)).isSome ∧
            (STREAK_THRESHOLD ≤ lossStreak cfg p r.peerId log ∧
              STREAK_THRESHOLD ≤ lossStreak cfg r.peerId p log) ∧
            MayProbe cfg t p r.peerId) := by
  have h := healthInv_exec cfg db htimes
  refine ⟨streaksTrack_of_inv h, fun ws now pre r post hnow hp hq hne => ?_⟩
  have ht := healthInv_afterEntries cfg h hnow (pre ++ r :: post) pre (p := ws.peerId)
  exact ⟨handleHealthReport_split .., streaksTrack_of_inv ht,
    handleReportEntry_starts_iff cfg ht hnow hp hq hne⟩

/-- The run before the last report, in which the first peer has three losses and the second two. -/
def twoLossesRun : List Event :=
  [.open wsOne, .open wsTwo] ++ bothReport 1000 .direct true ++ bothReport 20000 .direct false ++
    bothReport 22000 .direct false ++
    [.message wsOne 24000 (.healthReport [{ peerId := peerTwo, mode := .direct, rxAlive := false }])]

/-- The third loss of the second peer starts a relay probe. -/
theorem relay_probe_on_sustained_loss_relayProbeRun :
    StartsRelayProbe (pairKey peerTwo peerOne) (exec {} twoPeers twoLossesRun)
      (step {} (exec {} twoPeers twoLossesRun) (.message wsTwo 24000
        (.healthReport [{ peerId := peerOne, mode := .direct, rxAlive := false }]))) := by
  obtain ⟨-, hentry⟩ := relay_probe_on_sustained_loss {} twoPeers twoLossesRun (by decide)
  obtain ⟨hstep, -, hstarts⟩ := hentry wsTwo 24000 []
    { peerId := peerOne, mode := .direct, rxAlive := false } [] (by decide) (by decide) (by decide)
    (by decide)
  rw [List.nil_append] at hstep hstarts
  rw [hstep]
  have hunforced : ∀ h ∈ (afterEntries {} (exec {} twoPeers twoLossesRun) peerTwo 24000
      [{ peerId := peerOne, mode := .direct, rxAlive := false }] []).pairHealthMap.get?
        (pairKey peerTwo peerOne), h.forcedMode = none := by decide +kernel
  exact hstarts.mpr ⟨by decide +kernel, ⟨by decide +kernel, by decide +kernel⟩, by decide +kernel,
    hunforced, by decide +kernel, by decide +kernel, _, _, rfl, rfl, by decide +kernel⟩

end Meshezia
