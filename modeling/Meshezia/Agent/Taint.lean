import Meshezia.Agent.Ticks

/-!
# Marks of relayed packets (`tick`, `drainRelayForwarded`)

A packet that comes through the relay raises the rx counter of its peer like a direct one, so
the proxy marks the peer, and a tick does not count the rise of a marked peer.  But a tick
reads the counters before its await (or has them from a cache) and the marks after it.  A
packet in between leaves its mark to this tick and its rise to the next, which then takes it
for a direct one (`relay_revives`).  A mark is matched with its rise when each tick that takes
it processes the peer with a sample that no packet has come after:

    Along (Matched p) es → Along (Unheard p) es → no tick of es revives p
                                                             (relay_never_revives)
-/

namespace Meshezia

def STATS_CACHE_TTL_MS : Int := 500

/-- The monitor, the rx counters of the peers' interfaces, the set of marked peers, and the
samples that are cached or that ticks have taken. -/
structure Rx where
  monitor : Monitor
  counters : OMap PeerId Nat
  relayForwardedPeers : OMap PeerId Unit
  cachedStats : Option (OMap PeerId Nat × Int)
  ticks : OMap Nat (OMap PeerId Nat)
  nextTick : Nat

namespace Rx

def start : Rx := ⟨.empty, .empty, .empty, none, .empty, 0⟩

def counter (s : Rx) (p : PeerId) : Nat := (s.counters.get? p).getD 0

def marked (s : Rx) (p : PeerId) : Bool := s.relayForwardedPeers.has p

/-- `getCachedPeerStats`: the sample, and the cache with it. -/
def getCachedPeerStats (s : Rx) (now : Int) : OMap PeerId Nat × Int :=
  match s.cachedStats with
  | some (stats, ts) => if now - ts < STATS_CACHE_TTL_MS then (stats, ts) else (s.counters, now)
  | none => (s.counters, now)

/-- A packet raises the counter of its peer. -/
def receive (s : Rx) (p : PeerId) (bytes : Nat) : Rx :=
  { s with counters := s.counters.set p (s.counter p + bytes) }

/-- `relay-ws` passes a packet on to the interface of a peer. -/
def forward (s : Rx) (p : PeerId) (bytes : Nat) : Rx :=
  { s.receive p bytes with relayForwardedPeers := s.relayForwardedPeers.set p () }

/-- A tick up to its await. -/
def sample (s : Rx) (now : Int) : Rx :=
  let cached := s.getCachedPeerStats now
  { s with
    monitor := s.monitor.unfreezeStuck now
    cachedStats := some cached
    ticks := s.ticks.set s.nextTick cached.1
    nextTick := s.nextTick + 1 }

/-- The rest of a tick: `drainRelayForwarded`, and the update of the states. -/
def update (s : Rx) (tick : Nat) : Rx :=
  match s.ticks.get? tick with
  | none => s
  | some stats =>
    { s with
      monitor := s.monitor.updateStates (fun p _ => (stats.get? p).getD 0) s.relayForwardedPeers
      relayForwardedPeers := .empty
      ticks := s.ticks.delete tick }

end Rx

/-- `create` is `initPeerState` of a peer that has no state, `report` the sample that
`collectHealthReports` takes. -/
inductive RxEvent where
  | create (peer : PeerEndpoint) (ifName : IfName) (relayPort : Nat)
  | setMode (peerId : PeerId) (mode : Mode)
  | freeze (peerId : PeerId) (now : Int)
  | unfreeze (peerId : PeerId)
  | report (now : Int)
  | sample (now : Int)
  | update (tick : Nat)
  | forward (peerId : PeerId) (bytes : Nat)
  | direct (peerId : PeerId) (bytes : Nat)
deriving DecidableEq

def rxStep (s : Rx) : RxEvent → Rx
  | .create peer ifName relayPort => if s.monitor.peerStates.has peer.id then s else
    { s with monitor := monitorStep s.monitor (.init peer ifName relayPort) }
  | .setMode p mode => { s with monitor := monitorStep s.monitor (.setMode p mode) }
  | .freeze p now => { s with monitor := monitorStep s.monitor (.freeze p now) }
  | .unfreeze p => { s with monitor := monitorStep s.monitor (.unfreeze p) }
  | .report now => { s with cachedStats := some (s.getCachedPeerStats now) }
  | .sample now => s.sample now
  | .update tick => s.update tick
  | .forward p bytes => s.forward p bytes
  | .direct p bytes => s.receive p bytes

/-! ## What a tick may do to a peer -/

/-- The step does not set the peer alive, and its misses go on. -/
def Unrevived (p : PeerId) (s s' : Rx) : Prop :=
  ∀ st st', s.monitor.peerStates.get? p = some st → s'.monitor.peerStates.get? p = some st' →
    (st'.rxAlive = true → st.rxAlive = true) ∧ st.directMissed ≤ st'.directMissed ∧
    (st.mode = .direct → s.monitor.isFrozen p = false → st.lastRxBytes ≥ 0 →
      st.directMissed < st'.directMissed)

/-- No direct packet of the peer arrives when it has a baseline. -/
def Unheard (p : PeerId) (s : Rx) : RxEvent → Prop
  | .direct q _ => q = p → ∀ st ∈ s.monitor.peerStates.get? p, st.mode = .direct →
      st.lastRxBytes < 0
  | _ => True

/-- A tick that takes the mark of a peer in direct mode, or its baseline, processes it with a
sample that no packet has come after; and no tick has an older sample than the one before. -/
def Matched (p : PeerId) (s : Rx) : RxEvent → Prop
  | .update tick => ∀ stats ∈ s.ticks.get? tick, ∀ st ∈ s.monitor.peerStates.get? p,
      st.mode = .direct →
        (s.marked p = true → s.monitor.isFrozen p = false) ∧
        (s.monitor.isFrozen p = false →
          (s.marked p = true ∨ st.lastRxBytes < 0 → (stats.get? p).getD 0 = s.counter p) ∧
          st.lastRxBytes ≤ ((stats.get? p).getD 0 : Nat))
  | _ => True

instance (p : PeerId) (s : Rx) : (e : RxEvent) → Decidable (Unheard p s e)
  | .direct q _ => inferInstanceAs (Decidable (q = p → ∀ st ∈ s.monitor.peerStates.get? p,
      st.mode = .direct → st.lastRxBytes < 0))
  | .create _ _ _ | .setMode _ _ | .freeze _ _ | .unfreeze _ | .report _ | .sample _ | .update _
  | .forward _ _ => isTrue trivial

instance (p : PeerId) (s : Rx) : (e : RxEvent) → Decidable (Matched p s e)
  | .update tick => inferInstanceAs (Decidable (∀ stats ∈ s.ticks.get? tick,
      ∀ st ∈ s.monitor.peerStates.get? p, st.mode = .direct →
        (s.marked p = true → s.monitor.isFrozen p = false) ∧
        (s.monitor.isFrozen p = false →
          (s.marked p = true ∨ st.lastRxBytes < 0 → (stats.get? p).getD 0 = s.counter p) ∧
          st.lastRxBytes ≤ ((stats.get? p).getD 0 : Nat))))
  | .create _ _ _ | .setMode _ _ | .freeze _ _ | .unfreeze _ | .report _ | .sample _
  | .forward _ _ | .direct _ _ => isTrue trivial

/-! ## The invariant -/

/-- Of an unmarked peer the last tick has seen every packet, and no sample is ahead of the
counters. -/
structure Accounted (p : PeerId) (s : Rx) : Prop where
  seen : ∀ st, s.monitor.peerStates.get? p = some st → st.mode = .direct →
    st.lastRxBytes ≥ 0 → s.marked p = true ∨ (s.counter p : Int) ≤ st.lastRxBytes
  cached : ∀ stats ts, s.cachedStats = some (stats, ts) → (stats.get? p).getD 0 ≤ s.counter p
  taken : ∀ tick stats, s.ticks.get? tick = some stats → (stats.get? p).getD 0 ≤ s.counter p

section
variable {p : PeerId} {s : Rx}

theorem Accounted.sampled (h : Accounted p s) (now : Int) :
    ((s.getCachedPeerStats now).1.get? p).getD 0 ≤ s.counter p := by
  unfold Rx.getCachedPeerStats
  split
  · rename_i stats ts hcached
    split
    · exact h.cached stats ts hcached
    · exact Nat.le_refl _
  · exact Nat.le_refl _

theorem counter_receive (q : PeerId) (bytes : Nat) :
    (s.receive q bytes).counter p = if q = p then s.counter p + bytes else s.counter p := by
  unfold Rx.counter Rx.receive
  by_cases hq : q = p
  · subst hq
    simp [Rx.counter]
  · simp [hq, OMap.get?_set_ne _ _ hq]

/-- The counter has risen, and the states and samples are the same. -/
theorem Accounted.of_receive (h : Accounted p s) {s' : Rx} (hmonitor : s'.monitor = s.monitor)
    (hcached : s'.cachedStats = s.cachedStats) (hticks : s'.ticks = s.ticks)
    (hcounter : s.counter p ≤ s'.counter p)
    (hseen : ∀ st, s.monitor.peerStates.get? p = some st → st.mode = .direct →
      st.lastRxBytes ≥ 0 → s'.marked p = true ∨ (s'.counter p : Int) ≤ st.lastRxBytes) :
    Accounted p s' where
  seen := by
    rw [hmonitor]
    exact hseen
  cached := by
    intro stats ts hst
    rw [hcached] at hst
    exact Nat.le_trans (h.cached stats ts hst) hcounter
  taken := by
    intro tick stats hst
    rw [hticks] at hst
    exact Nat.le_trans (h.taken tick stats hst) hcounter

theorem Accounted.forward (h : Accounted p s) (q : PeerId) (bytes : Nat) :
    Accounted p (s.forward q bytes) := by
  have hcounter : (s.forward q bytes).counter p = (s.receive q bytes).counter p := rfl
  refine h.of_receive rfl rfl rfl ?_ fun st hst hmode hlast => ?_
  · rw [hcounter, counter_receive]
    split <;> omega
  · have hmarked : (s.forward q bytes).marked p = (decide (q = p) || s.marked p) :=
      OMap.has_set _ _ _ _
    rw [hcounter, counter_receive, hmarked]
    by_cases hq : q = p
    · simp [hq]
    · rw [if_neg hq, decide_eq_false hq, Bool.false_or]
      exact h.seen st hst hmode hlast

theorem Accounted.direct (h : Accounted p s) {q : PeerId} {bytes : Nat}
    (hunheard : Unheard p s (.direct q bytes)) : Accounted p (s.receive q bytes) := by
  refine h.of_receive rfl rfl rfl ?_ fun st hst hmode hlast => ?_
  · rw [counter_receive]
    split <;> omega
  · rw [counter_receive]
    by_cases hq : q = p
    · have := hunheard hq st hst hmode
      omega
    · rw [if_neg hq]
      exact h.seen st hst hmode hlast

/-- The states are the same, or that of the peer has no baseline. -/
theorem Accounted.withMonitor (h : Accounted p s) {m : Monitor}
    (hstate : ∀ st, m.peerStates.get? p = some st → s.monitor.peerStates.get? p = some st ∨
      st.lastRxBytes = -1) : Accounted p { s with monitor := m } where
  seen := by
    intro st hst hmode hlast
    rcases hstate st hst with hold | hnew
    · exact h.seen st hold hmode hlast
    · omega
  cached := h.cached
  taken := h.taken

/-- The state of a peer after a tick. -/
theorem get?_update {tick : Nat} {stats : OMap PeerId Nat} (hstats : s.ticks.get? tick = some stats)
    {st' : PeerState} (hst' : (s.update tick).monitor.peerStates.get? p = some st') :
    ∃ st, s.monitor.peerStates.get? p = some st ∧ st' = if s.monitor.isFrozen p then st
      else trackRx st ((stats.get? p).getD 0) (s.marked p) := by
  simp only [Rx.update, hstats, Monitor.updateStates, OMap.get?_mapVals,
    Option.map_eq_some_iff] at hst'
  obtain ⟨st, hst, rfl⟩ := hst'
  exact ⟨st, hst, rfl⟩

theorem lastRxBytes_trackRx {st : PeerState} (h : st.mode = .direct) (rx : Nat) (tainted : Bool) :
    (trackRx st rx tainted).lastRxBytes = rx := by
  simp [trackRx, h]

theorem Accounted.update (h : Accounted p s) {tick : Nat}
    (hmatched : Matched p s (.update tick)) : Accounted p (s.update tick) := by
  cases hstats : s.ticks.get? tick with
  | none =>
    have hsame : s.update tick = s := by simp [Rx.update, hstats]
    rwa [hsame]
  | some stats =>
    have hcounter : (s.update tick).counter p = s.counter p := by
      simp [Rx.update, hstats, Rx.counter]
    have hcached : (s.update tick).cachedStats = s.cachedStats := by simp [Rx.update, hstats]
    have hticks : (s.update tick).ticks = s.ticks.delete tick := by simp [Rx.update, hstats]
    refine ⟨fun st' hst' hmode hlast => Or.inr ?_, fun stats' ts hs => ?_, fun t stats' hs => ?_⟩
    · rw [hcounter]
      obtain ⟨st, hst, rfl⟩ := get?_update hstats hst'
      by_cases hfrozen : s.monitor.isFrozen p = true
      · -- the peer is not processed, so there was no mark to take
        rw [if_pos hfrozen] at hmode hlast ⊢
        rcases h.seen st hst hmode hlast with hmark | hseen
        · rw [(hmatched stats hstats st hst hmode).1 hmark] at hfrozen
          cases hfrozen
        · exact hseen
      · rw [if_neg hfrozen] at hmode hlast ⊢
        have hdirect : st.mode = .direct := by
          cases hm : st.mode with
          | direct => rfl
          | relay =>
            rw [trackRx_relay hm, hm] at hmode
            cases hmode
        obtain ⟨hcurrent, hle⟩ := (hmatched stats hstats st hst hdirect).2
          (Bool.eq_false_iff.mpr hfrozen)
        rw [lastRxBytes_trackRx hdirect]
        by_cases hlate : s.marked p = true ∨ st.lastRxBytes < 0
        · exact Int.le_of_eq (congrArg Nat.cast (hcurrent hlate).symm)
        · rw [not_or, Int.not_lt] at hlate
          have hseen := (h.seen st hst hdirect hlate.2).resolve_left hlate.1
          omega
    · rw [hcached] at hs
      rw [hcounter]
      exact h.cached stats' ts hs
    · rw [hticks] at hs
      rw [hcounter]
      exact h.taken t stats' (OMap.get?_of_get?_delete hs).2

theorem Accounted.step (h : Accounted p s) {e : RxEvent} (hmatched : Matched p s e)
    (hunheard : Unheard p s e) : Accounted p (rxStep s e) := by
  cases e with
  | create peer ifName relayPort =>
    rw [rxStep]
    split
    · exact h
    · rename_i hnone
      refine h.withMonitor fun st hst => ?_
      by_cases hp : peer.id = p
      · subst hp
        have hget := (OMap.has_eq_false_iff _ _).mp (Bool.eq_false_iff.mpr hnone)
        simp only [monitorStep, initPeerState, hget, OMap.get?_set_self, Option.some.injEq] at hst
        subst hst
        exact Or.inr rfl
      · exact Or.inl ((get?_initPeerState_ne _ _ _ _ hp).symm.trans hst)
  | setMode q mode =>
    refine h.withMonitor fun st hst => ?_
    by_cases hq : q = p
    · subst hq
      have hview := congrArg PeerView.state (peer_setMode s.monitor q q mode)
      simp only [Monitor.own, if_true, run_cons, run_nil, PeerView.step] at hview
      obtain ⟨old, -, rfl⟩ := Option.map_eq_some_iff.mp (hview.symm.trans hst)
      exact Or.inr rfl
    · exact Or.inl ((get?_setPeerMode_ne _ _ hq).symm.trans hst)
  | freeze q now => exact h.withMonitor fun st hst => Or.inl hst
  | unfreeze q => exact h.withMonitor fun st hst => Or.inl hst
  | report now =>
    refine ⟨h.seen, fun stats ts hs => ?_, h.taken⟩
    have hs : s.getCachedPeerStats now = (stats, ts) := Option.some.inj hs
    have hsampled := h.sampled now
    rwa [hs] at hsampled
  | sample now =>
    refine ⟨fun st hst => h.seen st (by rwa [← unfreezeStuck_peerStates s.monitor now]),
      fun stats ts hs => ?_, fun t stats hs => ?_⟩
    · have hs : s.getCachedPeerStats now = (stats, ts) := Option.some.inj hs
      have hsampled := h.sampled now
      rwa [hs] at hsampled
    · rcases OMap.get?_set_cases hs with ⟨-, rfl⟩ | ⟨-, hs⟩
      · exact h.sampled now
      · exact h.taken t stats hs
  | update tick => exact h.update hmatched
  | forward q bytes => exact h.forward q bytes
  | direct q bytes => exact h.direct hunheard

/-- A tick does not revive the peer. -/
theorem Accounted.unrevived (h : Accounted p s) {tick : Nat} (htick : s.ticks.has tick = true) :
    Unrevived p s (s.update tick) := by
  intro st st' hst hst'
  obtain ⟨stats, hstats⟩ := (OMap.has_iff _ _).mp htick
  obtain ⟨old, hold, rfl⟩ := get?_update hstats hst'
  rw [hst, Option.some.injEq] at hold
  subst hold
  cases hfrozen : s.monitor.isFrozen p with
  | true =>
    rw [if_pos rfl]
    exact ⟨id, Nat.le_refl _, fun _ hno => by cases hno⟩
  | false =>
    rw [if_neg (by simp)]
    cases hmode : st.mode with
    | relay =>
      rw [trackRx_relay hmode]
      exact ⟨id, Nat.le_refl _, fun hno => by cases hno⟩
    | direct =>
      by_cases hlast : st.lastRxBytes ≥ 0
      · -- without a mark the sample has nothing that the last tick has not seen
        rw [trackRx_miss hmode hlast fun hmark => by
          have hseen := (h.seen st hst hmode hlast).resolve_left (by simp [hmark])
          have htaken := h.taken tick stats hstats
          omega]
        refine ⟨fun halive => ?_, Nat.le_succ _, fun _ _ _ => Nat.lt_succ_self _⟩
        have halive : (if st.directMissed + 1 ≥ MISS_THRESHOLD then false else st.rxAlive) =
          true := halive
        split at halive
        · cases halive
        · exact halive
      · have hbase : trackRx st ((stats.get? p).getD 0) (s.marked p) =
            { st with lastRxBytes := (((stats.get? p).getD 0 : Nat) : Int) } := by
          simp [trackRx, hmode, hlast]
        rw [hbase]
        exact ⟨id, Nat.le_refl _, fun _ _ hno => absurd hno hlast⟩

end

/-- **Relayed packets never revive a peer** in a run whose ticks match each mark with the rise it
is for. -/
theorem relay_never_revives (p : PeerId) (es : List RxEvent)
    (hmatched : Along rxStep (Matched p) .start es)
    (hunheard : Along rxStep (Unheard p) .start es) :
    ∀ earlier tick later, es = earlier ++ .update tick :: later →
      (run rxStep .start earlier).ticks.has tick = true →
      Unrevived p (run rxStep .start earlier) (run rxStep .start (earlier ++ [.update tick])) := by
  rintro earlier tick later rfl htick
  have haccounted : Accounted p (run rxStep .start earlier) := by
    refine run_invariant_along rxStep (I := Accounted p) (fun s e hs hp => hs.step hp.1 hp.2) ?_
      (along_and rxStep ((along_append _ _ _ _ _).mp hmatched).1
        ((along_append _ _ _ _ _).mp hunheard).1)
    exact ⟨fun st hst => (by cases hst), fun stats ts hs => (by cases hs),
      fun tick stats hs => (by cases hs)⟩
  rw [run_concat]
  exact haccounted.unrevived htick

/-! ## Packets between a sample and its tick -/

def newState : RxEvent := .create ⟨[98], [107], [10], [69], 0⟩ 0 41820

/-- Three ticks without a packet, and one in which a relayed packet comes before the sample. -/
def quietRun : List RxEvent :=
  newState :: ((List.range 4).flatMap fun t : Nat => [.sample (1000 * (t : Int)), .update t]) ++
    [.forward [98] 10, .sample 4000, .update 4]

theorem relay_never_revives_quietRun :
    Unrevived [98] (run rxStep .start quietRun.dropLast) (run rxStep .start quietRun) :=
  relay_never_revives [98] quietRun (by decide) (by decide) quietRun.dropLast 4 [] (by decide)
    (by decide)

/-- The packet comes between the sample of a tick and its update, and another tick follows. -/
def lateForwardRun : List RxEvent :=
  newState :: ((List.range 4).flatMap fun t : Nat => [.sample (1000 * (t : Int)), .update t]) ++
    [.sample 4000, .forward [98] 10, .update 4, .sample 5000, .update 5]

/-- **A relayed packet revives a peer**: one tick takes its mark, the next one its rise. -/
theorem relay_revives : ¬ ∀ es : List RxEvent,
    (∀ q bytes, .direct q bytes ∉ es) → (∀ q mode, .setMode q mode ∉ es) →
    ∀ earlier tick later, es = earlier ++ .update tick :: later →
      (run rxStep .start earlier).ticks.has tick = true →
      Unrevived [98] (run rxStep .start earlier)
        (run rxStep .start (earlier ++ [.update tick])) := by
  intro h
  have hlate := h lateForwardRun (by simp [lateForwardRun, newState])
    (by simp [lateForwardRun, newState]) lateForwardRun.dropLast 5 [] (by decide) (by decide)
  obtain ⟨st, hst⟩ := Option.isSome_iff_exists.mp (show ((run rxStep .start
    lateForwardRun.dropLast).monitor.peerStates.get? [98]).isSome = true by decide)
  obtain ⟨st', hst'⟩ := Option.isSome_iff_exists.mp (show ((run rxStep .start
    (lateForwardRun.dropLast ++ [.update 5])).monitor.peerStates.get? [98]).isSome = true by decide)
  have halive : ((run rxStep .start lateForwardRun.dropLast).monitor.peerStates.get? [98]).map
      PeerState.rxAlive = some false := by decide
  have halive' : ((run rxStep .start
      (lateForwardRun.dropLast ++ [.update 5])).monitor.peerStates.get? [98]).map PeerState.rxAlive = some true := by decide
  rw [hst, Option.map_some, Option.some.injEq] at halive
  rw [hst', Option.map_some, Option.some.injEq] at halive'
  have hrevived := (hlate st st' hst hst').1 halive'
  rw [halive] at hrevived
  cases hrevived

end Meshezia
