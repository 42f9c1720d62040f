import Meshezia.Lib.History
import Meshezia.Agent.Monitor

/-!
# Ticks of the monitor (`tick` of `monitor.ts`)

A tick compares the rx counter of each peer in direct mode with the one it has seen before;
after three ticks without a rise the peer is not alive.  What happens to a peer depends on its
own events only (`peer_run`), so the flag is read off the ticks that have processed the peer
since it was created or its mode was set (`processedTicks`):

    run monitorStep .empty es = s → directMissed is the number of ticks since the first one and
      since the last rise, and rxAlive = false ↔ it is at least 3         (liveness_flag)
-/

namespace Meshezia

/-- Consecutive misses before a peer is not alive. -/
def MISS_THRESHOLD : Nat := 3

/-- The rx counters that `getAllPeerStats` has read, by interface and public key. -/
abbrev PeerStats := OMap (IfName × JsString) Nat

/-! ## The second loop of `tick` -/

/-- `allStats.get(…)?.rxBytes ?? 0`. -/
def PeerStats.rx (allStats : PeerStats) (state : PeerState) : Nat :=
  (allStats.get? (state.ifName, state.pubkey)).getD 0

/-- The body of the loop, for a peer that is not frozen. -/
def trackRx (state : PeerState) (rx : Nat) (tainted : Bool) : PeerState :=
  if state.mode = .direct then
    let state :=
      if !tainted && decide (state.lastRxBytes ≥ 0) && decide ((rx : Int) > state.lastRxBytes) then
        { state with directMissed := 0, rxAlive := true }
      else if state.lastRxBytes ≥ 0 then
        { state with
          directMissed := state.directMissed + 1
          rxAlive := if state.directMissed + 1 ≥ MISS_THRESHOLD then false else state.rxAlive }
      else state
    { state with lastRxBytes := rx }
  else state

/-- What a tick does after its await; `rxOf` is the counter that the sample has for a peer. -/
def Monitor.updateStates (m : Monitor) (rxOf : PeerId → PeerState → Nat)
    (relayForwarded : OMap PeerId Unit) : Monitor :=
  { m with peerStates := m.peerStates.mapVals fun peerId state =>
      if m.isFrozen peerId then state
      else trackRx state (rxOf peerId state) (relayForwarded.has peerId) }

/-! ## Events of the monitor -/

/-- A tick is `unfreezeStuck` up to its await and `update` after it. -/
inductive MonitorEvent where
  | init (peer : PeerEndpoint) (ifName : IfName) (relayPort : Nat)
  | remove (peerId : PeerId)
  | freeze (peerId : PeerId) (now : Int)
  | unfreeze (peerId : PeerId)
  | clearAll
  | setMode (peerId : PeerId) (mode : Mode)
  | unfreezeStuck (now : Int)
  | update (allStats : PeerStats) (relayForwarded : OMap PeerId Unit)

def monitorStep (m : Monitor) : MonitorEvent → Monitor
  | .init peer ifName relayPort =>
    { m with peerStates := initPeerState m.peerStates peer ifName relayPort }
  | .remove peerId => m.removePeerState peerId
  | .freeze peerId now => m.freezePeer peerId now
  | .unfreeze peerId => m.unfreezePeer peerId
  | .clearAll => m.clearAllFrozen
  | .setMode peerId mode => { m with peerStates := setPeerMode m.peerStates peerId mode }
  | .unfreezeStuck now => m.unfreezeStuck now
  | .update allStats relayForwarded => m.updateStates (fun _ => allStats.rx) relayForwarded

/-! ## One peer -/

/-- What the monitor has of one peer. -/
structure PeerView where
  state : Option PeerState
  frozen : Bool
  frozenAt : Option Int

def Monitor.peer (m : Monitor) (p : PeerId) : PeerView :=
  ⟨m.peerStates.get? p, m.isFrozen p, m.frozenAt.get? p⟩

/-- The events of one peer; `update` has its own counter and mark. -/
inductive PeerEvent where
  | init (peer : PeerEndpoint) (ifName : IfName) (relayPort : Nat)
  | remove
  | freeze (now : Int)
  | unfreeze
  | setMode (mode : Mode)
  | unfreezeStuck (now : Int)
  | update (rx : Nat) (tainted : Bool)

def PeerView.step (v : PeerView) : PeerEvent → PeerView
  | .init peer ifName relayPort =>
    { v with state := some (match v.state with
        | some existing =>
          { existing with directEndpoint := peer.endpoint, peerIpv4 := peer.meshIpv4,
                          pubkey := peer.pubkey, ifName, relayPort }
        | none =>
          { ifName, pubkey := peer.pubkey, peerIpv4 := peer.meshIpv4,
            directEndpoint := peer.endpoint, relayPort }) }
  | .remove => ⟨none, false, none⟩
  | .freeze now => { v with frozen := true, frozenAt := some now }
  | .unfreeze => { v with frozen := false, frozenAt := none }
  | .setMode mode =>
    { v with state := v.state.map fun state =>
        { state with
          mode, lastRxBytes := -1, directMissed := 0, rxAlive := decide (mode = .direct) } }
  | .unfreezeStuck now =>
    if v.frozenAt.any fun ts => decide (now - ts > FROZEN_TIMEOUT_MS) then
      { v with frozen := false, frozenAt := none }
    else v
  | .update rx tainted =>
    if v.frozen then v else { v with state := v.state.map fun state => trackRx state rx tainted }

/-- The event of a peer that an event of the monitor is, if it is one. -/
def Monitor.own (m : Monitor) (p : PeerId) : MonitorEvent → List PeerEvent
  | .init peer ifName relayPort => if peer.id = p then [.init peer ifName relayPort] else []
  | .remove q => if q = p then [.remove] else []
  | .freeze q now => if q = p then [.freeze now] else []
  | .unfreeze q => if q = p then [.unfreeze] else []
  | .clearAll => [.unfreeze]
  | .setMode q mode => if q = p then [.setMode mode] else []
  | .unfreezeStuck now => [.unfreezeStuck now]
  | .update allStats relayForwarded =>
    (m.peerStates.get? p).toList.map fun st => .update (allStats.rx st) (relayForwarded.has p)

/-- The events of a peer in a run. -/
def ownEvents (p : PeerId) : Monitor → List MonitorEvent → List PeerEvent
  | _, [] => []
  | m, e :: es => m.own p e ++ ownEvents p (monitorStep m e) es

/-! ## What an event does to one peer -/

section
variable (m : Monitor) (p : PeerId)

theorem peer_init (peer : PeerEndpoint) (ifName : IfName) (relayPort : Nat) :
    (monitorStep m (.init peer ifName relayPort)).peer p =
      run PeerView.step (m.peer p) (m.own p (.init peer ifName relayPort)) := by
  by_cases hp : peer.id = p
  · subst hp
    simp only [Monitor.own, if_true, run_cons, run_nil, PeerView.step, Monitor.peer, monitorStep,
      initPeerState]
    cases m.peerStates.get? peer.id <;> simp [Monitor.isFrozen]
  · simp [Monitor.own, hp, Monitor.peer, monitorStep, get?_initPeerState_ne _ _ _ _ hp,
      Monitor.isFrozen]

theorem peer_setMode (q : PeerId) (mode : Mode) :
    (monitorStep m (.setMode q mode)).peer p =
      run PeerView.step (m.peer p) (m.own p (.setMode q mode)) := by
  by_cases hq : q = p
  · subst hq
    simp only [Monitor.own, if_true, run_cons, run_nil, PeerView.step, Monitor.peer, monitorStep,
      setPeerMode]
    cases hst : m.peerStates.get? q <;> simp [Monitor.isFrozen, hst]
  · simp [Monitor.own, hq, Monitor.peer, monitorStep, get?_setPeerMode_ne _ _ hq,
      Monitor.isFrozen]

theorem peer_unfreezePeer (q : PeerId) : (m.unfreezePeer q).peer p =
    if q = p then { m.peer p with frozen := false, frozenAt := none } else m.peer p := by
  by_cases hq : q = p
  · subst hq
    simp [Monitor.peer, Monitor.unfreezePeer, Monitor.isFrozen, OMap.has]
  · simp [Monitor.peer, Monitor.unfreezePeer, Monitor.isFrozen, OMap.has, hq,
      OMap.get?_delete_ne _ hq]

/-- The loop of `unfreezeStuck` over some of the entries. -/
theorem peer_unfreezeLoop (now : Int) (l : List (PeerId × Int)) :
    (l.foldl (fun m e =>
        if now - e.2 > FROZEN_TIMEOUT_MS then m.unfreezePeer e.1 else m) m).peer p =
      if l.any fun e => decide (e.1 = p) && decide (now - e.2 > FROZEN_TIMEOUT_MS) then
        { m.peer p with frozen := false, frozenAt := none }
      else m.peer p := by
  induction l generalizing m with
  | nil => rfl
  | cons e rest ih =>
    rw [List.foldl_cons, ih, List.any_cons]
    by_cases hstuck : now - e.2 > FROZEN_TIMEOUT_MS
    · by_cases hp : e.1 = p
      · simp [hstuck, peer_unfreezePeer, hp]
      · rw [if_pos hstuck, peer_unfreezePeer, if_neg hp, decide_eq_false hp, Bool.false_and,
          Bool.false_or]
    · rw [if_neg hstuck, decide_eq_false hstuck, Bool.and_false, Bool.false_or]

theorem peer_unfreezeStuck (now : Int) : (monitorStep m (.unfreezeStuck now)).peer p =
    run PeerView.step (m.peer p) (m.own p (.unfreezeStuck now)) := by
  have hany : (m.frozenAt.entries.any fun e =>
      decide (e.1 = p) && decide (now - e.2 > FROZEN_TIMEOUT_MS)) =
      (m.frozenAt.get? p).any fun ts => decide (now - ts > FROZEN_TIMEOUT_MS) := by
    rw [Bool.eq_iff_iff, List.any_eq_true, Option.any_eq_true]
    constructor
    · rintro ⟨⟨q, ts⟩, he, hstuck⟩
      simp only [Bool.and_eq_true, decide_eq_true_eq] at hstuck
      obtain ⟨rfl, hstuck⟩ := hstuck
      exact ⟨ts, (OMap.mem_entries _ _ _).mp he, decide_eq_true hstuck⟩
    · rintro ⟨ts, hts, hstuck⟩
      exact ⟨(p, ts), (OMap.mem_entries _ _ _).mpr hts, by simpa using hstuck⟩
  show (m.unfreezeStuck now).peer p = (m.peer p).step (.unfreezeStuck now)
  rw [Monitor.unfreezeStuck, peer_unfreezeLoop, hany]
  rfl

theorem peer_update (allStats : PeerStats) (relayForwarded : OMap PeerId Unit) :
    (monitorStep m (.update allStats relayForwarded)).peer p =
      run PeerView.step (m.peer p) (m.own p (.update allStats relayForwarded)) := by
  cases hst : m.peerStates.get? p with
  | none => simp [Monitor.own, hst, Monitor.peer, monitorStep, Monitor.updateStates,
      Monitor.isFrozen]
  | some st =>
    cases hfrozen : m.isFrozen p with
    | true =>
      have hhas : m.frozenPeers.has p = true := hfrozen
      simp [Monitor.own, hst, Monitor.peer, monitorStep, Monitor.updateStates, Monitor.isFrozen,
        PeerView.step, hhas]
    | false =>
      have hhas : m.frozenPeers.has p = false := hfrozen
      simp [Monitor.own, hst, Monitor.peer, monitorStep, Monitor.updateStates, Monitor.isFrozen,
        PeerView.step, hhas]

/-- **One event** does to a peer what its own event does. -/
theorem peer_step (e : MonitorEvent) :
    (monitorStep m e).peer p = run PeerView.step (m.peer p) (m.own p e) := by
  cases e with
  | init peer ifName relayPort => exact peer_init m p peer ifName relayPort
  | remove q =>
    by_cases hq : q = p
    · subst hq
      simp [Monitor.own, monitorStep, Monitor.peer, Monitor.removePeerState, Monitor.isFrozen,
        PeerView.step, OMap.has]
    · simp [Monitor.own, monitorStep, Monitor.peer, Monitor.removePeerState, Monitor.isFrozen,
        OMap.has, hq, OMap.get?_delete_ne _ hq]
  | freeze q now =>
    by_cases hq : q = p
    · subst hq
      simp [Monitor.own, monitorStep, Monitor.peer, Monitor.freezePeer, Monitor.isFrozen,
        PeerView.step, OMap.has]
    · simp [Monitor.own, monitorStep, Monitor.peer, Monitor.freezePeer, Monitor.isFrozen,
        OMap.has, hq, OMap.get?_set_ne _ _ hq]
  | unfreeze q =>
    show (m.unfreezePeer q).peer p = _
    rw [peer_unfreezePeer, Monitor.own]
    split <;> rfl
  | clearAll => rfl
  | setMode q mode => exact peer_setMode m p q mode
  | unfreezeStuck now => exact peer_unfreezeStuck m p now
  | update allStats relayForwarded => exact peer_update m p allStats relayForwarded

/-- **A run** does to a peer what its own events do. -/
theorem peer_run (es : List MonitorEvent) :
    (run monitorStep m es).peer p = run PeerView.step (m.peer p) (ownEvents p m es) := by
  induction es generalizing m with
  | nil => rfl
  | cons e es ih => rw [run_cons, ih, peer_step, ownEvents, run_append]

end

/-! ## The ticks that count -/

/-- The ticks that have processed a peer in direct mode since it was created or its mode was
set, newest first: the counter, and whether it was marked. -/
def PeerView.ticks (v : PeerView) (ticks : List (Nat × Bool)) : PeerEvent → List (Nat × Bool)
  | .init _ _ _ => if v.state.isSome then ticks else []
  | .remove => []
  | .setMode _ => []
  | .update rx tainted =>
    if v.frozen = false ∧ v.state.map PeerState.mode = some .direct then (rx, tainted) :: ticks
    else ticks
  | _ => ticks

def PeerView.record (s : PeerView × List (Nat × Bool)) (e : PeerEvent) :
    PeerView × List (Nat × Bool) :=
  (s.1.step e, s.1.ticks s.2 e)

def PeerView.empty : PeerView := ⟨none, false, none⟩

def processedTicks (own : List PeerEvent) : List (Nat × Bool) :=
  (run PeerView.record (.empty, []) own).2

/-- The baseline tick, or one in which the counter rose above the one before and there is no
mark. -/
def isRise (tick : Nat × Bool) : List (Nat × Bool) → Bool
  | [] => true
  | before :: _ => !tick.2 && decide (tick.1 > before.1)

/-- How many ticks there were since the newest such tick. -/
def missedTicks (ticks : List (Nat × Bool)) : Nat := countSince isRise (fun _ _ => true) ticks

/-! ## The invariant -/

/-- What the fields of a state say about the ticks that count. -/
structure Tracks (state : PeerState) (ticks : List (Nat × Bool)) : Prop where
  baseline : state.mode = .direct → state.lastRxBytes =
    (ticks.head?.map fun tick => (tick.1 : Int)).getD (-1)
  missed : state.mode = .direct → state.directMissed = missedTicks ticks
  alive : state.mode = .direct → state.rxAlive = decide (missedTicks ticks < MISS_THRESHOLD)
  relay : state.mode = .relay → state.rxAlive = false ∧ state.directMissed = 0

/-- A tick in which the counter of a peer has not risen, or the peer is marked. -/
theorem trackRx_miss {state : PeerState} (hmode : state.mode = .direct)
    (hlast : state.lastRxBytes ≥ 0) {rx : Nat} {tainted : Bool}
    (hrise : tainted = false → (rx : Int) ≤ state.lastRxBytes) : trackRx state rx tainted =
      { state with
        directMissed := state.directMissed + 1
        rxAlive := if state.directMissed + 1 ≥ MISS_THRESHOLD then false else state.rxAlive
        lastRxBytes := rx } := by
  cases tainted with
  | true => simp [trackRx, hmode, hlast]
  | false =>
    have hle : ¬ (rx : Int) > state.lastRxBytes := by
      have := hrise rfl
      omega
    simp [trackRx, hmode, hlast, hle]

/-- A tick keeps it. -/
theorem Tracks.trackRx {state : PeerState} {ticks : List (Nat × Bool)} (h : Tracks state ticks)
    (hmode : state.mode = .direct) (rx : Nat) (tainted : Bool) :
    Tracks (trackRx state rx tainted) ((rx, tainted) :: ticks) := by
  have hlast := h.baseline hmode
  have hmissed := h.missed hmode
  have halive := h.alive hmode
  cases ticks with
  | nil =>
    -- the baseline tick
    have hlast : state.lastRxBytes = -1 := hlast
    have hnext : Meshezia.trackRx state rx tainted = { state with lastRxBytes := rx } := by
      simp [Meshezia.trackRx, hmode, hlast]
    rw [hnext]
    refine ⟨fun _ => rfl, fun _ => hmissed, fun _ => halive, fun hr => ?_⟩
    rw [hmode] at hr
    cases hr
  | cons before earlier =>
    have hlast : state.lastRxBytes = before.1 := hlast
    have hpos : state.lastRxBytes ≥ 0 := by omega
    have hcount : missedTicks ((rx, tainted) :: before :: earlier) =
        if !tainted && decide (rx > before.1) then 0 else missedTicks (before :: earlier) + 1 := rfl
    cases hrise : !tainted && decide (rx > before.1) with
    | true =>
      have hnext : Meshezia.trackRx state rx tainted =
          { state with directMissed := 0, rxAlive := true, lastRxBytes := rx } := by
        simp only [Bool.and_eq_true, Bool.not_eq_true', decide_eq_true_eq] at hrise
        have hgt : (rx : Int) > state.lastRxBytes := by omega
        simp [Meshezia.trackRx, hmode, hpos, hrise.1, hgt]
      rw [hrise, if_pos rfl] at hcount
      rw [hnext]
      refine ⟨fun _ => rfl, fun _ => hcount.symm, fun _ => ?_, fun hr => ?_⟩
      · rw [hcount]
        rfl
      · rw [hmode] at hr
        cases hr
    | false =>
      have hnext : Meshezia.trackRx state rx tainted =
          { state with
            directMissed := state.directMissed + 1
            rxAlive := if state.directMissed + 1 ≥ MISS_THRESHOLD then false else state.rxAlive
            lastRxBytes := rx } := by
        refine trackRx_miss hmode hpos fun ht => ?_
        rw [ht, Bool.not_false, Bool.true_and, decide_eq_false_iff_not] at hrise
        omega
      rw [hrise, if_neg (by simp)] at hcount
      rw [hnext]
      refine ⟨fun _ => rfl, fun _ => ?_, fun _ => ?_, fun hr => ?_⟩
      · rw [hcount, ← hmissed]
      · rw [hcount, ← hmissed]
        show (if state.directMissed + 1 ≥ MISS_THRESHOLD then false else state.rxAlive) = _
        rw [halive, ← hmissed]
        split
        · simp only [false_eq_decide_iff]
          omega
        · rw [decide_eq_decide]
          omega
      · rw [hmode] at hr
        cases hr

theorem trackRx_relay {state : PeerState} (h : state.mode = .relay) (rx : Nat) (tainted : Bool) :
    trackRx state rx tainted = state := by
  simp [trackRx, h]

theorem Tracks.step {v : PeerView} {ticks : List (Nat × Bool)}
    (h : ∀ st, v.state = some st → Tracks st ticks) (e : PeerEvent) :
    ∀ st, (v.step e).state = some st → Tracks st (v.ticks ticks e) := by
  intro st hst
  cases e with
  | init peer ifName relayPort =>
    cases hold : v.state with
    | none =>
      simp only [PeerView.step, hold, Option.some.injEq] at hst
      subst hst
      simp only [PeerView.ticks, hold]
      exact ⟨fun _ => rfl, fun _ => rfl, fun _ => rfl, fun hr => by cases hr⟩
    | some existing =>
      simp only [PeerView.step, hold, Option.some.injEq] at hst
      subst hst
      simp only [PeerView.ticks, hold, Option.isSome_some, if_true]
      obtain ⟨h1, h2, h3, h4⟩ := h existing hold
      exact ⟨h1, h2, h3, h4⟩
  | remove => cases hst
  | freeze now => exact h st hst
  | unfreeze => exact h st hst
  | setMode mode =>
    obtain ⟨old, -, rfl⟩ := Option.map_eq_some_iff.mp hst
    refine ⟨fun _ => rfl, fun _ => rfl, fun hm => ?_, fun hm => ?_⟩
    · have hm : mode = .direct := hm
      rw [hm]
      rfl
    · have hm : mode = .relay := hm
      rw [hm]
      exact ⟨rfl, rfl⟩
  | unfreezeStuck now =>
    refine h st ?_
    rw [PeerView.step] at hst
    split at hst <;> exact hst
  | update rx tainted =>
    rw [PeerView.step] at hst
    cases hfrozen : v.frozen with
    | true =>
      rw [hfrozen, if_pos rfl] at hst
      simp only [PeerView.ticks, hfrozen, Bool.true_eq_false, false_and, if_false]
      exact h st hst
    | false =>
      rw [hfrozen, if_neg (by simp)] at hst
      obtain ⟨old, hold, rfl⟩ := Option.map_eq_some_iff.mp hst
      cases hmode : old.mode with
      | direct =>
        simp only [PeerView.ticks, hfrozen, hold, Option.map_some, hmode, and_self, if_true]
        exact (h old hold).trackRx hmode rx tainted
      | relay =>
        rw [trackRx_relay hmode]
        simp only [PeerView.ticks, hfrozen, hold, Option.map_some, hmode, Option.some.injEq,
          reduceCtorEq, and_false, if_false]
        exact h old hold

theorem record_fst (s : PeerView × List (Nat × Bool)) (own : List PeerEvent) :
    (run PeerView.record s own).1 = run PeerView.step s.1 own := by
  induction own generalizing s with
  | nil => rfl
  | cons e own ih => exact ih (PeerView.record s e)

theorem tracks_run (own : List PeerEvent) {st : PeerState}
    (hst : (run PeerView.step .empty own).state = some st) : Tracks st (processedTicks own) := by
  have hall : ∀ st, (run PeerView.record (.empty, []) own).1.state = some st →
      Tracks st (run PeerView.record (.empty, []) own).2 := by
    refine run_invariant PeerView.record (I := fun s => ∀ st, s.1.state = some st → Tracks st s.2)
      (fun s e h => Tracks.step h e) ?_ own
    intro st hnone
    cases hnone
  refine hall st ?_
  rw [record_fst]
  exact hst

/-- **The liveness flag**: it is read off the ticks that have processed the peer, and what
happens to other peers does not matter. -/
theorem liveness_flag (p : PeerId) (es : List MonitorEvent) :
    let monitor := run monitorStep .empty
    (∀ st, (monitor es).peerStates.get? p = some st →
      let missed := missedTicks (processedTicks (ownEvents p .empty es))
      (st.mode = .direct → st.directMissed = missed ∧ (st.rxAlive = false ↔ missed ≥ 3)) ∧
      (st.mode = .relay → st.rxAlive = false ∧ st.directMissed = 0)) ∧
    ∀ es', ownEvents p .empty es' = ownEvents p .empty es →
      (monitor es').peer p = (monitor es).peer p := by
  intro monitor
  constructor
  · intro st hst
    have hview : (run PeerView.step .empty (ownEvents p .empty es)).state = some st := by
      have hrun := congrArg PeerView.state (peer_run .empty p es)
      exact hrun.symm.trans hst
    have htracks := tracks_run _ hview
    refine ⟨fun hmode => ⟨htracks.missed hmode, ?_⟩, htracks.relay⟩
    rw [htracks.alive hmode, decide_eq_false_iff_not, MISS_THRESHOLD]
    omega
  · intro es' hown
    have hrun := peer_run .empty p es
    have hrun' := peer_run .empty p es'
    rw [hown] at hrun'
    exact hrun'.trans hrun.symm

/-- The counter of a peer rises once, stands still, falls, and rises with a mark. -/
def missingRun : List MonitorEvent :=
  .init ⟨[98], [107], [10], [69], 0⟩ 0 41820 ::
    ([1, 5, 5, 4, 4, 9].zip [false, false, false, false, false, true]).map fun tick =>
      .update (OMap.empty.set (0, [107]) tick.1)
        (if tick.2 then OMap.empty.set [98] () else .empty)

theorem liveness_flag_missingRun :
    ((run monitorStep .empty missingRun).peerStates.get? [98]).map PeerState.rxAlive =
      some false := by
  have hmissed : missedTicks (processedTicks (ownEvents [98] .empty missingRun)) ≥ 3 := by decide
  obtain ⟨st, hst⟩ := Option.isSome_iff_exists.mp (show
    ((run monitorStep .empty missingRun).peerStates.get? [98]).isSome = true by decide)
  have hmode : ((run monitorStep .empty missingRun).peerStates.get? [98]).map PeerState.mode =
      some .direct := by decide
  rw [hst, Option.map_some, Option.some.injEq] at hmode
  rw [hst, Option.map_some, Option.some.injEq]
  exact (((liveness_flag [98] missingRun).1 st hst).1 hmode).2.mpr hmissed

end Meshezia
