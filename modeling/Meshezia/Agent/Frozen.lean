import Meshezia.Agent.Ticks
import Meshezia.Agent.Release

/-!
# The freeze safety net (`frozenPeers`, `frozenAt`)

A frozen peer is in two collections: the set that the ticks and the health reports look at,
and the map that the safety net of `tick` goes through.  A peer in the set only would stay
out of the reports for ever.  Both have the same peers after any events, and the map has
the time of each peer's latest freeze, so the net finds all of them:

    isFrozen (unfreezeStuck m t) p ↔ isFrozen m p ∧ the latest freeze of p is at most
      30 s before t                                                        (frozen_latest)

The monitor of an agent is such a state in every run of the agent (`agent_monitor_run`).
-/

namespace Meshezia

/-! ## The latest freeze -/

def freezeOf (p : PeerId) : MonitorEvent → Option Int
  | .freeze q now => if q = p then some now else none
  | _ => none

/-- The time at which a peer was frozen last, if ever. -/
def lastFreeze (p : PeerId) (es : List MonitorEvent) : Option Int :=
  (es.filterMap (freezeOf p)).getLast?

theorem lastFreeze_concat (p : PeerId) (es : List MonitorEvent) (e : MonitorEvent) :
    lastFreeze p (es ++ [e]) = (freezeOf p e).or (lastFreeze p es) := by
  rw [lastFreeze, List.filterMap_append]
  cases h : freezeOf p e with
  | none => simp [h, lastFreeze]
  | some now => simp [h]

/-! ## The invariant -/

/-- What the monitor has of a peer whose latest freeze was at `last`. -/
structure FreezeInv (v : PeerView) (last : Option Int) : Prop where
  keys : v.frozen = v.frozenAt.isSome
  time : ∀ ts, v.frozenAt = some ts → last = some ts

theorem FreezeInv.thaw {v : PeerView} {last : Option Int} (hfrozen : v.frozen = false)
    (hat : v.frozenAt = none) : FreezeInv v last where
  keys := by rw [hfrozen, hat]; rfl
  time ts h := by rw [hat] at h; cases h

/-- An event of the monitor, seen from one peer. -/
theorem FreezeInv.step {m : Monitor} {p : PeerId} {last : Option Int}
    (h : FreezeInv (m.peer p) last) (e : MonitorEvent) :
    FreezeInv ((monitorStep m e).peer p) ((freezeOf p e).or last) := by
  rw [peer_step]
  cases e with
  | init peer ifName relayPort =>
    rw [Monitor.own]
    split <;> exact ⟨h.keys, h.time⟩
  | remove q =>
    rw [Monitor.own]
    split
    · exact .thaw rfl rfl
    · exact h
  | freeze q now =>
    by_cases hq : q = p
    · rw [Monitor.own, if_pos hq, freezeOf, if_pos hq]
      exact ⟨rfl, fun ts hts => hts⟩
    · rw [Monitor.own, if_neg hq, freezeOf, if_neg hq]
      exact h
  | unfreeze q =>
    rw [Monitor.own]
    split
    · exact .thaw rfl rfl
    · exact h
  | clearAll => exact .thaw rfl rfl
  | setMode q mode =>
    rw [Monitor.own]
    split <;> exact ⟨h.keys, h.time⟩
  | unfreezeStuck now =>
    show FreezeInv ((m.peer p).step (.unfreezeStuck now)) last
    rw [PeerView.step]
    split
    · exact .thaw rfl rfl
    · exact h
  | update allStats relayForwarded =>
    rw [Monitor.own]
    cases m.peerStates.get? p with
    | none => exact h
    | some st =>
      show FreezeInv ((m.peer p).step (.update _ _)) last
      rw [PeerView.step]
      split <;> exact ⟨h.keys, h.time⟩

theorem freezeInv_run (p : PeerId) (es : List MonitorEvent) :
    FreezeInv ((run monitorStep .empty es).peer p) (lastFreeze p es) := by
  induction es using List.reverseRecOn with
  | nil => exact .thaw rfl rfl
  | append_singleton es e ih =>
    rw [run_concat, lastFreeze_concat]
    exact ih.step e

/-- The first loop of a tick, seen from one peer. -/
theorem isFrozen_unfreezeStuck_iff (m : Monitor) (now : Int) (p : PeerId) :
    (m.unfreezeStuck now).isFrozen p = true ↔
      m.isFrozen p = true ∧ ∀ ts, m.frozenAt.get? p = some ts → now - ts ≤ FROZEN_TIMEOUT_MS := by
  have hview := congrArg PeerView.frozen (peer_unfreezeStuck m p now)
  have hstep : (m.unfreezeStuck now).isFrozen p =
      ((m.peer p).step (.unfreezeStuck now)).frozen := hview
  have hat : (m.peer p).frozenAt = m.frozenAt.get? p := rfl
  rw [hstep, PeerView.step, hat]
  cases hts : m.frozenAt.get? p with
  | none =>
    rw [Option.any_none, if_neg (by simp)]
    exact ⟨fun h => ⟨h, fun ts hnone => by cases hnone⟩, fun h => h.1⟩
  | some ts =>
    by_cases hold : now - ts > FROZEN_TIMEOUT_MS
    · rw [Option.any_some, decide_eq_true hold, if_pos rfl]
      refine ⟨fun h => (by cases h), fun h => ?_⟩
      have := h.2 ts rfl
      omega
    · rw [Option.any_some, decide_eq_false hold, if_neg (by simp)]
      refine ⟨fun h => ⟨h, fun ts' hts' => ?_⟩, fun h => h.1⟩
      cases hts'
      omega

/-- **The safety net.**  After any events the set and the map have the same peers, each with
the time of its latest freeze, and a tick unfreezes exactly those whose latest freeze is more
than 30 s ago. -/
theorem frozen_latest (es : List MonitorEvent) :
    let m := run monitorStep .empty es
    (∀ p, m.isFrozen p = true ↔ p ∈ m.frozenAt.keys) ∧
    (∀ p ts, m.frozenAt.get? p = some ts → lastFreeze p es = some ts) ∧
    ∀ now p, (m.unfreezeStuck now).isFrozen p = true ↔
      m.isFrozen p = true ∧ ∃ ts, lastFreeze p es = some ts ∧ now - ts ≤ 30000 := by
  intro m
  have hinv : ∀ p, FreezeInv (m.peer p) (lastFreeze p es) := fun p => freezeInv_run p es
  have hkeys : ∀ p, m.isFrozen p = (m.frozenAt.get? p).isSome := fun p => (hinv p).keys
  refine ⟨fun p => ?_, fun p => (hinv p).time, fun now p => ?_⟩
  · rw [OMap.mem_keys, hkeys]
    exact Iff.rfl
  · rw [isFrozen_unfreezeStuck_iff]
    refine and_congr_right fun hfrozen => ?_
    rw [hkeys] at hfrozen
    obtain ⟨ts, hts⟩ := Option.isSome_iff_exists.mp hfrozen
    rw [hts, (hinv p).time ts hts]
    simp [FROZEN_TIMEOUT_MS]

/-! ## The monitor of an agent -/

/-- `m'` is reached from `m` by events of the monitor. -/
def Monitor.Leads (m m' : Monitor) : Prop := ∃ es, m' = run monitorStep m es

theorem leads_refl (m : Monitor) : m.Leads m := ⟨[], rfl⟩

theorem leads_of_eq {m m' : Monitor} (h : m' = m) : m.Leads m' := ⟨[], h⟩

theorem leads_step (m : Monitor) (e : MonitorEvent) : m.Leads (monitorStep m e) := ⟨[e], rfl⟩

theorem Monitor.Leads.trans {m m' m'' : Monitor} (h : m.Leads m') (h' : m'.Leads m'') :
    m.Leads m'' := by
  obtain ⟨es, rfl⟩ := h
  obtain ⟨es', rfl⟩ := h'
  exact ⟨es ++ es', (run_append monitorStep m es es').symm⟩

section
variable (s : Agent)

theorem leads_switchPeerMode (p : PeerId) (target : Mode) :
    s.monitor.Leads (s.switchPeerMode p target).monitor := by
  unfold Agent.switchPeerMode
  split
  · exact leads_refl _
  · split
    · exact leads_refl _
    · split
      · exact leads_refl _
      · exact leads_step _ (.setMode p .direct)

theorem leads_receive (now : Int) (msg : ServerMsg) :
    s.monitor.Leads (s.receive now msg).monitor := by
  cases msg with
  | probeRelayServe p => exact leads_step _ (.freeze p now)
  | probeRelayCheck p _ _ _ _ _ => exact leads_step _ (.freeze p now)
  | probeDirectStart p => exact leads_step _ (.freeze p now)
  | probeDirectGo p _ _ _ => exact leads_refl _
  | probeVerdict p action =>
    refine (leads_step _ (.unfreeze p)).trans ?_
    cases action with
    | switchRelay => exact leads_switchPeerMode _ p .relay
    | switchDirect => exact leads_switchPeerMode _ p .direct
    | stay => exact leads_refl _
  | negotiateAbort p _ => exact leads_step _ (.unfreeze p)
  | forceMode p mode =>
    refine (leads_step _ (.unfreeze p)).trans ?_
    cases mode with
    | auto => exact leads_refl _
    | force m => exact leads_switchPeerMode _ p m.mode
  | peerRemoved p => exact leads_refl _

theorem leads_awgApplied (id : Nat) : s.monitor.Leads (s.awgApplied id).monitor := by
  unfold Agent.awgApplied
  split
  · exact leads_refl _
  · split <;> exact leads_refl _

theorem leads_switchDone (id : Nat) : s.monitor.Leads (s.switchDone id).monitor := by
  unfold Agent.switchDone
  split
  · exact leads_refl _
  · split
    · exact leads_step _ (.setMode _ _)
    · exact leads_refl _

theorem leads_removeInactive (active : List PeerId) :
    s.monitor.Leads (s.removeInactive active).monitor := by
  refine foldl_invariant (I := fun t : Agent => s.monitor.Leads t.monitor) _ _ ?_ (leads_refl _)
  exact fun t p _ ht => ht.trans (leads_step _ (.remove p))

theorem leads_proxyPeers (id : Nat) (poll : Poll) (idx : Nat) (active : List PeerId)
    (l : List PeerEndpoint) :
    s.monitor.Leads (s.proxyPeers id poll idx active l).monitor := by
  induction l generalizing active with
  | nil => exact leads_removeInactive s active
  | cons peer rest ih =>
    rw [Agent.proxyPeers]
    split
    · exact ih active
    · dsimp only
      split
      · exact ih _
      · exact leads_refl _

theorem leads_pollStep (id : Nat) (ok : Bool) (draws : List Nat) :
    s.monitor.Leads (s.pollStep id ok draws).monitor := by
  have hpeers : ∀ {t : Agent} {poll l}, t.monitor = s.monitor →
      s.monitor.Leads (t.reconcilePeers id poll draws l).monitor := fun {t poll l} ht =>
    leads_of_eq ((monitor_reconcilePeers t id poll draws l).trans ht)
  unfold Agent.pollStep
  split
  · exact leads_refl _
  · dsimp only
    split
    · exact hpeers rfl
    · split
      · exact leads_refl _
      · exact hpeers rfl
    · split
      · exact leads_refl _
      · exact hpeers rfl
    · exact hpeers rfl
    · exact leads_refl _
    · exact leads_of_eq (monitor_reconcileRemovals _ id _)
    · split <;> exact leads_refl _
    · exact leads_refl _
    · split
      · exact leads_proxyPeers s id _ _ _ _
      · split
        · exact leads_proxyPeers { s with lastPorts := _ } id _ _ _ _
        · exact leads_refl _
    · split
      · exact (leads_step _ (.init _ _ _)).trans (leads_proxyPeers _ id _ _ _ _)
      · exact leads_refl _

/-- What an event of an agent does to its monitor is what events of the monitor do. -/
theorem leads_agentStep (e : AgentEvent) : s.monitor.Leads (agentStep s e).monitor := by
  cases e with
  | receive now msg => exact leads_receive s now msg
  | awgApplied id => exact leads_awgApplied s id
  | switchDone id => exact leads_switchDone s id
  | startPoll config => exact leads_refl _
  | pollStep id ok draws => exact leads_pollStep s id ok draws
  | probeFailed p => exact leads_step _ (.unfreeze p)
  | tick now => exact leads_step _ (.unfreezeStuck now)
  | wsClose => exact leads_step _ .clearAll

end

/-- **Agents.**  In every run of an agent its two collections have the same peers. -/
theorem agent_monitor_run (range : PortRange) (host : Host) (file : MappingFile)
    (es : List AgentEvent) (p : PeerId) :
    let s := run agentStep (.boot range host file) es
    Monitor.empty.Leads s.monitor ∧ s.monitor.isFrozen p = s.monitor.frozenAt.has p := by
  intro s
  have hleads : Monitor.empty.Leads s.monitor :=
    run_invariant agentStep (I := fun t => Monitor.empty.Leads t.monitor)
      (fun t e ht => ht.trans (leads_agentStep t e)) (leads_refl _) es
  refine ⟨hleads, ?_⟩
  obtain ⟨mes, hmes⟩ := hleads
  rw [hmes]
  exact (freezeInv_run p mes).keys

end Meshezia
