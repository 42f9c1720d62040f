import Meshezia.Agent.Modes

/-!
# What a step does to modes and endpoints

A step of a poll is one of six moves (`PollPaths`): the poll goes on, decides about the next
peer, has an interface made, configured or taken down, or renews the state of a peer; and a
step of an agent is one of those or of a handler (`StepPaths`):

    StepPaths s.paths e (agentStep s e).paths                          (paths_agentStep)
-/

namespace Meshezia

/-! ## Moves -/

/-- Of the polls only the one is at another stage, or over. -/
def Others (polls : OMap Nat Poll) (id : Nat) (polls' : OMap Nat Poll) : Prop :=
  ∀ i, id ≠ i → polls'.get? i = polls.get? i

inductive PollPaths (m : Paths) (id : Nat) (poll : Poll) (ok : Bool) : Paths → Prop
  | goesOn {states : PeerStates} {polls : OMap Nat Poll} {l : List AgentItem}
      (left : ok = true → poll.stage.turn? = none)
      (kept : ∀ p st, states.get? p = some st → m.peerStates.get? p = some st)
      (others : Others m.polls id polls) (plain : ∀ it ∈ l, ∀ p, it.Plain p) :
      PollPaths m id poll ok { m with peerStates := states, polls, trace := l ++ m.trace }
  | decided {poll' : Poll} {t : Target} (left : ok = true → poll.stage.turn? = none)
      (turn : poll'.stage.turn? = some t) :
      PollPaths m id poll ok
        { m with polls := m.polls.set id poll', trace := .decided t :: m.trace }
  | created {t : Target} {rest : List PeerEndpoint} (stage : poll.stage = .creating t rest)
      (success : ok = true) :
      PollPaths m id poll ok
        { m with host := m.host.linkAdd t.ifName
                 polls := m.polls.set id { poll with stage := .setting t rest } }
  | configured {t : Target} {rest : List PeerEndpoint} (stage : poll.stage = .setting t rest)
      (success : ok = true) :
      PollPaths m id poll ok
        { m with
          host := m.host.awgSet t.ifName t.peer.pubkey
            (if t.skipEndpoint then [] else t.peer.endpoint)
          polls := m.polls.set id { poll with stage := .routing t rest } }
  | unlinked {p : PeerId} {ifName : IfName} (stage : poll.stage = .removing p ifName) :
      PollPaths m id poll ok
        { m with host := m.host.linkDelete ifName
                 polls := m.polls.set id { poll with stage := .removed p }
                 trace := .unlinked ifName :: m.trace }
  | inited {peer : PeerEndpoint} {ifName : IfName} {relayPort : Nat} {isNew : Bool}
      {rest : List PeerEndpoint} {idx : Nat} {active : List PeerId} {states : PeerStates}
      {polls : OMap Nat Poll}
      (stage : poll.stage = .binding peer ifName relayPort isNew rest idx active)
      (success : (ok || !isNew) = true)
      (kept : ∀ p st, states.get? p = some st →
        (initPeerState m.peerStates peer ifName relayPort).get? p = some st)
      (others : Others m.polls id polls) :
      PollPaths m id poll ok
        { m with peerStates := states, polls
                 trace := .inited peer.id (!m.peerStates.has peer.id) :: m.trace }

inductive StepPaths (m : Paths) : AgentEvent → Paths → Prop
  | same {e : AgentEvent} (quiet : e.isReceive = false)
      (writes : ∀ n k, m.rewrites n k e = none) : StepPaths m e m
  | noted {now : Int} {msg : ServerMsg}
      (unheard : ∀ p, (targetFor p (.received msg)).isSome = true → m.peerStates.get? p = none) :
      StepPaths m (.receive now msg) { m with trace := .received msg :: m.trace }
  | switched {now : Int} {msg : ServerMsg} {t : Switch}
      (switch : msg.switch? = some (t.peerId, t.target)) (wait : t.applied = false) :
      StepPaths m (.receive now msg)
        { m with switches := m.switches.set m.nextId t, nextId := m.nextId + 1
                 trace := .switching t :: .received msg :: m.trace }
  | cleared {now : Int} {msg : ServerMsg} {p : PeerId} (switch : msg.switch? = some (p, .direct)) :
      StepPaths m (.receive now msg)
        { m with peerStates := setPeerMode m.peerStates p .direct
                 trace := .received msg :: m.trace }
  | applied {id : Nat} {t : Switch} (get : m.switches.get? id = some t) (wait : t.applied = false) :
      StepPaths m (.awgApplied id)
        { m with host := m.host.awgSet t.ifName t.pubkey t.endpoint
                 switches := m.switches.set id { t with applied := true } }
  | done {id : Nat} {t : Switch} (get : m.switches.get? id = some t) (applied : t.applied = true) :
      StepPaths m (.switchDone id)
        { m with peerStates := setPeerMode m.peerStates t.peerId t.target
                 switches := m.switches.delete id }
  | started {config : PeerConfig} {poll : Poll} :
      StepPaths m (.startPoll config)
        { m with polls := m.polls.set m.nextId poll, nextId := m.nextId + 1
                 trace := .reconcileStarted m.nextId :: m.trace }
  | polled {id : Nat} {poll : Poll} {ok : Bool} {draws : List Nat} {m' : Paths}
      (get : m.polls.get? id = some poll) (move : PollPaths m id poll ok m') :
      StepPaths m (.pollStep id ok draws) m'

/-! ## Every step is one -/

theorem others_set (polls : OMap Nat Poll) (id : Nat) (poll : Poll) :
    Others polls id (polls.set id poll) := fun _ h => OMap.get?_set_ne _ _ h

theorem others_delete (polls : OMap Nat Poll) (id : Nat) : Others polls id (polls.delete id) :=
  fun _ h => OMap.get?_delete_ne _ h

section
variable (s : Agent) (id : Nat) {poll0 poll : Poll} {ok : Bool}

/-- The poll goes on to another stage. -/
theorem paths_setStage (left : ok = true → poll0.stage.turn? = none) (stage : Stage) :
    PollPaths s.paths id poll0 ok (s.setStage id poll stage).paths :=
  .goesOn (l := []) left (fun _ _ h => h) (others_set _ _ _) (by simp)

theorem paths_failPoll (left : ok = true → poll0.stage.turn? = none) :
    PollPaths s.paths id poll0 ok (s.failPoll id).paths :=
  .goesOn (l := [.pollFailed id]) left (fun _ _ h => h) (others_delete _ _) fun it h p => by
    rw [List.mem_singleton.mp h]
    exact ⟨rfl, fun _ _ => rfl⟩

theorem paths_reconcileEnd (left : ok = true → poll0.stage.turn? = none) :
    PollPaths s.paths id poll0 ok (s.reconcileEnd id poll).paths :=
  .goesOn (l := [.reconciled id]) left (fun _ _ h => h) (others_set _ _ _) fun it h p => by
    rw [List.mem_singleton.mp h]
    exact ⟨rfl, fun _ _ => rfl⟩

theorem paths_reconcileRemovals (left : ok = true → poll0.stage.turn? = none) :
    PollPaths s.paths id poll0 ok (s.reconcileRemovals id poll).paths := by
  unfold Agent.reconcileRemovals
  split
  · exact paths_setStage s id left _
  · split
    · exact paths_setStage s id left _
    · exact paths_reconcileEnd s id left

/-- The first loop goes on at the peers that are left. -/
theorem paths_reconcilePeers (left : ok = true → poll0.stage.turn? = none) (draws : List Nat)
    (peers : List PeerEndpoint) :
    PollPaths s.paths id poll0 ok (s.reconcilePeers id poll draws peers).paths := by
  induction peers with
  | nil => exact paths_reconcileRemovals s id left
  | cons peer rest ih =>
    unfold Agent.reconcilePeers
    split
    · exact ih
    · dsimp only
      split
      · exact paths_failPoll _ id left
      · generalize hnew : (!poll.existing.contains (getIfName s.peerToIf peer.id).1) = isNew
        cases isNew with
        | true => exact .decided (t := ⟨peer, _, _, _⟩) left rfl
        | false => exact .decided (t := ⟨peer, _, _, _⟩) left rfl

/-- The last loop of `poll` drops states. -/
theorem removeInactive_eq (s : Agent) (active : List PeerId) :
    ∃ monitor relays, s.removeInactive active = { s with monitor, relays } ∧
      ∀ p st, monitor.peerStates.get? p = some st → s.peerStates.get? p = some st := by
  refine foldl_invariant (I := fun s' : Agent => ∃ monitor relays, s' = { s with monitor, relays } ∧
      ∀ p st, monitor.peerStates.get? p = some st → s.peerStates.get? p = some st) _ _ ?_
    ⟨s.monitor, s.relays, rfl, fun _ _ h => h⟩
  rintro _ q - ⟨monitor, relays, rfl, hkept⟩
  exact ⟨_, _, rfl, fun p st h => hkept p st (OMap.get?_of_get?_delete h).2⟩

/-- The rest of `poll` goes on at the peers that are left. -/
theorem paths_proxyPeers (poll : Poll) (idx : Nat) (active : List PeerId) (peers : List PeerEndpoint) :
    ∃ states polls, (s.proxyPeers id poll idx active peers).paths =
        { s.paths with peerStates := states, polls } ∧
      (∀ p st, states.get? p = some st → s.peerStates.get? p = some st) ∧
      Others s.polls id polls := by
  induction peers generalizing active with
  | nil =>
    obtain ⟨monitor, relays, hs, hkept⟩ := removeInactive_eq s active
    simp only [Agent.proxyPeers, hs]
    exact ⟨_, _, rfl, hkept, others_delete _ _⟩
  | cons peer rest ih =>
    unfold Agent.proxyPeers
    split
    · exact ih active
    · dsimp only
      split
      · exact ih _
      · exact ⟨_, _, rfl, fun _ _ h => h, others_set _ _ _⟩

/-- **One step of a poll.** -/
theorem paths_pollStep (hpoll : s.polls.get? id = some poll) (ok : Bool) (draws : List Nat) :
    PollPaths s.paths id poll ok (s.pollStep id ok draws).paths := by
  unfold Agent.pollStep
  rw [hpoll]
  dsimp only
  split
  case h_1 hstage => exact paths_reconcilePeers s id (by simp [hstage, Stage.turn?]) draws _
  case h_2 t rest hstage =>
    cases ok with
    | true => exact .created hstage rfl
    | false => exact paths_reconcilePeers s id (by simp) draws _
  case h_3 t rest hstage =>
    cases ok with
    | true => exact .configured hstage rfl
    | false => exact paths_reconcilePeers s id (by simp) draws _
  case h_4 t rest hstage => exact paths_reconcilePeers s id (by simp [hstage, Stage.turn?]) draws _
  case h_5 p ifName hstage =>
    cases ok with
    | true => exact .unlinked hstage
    | false => exact paths_setStage s id (by simp) _
  case h_6 p hstage =>
    exact paths_reconcileRemovals { s with
      peerToIf := s.peerToIf.delete p, peerToPort := s.peerToPort.delete p, dirty := true } id
      (by simp [hstage, Stage.turn?])
  case h_7 data hstage =>
    have hleft : ok = true → poll.stage.turn? = none := by simp [hstage, Stage.turn?]
    cases ok with
    | true => exact paths_setStage { s with mappings := data } id hleft _
    | false => exact paths_failPoll s id hleft
  case h_8 hstage =>
    exact paths_reconcileEnd { s with dirty := false } id (by simp [hstage, Stage.turn?])
  case h_9 hstage =>
    have hleft : ok = true → poll.stage.turn? = none := by simp [hstage, Stage.turn?]
    have hgoes : ∀ t : Agent, t.paths = s.paths →
        PollPaths s.paths id poll ok (t.proxyPeers id poll 0 [] poll.config.peers).paths := by
      intro t ht
      obtain ⟨states, polls, he, hkept, hothers⟩ := paths_proxyPeers t id poll 0 []
        poll.config.peers
      rw [he, ht]
      exact .goesOn (l := []) hleft (fun p st h => congrArg Paths.peerStates ht ▸ hkept p st h)
        (congrArg Paths.polls ht ▸ hothers) (by simp)
    split
    · exact hgoes s rfl
    · split
      · exact hgoes _ rfl
      · exact paths_failPoll s id hleft
  case h_10 peer ifName relayPort isNew rest idx active hstage =>
    split
    · rename_i hok
      obtain ⟨states, polls, he, hkept, hothers⟩ := paths_proxyPeers
        (s.initPeer peer ifName relayPort isNew) id poll (idx + 1) active rest
      rw [he]
      exact .inited hstage hok hkept hothers
    · exact paths_failPoll s id (by simp [hstage, Stage.turn?])

/-- A message arrives. -/
theorem paths_receive (now : Int) (msg : ServerMsg) :
    StepPaths s.paths (.receive now msg) (s.receive now msg).paths := by
  have hplain : msg.switch? = none → ∀ p, (targetFor p (.received msg)).isSome = true →
      s.paths.peerStates.get? p = none := by
    intro h p hp
    simp [targetFor, AgentItem.switch?, h] at hp
  have hswitch : ∀ (p : PeerId) (target : Mode) (t : Agent), msg.switch? = some (p, target) →
      t.paths = (s.note (.received msg)).paths →
      StepPaths s.paths (.receive now msg) (t.switchPeerMode p target).paths := by
    intro p target t hmsg ht
    have hstates : t.peerStates = s.peerStates := congrArg Paths.peerStates ht
    have hswitches : t.switches = s.switches := congrArg Paths.switches ht
    have hnext : t.nextId = s.nextId := congrArg Paths.nextId ht
    have hset : ∀ (st : PeerState) (e : JsString), StepPaths s.paths (.receive now msg)
        (t.startSwitch ⟨p, target, st.ifName, st.pubkey, e, false⟩).paths := by
      intro st e
      have h : StepPaths s.paths (.receive now msg) _ :=
        .switched (t := ⟨p, target, st.ifName, st.pubkey, e, false⟩) hmsg rfl
      convert h using 1
      show Paths.mk t.paths.host t.paths.peerStates (t.paths.switches.set t.paths.nextId _)
        t.paths.polls (t.paths.nextId + 1) (_ :: t.paths.trace) = _
      rw [ht]
      rfl
    unfold Agent.switchPeerMode
    rw [hstates]
    cases hst : s.peerStates.get? p with
    | none =>
      dsimp only
      rw [ht]
      refine .noted fun q hq => ?_
      simp only [targetFor, AgentItem.switch?, hmsg] at hq
      split at hq
      · rename_i hqp
        exact hqp ▸ hst
      · cases hq
    | some st =>
      cases target with
      | relay => exact hset st _
      | direct =>
        dsimp only
        split
        · exact hset st _
        · have h : StepPaths s.paths (.receive now msg) _ := .cleared hmsg
          convert h using 1
          show Paths.mk t.paths.host (Meshezia.setPeerMode t.paths.peerStates p .direct)
            t.paths.switches t.paths.polls t.paths.nextId t.paths.trace = _
          rw [ht]
          rfl
  cases msg with
  | probeVerdict q action =>
    cases action with
    | switchRelay => exact hswitch q .relay _ rfl rfl
    | switchDirect => exact hswitch q .direct _ rfl rfl
    | stay => exact .noted (hplain rfl)
  | forceMode q mode =>
    cases mode with
    | auto => exact .noted (hplain rfl)
    | force m => exact hswitch q m.mode _ rfl rfl
  | _ => exact .noted (hplain rfl)

/-- **One step of an agent.** -/
theorem paths_agentStep (e : AgentEvent) : StepPaths s.paths e (agentStep s e).paths := by
  cases e with
  | receive now msg => exact paths_receive s now msg
  | awgApplied id =>
    simp only [agentStep, Agent.awgApplied]
    cases hget : s.switches.get? id with
    | none => exact .same rfl fun n k => by simp [Paths.rewrites, Agent.paths, hget]
    | some t =>
      dsimp only
      split
      · rename_i happ
        exact .same rfl fun n k => by simp [Paths.rewrites, Agent.paths, hget, happ]
      · rename_i happ
        exact .applied hget (Bool.eq_false_iff.mpr happ)
  | switchDone id =>
    simp only [agentStep, Agent.switchDone]
    cases hget : s.switches.get? id with
    | none => exact .same rfl fun _ _ => rfl
    | some t =>
      dsimp only
      split
      · rename_i happ
        exact .done hget happ
      · exact .same rfl fun _ _ => rfl
  | startPoll config => exact .started
  | pollStep id ok draws =>
    simp only [agentStep]
    cases hget : s.polls.get? id with
    | none =>
      unfold Agent.pollStep
      rw [hget]
      refine .same rfl fun n k => ?_
      cases ok <;> simp [Paths.rewrites, Agent.paths, hget]
    | some poll => exact .polled hget (paths_pollStep s id hget ok draws)
  | probeFailed p => exact .same rfl fun _ _ => rfl
  | tick now =>
    have htick : (agentStep s (.tick now)).paths = s.paths := by
      simp [agentStep, Agent.paths, Agent.peerStates]
    rw [htick]
    exact .same rfl fun _ _ => rfl
  | wsClose => exact .same rfl fun _ _ => rfl

end

end Meshezia
