import Meshezia.Agent.Books

/-!
# Random ports (`getPort`, `reconcile`)

`getPort` tries a thousand random ports of the range and then throws "No available ports in
range", whether there are any or not.  So a port that no peer holds is found if and only if it
is drawn, and `reconcile` throws at the turn of a new peer with a free port when none of its
draws is free:

    Assigns range m p draws ↔ a draw is free ∨ no port of the range is      (getPort_assigns_iff)

A range that is nearly full fails often: with one free port of a thousand, every third time.
-/

namespace Meshezia

/-! ## Ports and draws -/

/-- A port of the range that no peer holds. -/
def Free (range : PortRange) (m : OMap PeerId Nat) (port : Nat) : Prop :=
  range.start ≤ port ∧ port ≤ range.stop ∧ ∀ q, m.get? q ≠ some port

/-- One of the first thousand draws is the number of a free port. -/
def DrawsFree (range : PortRange) (m : OMap PeerId Nat) (draws : List Nat) : Prop :=
  ∃ d ∈ draws.take 1000, Free range m (range.start + d % (range.stop - range.start + 1))

/-- No port, or the port 0. -/
def Portless (m : OMap PeerId Nat) (p : PeerId) : Prop := (m.get? p).getD 0 = 0

/-- A free port is given to the peer when there is one, and nothing else changes. -/
def Assigns (range : PortRange) (m : OMap PeerId Nat) (p : PeerId) (draws : List Nat) : Prop :=
  ((∃ port, Free range m port) → ∃ port m', getPort range m p draws = some (port, m') ∧
    Free range m port ∧ m'.get? p = some port ∧ ∀ q, q ≠ p → m'.get? q = m.get? q) ∧
  (getPort range m p draws = none →
    ∀ port, range.start ≤ port → port ≤ range.stop → ∃ q, m.get? q = some port)

section
variable {range : PortRange} {m : OMap PeerId Nat} {p : PeerId} {draws : List Nat} {port : Nat}

theorem mem_ports_iff : port ∈ m.entries.map Prod.snd ↔ ∃ q, m.get? q = some port := by
  constructor
  · intro h
    obtain ⟨⟨q, port⟩, hq, rfl⟩ := List.mem_map.mp h
    exact ⟨q, (OMap.mem_entries _ _ _).mp hq⟩
  · rintro ⟨q, hq⟩
    exact List.mem_map.mpr ⟨(q, port), (OMap.mem_entries _ _ _).mpr hq, rfl⟩

/-- A candidate is a port of the range. -/
theorem portCandidates_range (hne : range.start ≤ range.stop)
    (h : port ∈ portCandidates range draws) : range.start ≤ port ∧ port ≤ range.stop := by
  obtain ⟨d, -, rfl⟩ := List.mem_map.mp h
  have hlt := Nat.mod_lt d (Nat.succ_pos (range.stop - range.start))
  rw [Nat.succ_eq_add_one] at hlt
  omega

/-- What `getPort` does for a peer without a port. -/
theorem getPort_portless (hnew : Portless m p) : getPort range m p draws =
    ((portCandidates range draws).find? fun c => c ∉ m.entries.map Prod.snd).bind fun port =>
      if port = 0 then none else some (port, m.set p port) := by
  unfold getPort
  rw [Portless] at hnew
  cases hget : m.get? p with
  | none => rfl
  | some own =>
    rw [hget, Option.getD_some] at hnew
    subst hnew
    rfl

/-- It returns a free port or, when no draw is free, nothing. -/
theorem getPort_cases (hpos : 0 < range.start) (hne : range.start ≤ range.stop)
    (hnew : Portless m p) (draws : List Nat) :
    (∃ port, Free range m port ∧ DrawsFree range m draws ∧
      getPort range m p draws = some (port, m.set p port)) ∨
    (¬ DrawsFree range m draws ∧ getPort range m p draws = none) := by
  rw [getPort_portless hnew]
  cases hfind : (portCandidates range draws).find? fun c => c ∉ m.entries.map Prod.snd with
  | none =>
    refine Or.inr ⟨?_, rfl⟩
    rintro ⟨d, hd, -, -, hfree⟩
    have hmem := List.find?_eq_none.mp hfind _ (List.mem_map.mpr ⟨d, hd, rfl⟩)
    simp only [decide_not, Bool.not_eq_eq_eq_not, Bool.not_true, decide_eq_false_iff_not,
      Decidable.not_not] at hmem
    obtain ⟨q, hq⟩ := mem_ports_iff.mp hmem
    exact hfree q hq
  | some port =>
    have hmem := List.mem_of_find?_eq_some hfind
    have hunused : port ∉ m.entries.map Prod.snd := by simpa using List.find?_some hfind
    obtain ⟨hstart, hstop⟩ := portCandidates_range hne hmem
    have hfree : Free range m port :=
      ⟨hstart, hstop, fun q hq => hunused (mem_ports_iff.mpr ⟨q, hq⟩)⟩
    obtain ⟨d, hd, hport⟩ := List.mem_map.mp hmem
    refine Or.inl ⟨port, hfree, ⟨d, hd, hport ▸ hfree⟩, ?_⟩
    show (if port = 0 then none else some (port, m.set p port)) = _
    rw [if_neg (by omega)]

theorem assigns_iff (hpos : 0 < range.start) (hne : range.start ≤ range.stop)
    (hnew : Portless m p) (draws : List Nat) :
    Assigns range m p draws ↔ DrawsFree range m draws ∨ ¬ ∃ port, Free range m port := by
  rcases getPort_cases hpos hne hnew draws with ⟨port, hfree, hdraws, hget⟩ | ⟨hdraws, hget⟩
  · refine iff_of_true ⟨fun _ => ⟨port, _, hget, hfree, OMap.get?_set_self .., ?_⟩, ?_⟩
      (Or.inl hdraws)
    · exact fun q hq => OMap.get?_set_ne _ _ (Ne.symm hq)
    · intro hnone
      rw [hget] at hnone
      cases hnone
  · constructor
    · rintro ⟨hsome, -⟩
      refine Or.inr fun hfree => ?_
      obtain ⟨port, m', hget', -⟩ := hsome hfree
      rw [hget] at hget'
      cases hget'
    · rintro (h | hfull)
      · exact absurd h hdraws
      · refine ⟨fun h => absurd h hfull, fun _ port hstart hstop => ?_⟩
        by_contra hfree
        exact hfull ⟨port, hstart, hstop, fun q hq => hfree ⟨q, hq⟩⟩

end

/-! ## Reconcile -/

/-- At the turn of this peer `reconcile` draws a port. -/
def NeedsPort (m : OMap PeerId Nat) (peer : PeerEndpoint) : Prop :=
  peer.listenPort = 0 ∧ Portless m peer.id

/-- `reconcile` does not abort at the turn of a peer, if there is a free port when it needs
one. -/
def KeepsOn (s : Agent) : AgentEvent → Prop
  | .pollStep id ok draws => ∀ poll peer rest, s.polls.get? id = some poll →
      poll.turn ok = some (peer, rest) →
      (NeedsPort s.peerToPort peer → ∃ port, Free s.range s.peerToPort port) →
        (s.pollStep id ok draws).polls.has id = true
  | _ => True

/-- A free port is drawn for a peer that needs one, if there is one. -/
def Lucky (s : Agent) : AgentEvent → Prop
  | .pollStep id ok draws => ∀ poll peer rest, s.polls.get? id = some poll →
      poll.turn ok = some (peer, rest) → NeedsPort s.peerToPort peer →
        DrawsFree s.range s.peerToPort draws ∨ ¬ ∃ port, Free s.range s.peerToPort port
  | _ => True

section
variable {range : PortRange} {m : OMap PeerId Nat}

theorem portFor_isSome_iff (hpos : 0 < range.start) (hne : range.start ≤ range.stop)
    (peer : PeerEndpoint) (draws : List Nat) :
    (portFor range m peer draws).isSome = true ↔
      (NeedsPort m peer → DrawsFree range m draws) := by
  unfold portFor
  by_cases hport : peer.listenPort > 0
  · rw [if_pos hport]
    exact iff_of_true rfl fun h => absurd h.1 (by omega)
  · rw [if_neg hport]
    by_cases hnew : Portless m peer.id
    · rcases getPort_cases hpos hne hnew draws with ⟨port, -, hdraws, hget⟩ | ⟨hdraws, hget⟩
      · rw [hget]
        exact iff_of_true rfl fun _ => hdraws
      · rw [hget]
        refine iff_of_false (by simp) fun h => hdraws (h ⟨by omega, hnew⟩)
    · -- the peer has its port
      rw [Portless] at hnew
      cases hget : m.get? peer.id with
      | none =>
        rw [hget] at hnew
        exact absurd rfl hnew
      | some own =>
        rw [hget, Option.getD_some] at hnew
        rw [getPort_own range hget hnew]
        refine iff_of_true rfl fun h => absurd h.2 ?_
        rw [Portless, hget]
        exact hnew

/-- The turn of a peer: the poll goes on if and only if there is a port. -/
theorem has_pollStep_turn {s : Agent} {id : Nat} {ok : Bool} {draws : List Nat} {poll : Poll}
    {peer : PeerEndpoint} {rest : List PeerEndpoint} (hpoll : s.polls.get? id = some poll)
    (hturn : poll.turn ok = some (peer, rest)) :
    (s.pollStep id ok draws).polls.has id =
      (portFor s.range s.peerToPort peer draws).isSome := by
  have hin := inReconcile_of_turn hturn
  obtain ⟨todo, htodo, hfirst⟩ := Option.bind_eq_some_iff.mp hturn
  have hstep := pollBooks_pollStep s id hpoll ok draws
  generalize hb : (s.pollStep id ok draws).books = b at hstep
  have hpolls : (s.pollStep id ok draws).polls = b.polls := congrArg Books.polls hb
  rw [hpolls]
  cases hstep with
  | command hnone =>
    rw [hnone] at htodo
    cases htodo
  | turn hturn' hport =>
    rw [hturn] at hturn'
    cases hturn'
    have hport : portFor s.range s.peerToPort peer draws = _ := hport
    rw [hport]
    exact OMap.has_of_get? (OMap.get?_set_self ..)
  | throws hturn' hport =>
    rw [hturn] at hturn'
    cases hturn'
    have hport : portFor s.range s.peerToPort peer draws = none := hport
    rw [hport]
    exact (OMap.has_eq_false_iff _ _).mpr (OMap.get?_delete_self ..)
  | looped htodo' hnone =>
    rw [htodo, Option.some.injEq] at htodo'
    rw [← htodo', hfirst] at hnone
    cases hnone
  | unlinked hstage => simp [Poll.todo, hstage] at htodo
  | removed hstage => simp [Poll.todo, hstage] at htodo
  | written hstage => simp [Poll.todo, hstage] at htodo
  | unwritten hstage => simp [Poll.todo, hstage] at htodo
  | cleared hstage => simp [Poll.todo, hstage] at htodo
  | ended hlate =>
    rw [hin] at hlate
    cases hlate
  | later hlate =>
    rw [hin] at hlate
    cases hlate

theorem keepsOn_iff_lucky {s : Agent} (hpos : 0 < s.range.start)
    (hne : s.range.start ≤ s.range.stop) (e : AgentEvent) : KeepsOn s e ↔ Lucky s e := by
  cases e with
  | pollStep id ok draws =>
    refine forall_congr' fun poll => forall_congr' fun peer => forall_congr' fun rest =>
      forall_congr' fun hpoll => forall_congr' fun hturn => ?_
    rw [has_pollStep_turn hpoll hturn, portFor_isSome_iff hpos hne]
    constructor
    · intro h hneeds
      by_cases hfree : ∃ port, Free s.range s.peerToPort port
      · exact Or.inl (h (fun _ => hfree) hneeds)
      · exact Or.inr hfree
    · intro h hfree hneeds
      exact (h hneeds).resolve_right fun hfull => hfull (hfree hneeds)
  | _ => exact Iff.rfl

end

/-! ## The range stays -/

section
variable (s : Agent)

theorem range_switchPeerMode (p : PeerId) (target : Mode) :
    (s.switchPeerMode p target).range = s.range := by
  unfold Agent.switchPeerMode
  split
  · rfl
  · split
    · rfl
    · split <;> rfl

theorem range_receive (now : Int) (msg : ServerMsg) : (s.receive now msg).range = s.range := by
  cases msg with
  | probeVerdict p action =>
    cases action with
    | switchRelay => exact range_switchPeerMode _ p .relay
    | switchDirect => exact range_switchPeerMode _ p .direct
    | stay => rfl
  | forceMode p mode =>
    cases mode with
    | auto => rfl
    | force m => exact range_switchPeerMode _ p m.mode
  | _ => rfl

theorem range_reconcileRemovals (id : Nat) (poll : Poll) :
    (s.reconcileRemovals id poll).range = s.range := by
  unfold Agent.reconcileRemovals
  split
  · rfl
  · split <;> rfl

theorem range_reconcilePeers (id : Nat) (poll : Poll) (draws : List Nat)
    (l : List PeerEndpoint) : (s.reconcilePeers id poll draws l).range = s.range := by
  induction l with
  | nil => exact range_reconcileRemovals s id poll
  | cons peer rest ih =>
    rw [Agent.reconcilePeers]
    split
    · exact ih
    · dsimp only
      split <;> rfl

theorem range_proxyPeers (id : Nat) (poll : Poll) (idx : Nat) (active : List PeerId)
    (l : List PeerEndpoint) : (s.proxyPeers id poll idx active l).range = s.range := by
  induction l generalizing active with
  | nil =>
    show (s.removeInactive active).range = s.range
    unfold Agent.removeInactive
    refine foldl_invariant (I := fun t : Agent => t.range = s.range) _ _ ?_ rfl
    exact fun t p _ ht => ht
  | cons peer rest ih =>
    rw [Agent.proxyPeers]
    split
    · exact ih active
    · dsimp only
      split
      · exact ih _
      · rfl

theorem range_pollStep (id : Nat) (ok : Bool) (draws : List Nat) :
    (s.pollStep id ok draws).range = s.range := by
  unfold Agent.pollStep
  split
  · rfl
  · dsimp only
    split
    · exact range_reconcilePeers s id _ draws _
    · split
      · rfl
      · exact range_reconcilePeers s id _ draws _
    · split
      · rfl
      · exact range_reconcilePeers s id _ draws _
    · exact range_reconcilePeers s id _ draws _
    · rfl
    · exact range_reconcileRemovals _ id _
    · split <;> rfl
    · rfl
    · split
      · exact range_proxyPeers s id _ _ _ _
      · split
        · exact range_proxyPeers _ id _ _ _ _
        · rfl
    · split
      · exact range_proxyPeers _ id _ _ _ _
      · rfl

theorem range_agentStep (e : AgentEvent) : (agentStep s e).range = s.range := by
  cases e with
  | receive now msg => exact range_receive s now msg
  | pollStep id ok draws => exact range_pollStep s id ok draws
  | awgApplied id =>
    show (s.awgApplied id).range = s.range
    unfold Agent.awgApplied
    split
    · rfl
    · split <;> rfl
  | switchDone id =>
    show (s.switchDone id).range = s.range
    unfold Agent.switchDone
    split
    · rfl
    · split <;> rfl
  | _ => rfl

end

/-- **Ports.**  A peer without a port gets a free one if and only if one is drawn or there is
none; and in a run of an agent no `reconcile` with a free port for its new peers aborts if and
only if each of them draws one. -/
theorem getPort_assigns_iff {range : PortRange} (hpos : 0 < range.start)
    (hne : range.start ≤ range.stop) :
    (∀ m p draws, Portless m p →
      (Assigns range m p draws ↔ DrawsFree range m draws ∨ ¬ ∃ port, Free range m port)) ∧
    ∀ s : Agent, s.range = range → ∀ es,
      (Along agentStep KeepsOn s es ↔ Along agentStep Lucky s es) := by
  refine ⟨fun m p draws hnew => assigns_iff hpos hne hnew draws, ?_⟩
  rintro s rfl es
  have hiff : ∀ t : Agent, t.range = s.range → ∀ e, KeepsOn t e ↔ Lucky t e := by
    intro t ht e
    rw [← ht] at hpos hne
    exact keepsOn_iff_lucky hpos hne e
  have hstep : ∀ (t : Agent) (e : AgentEvent), t.range = s.range →
      (agentStep t e).range = s.range := fun t e ht => (range_agentStep t e).trans ht
  constructor
  · exact along_of_invariant agentStep (I := fun t => t.range = s.range)
      (fun t e ht _ => hstep t e ht) (fun t e ht h => (hiff t ht e).mp h) rfl
  · exact along_of_invariant agentStep (I := fun t => t.range = s.range)
      (fun t e ht _ => hstep t e ht) (fun t e ht h => (hiff t ht e).mpr h) rfl

/-- A peer has one of two ports. -/
def halfFull : OMap PeerId Nat := OMap.empty.set [98] 51820

theorem free_halfFull : Free ⟨51820, 51821⟩ halfFull 51821 := by
  refine ⟨by decide, by decide, fun q => ?_⟩
  rw [halfFull, OMap.get?_set]
  split <;> simp

theorem portless_halfFull : Portless halfFull [97] := rfl

/-- A poll of an agent that has loaded this mapping. -/
def halfFullRun : List AgentEvent :=
  [.startPoll ⟨[⟨[97], [107], [10], [], 0⟩], by decide⟩, .pollStep 0 true [0, 1]]

theorem getPort_assigns_iff_halfFull :
    let agent := Agent.boot ⟨51820, 51821⟩ ⟨[], .empty⟩ ⟨[([98], 0, 51820)], by decide, by decide⟩
    Assigns ⟨51820, 51821⟩ halfFull [97] [0, 1] ∧
      (Along agentStep KeepsOn agent halfFullRun ↔ Along agentStep Lucky agent halfFullRun) := by
  have h := @getPort_assigns_iff ⟨51820, 51821⟩ (by decide) (by decide)
  exact ⟨(h.1 halfFull [97] [0, 1] portless_halfFull).mpr (Or.inl ⟨1, by decide, free_halfFull⟩),
    h.2 _ rfl halfFullRun⟩

/-- All of a thousand draws may be taken. -/
theorem getPort_misses : ¬ ∀ range m p draws, 0 < range.start → range.start ≤ range.stop →
    Portless m p → Assigns range m p draws := by
  intro h
  have hassigns := h ⟨51820, 51821⟩ halfFull [97] (List.replicate 1000 0) (by decide) (by decide)
    portless_halfFull
  rw [assigns_iff (by decide) (by decide) portless_halfFull] at hassigns
  rcases hassigns with ⟨d, hd, -, -, hd'⟩ | hfull
  · have hzero : d = 0 := List.eq_of_mem_replicate (List.mem_of_mem_take hd)
    rw [hzero] at hd'
    exact hd' [98] (by decide)
  · exact hfull ⟨51821, free_halfFull⟩

end Meshezia
