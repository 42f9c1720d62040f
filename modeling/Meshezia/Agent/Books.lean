import Meshezia.Agent.Step

/-!
# What a step does to the mappings

The reconciler keeps which interface and which port each peer has, whether that has changed
since it was saved, and the file.  Of an agent only these and its polls matter here
(`Agent.books`).

A poll changes them in few places: at the turn of a peer in the first loop of `reconcile`,
after an interface has been removed, and where the mappings are saved.  `BooksStep` lists
them, with what the code has checked before, and every step of an agent is one:

    BooksStep s.range s.books e (agentStep s e).books                 (booksStep_agentStep)
-/

namespace Meshezia

structure Books where
  peerToIf : OMap PeerId IfName
  peerToPort : OMap PeerId Nat
  dirty : Bool
  mappings : List (PeerId × IfName × Nat)
  polls : OMap Nat Poll

def Agent.books (s : Agent) : Books := ⟨s.peerToIf, s.peerToPort, s.dirty, s.mappings, s.polls⟩

/-- The data that `saveMappings` writes. -/
def Books.mappingData (b : Books) : List (PeerId × IfName × Nat) :=
  b.peerToIf.entries.map fun e => (e.1, e.2, (b.peerToPort.get? e.1).getD 0)

/-! ## Where a poll is -/

/-- The call of `reconcile` has not returned. -/
def Stage.inReconcile : Stage → Bool
  | .reporting => false
  | .binding _ _ _ _ _ _ _ => false
  | _ => true

/-- The peer of the first loop that commands are run for, and the peers after it. -/
def Stage.work? : Stage → Option (Target × List PeerEndpoint)
  | .creating t rest => some (t, rest)
  | .setting t rest => some (t, rest)
  | .routing t rest => some (t, rest)
  | _ => none

/-- The peer whose interface is being removed. -/
def Stage.leaving? : Stage → Option PeerId
  | .removing p _ => some p
  | .removed p => some p
  | _ => none

/-- The data for the file is taken, and the flag not yet cleared. -/
def Stage.saves : Stage → Bool
  | .saving _ => true
  | .saved => true
  | _ => false

/-- The peers that the first loop goes on to when what the poll awaits ends with `ok`:
`none` when there is another command for the same peer, or the loop is over. -/
def Poll.todo (poll : Poll) (ok : Bool) : Option (List PeerEndpoint) :=
  match poll.stage with
  | .listing => some poll.config.peers
  | .creating _ rest => if ok then none else some rest
  | .setting _ rest => if ok then none else some rest
  | .routing _ rest => some rest
  | _ => none

/-- The first peer with a pubkey, and the peers after it. -/
def firstKeyed : List PeerEndpoint → Option (PeerEndpoint × List PeerEndpoint)
  | [] => none
  | peer :: rest => if peer.pubkey = [] then firstKeyed rest else some (peer, rest)

/-- The peer whose turn a step of the poll begins, and the peers after it. -/
def Poll.turn (poll : Poll) (ok : Bool) : Option (PeerEndpoint × List PeerEndpoint) :=
  (poll.todo ok).bind firstKeyed

/-- The ports to report, with that of a peer whose commands have all succeeded. -/
def Poll.portsAfter (poll : Poll) (ok : Bool) : List (PeerId × Nat) :=
  match poll.stage with
  | .routing t _ => if ok then poll.ports ++ [(t.peer.id, t.listenPort)] else poll.ports
  | _ => poll.ports

theorem leaving?_of_work {stage : Stage} (h : stage.work?.isSome = true) :
    stage.leaving? = none := by
  cases stage <;> first | rfl | cases h

theorem leaving?_of_late {stage : Stage} (h : stage.inReconcile = false) :
    stage.leaving? = none := by
  cases stage <;> first | rfl | cases h

theorem inReconcile_of_work {stage : Stage} (h : stage.work?.isSome = true) :
    stage.inReconcile = true := by
  cases stage <;> first | rfl | cases h

theorem inReconcile_of_todo {poll : Poll} {ok : Bool} {todo : List PeerEndpoint}
    (h : poll.todo ok = some todo) : poll.stage.inReconcile = true := by
  unfold Poll.todo at h
  cases hstage : poll.stage with
  | reporting => simp [hstage] at h
  | binding => simp [hstage] at h
  | _ => rfl

theorem inReconcile_of_turn {poll : Poll} {ok : Bool} {next : PeerEndpoint × List PeerEndpoint}
    (h : poll.turn ok = some next) : poll.stage.inReconcile = true := by
  obtain ⟨todo, htodo, -⟩ := Option.bind_eq_some_iff.mp h
  exact inReconcile_of_todo htodo

theorem saves_of_past {stage : Stage} (h : stage.inReconcile = false) : stage.saves = false := by
  cases stage <;> first | rfl | cases h

theorem saves_of_work {stage : Stage} (h : stage.work?.isSome = true) : stage.saves = false := by
  cases stage <;> first | rfl | cases h

theorem not_saving_of_work {stage : Stage} (h : stage.work?.isSome = true)
    {data : List (PeerId × IfName × Nat)} : stage ≠ .saving data := by
  rintro rfl
  cases h

/-- The port of a peer: the one of the configuration, else its own or a new one. -/
def portFor (range : PortRange) (peerToPort : OMap PeerId Nat) (peer : PeerEndpoint)
    (draws : List Nat) : Option (Nat × OMap PeerId Nat) :=
  if peer.listenPort > 0 then some (peer.listenPort, peerToPort.set peer.id peer.listenPort)
  else getPort range peerToPort peer.id draws

/-! ## Steps -/

/-- The second loop goes on: to the next interface to remove, to the file, or to its end. -/
inductive Removals (b : Books) (id : Nat) (poll : Poll) : Books → Prop
  | removing {p i} : b.peerToIf.get? p = some i → Agent.isDesired poll.config p = false →
      Removals b id poll { b with polls := b.polls.set id { poll with stage := .removing p i } }
  | saving : (∀ p, b.peerToIf.has p = true → Agent.isDesired poll.config p = true) →
      b.dirty = true → Removals b id poll
        { b with polls := b.polls.set id { poll with stage := .saving b.mappingData } }
  | done : (∀ p, b.peerToIf.has p = true → Agent.isDesired poll.config p = true) →
      b.dirty = false → Removals b id poll
        { b with polls := b.polls.set id { poll with stage := .reporting } }

/-- A step of the poll `id`. -/
inductive PollBooks (range : PortRange) (b : Books) (id : Nat) (poll : Poll) (ok : Bool)
    (draws : List Nat) : Books → Prop
  | command {stage} : poll.todo ok = none → poll.stage.work?.isSome = true →
      stage.work? = poll.stage.work? →
      PollBooks range b id poll ok draws { b with polls := b.polls.set id { poll with stage } }
  | turn {peer rest t port peerToPort poll'} : poll.turn ok = some (peer, rest) →
      portFor range b.peerToPort peer draws = some (port, peerToPort) →
      poll'.config = poll.config → poll'.ports = poll.portsAfter ok →
      poll'.stage.work? = some (t, rest) → t.peer = peer → t.listenPort = port →
      PollBooks range b id poll ok draws
        { b with peerToIf := (getIfName b.peerToIf peer.id).2
                 peerToPort
                 dirty := (b.dirty || !b.peerToIf.has peer.id) ||
                   decide (b.peerToPort.get? peer.id ≠ some port)
                 polls := b.polls.set id poll' }
  | throws {peer rest} : poll.turn ok = some (peer, rest) →
      portFor range b.peerToPort peer draws = none →
      PollBooks range b id poll ok draws
        { b with peerToIf := (getIfName b.peerToIf peer.id).2
                 dirty := b.dirty || !b.peerToIf.has peer.id
                 polls := b.polls.delete id }
  | looped {todo poll' b'} : poll.todo ok = some todo → firstKeyed todo = none →
      poll'.config = poll.config → poll'.ports = poll.portsAfter ok → Removals b id poll' b' →
      PollBooks range b id poll ok draws b'
  | unlinked {p i} : poll.stage = .removing p i → PollBooks range b id poll ok draws
      { b with polls := b.polls.set id { poll with stage := .removed p } }
  | removed {p b'} : poll.stage = .removed p →
      Removals { b with peerToIf := b.peerToIf.delete p, peerToPort := b.peerToPort.delete p
                        dirty := true } id poll b' →
      PollBooks range b id poll ok draws b'
  | written {data} : poll.stage = .saving data → ok = true → PollBooks range b id poll ok draws
      { b with mappings := data, polls := b.polls.set id { poll with stage := .saved } }
  | unwritten {data} : poll.stage = .saving data → ok = false →
      PollBooks range b id poll ok draws { b with polls := b.polls.delete id }
  | cleared : poll.stage = .saved → PollBooks range b id poll ok draws
      { b with dirty := false, polls := b.polls.set id { poll with stage := .reporting } }
  | ended : poll.stage.inReconcile = false →
      PollBooks range b id poll ok draws { b with polls := b.polls.delete id }
  | later {stage} : poll.stage.inReconcile = false → stage.inReconcile = false →
      PollBooks range b id poll ok draws { b with polls := b.polls.set id { poll with stage } }

inductive BooksStep (range : PortRange) (b : Books) : AgentEvent → Books → Prop
  | other e : BooksStep range b e b
  | started config id : BooksStep range b (.startPoll config)
      { b with polls := b.polls.set id { config, existing := [], ports := [], stage := .listing } }
  | polled {id ok draws poll b'} : b.polls.get? id = some poll →
      PollBooks range b id poll ok draws b' → BooksStep range b (.pollStep id ok draws) b'

/-! ## Every step is one -/

section
variable (s : Agent) (id : Nat) (poll : Poll)

theorem removals_reconcileRemovals :
    Removals s.books id poll (s.reconcileRemovals id poll).books := by
  unfold Agent.reconcileRemovals
  split
  · rename_i p i hfind
    have hmem := List.mem_of_find?_eq_some hfind
    have hgone := List.find?_some hfind
    exact .removing ((OMap.mem_entries _ _ _).mp hmem) (by simpa using hgone)
  · rename_i hfind
    have hall : ∀ p, s.books.peerToIf.has p = true →
        Agent.isDesired poll.config p = true := by
      intro p hp
      obtain ⟨i, hi⟩ := (OMap.has_iff _ _).mp hp
      have := List.find?_eq_none.mp hfind (p, i) ((OMap.mem_entries _ _ _).mpr hi)
      simpa using this
    split
    · rename_i hdirty
      exact .saving hall hdirty
    · rename_i hdirty
      exact .done hall (Bool.eq_false_iff.mpr hdirty)

theorem reconcilePeers_of_none {peers : List PeerEndpoint} (h : firstKeyed peers = none)
    (draws : List Nat) : s.reconcilePeers id poll draws peers = s.reconcileRemovals id poll := by
  induction peers with
  | nil => rfl
  | cons peer rest ih =>
    unfold firstKeyed at h
    split at h
    · rename_i hkey
      rw [Agent.reconcilePeers, if_pos hkey]
      exact ih h
    · cases h

theorem reconcilePeers_of_some {peers rest : List PeerEndpoint} {peer : PeerEndpoint}
    (h : firstKeyed peers = some (peer, rest)) (draws : List Nat) :
    s.reconcilePeers id poll draws peers = s.reconcilePeers id poll draws (peer :: rest) := by
  induction peers with
  | nil => cases h
  | cons x tail ih =>
    unfold firstKeyed at h
    split at h
    · rename_i hkey
      rw [Agent.reconcilePeers, if_pos hkey]
      exact ih h
    · cases h
      rfl

theorem firstKeyed_eq_some {peers rest : List PeerEndpoint} {peer : PeerEndpoint}
    (h : firstKeyed peers = some (peer, rest)) : peer.pubkey ≠ [] ∧
      ∃ before, peers = before ++ peer :: rest ∧ ∀ x ∈ before, x.pubkey = [] := by
  induction peers with
  | nil => cases h
  | cons x tail ih =>
    unfold firstKeyed at h
    split at h
    · rename_i hx
      obtain ⟨hkey, before, rfl, hbefore⟩ := ih h
      refine ⟨hkey, x :: before, rfl, fun y hy => ?_⟩
      rcases List.mem_cons.mp hy with rfl | hy
      · exact hx
      · exact hbefore y hy
    · rename_i hkey
      cases h
      exact ⟨hkey, [], rfl, by simp⟩

theorem firstKeyed_eq_none {peers : List PeerEndpoint} (h : firstKeyed peers = none) :
    ∀ x ∈ peers, x.pubkey = [] := by
  induction peers with
  | nil => simp
  | cons x tail ih =>
    unfold firstKeyed at h
    split at h
    · rename_i hx
      intro y hy
      rcases List.mem_cons.mp hy with rfl | hy
      · exact hx
      · exact ih h y hy
    · cases h

/-- A step that goes on in the first loop. -/
theorem pollBooks_reconcilePeers {poll0 : Poll} {b : Books} {ok : Bool} {draws : List Nat}
    {todo : List PeerEndpoint} (hs : s.books = b) (htodo : poll0.todo ok = some todo)
    (hconfig : poll.config = poll0.config) (hports : poll.ports = poll0.portsAfter ok) :
    PollBooks s.range b id poll0 ok draws (s.reconcilePeers id poll draws todo).books := by
  subst hs
  cases hfirst : firstKeyed todo with
  | none =>
    rw [reconcilePeers_of_none s id poll hfirst]
    exact .looped htodo hfirst hconfig hports (removals_reconcileRemovals s id poll)
  | some next =>
    obtain ⟨peer, rest⟩ := next
    have hturn : poll0.turn ok = some (peer, rest) := by
      rw [Poll.turn, htodo]
      exact hfirst
    rw [reconcilePeers_of_some s id poll hfirst, Agent.reconcilePeers,
      if_neg (firstKeyed_eq_some hfirst).1]
    dsimp only
    split
    · rename_i hnone
      exact .throws hturn hnone
    · rename_i port peerToPort hport
      generalize hnew : (!poll.existing.contains (getIfName s.peerToIf peer.id).1) = isNew
      cases isNew with
      | true => exact .turn hturn hport hconfig hports rfl rfl rfl
      | false => exact .turn hturn hport hconfig hports rfl rfl rfl

end

section
variable (s : Agent) (id : Nat)

theorem books_removeInactive (active : List PeerId) :
    (s.removeInactive active).books = s.books := by
  unfold Agent.removeInactive
  refine foldl_invariant (I := fun t : Agent => t.books = s.books) _ _ ?_ rfl
  intro t p _ h
  exact h

/-- The rest of `poll` touches the polls only. -/
theorem pollBooks_proxyPeers {b : Books} {poll : Poll} {ok : Bool} {draws : List Nat}
    (hs : s.books = b) (hstage : poll.stage.inReconcile = false) (idx : Nat)
    (active : List PeerId) (peers : List PeerEndpoint) :
    PollBooks s.range b id poll ok draws (s.proxyPeers id poll idx active peers).books := by
  induction peers generalizing active with
  | nil =>
    subst hs
    have hbooks := books_removeInactive s active
    have hpolls : (s.removeInactive active).polls = s.polls := congrArg Books.polls hbooks
    have : ({ s.removeInactive active with
        polls := (s.removeInactive active).polls.delete id } : Agent).books =
        { s.books with polls := s.polls.delete id } := by
      rw [hpolls]
      exact congrArg (fun b : Books => { b with polls := s.polls.delete id }) hbooks
    show PollBooks _ _ _ _ _ _ ({ s.removeInactive active with polls := s.polls.delete id } :
      Agent).books
    rw [← hpolls, this]
    exact .ended hstage
  | cons peer rest ih =>
    unfold Agent.proxyPeers
    split
    · exact ih active
    · dsimp only
      split
      · exact ih _
      · subst hs
        exact .later hstage rfl

theorem pollBooks_pollStep {poll : Poll} (hpoll : s.polls.get? id = some poll) (ok : Bool)
    (draws : List Nat) :
    PollBooks s.range s.books id poll ok draws (s.pollStep id ok draws).books := by
  unfold Agent.pollStep
  rw [hpoll]
  dsimp only
  split
  case h_1 hstage =>
    have htodo : poll.todo ok = some poll.config.peers := by simp [Poll.todo, hstage]
    have hports : poll.ports = poll.portsAfter ok := by simp [Poll.portsAfter, hstage]
    exact pollBooks_reconcilePeers s id _ rfl htodo rfl hports
  case h_2 t rest hstage =>
    have htodo : poll.todo ok = if ok then none else some rest := by simp [Poll.todo, hstage]
    have hports : poll.ports = poll.portsAfter ok := by simp [Poll.portsAfter, hstage]
    cases ok with
    | true => exact .command htodo (by simp [Stage.work?, hstage]) (by simp [Stage.work?, hstage])
    | false => exact pollBooks_reconcilePeers s id _ rfl htodo rfl hports
  case h_3 t rest hstage =>
    have htodo : poll.todo ok = if ok then none else some rest := by simp [Poll.todo, hstage]
    have hports : poll.ports = poll.portsAfter ok := by simp [Poll.portsAfter, hstage]
    cases ok with
    | true => exact .command htodo (by simp [Stage.work?, hstage]) (by simp [Stage.work?, hstage])
    | false => exact pollBooks_reconcilePeers s id _ rfl htodo rfl hports
  case h_4 t rest hstage =>
    have htodo : poll.todo ok = some rest := by simp [Poll.todo, hstage]
    have hports : poll.portsAfter ok =
        if ok then poll.ports ++ [(t.peer.id, t.listenPort)] else poll.ports := by
      simp [Poll.portsAfter, hstage]
    cases ok with
    | true => exact pollBooks_reconcilePeers s id _ rfl htodo rfl hports.symm
    | false => exact pollBooks_reconcilePeers s id _ rfl htodo rfl hports.symm
  case h_5 p i hstage => exact .unlinked hstage
  case h_6 p hstage =>
    exact .removed hstage (removals_reconcileRemovals { s with
      peerToIf := s.peerToIf.delete p, peerToPort := s.peerToPort.delete p, dirty := true } id poll)
  case h_7 data hstage =>
    cases ok with
    | true => exact .written hstage rfl
    | false => exact .unwritten hstage rfl
  case h_8 hstage => exact .cleared hstage
  case h_9 hstage =>
    have hlate : poll.stage.inReconcile = false := by simp [Stage.inReconcile, hstage]
    split
    · exact pollBooks_proxyPeers s id rfl hlate 0 [] _
    · split
      · exact pollBooks_proxyPeers { s with lastPorts := poll.ports } id rfl hlate 0 [] _
      · exact .ended hlate
  case h_10 peer ifName relayPort isNew rest idx active hstage =>
    have hlate : poll.stage.inReconcile = false := by simp [Stage.inReconcile, hstage]
    split
    · exact pollBooks_proxyPeers (s.initPeer peer ifName relayPort isNew) id rfl hlate _ active rest
    · exact .ended hlate

end

theorem books_switchPeerMode (s : Agent) (p : PeerId) (target : Mode) :
    (s.switchPeerMode p target).books = s.books := by
  unfold Agent.switchPeerMode
  split
  · rfl
  · cases target with
    | relay => rfl
    | direct =>
      dsimp only
      split <;> rfl

theorem books_receive (s : Agent) (now : Int) (msg : ServerMsg) :
    (s.receive now msg).books = s.books := by
  cases msg with
  | probeVerdict p action =>
    cases action with
    | switchRelay => exact books_switchPeerMode _ p .relay
    | switchDirect => exact books_switchPeerMode _ p .direct
    | stay => rfl
  | forceMode p mode =>
    cases mode with
    | auto => rfl
    | force m => exact books_switchPeerMode _ p m.mode
  | _ => rfl

/-- **One step.** -/
theorem booksStep_agentStep (s : Agent) (e : AgentEvent) :
    BooksStep s.range s.books e (agentStep s e).books := by
  have hsame : ∀ {s' : Agent}, s'.books = s.books → BooksStep s.range s.books e s'.books := by
    intro s' h
    rw [h]
    exact .other e
  cases e with
  | receive now msg => exact hsame (books_receive s now msg)
  | awgApplied id =>
    refine hsame ?_
    show (s.awgApplied id).books = s.books
    unfold Agent.awgApplied
    split
    · rfl
    · split <;> rfl
  | switchDone id =>
    refine hsame ?_
    show (s.switchDone id).books = s.books
    unfold Agent.switchDone
    split
    · rfl
    · split <;> rfl
  | startPoll config => exact .started config s.nextId
  | pollStep id ok draws =>
    cases hpoll : s.polls.get? id with
    | none =>
      refine hsame ?_
      show (s.pollStep id ok draws).books = s.books
      unfold Agent.pollStep
      rw [hpoll]
    | some poll => exact .polled hpoll (pollBooks_pollStep s id hpoll ok draws)
  | probeFailed p => exact hsame rfl
  | tick now => exact hsame rfl
  | wsClose => exact hsame rfl

end Meshezia
