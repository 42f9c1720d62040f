import Meshezia.Agent.Mappings

/-!
# What reaches the mapping file

A change of the mapping sets the dirty flag, and a poll that finds it set writes the mapping
and clears it.  The flag is cleared after the write, so a change that another poll makes
between taking the data and clearing the flag is lost (`mapping_change_lost`).  With no such
change the file has the mapping whenever no call of `reconcile` is under way:

    Along Succeeds es → Along Undisturbed es → no call under way →
      Restores s.mappings s.books                                  (mapping_saved)
-/

namespace Meshezia

/-! ## The events -/

/-- What `reconcile` awaits succeeds, and `getPort` finds a port. -/
def Agent.Succeeds (s : Agent) : AgentEvent → Prop
  | .pollStep id ok draws => ∀ poll ∈ s.polls.get? id, poll.stage.inReconcile = true →
      ok = true ∧ ∀ next ∈ poll.turn ok, portFor s.range s.peerToPort next.1 draws ≠ none
  | _ => True

instance (s : Agent) : (e : AgentEvent) → Decidable (s.Succeeds e)
  | .pollStep id ok draws => inferInstanceAs (Decidable (∀ poll ∈ s.polls.get? id,
      poll.stage.inReconcile = true → ok = true ∧
        ∀ next ∈ poll.turn ok, portFor s.range s.peerToPort next.1 draws ≠ none))
  | .receive _ _ | .awgApplied _ | .switchDone _ | .startPoll _ | .probeFailed _ | .tick _
  | .wsClose => isTrue trivial

/-- The peer has no interface, or gets another port. -/
def Books.lacks (b : Books) (peer : PeerEndpoint) : Bool :=
  !b.peerToIf.has peer.id ||
    if peer.listenPort > 0 then decide (b.peerToPort.get? peer.id ≠ some peer.listenPort)
    else !b.peerToPort.has peer.id

/-- The peer whose interface is gone. -/
def Stage.removed? : Stage → Option PeerId
  | .removed p => some p
  | _ => none

/-- The step changes the mapping: a peer that lacks something has its turn, or one that is
gone is forgotten. -/
def Books.changes (b : Books) : AgentEvent → Bool
  | .pollStep id ok _ => match b.polls.get? id with
    | none => false
    | some poll => (poll.turn ok).any (fun next => b.lacks next.1) ||
        poll.stage.removed?.any b.peerToIf.has
  | _ => false

/-- The mapping is not changed while a poll saves it. -/
def Agent.Undisturbed (s : Agent) (e : AgentEvent) : Prop :=
  s.books.changes e = true → ∀ entry ∈ s.polls.entries, entry.2.stage.saves = false

instance (s : Agent) (e : AgentEvent) : Decidable (s.Undisturbed e) :=
  inferInstanceAs (Decidable (_ → _))

/-! ## The invariant -/

/-- Where the mapping is: in memory and on its way to the file, or in the file. -/
structure Tracked (b : Books) : Prop where
  paired : Paired b
  taken : ∀ id poll data, b.polls.get? id = some poll → poll.stage = .saving data →
    Restores data b
  written : ∀ id poll, b.polls.get? id = some poll → poll.stage = .saved → Restores b.mappings b
  clean : b.dirty = false → Restores b.mappings b
  pending : b.dirty = true → ∃ id poll, b.polls.get? id = some poll ∧ poll.stage.inReconcile = true

theorem Restores.congr {data : List (PeerId × IfName × Nat)} {b b' : Books} (h : Restores data b)
    (hif : ∀ p, b'.peerToIf.get? p = b.peerToIf.get? p)
    (hport : ∀ p, b'.peerToPort.get? p = b.peerToPort.get? p) : Restores data b' := by
  obtain ⟨file, hfile, h1, h2⟩ := h
  exact ⟨file, hfile, fun p => (h1 p).trans (hif p).symm, fun p => (h2 p).trans (hport p).symm⟩

section
variable {b c : Books} {id : Nat} {poll poll' : Poll}

/-- The mapping is the same, or has changed while no poll saves it. -/
def Books.Moved (b c : Books) : Prop :=
  ((∀ p, c.peerToIf.get? p = b.peerToIf.get? p) ∧
    ∀ p, c.peerToPort.get? p = b.peerToPort.get? p) ∨
  ((∀ i p, b.polls.get? i = some p → p.stage.saves = false) ∧ c.dirty = true)

theorem Books.Moved.same {b c : Books} (hif : c.peerToIf = b.peerToIf)
    (hport : c.peerToPort = b.peerToPort) : b.Moved c :=
  Or.inl ⟨fun p => by rw [hif], fun p => by rw [hport]⟩

/-- A step at which no data is taken or written. -/
theorem Tracked.of_moved (h : Tracked b) (hpaired : Paired c) (hmoved : b.Moved c)
    (hfile : c.mappings = b.mappings) (hdirty : c.dirty = false → b.dirty = false)
    (hold : ∀ i p, c.polls.get? i = some p → b.polls.get? i = some p ∨ p.stage.saves = false)
    (hpending : c.dirty = true → ∃ i p, c.polls.get? i = some p ∧ p.stage.inReconcile = true) :
    Tracked c where
  paired := hpaired
  taken := by
    intro i p data hi hdata
    rcases hold i p hi with hi | hout
    · rcases hmoved with ⟨hif, hport⟩ | ⟨hquiet, -⟩
      · exact (h.taken i p data hi hdata).congr hif hport
      · have := hquiet i p hi
        rw [hdata] at this
        cases this
    · rw [hdata] at hout
      cases hout
  written := by
    intro i p hi hstage
    rcases hold i p hi with hi | hout
    · rcases hmoved with ⟨hif, hport⟩ | ⟨hquiet, -⟩
      · rw [hfile]
        exact (h.written i p hi hstage).congr hif hport
      · have := hquiet i p hi
        rw [hstage] at this
        cases this
    · rw [hstage] at hout
      cases hout
  clean := by
    intro hclean
    rcases hmoved with ⟨hif, hport⟩ | ⟨-, hset⟩
    · rw [hfile]
      exact (h.clean (hdirty hclean)).congr hif hport
    · rw [hset] at hclean
      cases hclean
  pending := hpending

/-- A poll goes on in `reconcile`. -/
theorem Tracked.goesOn (h : Tracked b) (hpaired : Paired c) (hmoved : b.Moved c)
    (hpolls : c.polls = b.polls.set id poll') (hfile : c.mappings = b.mappings)
    (hdirty : c.dirty = false → b.dirty = false) (hin : poll'.stage.inReconcile = true)
    (hsaves : poll'.stage.saves = false) : Tracked c := by
  refine h.of_moved hpaired hmoved hfile hdirty (fun i p hi => ?_)
    fun _ => ⟨id, poll', by rw [hpolls]; exact OMap.get?_set_self _ _ _, hin⟩
  rw [hpolls] at hi
  rcases OMap.get?_set_cases hi with ⟨-, rfl⟩ | ⟨-, hi⟩
  · exact Or.inr hsaves
  · exact Or.inl hi

/-- A poll that is past `reconcile` goes on, or ends. -/
theorem Tracked.past (h : Tracked b) (hpoll : b.polls.get? id = some poll)
    (hpast : poll.stage.inReconcile = false) {polls : OMap Nat Poll}
    (hpaired : Paired { b with polls })
    (hold : ∀ i p, polls.get? i = some p → b.polls.get? i = some p ∨ p.stage.inReconcile = false)
    (hkept : ∀ i, id ≠ i → polls.get? i = b.polls.get? i) : Tracked { b with polls } := by
  refine h.of_moved hpaired (.same rfl rfl) rfl (fun hc => hc)
    (fun i p hi => (hold i p hi).imp_right saves_of_past) fun hset => ?_
  obtain ⟨i, p, hi, hin⟩ := h.pending hset
  refine ⟨i, p, (hkept i ?_).trans hi, hin⟩
  rintro rfl
  rw [hpoll] at hi
  cases hi
  rw [hpast] at hin
  cases hin

/-- The second loop goes on: what is taken is the mapping. -/
theorem Tracked.removals (h : Tracked b) (hstep : Removals b id poll c) : Tracked c := by
  have hpaired := h.paired.removals hstep
  cases hstep with
  | removing => exact h.goesOn hpaired (.same rfl rfl) rfl rfl (fun hc => hc) rfl rfl
  | saving _ hset =>
    refine ⟨hpaired, ?_, ?_, fun hc => h.clean hc, fun _ => ⟨id, _, OMap.get?_set_self _ _ _, rfl⟩⟩
    · intro i p data hi hdata
      rcases OMap.get?_set_cases hi with ⟨-, rfl⟩ | ⟨-, hi⟩
      · cases hdata
        exact h.paired.restores
      · exact h.taken i p data hi hdata
    · intro i p hi hstage
      rcases OMap.get?_set_cases hi with ⟨-, rfl⟩ | ⟨-, hi⟩
      · cases hstage
      · exact h.written i p hi hstage
  | done _ hclean =>
    refine ⟨hpaired, ?_, ?_, fun hc => h.clean hc, fun hset => ?_⟩
    · intro i p data hi hdata
      rcases OMap.get?_set_cases hi with ⟨-, rfl⟩ | ⟨-, hi⟩
      · cases hdata
      · exact h.taken i p data hi hdata
    · intro i p hi hstage
      rcases OMap.get?_set_cases hi with ⟨-, rfl⟩ | ⟨-, hi⟩
      · cases hstage
      · exact h.written i p hi hstage
    · have hset : b.dirty = true := hset
      rw [hclean] at hset
      cases hset

theorem Tracked.write (h : Tracked b) (hpoll : b.polls.get? id = some poll)
    {data : List (PeerId × IfName × Nat)} (hstage : poll.stage = .saving data)
    (hpaired : Paired { b with mappings := data
                               polls := b.polls.set id { poll with stage := .saved } }) :
    Tracked { b with mappings := data, polls := b.polls.set id { poll with stage := .saved } } := by
  have hdata : Restores data b := h.taken id poll data hpoll hstage
  refine ⟨hpaired, ?_, fun _ _ _ _ => hdata, fun _ => hdata,
    fun _ => ⟨id, _, OMap.get?_set_self _ _ _, rfl⟩⟩
  intro i p data' hi hdata'
  rcases OMap.get?_set_cases hi with ⟨-, rfl⟩ | ⟨-, hi⟩
  · cases hdata'
  · exact h.taken i p data' hi hdata'

theorem Tracked.clear (h : Tracked b) (hpoll : b.polls.get? id = some poll)
    (hstage : poll.stage = .saved)
    (hpaired : Paired { b with dirty := false
                               polls := b.polls.set id { poll with stage := .reporting } }) :
    Tracked { b with dirty := false
                     polls := b.polls.set id { poll with stage := .reporting } } := by
  have hfile : Restores b.mappings b := h.written id poll hpoll hstage
  refine ⟨hpaired, ?_, fun _ _ _ _ => hfile, fun _ => hfile, fun hset => by cases hset⟩
  intro i p data hi hdata
  rcases OMap.get?_set_cases hi with ⟨-, rfl⟩ | ⟨-, hi⟩
  · cases hdata
  · exact h.taken i p data hi hdata

/-! ## One step -/

/-- The turn of a peer that lacks nothing changes nothing. -/
theorem moved_of_turn {range : PortRange} {peer : PeerEndpoint} {draws : List Nat} {port : Nat}
    {m : OMap PeerId Nat} (hpaired : Paired b)
    (h : portFor range b.peerToPort peer draws = some (port, m))
    (hquiet : b.lacks peer = true → ∀ i p, b.polls.get? i = some p → p.stage.saves = false)
    (hif : c.peerToIf = (getIfName b.peerToIf peer.id).2) (hport : c.peerToPort = m)
    (hdirty : c.dirty = ((b.dirty || !b.peerToIf.has peer.id) ||
      decide (b.peerToPort.get? peer.id ≠ some port))) : b.Moved c := by
  obtain ⟨hne, hself, hother⟩ := portFor_spec h
  by_cases hsame : b.peerToIf.has peer.id = true ∧ b.peerToPort.get? peer.id = some port
  · obtain ⟨n, hn⟩ := (OMap.has_iff _ _).mp hsame.1
    refine Or.inl ⟨fun p => by rw [hif, getIfName_of_some hn], fun p => ?_⟩
    rw [hport]
    by_cases hp : peer.id = p
    · subst hp
      rw [hself, hsame.2]
    · exact hother p hp
  · have hlacks : b.lacks peer = true := by
      unfold Books.lacks
      by_cases hhas : b.peerToIf.has peer.id = true
      · have hdiff : b.peerToPort.get? peer.id ≠ some port := fun h => hsame ⟨hhas, h⟩
        unfold portFor at h
        split at h
        · rename_i hpos
          cases h
          simp [hpos, hdiff]
        · rename_i hpos
          -- `getPort` keeps the port of a peer that has one
          have hnone : b.peerToPort.get? peer.id = none := by
            cases hget : b.peerToPort.get? peer.id with
            | none => rfl
            | some q =>
              rw [getPort_own range hget (hpaired.ports _ _ hget)] at h
              cases h
              exact absurd hget hdiff
          simp [hpos, OMap.has, hnone]
      · simp [hhas]
    refine Or.inr ⟨hquiet hlacks, ?_⟩
    rw [hdirty]
    by_cases hhas : b.peerToIf.has peer.id = true
    · have hdiff : b.peerToPort.get? peer.id ≠ some port := fun h => hsame ⟨hhas, h⟩
      simp [hdiff]
    · simp [hhas]

theorem get?_delete_of_none {α : Type} {m : OMap PeerId α} {p : PeerId} (h : m.get? p = none)
    (q : PeerId) : (m.delete p).get? q = m.get? q := by
  rw [OMap.get?_delete]
  split
  · rename_i hq
    exact (hq ▸ h).symm
  · rfl

theorem moved_of_removed {p : PeerId} (hpaired : Paired b)
    (hquiet : b.peerToIf.has p = true → ∀ i q, b.polls.get? i = some q → q.stage.saves = false) :
    b.Moved { b with peerToIf := b.peerToIf.delete p, peerToPort := b.peerToPort.delete p
                     dirty := true } := by
  by_cases hhas : b.peerToIf.has p = true
  · exact Or.inr ⟨hquiet hhas, rfl⟩
  · have hif := (OMap.has_eq_false_iff _ _).mp (Bool.eq_false_iff.mpr hhas)
    have hport : b.peerToPort.get? p = none := by
      refine (OMap.has_eq_false_iff _ _).mp (Bool.eq_false_iff.mpr fun h => hhas ?_)
      exact hpaired.named p h
    refine Or.inl ⟨fun q => ?_, fun q => ?_⟩
    · exact get?_delete_of_none hif q
    · exact get?_delete_of_none hport q

theorem Tracked.step (h : Tracked b) {range : PortRange} {e : AgentEvent}
    (hstep : BooksStep range b e c)
    (hok : ∀ id ok draws poll, e = .pollStep id ok draws → b.polls.get? id = some poll →
      poll.stage.inReconcile = true → ok = true ∧
        ∀ next ∈ poll.turn ok, portFor range b.peerToPort next.1 draws ≠ none)
    (hquiet : b.changes e = true → ∀ i p, b.polls.get? i = some p → p.stage.saves = false) :
    Tracked c := by
  have hpaired := h.paired.step hstep
  cases hstep with
  | other => exact h
  | started config id => exact h.goesOn hpaired (.same rfl rfl) rfl rfl (fun hc => hc) rfl rfl
  | @polled id ok draws poll _ hpoll hstep =>
    cases hstep with
    | command _ hwork hsame =>
      rw [← hsame] at hwork
      exact h.goesOn hpaired (.same rfl rfl) rfl rfl (fun hc => hc) (inReconcile_of_work hwork)
        (saves_of_work hwork)
    | turn hturn hport _ _ hwork _ _ =>
      have hwork : Option.isSome _ = true := congrArg Option.isSome hwork
      refine h.goesOn hpaired (moved_of_turn h.paired hport ?_ rfl rfl rfl) rfl rfl ?_
        (inReconcile_of_work hwork) (saves_of_work hwork)
      · intro hlacks
        exact hquiet (by simp [Books.changes, hpoll, hturn, hlacks])
      · intro hc
        exact (Bool.or_eq_false_iff.mp (Bool.or_eq_false_iff.mp hc).1).1
    | throws hturn hnone =>
      obtain ⟨-, hport⟩ := hok id ok draws poll rfl hpoll (inReconcile_of_turn hturn)
      exact absurd hnone (hport _ hturn)
    | looped _ _ _ _ hremovals => exact h.removals hremovals
    | unlinked hstage =>
      exact h.goesOn hpaired (.same rfl rfl) rfl rfl (fun hc => hc) rfl rfl
    | @removed p _ hstage hremovals =>
      have hmoved := moved_of_removed h.paired (p := p) fun hhas =>
        hquiet (by simp [Books.changes, hpoll, hstage, Stage.removed?, hhas])
      have hmid : Tracked { b with peerToIf := b.peerToIf.delete p
                                   peerToPort := b.peerToPort.delete p, dirty := true } :=
        h.of_moved (h.paired.remove p true) hmoved rfl (fun hc => by cases hc)
          (fun i q hi => Or.inl hi) fun _ => ⟨id, poll, hpoll, by rw [hstage]; rfl⟩
      exact hmid.removals hremovals
    | written hstage => exact h.write hpoll hstage hpaired
    | unwritten hstage hfail =>
      obtain ⟨rfl, -⟩ := hok id ok draws poll rfl hpoll (by rw [hstage]; rfl)
      cases hfail
    | cleared hstage => exact h.clear hpoll hstage hpaired
    | ended hpast =>
      exact h.past hpoll hpast hpaired (fun i p hi => Or.inl (OMap.get?_of_get?_delete hi).2)
        fun i hi => OMap.get?_delete_ne _ hi
    | later hpast hlate =>
      refine h.past hpoll hpast hpaired (fun i p hi => ?_) fun i hi => OMap.get?_set_ne _ _ hi
      rcases OMap.get?_set_cases hi with ⟨-, rfl⟩ | ⟨-, hi⟩
      · exact Or.inr hlate
      · exact Or.inl hi

end

theorem tracked_boot (range : PortRange) (host : Host) (file : MappingFile) :
    Tracked (Agent.boot range host file).books where
  paired := paired_boot range host file
  taken := by
    intro id poll data hpoll
    cases hpoll
  written := by
    intro id poll hpoll
    cases hpoll
  clean := fun _ => ⟨file, decode_encodeMappings _, fun _ => rfl, fun _ => rfl⟩
  pending := fun hset => by cases hset

/-! ## Runs -/

/-- **The mapping is saved** in every run in which it is not changed while it is being saved. -/
theorem mapping_saved (range : PortRange) (host : Host) (file : MappingFile)
    (es : List AgentEvent)
    (hok : Along agentStep Agent.Succeeds (.boot range host file) es)
    (hquiet : Along agentStep Agent.Undisturbed (.boot range host file) es)
    (hidle : ∀ entry ∈ (run agentStep (.boot range host file) es).polls.entries,
      entry.2.stage.inReconcile = false) :
    Restores (run agentStep (.boot range host file) es).mappings
      (run agentStep (.boot range host file) es).books := by
  have htracked : Tracked (run agentStep (.boot range host file) es).books := by
    refine run_invariant_along agentStep (I := fun s => Tracked s.books) ?_
      (tracked_boot range host file) (along_and agentStep hok hquiet)
    rintro s e hs ⟨hsucceeds, hundisturbed⟩
    refine hs.step (booksStep_agentStep s e) ?_ ?_
    · rintro id ok draws poll rfl hpoll hin
      exact hsucceeds poll hpoll hin
    · intro hchanges i p hp
      exact hundisturbed hchanges (i, p) ((OMap.mem_entries _ _ _).mpr hp)
  refine htracked.clean (Bool.eq_false_iff.mpr fun hset => ?_)
  obtain ⟨id, poll, hpoll, hin⟩ := htracked.pending hset
  rw [hidle (id, poll) ((OMap.mem_entries _ _ _).mpr hpoll)] at hin
  cases hin

/-- Two polls overlap: the second one comes to the new peer before the first one does, and
the first one saves. -/
def aheadRun : List AgentEvent :=
  .startPoll newPeer :: List.replicate 2 (.pollStep 0 true [5]) ++
    .startPoll newPeer :: List.replicate 4 (.pollStep 1 true [6]) ++
    List.replicate 8 (.pollStep 0 true []) ++ List.replicate 6 (.pollStep 1 true [])

/-- Both peers are in the file. -/
theorem mapping_saved_aheadRun :
    Restores (run agentStep freshAgent aheadRun).mappings
        (run agentStep freshAgent aheadRun).books ∧
      (run agentStep freshAgent aheadRun).mappings = [([98], 0, 51825), ([99], 1, 51826)] :=
  ⟨mapping_saved ⟨51820, 52819⟩ ⟨[], .empty⟩ .empty aheadRun (by decide +kernel)
    (by decide +kernel) (by decide +kernel), by decide +kernel⟩

/-- A second poll reaches the new peer while the first one saves its mapping. -/
def overlappingRun : List AgentEvent :=
  .startPoll onePeer :: List.replicate 4 (.pollStep 0 true [5]) ++
    .startPoll newPeer :: List.replicate 3 (.pollStep 1 true [6]) ++
    List.replicate 2 (.pollStep 0 true [5]) ++ List.replicate 3 (.pollStep 1 true [6])

/-- **A change is lost**: the first poll clears the flag that the second one has set. -/
theorem mapping_change_lost : ¬ ∀ es : List AgentEvent,
    Along agentStep Agent.Succeeds freshAgent es →
    (∀ entry ∈ (run agentStep freshAgent es).polls.entries, entry.2.stage.inReconcile = false) →
    Restores (run agentStep freshAgent es).mappings (run agentStep freshAgent es).books := by
  intro h
  obtain ⟨file, hfile, hif, -⟩ := h overlappingRun (by decide) (by decide)
  rw [decode_encodeMappings, Option.some.injEq] at hfile
  have hnew : (run agentStep freshAgent overlappingRun).books.peerToIf.get? [99] = some 1 := by
    decide
  obtain ⟨e, he, hpeer, -⟩ := file.get?_peerToIf.mp ((hif [99]).trans hnew)
  rw [← hfile] at he
  have hold : ∀ e ∈ (run agentStep freshAgent overlappingRun).mappings, e.1 ≠ [99] := by decide
  exact hold e he hpeer

end Meshezia
