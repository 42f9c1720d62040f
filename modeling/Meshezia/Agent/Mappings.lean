import Meshezia.Lib.JsValue
import Meshezia.Agent.Books

/-!
# Interfaces are kept

In every run, however many polls are under way and whatever fails in them, no two peers have
one interface, a peer with a port has an interface, and a new interface has the smallest
index that is free (`Paired`).  So the file always describes a mapping, and is read back as
it was written:

    run es = s  →  Paired s, a peer in every configuration keeps its interface, and
      the file restores what was in memory when it was written      (interfaces_kept)

The last two are for runs in which the calls of `reconcile` do not overlap (`Sequential`).
-/

namespace Meshezia

/-! ## The file -/

/-- `mza{n}`. -/
def ifNameOf (n : IfName) : JsString := js "mza" ++ decimal n

/-- `s.replace(pattern, '')` of a string: the first occurrence goes. -/
def removeFirst (pattern : JsString) : JsString → JsString
  | [] => []
  | c :: rest => if pattern.isPrefixOf (c :: rest) then (c :: rest).drop pattern.length
    else c :: removeFirst pattern rest

/-- `mza3` → 3. -/
def ifIndex (lang : Coercions) (ifName : JsString) : JsNumber :=
  lang.number (removeFirst (js "mza") ifName)

/-- The index of an interface is in its name, so the name is known by its index. -/
theorem ifIndex_ifNameOf (lang : Coercions) {n : IfName} (hn : n < 9007199254740992) :
    ifIndex lang (ifNameOf n) = .int n := by
  have hremove : removeFirst (js "mza") (ifNameOf n) = decimal n := by
    show (if (js "mza").isPrefixOf (js "mza" ++ decimal n) then _ else _) = _
    rw [if_pos (List.isPrefixOf_iff_prefix.mpr (List.prefix_append _ _))]
    rfl
  rw [ifIndex, hremove]
  exact lang.number_decimal n hn

/-- The object `data` of `saveMappings`: a peer id is a UUID, so each is a property of its own. -/
def encodeMappings (data : List (PeerId × IfName × Nat)) : Json :=
  .obj (data.map fun e => (e.1, .obj [(js "ifIndex", .num (.int e.2.1)),
    (js "port", .num (.int e.2.2))]))

/-- One entry of `Object.entries(data)`. -/
def decodeMapping (e : JsString × Json) : Option (PeerId × IfName × Nat) :=
  match e.2.get? (js "ifIndex"), e.2.get? (js "port") with
  | some (.num (.int i)), some (.num (.int port)) => some (e.1, i.toNat, port.toNat)
  | _, _ => none

/-- What `loadMappings` reads; `none` for a file that `saveMappings` has not written. -/
def decodeMappings : Json → Option (List (PeerId × IfName × Nat))
  | .obj fields => fields.mapM decodeMapping
  | _ => none

theorem decode_encodeMappings (data : List (PeerId × IfName × Nat)) :
    decodeMappings (encodeMappings data) = some data := by
  show (data.map _).mapM decodeMapping = some data
  induction data with
  | nil => rfl
  | cons e rest ih =>
    rw [List.map_cons, List.mapM_cons, ih]
    rfl

/-- A file with this data, as `saveMappings` writes it, restores the mapping. -/
def Restores (data : List (PeerId × IfName × Nat)) (b : Books) : Prop :=
  ∃ file : MappingFile, decodeMappings (encodeMappings data) = some file.data ∧
    (∀ p, file.peerToIf.get? p = b.peerToIf.get? p) ∧
    ∀ p, file.peerToPort.get? p = b.peerToPort.get? p

/-! ## The mapping -/

/-- No peer and no interface is in the data twice. -/
def Savable (data : List (PeerId × IfName × Nat)) : Prop :=
  (data.map Prod.fst).Nodup ∧ (data.map fun e => e.2.1).Nodup

structure Paired (b : Books) : Prop where
  distinct : InjectiveMap b.peerToIf
  named : ∀ p, b.peerToPort.has p = true → b.peerToIf.has p = true
  ports : ∀ p port, b.peerToPort.get? p = some port → port ≠ 0
  file : Savable b.mappings
  saving : ∀ id poll data, b.polls.get? id = some poll → poll.stage = .saving data → Savable data

section
variable {b : Books}

theorem Paired.savable (h : Paired b) : Savable b.mappingData := by
  constructor
  · have hkeys : b.mappingData.map Prod.fst = b.peerToIf.keys := by
      simp [Books.mappingData, OMap.keys]
    rw [hkeys]
    exact b.peerToIf.nodup
  · have hnames : (b.mappingData.map fun e => e.2.1) = b.peerToIf.entries.map Prod.snd := by
      simp [Books.mappingData]
    rw [hnames]
    exact OMap.nodup_values.mpr h.distinct

theorem MappingFile.get?_peerToIf (file : MappingFile) {p : PeerId} {n : IfName} :
    file.peerToIf.get? p = some n ↔ ∃ e ∈ file.data, e.1 = p ∧ e.2.1 = n := by
  refine (OMap.get?_foldl_set (fun e : PeerId × IfName × Nat => e.2.1) file.peersDistinct .empty
    p n).trans ?_
  simp

theorem MappingFile.get?_peerToPort (file : MappingFile) {p : PeerId} {port : Nat} :
    file.peerToPort.get? p = some port ↔
      port ≠ 0 ∧ ∃ e ∈ file.data, e.1 = p ∧ e.2.2 = port := by
  have hnodup : ((file.data.filter fun e => e.2.2 ≠ 0).map Prod.fst).Nodup :=
    (List.filter_sublist.map Prod.fst).nodup file.peersDistinct
  refine (OMap.get?_foldl_set (fun e : PeerId × IfName × Nat => e.2.2) hnodup .empty p
    port).trans ?_
  simp only [List.mem_filter, ne_eq, decide_eq_true_eq, OMap.get?_empty, reduceCtorEq, and_false,
    or_false]
  constructor
  · rintro ⟨e, ⟨he, hne⟩, hp, rfl⟩
    exact ⟨hne, e, he, hp, rfl⟩
  · rintro ⟨hne, e, he, hp, rfl⟩
    exact ⟨e, ⟨he, hne⟩, hp, rfl⟩

theorem mem_mappingData {e : PeerId × IfName × Nat} : e ∈ b.mappingData ↔
    b.peerToIf.get? e.1 = some e.2.1 ∧ (b.peerToPort.get? e.1).getD 0 = e.2.2 := by
  obtain ⟨p, i, port⟩ := e
  simp only [Books.mappingData, List.mem_map, Prod.mk.injEq, Prod.exists, OMap.mem_entries]
  constructor
  · rintro ⟨q, j, hq, rfl, rfl, rfl⟩
    exact ⟨hq, rfl⟩
  · rintro ⟨hp, rfl⟩
    exact ⟨p, i, hp, rfl, rfl, rfl⟩

/-- **What is saved is read back.** -/
theorem Paired.restores (h : Paired b) : Restores b.mappingData b := by
  refine ⟨⟨b.mappingData, h.savable.1, h.savable.2⟩, decode_encodeMappings _, ?_, ?_⟩
  · intro p
    refine Option.ext fun n => (MappingFile.get?_peerToIf _).trans ?_
    constructor
    · rintro ⟨e, he, rfl, rfl⟩
      exact (mem_mappingData.mp he).1
    · intro hn
      exact ⟨(p, n, (b.peerToPort.get? p).getD 0), mem_mappingData.mpr ⟨hn, rfl⟩, rfl, rfl⟩
  · intro p
    refine Option.ext fun port => (MappingFile.get?_peerToPort _).trans ?_
    constructor
    · rintro ⟨hne, e, he, rfl, rfl⟩
      have hport := (mem_mappingData.mp he).2
      cases hget : b.peerToPort.get? e.1 with
      | none =>
        rw [hget] at hport
        exact absurd hport.symm hne
      | some port =>
        rw [hget] at hport
        exact congrArg some hport
    · intro hport
      obtain ⟨n, hn⟩ := (OMap.has_iff _ _).mp (h.named p (OMap.has_of_get? hport))
      refine ⟨h.ports p port hport, (p, n, port), mem_mappingData.mpr ⟨hn, ?_⟩, rfl, rfl⟩
      show (b.peerToPort.get? p).getD 0 = port
      rw [hport]
      rfl

/-! ## One step -/

theorem Paired.setPoll (h : Paired b) (id : Nat) {poll : Poll}
    (hsaving : ∀ data, poll.stage = .saving data → Savable data) :
    Paired { b with polls := b.polls.set id poll } where
  distinct := h.distinct
  named := h.named
  ports := h.ports
  file := h.file
  saving := by
    intro i p data hi hdata
    rcases OMap.get?_set_cases hi with ⟨-, rfl⟩ | ⟨-, hi⟩
    · exact hsaving data hdata
    · exact h.saving i p data hi hdata

theorem Paired.deletePoll (h : Paired b) (id : Nat) :
    Paired { b with polls := b.polls.delete id } where
  distinct := h.distinct
  named := h.named
  ports := h.ports
  file := h.file
  saving := fun i p data hi hdata => h.saving i p data (OMap.get?_of_get?_delete hi).2 hdata

/-- A peer gets its interface. -/
theorem Paired.name (h : Paired b) (p : PeerId) (dirty : Bool) :
    Paired { b with peerToIf := (getIfName b.peerToIf p).2, dirty } where
  distinct := getIfName_injective h.distinct p
  named := fun q hq => (has_getIfName _ _ _).mpr (Or.inr (h.named q hq))
  ports := h.ports
  file := h.file
  saving := h.saving

theorem portFor_spec {range : PortRange} {m m' : OMap PeerId Nat} {peer : PeerEndpoint}
    {draws : List Nat} {port : Nat} (h : portFor range m peer draws = some (port, m')) :
    port ≠ 0 ∧ m'.get? peer.id = some port ∧ ∀ q, peer.id ≠ q → m'.get? q = m.get? q := by
  unfold portFor at h
  split at h
  · rename_i hpos
    cases h
    exact ⟨Nat.ne_of_gt hpos, OMap.get?_set_self _ _ _, fun q hq => OMap.get?_set_ne _ _ hq⟩
  · obtain ⟨hne, hself, hother, -⟩ := getPort_spec h
    exact ⟨hne, hself, hother⟩

/-- A peer that has an interface gets its port. -/
theorem Paired.port (h : Paired b) {range : PortRange} {m : OMap PeerId Nat}
    {peer : PeerEndpoint} {draws : List Nat} {port : Nat}
    (hport : portFor range b.peerToPort peer draws = some (port, m))
    (hname : b.peerToIf.has peer.id = true) (dirty : Bool) :
    Paired { b with peerToPort := m, dirty } := by
  obtain ⟨hne, hself, hother⟩ := portFor_spec hport
  constructor
  · exact h.distinct
  · intro q hq
    by_cases hpq : peer.id = q
    · subst hpq
      exact hname
    · refine h.named q ?_
      rwa [OMap.has, ← hother q hpq]
  · intro q n hq
    by_cases hpq : peer.id = q
    · subst hpq
      have hn : n = port := Option.some.inj (hq.symm.trans hself)
      rwa [hn]
    · exact h.ports q n ((hother q hpq).symm.trans hq)
  · exact h.file
  · exact h.saving

/-- A peer goes. -/
theorem Paired.remove (h : Paired b) (p : PeerId) (dirty : Bool) :
    Paired { b with peerToIf := b.peerToIf.delete p, peerToPort := b.peerToPort.delete p
                    dirty } where
  distinct := fun q r i hq hr =>
    h.distinct q r i (OMap.get?_of_get?_delete hq).2 (OMap.get?_of_get?_delete hr).2
  named := by
    intro q hq
    obtain ⟨port, hport⟩ := (OMap.has_iff _ _).mp hq
    obtain ⟨hne, hport⟩ := OMap.get?_of_get?_delete hport
    obtain ⟨n, hn⟩ := (OMap.has_iff _ _).mp (h.named q (OMap.has_of_get? hport))
    exact OMap.has_of_get? ((OMap.get?_delete_ne _ hne).trans hn)
  ports := fun q n hq => h.ports q n (OMap.get?_of_get?_delete hq).2
  file := h.file
  saving := h.saving

theorem Paired.removals (h : Paired b) {id : Nat} {poll : Poll} {b' : Books}
    (hstep : Removals b id poll b') : Paired b' := by
  cases hstep with
  | removing _ _ => exact h.setPoll id fun data hdata => by cases hdata
  | saving _ _ =>
    refine h.setPoll id fun data hdata => ?_
    cases hdata
    exact h.savable
  | done _ _ => exact h.setPoll id fun data hdata => by cases hdata

theorem Paired.pollStep (h : Paired b) {range : PortRange} {id : Nat} {poll : Poll} {ok : Bool}
    {draws : List Nat} {b' : Books} (hpoll : b.polls.get? id = some poll)
    (hstep : PollBooks range b id poll ok draws b') : Paired b' := by
  cases hstep with
  | command _ hwork hsame =>
    rw [← hsame] at hwork
    exact h.setPoll id fun data hdata => absurd hdata (not_saving_of_work hwork)
  | @turn peer _ _ _ _ poll' hturn hport _ _ hwork _ _ =>
    have hname : (getIfName b.peerToIf peer.id).2.has peer.id = true :=
      OMap.has_of_get? (getIfName_get? _ _)
    refine ((h.name peer.id b.dirty).port hport hname _).setPoll id fun data hdata => ?_
    exact absurd hdata (not_saving_of_work (by rw [hwork]; rfl))
  | @throws peer _ _ _ => exact (h.name peer.id _).deletePoll id
  | looped _ _ _ _ hremovals => exact h.removals hremovals
  | unlinked _ => exact h.setPoll id fun data hdata => by cases hdata
  | @removed p _ _ hremovals => exact (h.remove p true).removals hremovals
  | @written data hstage _ =>
    have hsaved : Paired { b with mappings := data } :=
      { h with file := h.saving id poll data hpoll hstage }
    exact hsaved.setPoll id fun data hdata => by cases hdata
  | unwritten _ _ => exact h.deletePoll id
  | cleared _ =>
    have hclean : Paired { b with dirty := false } := { h with }
    exact hclean.setPoll id fun data hdata => by cases hdata
  | ended _ => exact h.deletePoll id
  | @later stage _ hstage =>
    refine h.setPoll id fun data hdata => ?_
    have hdata : stage = .saving data := hdata
    rw [hdata] at hstage
    cases hstage

theorem Paired.step (h : Paired b) {range : PortRange} {e : AgentEvent} {b' : Books}
    (hstep : BooksStep range b e b') : Paired b' := by
  cases hstep with
  | other => exact h
  | started config id => exact h.setPoll id fun data hdata => by cases hdata
  | polled hpoll hstep => exact h.pollStep hpoll hstep

end

theorem paired_boot (range : PortRange) (host : Host) (file : MappingFile) :
    Paired (Agent.boot range host file).books where
  distinct := by
    intro p q i hp hq
    obtain ⟨e, he, rfl, hei⟩ := file.get?_peerToIf.mp hp
    obtain ⟨f, hf, rfl, hfi⟩ := file.get?_peerToIf.mp hq
    rw [List.inj_on_of_nodup_map file.ifsDistinct he hf (hei.trans hfi.symm)]
  named := by
    intro p hp
    obtain ⟨port, hport⟩ := (OMap.has_iff _ _).mp hp
    obtain ⟨-, e, he, rfl, -⟩ := file.get?_peerToPort.mp hport
    exact OMap.has_of_get? (file.get?_peerToIf.mpr ⟨e, he, rfl, rfl⟩)
  ports := fun p port hport => (file.get?_peerToPort.mp hport).1
  file := ⟨file.peersDistinct, file.ifsDistinct⟩
  saving := by
    intro id poll data hpoll
    cases hpoll

/-- **Every run.** -/
theorem paired_run (range : PortRange) (host : Host) (file : MappingFile)
    (es : List AgentEvent) : Paired (run agentStep (.boot range host file) es).books :=
  run_invariant agentStep (I := fun s => Paired s.books)
    (fun s e h => h.step (booksStep_agentStep s e)) (paired_boot range host file) es

/-! ## New interfaces -/

section
variable {range : PortRange} {b b' : Books}

theorem Removals.peerToIf {id : Nat} {poll : Poll} (h : Removals b id poll b') :
    b'.peerToIf = b.peerToIf := by
  cases h <;> rfl

/-- A step leaves an interface as it is, removes it, or it is one of `getIfName`. -/
theorem BooksStep.peerToIf {e : AgentEvent} (h : BooksStep range b e b') :
    b'.peerToIf = b.peerToIf ∨ (∃ p, b'.peerToIf = (getIfName b.peerToIf p).2) ∨
      ∃ id ok draws poll p, e = .pollStep id ok draws ∧ b.polls.get? id = some poll ∧
        poll.stage = .removed p ∧ b'.peerToIf = b.peerToIf.delete p := by
  cases h with
  | other => exact Or.inl rfl
  | started => exact Or.inl rfl
  | polled hpoll hstep =>
    cases hstep with
    | @turn peer => exact Or.inr (Or.inl ⟨peer.id, rfl⟩)
    | @throws peer => exact Or.inr (Or.inl ⟨peer.id, rfl⟩)
    | looped _ _ _ _ hremovals => exact Or.inl hremovals.peerToIf
    | removed hstage hremovals =>
      exact Or.inr (Or.inr ⟨_, _, _, _, _, rfl, hpoll, hstage, hremovals.peerToIf⟩)
    | _ => exact Or.inl rfl

/-- **A new interface** is no peer's, and has the smallest such index. -/
theorem BooksStep.new_least {e : AgentEvent} (h : BooksStep range b e b') {p : PeerId}
    {n : IfName} (hnone : b.peerToIf.get? p = none) (hsome : b'.peerToIf.get? p = some n) :
    (∀ q, b.peerToIf.get? q ≠ some n) ∧ ∀ m < n, ∃ q, b.peerToIf.get? q = some m := by
  rcases h.peerToIf with hsame | ⟨r, hname⟩ | ⟨id, ok, draws, poll, r, -, -, -, hdel⟩
  · rw [hsame, hnone] at hsome
    cases hsome
  · rw [hname] at hsome
    by_cases hr : r = p
    · subst hr
      rw [getIfName_get?] at hsome
      cases hsome
      exact ⟨fun q hq => getIfName_fresh hnone hq rfl, fun m hm => getIfName_least hnone hm⟩
    · rw [getIfName_get?_ne _ hr, hnone] at hsome
      cases hsome
  · rw [hdel] at hsome
    rw [(OMap.get?_of_get?_delete hsome).2] at hnone
    cases hnone

/-! ## A peer that every configuration lists -/

/-- Every poll has the peer in its configuration, and none is at removing it. -/
def Listing (p : PeerId) (polls : OMap Nat Poll) : Prop :=
  ∀ id poll, polls.get? id = some poll →
    Agent.isDesired poll.config p = true ∧ poll.stage.leaving? ≠ some p

section
variable {p : PeerId} {polls : OMap Nat Poll}

theorem Listing.set (h : Listing p polls) (id : Nat) {poll : Poll}
    (hlisted : Agent.isDesired poll.config p = true) (hstage : poll.stage.leaving? ≠ some p) :
    Listing p (polls.set id poll) := by
  intro i poll' hi
  rcases OMap.get?_set_cases hi with ⟨-, rfl⟩ | ⟨-, hi⟩
  · exact ⟨hlisted, hstage⟩
  · exact h i poll' hi

theorem Listing.delete (h : Listing p polls) (id : Nat) : Listing p (polls.delete id) :=
  fun i poll hi => h i poll (OMap.get?_of_get?_delete hi).2

theorem Listing.removals {c c' : Books} {id : Nat} {poll : Poll} (h : Listing p c.polls)
    (hlisted : Agent.isDesired poll.config p = true) (hstep : Removals c id poll c') :
    Listing p c'.polls := by
  cases hstep with
  | @removing q i _ hgone =>
    refine h.set id hlisted fun hq => ?_
    have hq : some q = some p := hq
    cases hq
    rw [hlisted] at hgone
    cases hgone
  | saving => exact h.set id hlisted (by simp [Stage.leaving?])
  | done => exact h.set id hlisted (by simp [Stage.leaving?])

theorem Listing.step {e : AgentEvent} (h : Listing p b.polls) (hstep : BooksStep range b e b')
    (hlisted : ∀ config, e = .startPoll config → Agent.isDesired config p = true) :
    Listing p b'.polls := by
  cases hstep with
  | other => exact h
  | started config id => exact h.set id (hlisted config rfl) (by simp [Stage.leaving?])
  | @polled id ok draws poll _ hpoll hstep =>
    obtain ⟨hp, hleaving⟩ := h id poll hpoll
    cases hstep with
    | command _ hwork hsame =>
      rw [← hsame] at hwork
      exact h.set id hp (by simp [leaving?_of_work hwork])
    | turn _ _ hconfig _ hwork _ _ =>
      refine h.set id (by rwa [hconfig]) ?_
      rw [leaving?_of_work (by rw [hwork]; rfl)]
      simp
    | throws => exact h.delete id
    | looped _ _ hconfig _ hremovals => exact h.removals (by rwa [hconfig]) hremovals
    | @unlinked q i hstage =>
      refine h.set id hp ?_
      rw [hstage] at hleaving
      exact hleaving
    | @removed q _ _ hremovals => exact Listing.removals (by exact h) hp hremovals
    | written => exact h.set id hp (by simp [Stage.leaving?])
    | unwritten => exact h.delete id
    | cleared => exact h.set id hp (by simp [Stage.leaving?])
    | ended => exact h.delete id
    | later _ hlate => exact h.set id hp (by simp [leaving?_of_late hlate])

/-- Such a peer keeps its interface. -/
theorem Listing.keeps {e : AgentEvent} (h : Listing p b.polls) (hstep : BooksStep range b e b')
    {n : IfName} (hn : b.peerToIf.get? p = some n) : b'.peerToIf.get? p = some n := by
  rcases hstep.peerToIf with hsame | ⟨r, hname⟩ | ⟨id, ok, draws, poll, r, -, hpoll, hstage, hdel⟩
  · rwa [hsame]
  · rw [hname]
    by_cases hr : r = p
    · subst hr
      rw [getIfName_of_some hn]
      exact hn
    · rwa [getIfName_get?_ne _ hr]
  · have hr : r ≠ p := by
      rintro rfl
      exact (h id poll hpoll).2 (by rw [hstage]; rfl)
    rw [hdel, OMap.get?_delete_ne _ hr]
    exact hn

end

theorem listing_run (range : PortRange) (host : Host) (file : MappingFile) {p : PeerId}
    {es : List AgentEvent}
    (h : ∀ config, .startPoll config ∈ es → Agent.isDesired config p = true) :
    Listing p (run agentStep (.boot range host file) es).polls := by
  induction es using List.reverseRecOn with
  | nil =>
    intro id poll hpoll
    cases hpoll
  | append_singleton es e ih =>
    rw [run_concat]
    refine (ih fun config hc => h config (List.mem_append_left _ hc)).step
      (booksStep_agentStep _ e) ?_
    rintro config rfl
    exact h config (by simp)

theorem keeps_run (range : PortRange) (host : Host) (file : MappingFile) {p : PeerId}
    {es es' : List AgentEvent} {n : IfName}
    (h : ∀ config, .startPoll config ∈ es ++ es' → Agent.isDesired config p = true)
    (hn : (run agentStep (.boot range host file) es).peerToIf.get? p = some n) :
    (run agentStep (.boot range host file) (es ++ es')).peerToIf.get? p = some n := by
  induction es' using List.reverseRecOn with
  | nil => rwa [List.append_nil]
  | append_singleton es' e ih =>
    have hinit : ∀ config, .startPoll config ∈ es ++ es' → Agent.isDesired config p = true := by
      intro config hc
      refine h config ?_
      rw [← List.append_assoc]
      exact List.mem_append_left _ hc
    rw [← List.append_assoc, run_concat]
    exact (listing_run range host file hinit).keeps (booksStep_agentStep _ e) (ih hinit)

end

/-! ## Calls that do not overlap -/

/-- A poll is started only when no call of `reconcile` is under way. -/
def Sequential (s : Agent) : AgentEvent → Prop
  | .startPoll _ => ∀ entry ∈ s.polls.entries, entry.2.stage.inReconcile = false
  | _ => True

instance (s : Agent) : (e : AgentEvent) → Decidable (Sequential s e)
  | .startPoll _ => inferInstanceAs (Decidable (∀ entry ∈ s.polls.entries,
      entry.2.stage.inReconcile = false))
  | .receive _ _ | .awgApplied _ | .switchDone _ | .pollStep _ _ _ | .probeFailed _ | .tick _
  | .wsClose => isTrue trivial

/-- The step at which the file is written. -/
def Agent.writes (s : Agent) : AgentEvent → Bool
  | .pollStep id true _ => match (s.polls.get? id).map Poll.stage with
    | some (.saving _) => true
    | _ => false
  | _ => false

/-- One call of `reconcile` at most is under way, and what it saves is in memory. -/
structure SoleCall (b : Books) : Prop where
  alone : ∀ i j poll poll', b.polls.get? i = some poll → b.polls.get? j = some poll' →
    poll.stage.inReconcile = true → poll'.stage.inReconcile = true → i = j
  current : ∀ id poll data, b.polls.get? id = some poll → poll.stage = .saving data →
    data = b.mappingData

section
variable {b : Books}

/-- The call goes on, or a poll that is past it. -/
theorem SoleCall.setPoll (h : SoleCall b) {id : Nat} {poll poll' : Poll} {b' : Books}
    (hpoll : b.polls.get? id = some poll) (hpolls : b'.polls = b.polls.set id poll')
    (hcall : poll'.stage.inReconcile = true → poll.stage.inReconcile = true)
    (hsaving : ∀ data, poll'.stage = .saving data → data = b'.mappingData)
    (hkept : b'.mappingData = b.mappingData ∨ poll.stage.inReconcile = true) : SoleCall b' where
  alone := by
    intro i j p q hi hj hp hq
    rw [hpolls] at hi hj
    rcases OMap.get?_set_cases hi with ⟨rfl, rfl⟩ | ⟨-, hi'⟩ <;>
      rcases OMap.get?_set_cases hj with ⟨rfl, rfl⟩ | ⟨-, hj'⟩
    · rfl
    · exact h.alone _ _ _ _ hpoll hj' (hcall hp) hq
    · exact h.alone _ _ _ _ hi' hpoll hp (hcall hq)
    · exact h.alone _ _ _ _ hi' hj' hp hq
  current := by
    intro i p data hi hdata
    rw [hpolls] at hi
    rcases OMap.get?_set_cases hi with ⟨-, rfl⟩ | ⟨hne, hi⟩
    · exact hsaving data hdata
    · rcases hkept with hsame | hin
      · rw [hsame]
        exact h.current i p data hi hdata
      · -- only one poll is in `reconcile`, so no other one is saving
        exact absurd (h.alone _ _ _ _ hpoll hi hin (by rw [hdata]; rfl)) hne

theorem SoleCall.deletePoll (h : SoleCall b) {id : Nat} {poll : Poll} {b' : Books}
    (hpoll : b.polls.get? id = some poll) (hpolls : b'.polls = b.polls.delete id)
    (hkept : b'.mappingData = b.mappingData ∨ poll.stage.inReconcile = true) : SoleCall b' where
  alone := by
    intro i j p q hi hj hp hq
    rw [hpolls] at hi hj
    exact h.alone _ _ _ _ (OMap.get?_of_get?_delete hi).2 (OMap.get?_of_get?_delete hj).2 hp hq
  current := by
    intro i p data hi hdata
    rw [hpolls] at hi
    obtain ⟨hne, hi⟩ := OMap.get?_of_get?_delete hi
    rcases hkept with hsame | hin
    · rw [hsame]
      exact h.current i p data hi hdata
    · exact absurd (h.alone _ _ _ _ hpoll hi hin (by rw [hdata]; rfl)) hne

theorem SoleCall.start (hnone : ∀ id poll, b.polls.get? id = some poll →
    poll.stage.inReconcile = false) (id : Nat) {poll : Poll} (hstage : poll.stage = .listing) :
    SoleCall { b with polls := b.polls.set id poll } where
  alone := by
    intro i j p q hi hj hp hq
    rcases OMap.get?_set_cases hi with ⟨rfl, -⟩ | ⟨-, hi⟩
    · rcases OMap.get?_set_cases hj with ⟨rfl, -⟩ | ⟨-, hj⟩
      · rfl
      · rw [hnone j q hj] at hq
        cases hq
    · rw [hnone i p hi] at hp
      cases hp
  current := by
    intro i p data hi hdata
    rcases OMap.get?_set_cases hi with ⟨-, rfl⟩ | ⟨-, hi⟩
    · rw [hstage] at hdata
      cases hdata
    · have hout := hnone i p hi
      rw [hdata] at hout
      cases hout

/-- The second loop, begun by the one call under way. -/
theorem SoleCall.removals (h : SoleCall b) {c b' : Books} {id : Nat} {poll poll' : Poll}
    (hpoll : b.polls.get? id = some poll) (hin : poll.stage.inReconcile = true)
    (hpolls : c.polls = b.polls) (hstep : Removals c id poll' b') : SoleCall b' := by
  cases hstep with
  | removing =>
    refine h.setPoll hpoll (by rw [← hpolls]) (fun _ => hin) (fun data hdata => ?_) (Or.inr hin)
    cases hdata
  | saving =>
    refine h.setPoll hpoll (by rw [← hpolls]) (fun _ => hin) (fun data hdata => ?_) (Or.inr hin)
    cases hdata
    rfl
  | done =>
    refine h.setPoll hpoll (by rw [← hpolls]) (fun _ => hin) (fun data hdata => ?_) (Or.inr hin)
    cases hdata

theorem SoleCall.step (h : SoleCall b) {range : PortRange} {e : AgentEvent} {b' : Books}
    (hstep : BooksStep range b e b')
    (hseq : ∀ config, e = .startPoll config → ∀ id poll, b.polls.get? id = some poll →
      poll.stage.inReconcile = false) : SoleCall b' := by
  cases hstep with
  | other => exact h
  | started config id => exact .start (hseq config rfl) id rfl
  | @polled id ok draws poll _ hpoll hstep =>
    cases hstep with
    | command _ hwork hsame =>
      rw [← hsame] at hwork
      exact h.setPoll hpoll rfl (fun _ => inReconcile_of_work (by rwa [← hsame]))
        (fun data hdata => absurd hdata (not_saving_of_work hwork)) (Or.inl rfl)
    | turn hturn _ _ _ hwork _ _ =>
      have hin := inReconcile_of_turn hturn
      exact h.setPoll hpoll rfl (fun _ => hin)
        (fun data hdata => absurd hdata (not_saving_of_work (by rw [hwork]; rfl))) (Or.inr hin)
    | throws hturn => exact h.deletePoll hpoll rfl (Or.inr (inReconcile_of_turn hturn))
    | looped htodo _ _ _ hremovals =>
      exact h.removals hpoll (inReconcile_of_todo htodo) rfl hremovals
    | unlinked hstage =>
      exact h.setPoll hpoll rfl (fun _ => by rw [hstage]; rfl) (fun data hdata => by cases hdata)
        (Or.inl rfl)
    | removed hstage hremovals =>
      exact h.removals hpoll (by rw [hstage]; rfl) (by rfl) hremovals
    | written hstage =>
      exact h.setPoll hpoll rfl (fun _ => by rw [hstage]; rfl) (fun data hdata => by cases hdata)
        (Or.inl rfl)
    | unwritten => exact h.deletePoll hpoll rfl (Or.inl rfl)
    | cleared hstage =>
      exact h.setPoll hpoll rfl (fun _ => by rw [hstage]; rfl) (fun data hdata => by cases hdata)
        (Or.inl rfl)
    | ended => exact h.deletePoll hpoll rfl (Or.inl rfl)
    | @later stage _ hlate =>
      refine h.setPoll hpoll rfl (fun hin => ?_) (fun data hdata => ?_) (Or.inl rfl)
      · have hin : stage.inReconcile = true := hin
        rw [hlate] at hin
        cases hin
      · have hdata : stage = .saving data := hdata
        rw [hdata] at hlate
        cases hlate

/-- Only a write changes the file. -/
theorem mappings_step {s : Agent} {e : AgentEvent} (h : s.writes e = false) :
    (agentStep s e).mappings = s.mappings := by
  have hstep := booksStep_agentStep s e
  have hmappings : (agentStep s e).books.mappings = s.books.mappings := by
    generalize hb : (agentStep s e).books = b' at hstep ⊢
    cases hstep with
    | other => rfl
    | started => rfl
    | polled hpoll hstep =>
      have hrem : ∀ {c c' : Books} {id : Nat} {poll : Poll}, Removals c id poll c' →
          c'.mappings = c.mappings := by
        intro c c' id poll hr
        cases hr <;> rfl
      cases hstep with
      | looped _ _ _ _ hremovals => exact hrem hremovals
      | removed _ hremovals => exact (hrem hremovals :)
      | written hstage hok =>
        have hpoll' : s.polls.get? _ = some _ := hpoll
        subst hok
        simp [Agent.writes, hpoll', hstage] at h
      | _ => rfl
  exact hmappings

end

theorem soleCall_run (range : PortRange) (host : Host) (file : MappingFile)
    {es : List AgentEvent} (h : Along agentStep Sequential (.boot range host file) es) :
    SoleCall (run agentStep (.boot range host file) es).books := by
  refine run_invariant_along agentStep (P := Sequential) (I := fun s => SoleCall s.books) ?_ ?_ h
  · intro s e hs hseq
    refine hs.step (booksStep_agentStep s e) ?_
    rintro config rfl id poll hpoll
    exact hseq (id, poll) ((OMap.mem_entries _ _ _).mpr hpoll)
  · constructor
    · intro i j poll poll' hi
      cases hi
    · intro id poll data hid
      cases hid

/-- What is written stays in the file until the next write. -/
theorem restores_run (range : PortRange) (host : Host) (file : MappingFile)
    {es es' : List AgentEvent} {e : AgentEvent}
    (hseq : Along agentStep Sequential (.boot range host file) es)
    (hwrites : (run agentStep (.boot range host file) es).writes e = true)
    (hlast : Along agentStep (fun s e => s.writes e = false)
      (run agentStep (.boot range host file) (es ++ [e])) es') :
    Restores (run agentStep (.boot range host file) (es ++ e :: es')).mappings
      (run agentStep (.boot range host file) es).books := by
  have hsole := soleCall_run range host file hseq
  have hpaired := paired_run range host file es
  have hsplit : run agentStep (.boot range host file) (es ++ e :: es') =
      run agentStep (run agentStep (.boot range host file) (es ++ [e])) es' := by
    rw [← run_append, List.append_assoc]
    rfl
  rw [hsplit]
  refine run_invariant_along agentStep (P := fun s e => s.writes e = false)
    (I := fun s => Restores s.mappings (run agentStep (.boot range host file) es).books) ?_ ?_ hlast
  · intro s e hs hno
    rwa [mappings_step hno]
  · rw [run_concat]
    generalize run agentStep (.boot range host file) es = s at hwrites hsole hpaired ⊢
    cases e with
    | pollStep id ok draws =>
      cases ok with
      | false => cases hwrites
      | true =>
        cases hpoll : s.polls.get? id with
        | none => simp [Agent.writes, hpoll] at hwrites
        | some poll =>
          simp only [Agent.writes, hpoll, Option.map_some] at hwrites
          split at hwrites
          · rename_i data hstage
            rw [Option.some.injEq] at hstage
            -- what was on its way to the file is what is in memory
            have hdata : data = s.books.mappingData := hsole.current id poll data hpoll hstage
            have hfile : (agentStep s (.pollStep id true draws)).mappings = data := by
              simp [agentStep, Agent.pollStep, hpoll, hstage, Agent.setStage]
            rw [hfile, hdata]
            exact hpaired.restores
          · cases hwrites
    | _ => cases hwrites

/-- **Interfaces are kept.** -/
theorem interfaces_kept (range : PortRange) (host : Host) (file : MappingFile)
    (es : List AgentEvent) :
    let agent := run agentStep (.boot range host file)
    InjectiveMap (agent es).peerToIf ∧
    (∀ p, (agent es).peerToPort.has p = true → (agent es).peerToIf.has p = true) ∧
    (∀ e p n, (agent es).peerToIf.get? p = none →
      (agentStep (agent es) e).peerToIf.get? p = some n →
      (∀ q, (agent es).peerToIf.get? q ≠ some n) ∧
        ∀ m < n, ∃ q, (agent es).peerToIf.get? q = some m) ∧
    -- the agent can be started again with its file
    (∃ file' : MappingFile, file'.data = (agent es).mappings) ∧
    (Along agentStep Sequential (.boot range host file) es →
      (∀ p n earlier later, es = earlier ++ later →
        (∀ config, .startPoll config ∈ es → Agent.isDesired config p = true) →
        (agent earlier).peerToIf.get? p = some n → (agent es).peerToIf.get? p = some n) ∧
      ∀ earlier e later, es = earlier ++ e :: later → (agent earlier).writes e = true →
        Along agentStep (fun s e => s.writes e = false) (agent (earlier ++ [e])) later →
        Restores (agent es).mappings (agent earlier).books) := by
  intro agent
  have hpaired := paired_run range host file es
  refine ⟨hpaired.distinct, hpaired.named, ?_, ⟨⟨_, hpaired.file.1, hpaired.file.2⟩, rfl⟩, ?_⟩
  · intro e p n hnone hsome
    exact (booksStep_agentStep (agent es) e).new_least hnone hsome
  · intro hseq
    constructor
    · rintro p n earlier later rfl hlisted hn
      exact keeps_run range host file hlisted hn
    · rintro earlier e later rfl hwrites hlast
      exact restores_run range host file ((along_append _ _ _ _ _).mp hseq).1 hwrites hlast

/-- A second peer has come to the network. -/
def newPeer : PeerConfig :=
  ⟨[⟨[98], [107], [10], [69], 0⟩, ⟨[99], [108], [11], [70], 0⟩], by decide⟩

/-- The first of two peers leaves the network, then a third one comes. -/
def comingAndGoing : List AgentEvent :=
  .startPoll newPeer :: List.replicate 10 (.pollStep 0 true [5, 6]) ++
    .startPoll ⟨[⟨[99], [108], [11], [70], 0⟩], by decide⟩ ::
      List.replicate 9 (.pollStep 1 true []) ++
    .startPoll ⟨[⟨[97], [109], [12], [71], 0⟩, ⟨[99], [108], [11], [70], 0⟩], by decide⟩ ::
      List.replicate 10 (.pollStep 2 true [7])

/-- The third peer gets the index of the first one, the second peer keeps its own, and what the
last poll saves stays in the file. -/
theorem interfaces_kept_comingAndGoing :
    let agent := run agentStep freshAgent
    (∀ q, (agent (comingAndGoing.take 22)).peerToIf.get? q ≠ some 0) ∧
    (agent (comingAndGoing.take 23)).peerToIf.get? [97] = some 0 ∧
    (agent comingAndGoing).peerToIf.get? [99] = some 1 ∧
    Restores (agent comingAndGoing).mappings (agent (comingAndGoing.take 28)).books := by
  intro agent
  have hnew := (interfaces_kept ⟨51820, 52819⟩ ⟨[], .empty⟩ .empty
    (comingAndGoing.take 22)).2.2.1 (.pollStep 2 true [7]) [97] 0 (by decide +kernel)
    (by decide +kernel)
  have hseq := (interfaces_kept ⟨51820, 52819⟩ ⟨[], .empty⟩ .empty comingAndGoing).2.2.2.2
    (by decide +kernel)
  have hlisted : ∀ config, .startPoll config ∈ comingAndGoing →
      Agent.isDesired config [99] = true := by
    intro config hc
    simp only [comingAndGoing, List.cons_append, List.append_assoc, List.mem_cons, List.mem_append,
      List.mem_replicate, reduceCtorEq, and_false, false_or, or_false, AgentEvent.startPoll.injEq]
      at hc
    rcases hc with rfl | rfl | rfl <;> decide
  refine ⟨hnew.1, by decide +kernel, ?_, ?_⟩
  · exact hseq.1 [99] 1 (comingAndGoing.take 6) (comingAndGoing.drop 6) rfl hlisted
      (by decide +kernel)
  · exact hseq.2 (comingAndGoing.take 28) (.pollStep 2 true [7]) (comingAndGoing.drop 29) rfl
      (by decide +kernel) (by decide +kernel)

end Meshezia
