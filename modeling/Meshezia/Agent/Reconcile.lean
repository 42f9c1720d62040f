import Meshezia.Agent.Step

/-!
# A reconcile call as a whole (`reconcile` of `reconciler.ts`)

`pollStep` cuts `reconcile` at its awaits.  When nothing else happens in between and every
command succeeds, a call is one function of the agent's state (`Agent.reconcile`): the
interfaces of the peers with a pubkey are set up, those of the peers that are gone are
removed, and the mappings are saved.  `getPort` may still throw; the call ends there, with
what it has done so far.

The two say the same: driven with every command successful, a poll gets to its report in a
state like that of the call (`Alike`), with the same ports, or throws in one:

    s.reconcile config draws = ok (s', ports)   →  the poll reports ports, in a state like s'
                                                                     (reconcile_ok_drives)
    s.reconcile config draws = error s'         →  the poll fails, in a state like s'
                                                                     (reconcile_error_drives)
-/

namespace Meshezia

namespace Agent

/-! ## The call -/

/-- `ensureInterface`, all its commands successful. -/
def ensureInterface (s : Agent) (t : Target) (isNew : Bool) : Agent :=
  (if isNew then { s with host := s.host.linkAdd t.ifName } else s).configure t

/-- A turn of the first loop, for a peer with a pubkey: its port, unless `getPort` throws. -/
def reconcilePeer (s : Agent) (existing : List IfName) (draws : List Nat) (peer : PeerEndpoint) :
    Except Agent (Agent × Nat) :=
  let (ifName, peerToIf) := getIfName s.peerToIf peer.id
  let s := { s with peerToIf, dirty := s.dirty || !s.peerToIf.has peer.id }
  let isNew := !existing.contains ifName
  match s.listenPortOf peer draws with
  | none => .error s
  | some (listenPort, peerToPort) =>
    let dirty := s.dirty || decide (s.peerToPort.get? peer.id ≠ some listenPort)
    let s := { s with peerToPort, dirty }
    let skipEndpoint := s.skipEndpoint peer.id isNew
    .ok (s.ensureInterface { peer, ifName, listenPort, skipEndpoint } isNew, listenPort)

/-- The first loop; `draws` are the random numbers that `getPort` gets for each peer. -/
def reconcileLoop (existing : List IfName) (draws : PeerId → List Nat) (s : Agent)
    (ports : List (PeerId × Nat)) :
    List PeerEndpoint → Except Agent (Agent × List (PeerId × Nat))
  | [] => .ok (s, ports)
  | peer :: rest =>
    if peer.pubkey = [] then reconcileLoop existing draws s ports rest
    else
      match s.reconcilePeer existing (draws peer.id) peer with
      | .error s => .error s
      | .ok (s, port) => reconcileLoop existing draws s (ports ++ [(peer.id, port)]) rest

/-- A turn of the second loop, for a peer that is gone. -/
def removeGonePeer (s : Agent) (e : PeerId × IfName) : Agent :=
  { s with host := s.host.linkDelete e.2
           peerToIf := s.peerToIf.delete e.1
           peerToPort := s.peerToPort.delete e.1
           dirty := true }

def removeGone (s : Agent) (config : PeerConfig) : Agent :=
  (s.peerToIf.entries.filter fun e => !isDesired config e.1).foldl removeGonePeer s

def saveMappings (s : Agent) : Agent :=
  if s.dirty then { s with mappings := s.mappingData, dirty := false } else s

/-- `reconcile`, all its commands successful. -/
def reconcile (s : Agent) (config : PeerConfig) (draws : PeerId → List Nat) :
    Except Agent (Agent × List (PeerId × Nat)) :=
  match s.reconcileLoop s.host.interfaces draws [] config.peers with
  | .error s => .error s
  | .ok (s, ports) => .ok ((s.removeGone config).saveMappings, ports)

/-! ## The same as a poll -/

/-- The two differ in nothing but their polls and their history. -/
def Alike (s t : Agent) : Prop :=
  ∃ polls nextId trace, t = { s with polls, nextId, trace }

/-- The poll gets from `s` to `t` when everything it awaits succeeds. -/
def Drives (id : Nat) (s t : Agent) : Prop :=
  ∃ draws : List (List Nat), run (fun s d => s.pollStep id true d) s draws = t

section
variable {id : Nat} {s t u : Agent}

theorem drives_refl (id : Nat) (s : Agent) : Drives id s s := ⟨[], rfl⟩

theorem drives_step (draws : List Nat) (h : Drives id (s.pollStep id true draws) t) :
    Drives id s t := by
  obtain ⟨ds, hds⟩ := h
  exact ⟨draws :: ds, hds⟩

theorem drives_trans (h : Drives id s t) (h' : Drives id t u) : Drives id s u := by
  obtain ⟨ds, rfl⟩ := h
  obtain ⟨ds', hds'⟩ := h'
  exact ⟨ds ++ ds', by rw [run_append, hds']⟩

end

/-- The draws for the next peer of the loop. -/
def nextDraws (draws : PeerId → List Nat) (peers : List PeerEndpoint) : List Nat :=
  match peers.find? fun p => !decide (p.pubkey = []) with
  | some p => draws p.id
  | none => []

theorem nextDraws_of_nil (draws : PeerId → List Nat) {peer : PeerEndpoint}
    (h : peer.pubkey = []) (rest : List PeerEndpoint) :
    nextDraws draws (peer :: rest) = nextDraws draws rest := by
  simp [nextDraws, h]

theorem nextDraws_of_ne_nil (draws : PeerId → List Nat) {peer : PeerEndpoint}
    (h : peer.pubkey ≠ []) (rest : List PeerEndpoint) :
    nextDraws draws (peer :: rest) = draws peer.id := by
  simp [nextDraws, h]

section
variable {s t : Agent} {id : Nat} {poll : Poll}

theorem pollStep_creating (t : Agent) (id : Nat) (poll : Poll) (tg : Target)
    (rest : List PeerEndpoint) (draws : List Nat) :
    (t.setStage id poll (.creating tg rest)).pollStep id true draws =
      { t with host := t.host.linkAdd tg.ifName }.setStage id poll (.setting tg rest) := by
  simp [pollStep, setStage]

theorem pollStep_setting (t : Agent) (id : Nat) (poll : Poll) (tg : Target)
    (rest : List PeerEndpoint) (draws : List Nat) :
    (t.setStage id poll (.setting tg rest)).pollStep id true draws =
      (t.configure tg).setStage id poll (.routing tg rest) := by
  simp [pollStep, setStage, configure]

theorem alike_ensureInterface (h : Alike s t) (tg : Target) (isNew : Bool) :
    Alike (s.ensureInterface tg isNew) (t.ensureInterface tg isNew) := by
  obtain ⟨polls, nextId, trace, rfl⟩ := h
  cases isNew <;> exact ⟨polls, nextId, trace, rfl⟩

theorem alike_setStage (h : Alike s t) (id : Nat) (poll : Poll) (stage : Stage) :
    Alike s (t.setStage id poll stage) := by
  obtain ⟨polls, nextId, trace, rfl⟩ := h
  exact ⟨_, nextId, trace, rfl⟩

theorem alike_note (h : Alike s t) (it : AgentItem) : Alike s (t.note it) := by
  obtain ⟨polls, nextId, trace, rfl⟩ := h
  exact ⟨polls, nextId, _, rfl⟩

/-- The commands for one peer. -/
theorem drives_target (t : Agent) (id : Nat) (poll : Poll) (tg : Target) (isNew : Bool)
    (rest : List PeerEndpoint) (draws : List Nat) :
    Drives id (t.setStage id poll (if isNew then .creating tg rest else .setting tg rest))
      (((t.ensureInterface tg isNew).setStage id poll (.routing tg rest)).reconcilePeers id
        { poll with ports := poll.ports ++ [(tg.peer.id, tg.listenPort)]
                    stage := .routing tg rest } draws rest) := by
  have hset : ∀ u : Agent, Drives id (u.setStage id poll (.setting tg rest))
      (((u.configure tg).setStage id poll (.routing tg rest)).reconcilePeers id
        { poll with ports := poll.ports ++ [(tg.peer.id, tg.listenPort)]
                    stage := .routing tg rest } draws rest) := by
    intro u
    refine drives_step [] ?_
    rw [pollStep_setting]
    refine drives_step draws ?_
    simp only [pollStep, setStage, OMap.get?_set_self, if_true]
    exact drives_refl id _
  cases isNew with
  | false => exact hset t
  | true =>
    refine drives_step [] ?_
    rw [if_pos rfl, pollStep_creating]
    exact hset _

/-- **One peer.**  Its interface is set up, or `getPort` throws. -/
theorem drives_peer (id : Nat) (h : Alike s t) {peer : PeerEndpoint} (hkey : peer.pubkey ≠ [])
    {draws : List Nat} {s' : Agent} {port : Nat}
    (hpeer : s.reconcilePeer poll.existing draws peer = .ok (s', port)) (draws' : List Nat)
    (rest : List PeerEndpoint) :
    ∃ t' poll', Alike s' t' ∧ poll'.config = poll.config ∧ poll'.existing = poll.existing ∧
      poll'.ports = poll.ports ++ [(peer.id, port)] ∧
      Drives id (t.reconcilePeers id poll draws (peer :: rest))
        (t'.reconcilePeers id poll' draws' rest) := by
  obtain ⟨polls, nextId, trace, rfl⟩ := h
  unfold reconcilePeer at hpeer
  rw [reconcilePeers, if_neg hkey]
  dsimp only at hpeer ⊢
  split at hpeer
  · cases hpeer
  · rename_i listenPort peerToPort hport
    cases hpeer
    split
    · rename_i hnone
      exact absurd (hnone.symm.trans hport) (by simp)
    · rename_i listenPort' peerToPort' hport'
      obtain ⟨rfl, rfl⟩ := Prod.mk.inj (Option.some.inj (hport'.symm.trans hport))
      refine ⟨_, _, ?_, ?_, ?_, ?_, drives_target _ id poll _ _ rest draws'⟩
      · refine alike_setStage (alike_ensureInterface (alike_note ?_ _) _ _) id _ _
        exact ⟨polls, nextId, trace, rfl⟩
      · rfl
      · rfl
      · rfl

theorem fails_peer (id : Nat) (h : Alike s t) {peer : PeerEndpoint} (hkey : peer.pubkey ≠ [])
    {draws : List Nat} {s' : Agent} (hpeer : s.reconcilePeer poll.existing draws peer = .error s')
    (rest : List PeerEndpoint) :
    ∃ t', Alike s' t' ∧ t.reconcilePeers id poll draws (peer :: rest) = t'.failPoll id := by
  obtain ⟨polls, nextId, trace, rfl⟩ := h
  unfold reconcilePeer at hpeer
  rw [reconcilePeers, if_neg hkey]
  dsimp only at hpeer ⊢
  split at hpeer
  · rename_i hnone
    cases hpeer
    split
    · exact ⟨_, ⟨polls, nextId, trace, rfl⟩, rfl⟩
    · rename_i hsome
      exact absurd (hnone.symm.trans hsome) (by simp)
  · cases hpeer

/-- **The first loop.** -/
theorem drives_loop (id : Nat) (poll : Poll) (h : Alike s t) {draws : PeerId → List Nat} {peers : List PeerEndpoint}
    {s' : Agent} {ports : List (PeerId × Nat)}
    (hloop : s.reconcileLoop poll.existing draws poll.ports peers = .ok (s', ports)) :
    ∃ t' poll', Alike s' t' ∧ poll'.config = poll.config ∧ poll'.ports = ports ∧
      Drives id (t.reconcilePeers id poll (nextDraws draws peers) peers)
        (t'.reconcileRemovals id poll') := by
  induction peers generalizing s t poll with
  | nil =>
    cases hloop
    exact ⟨t, poll, h, rfl, rfl, drives_refl id _⟩
  | cons peer rest ih =>
    unfold reconcileLoop at hloop
    split at hloop
    · rename_i hnil
      rw [nextDraws_of_nil draws hnil]
      rw [reconcilePeers, if_pos hnil]
      exact ih _ h hloop
    · rename_i hkey
      rw [nextDraws_of_ne_nil draws hkey]
      split at hloop
      · cases hloop
      · rename_i s1 port hpeer
        obtain ⟨t1, poll1, h1, hconfig, hexisting, hports, hdrives⟩ :=
          drives_peer id h hkey hpeer (nextDraws draws rest) rest
        rw [← hports, ← hexisting] at hloop
        obtain ⟨t', poll', h', hconfig', hports', hdrives'⟩ := ih poll1 h1 hloop
        exact ⟨t', poll', h', hconfig'.trans hconfig, hports', drives_trans hdrives hdrives'⟩

theorem fails_loop (id : Nat) (poll : Poll) (h : Alike s t) {draws : PeerId → List Nat} {peers : List PeerEndpoint}
    {s' : Agent} (hloop : s.reconcileLoop poll.existing draws poll.ports peers = .error s') :
    ∃ t', Alike s' t' ∧
      Drives id (t.reconcilePeers id poll (nextDraws draws peers) peers) (t'.failPoll id) := by
  induction peers generalizing s t poll with
  | nil => cases hloop
  | cons peer rest ih =>
    unfold reconcileLoop at hloop
    split at hloop
    · rename_i hnil
      rw [nextDraws_of_nil draws hnil]
      rw [reconcilePeers, if_pos hnil]
      exact ih _ h hloop
    · rename_i hkey
      rw [nextDraws_of_ne_nil draws hkey]
      split at hloop
      · rename_i hpeer
        cases hloop
        obtain ⟨t', h', hfail⟩ := fails_peer id h hkey hpeer rest
        rw [hfail]
        exact ⟨t', h', drives_refl id _⟩
      · rename_i s1 port hpeer
        obtain ⟨t1, poll1, h1, -, hexisting, hports, hdrives⟩ :=
          drives_peer id h hkey hpeer (nextDraws draws rest) rest
        rw [← hports, ← hexisting] at hloop
        obtain ⟨t', h', hdrives'⟩ := ih poll1 h1 hloop
        exact ⟨t', h', drives_trans hdrives hdrives'⟩

theorem drives_saving (t : Agent) (id : Nat) (poll : Poll) (data : List (PeerId × IfName × Nat)) :
    Drives id (t.setStage id poll (.saving data))
      (reconcileEnd { ({ t.setStage id poll (.saving data) with
          mappings := data }.setStage id { poll with stage := .saving data } .saved) with
        dirty := false } id { poll with stage := .saved }) := by
  refine drives_step [] (drives_step [] ?_)
  simp only [pollStep, setStage, OMap.get?_set_self, if_true]
  exact drives_refl id _

theorem get?_reconcileEnd (t : Agent) (id : Nat) (poll : Poll) :
    (t.reconcileEnd id poll).polls.get? id = some { poll with stage := .reporting } :=
  OMap.get?_set_self _ _ _

/-- The mappings are saved, and the poll gets to its report. -/
theorem drives_end (id : Nat) (h : Alike s t)
    (hgone : t.peerToIf.entries.find? (fun e => !isDesired poll.config e.1) = none) :
    ∃ t' poll', Alike s.saveMappings t' ∧ poll'.stage = .reporting ∧ poll'.ports = poll.ports ∧
      t'.polls.get? id = some poll' ∧ Drives id (t.reconcileRemovals id poll) t' := by
  obtain ⟨polls, nextId, trace, rfl⟩ := h
  unfold reconcileRemovals saveMappings
  rw [hgone]
  dsimp only
  split
  · refine ⟨_, _, ?_, ?_, ?_, get?_reconcileEnd _ id _, drives_saving _ id poll _⟩
    · exact ⟨_, nextId, _, rfl⟩
    · rfl
    · rfl
  · refine ⟨_, _, ?_, ?_, ?_, get?_reconcileEnd _ id poll, drives_refl id _⟩
    · exact ⟨_, nextId, _, rfl⟩
    · rfl
    · rfl

/-- **The second loop.**  By induction on the entries that are left to remove. -/
theorem drives_removals (id : Nat) (poll : Poll) (h : Alike s t) {l : List (PeerId × IfName)}
    (hl : (s.peerToIf.entries.filter fun e => !isDesired poll.config e.1) = l) :
    ∃ t' poll', Alike (l.foldl removeGonePeer s).saveMappings t' ∧ poll'.stage = .reporting ∧
      poll'.ports = poll.ports ∧ t'.polls.get? id = some poll' ∧
      Drives id (t.reconcileRemovals id poll) t' := by
  induction l generalizing s t poll with
  | nil =>
    refine drives_end id h ?_
    obtain ⟨polls, nextId, trace, rfl⟩ := h
    rw [← List.head?_filter, hl]
    rfl
  | cons e rest ih =>
    -- the next turn is for `e`, and leaves `rest`
    have hfind : t.peerToIf.entries.find? (fun e => !isDesired poll.config e.1) = some e := by
      obtain ⟨polls, nextId, trace, rfl⟩ := h
      rw [← List.head?_filter, hl]
      rfl
    have hnodup : ((e :: rest).map Prod.fst).Nodup := by
      rw [← hl]
      exact (List.filter_sublist.map Prod.fst).nodup s.peerToIf.nodup
    have hrest : ((s.removeGonePeer e).peerToIf.entries.filter fun e =>
        !isDesired poll.config e.1) = rest := by
      show ((s.peerToIf.entries.filter fun x => decide (x.1 ≠ e.1)).filter _) = rest
      rw [List.filter_comm, hl, List.filter_cons, if_neg (by simp)]
      refine List.filter_eq_self.mpr fun x hx => decide_eq_true ?_
      rintro heq
      rw [List.map_cons, List.nodup_cons] at hnodup
      exact hnodup.1 (heq ▸ List.mem_map_of_mem hx)
    have hnext : Alike (s.removeGonePeer e)
        { t with host := t.host.linkDelete e.2, peerToIf := t.peerToIf.delete e.1
                 peerToPort := t.peerToPort.delete e.1, dirty := true
                 polls := (t.polls.set id { poll with stage := .removing e.1 e.2 }).set id
                   { poll with stage := .removed e.1 }
                 trace := .unlinked e.2 :: t.trace } := by
      obtain ⟨polls, nextId, trace, rfl⟩ := h
      exact ⟨_, nextId, _, rfl⟩
    obtain ⟨t', poll', h', hstage, hports, hget, hdrives⟩ :=
      ih { poll with stage := .removed e.1 } hnext hrest
    refine ⟨t', poll', h', hstage, hports, hget, ?_⟩
    unfold reconcileRemovals
    rw [hfind]
    refine drives_step [] (drives_step [] ?_)
    simp only [pollStep, setStage, OMap.get?_set_self, if_true]
    exact hdrives

end

/-- The first step of a poll lists the interfaces. -/
theorem drives_listing (s : Agent) (config : PeerConfig) (draws : PeerId → List Nat) {t : Agent}
    (h : Drives s.nextId ((s.startPoll config).reconcilePeers s.nextId
      { config, existing := s.host.interfaces, ports := [], stage := .listing }
      (nextDraws draws config.peers) config.peers) t) :
    Drives s.nextId (s.startPoll config) t := by
  refine drives_step (nextDraws draws config.peers) ?_
  simp only [pollStep, startPoll, OMap.get?_set_self, if_true]
  exact h

theorem alike_startPoll (s : Agent) (config : PeerConfig) : Alike s (s.startPoll config) :=
  ⟨_, _, _, rfl⟩

/-- **The call is the poll.**  A poll whose commands all succeed gets to its report. -/
theorem reconcile_ok_drives (s : Agent) (config : PeerConfig) (draws : PeerId → List Nat)
    {s' : Agent} {ports : List (PeerId × Nat)}
    (h : s.reconcile config draws = .ok (s', ports)) :
    ∃ t poll, Drives s.nextId (s.startPoll config) t ∧ Alike s' t ∧
      t.polls.get? s.nextId = some poll ∧ poll.stage = .reporting ∧ poll.ports = ports := by
  unfold reconcile at h
  split at h
  · cases h
  · rename_i s1 ports1 hloop
    cases h
    obtain ⟨t1, poll1, h1, hconfig, hports, hdrives⟩ := drives_loop s.nextId
      { config, existing := s.host.interfaces, ports := [], stage := .listing }
      (alike_startPoll s config) hloop
    have hconfig : poll1.config = config := hconfig
    obtain ⟨t', poll', h', hstage, hports', hget, hdrives'⟩ :=
      drives_removals s.nextId poll1 h1 rfl
    rw [hconfig] at h'
    exact ⟨t', poll', drives_listing s config draws (drives_trans hdrives hdrives'), h', hget,
      hstage, hports'.trans hports⟩

/-- When `getPort` throws, the poll fails. -/
theorem reconcile_error_drives (s : Agent) (config : PeerConfig) (draws : PeerId → List Nat)
    {s' : Agent} (h : s.reconcile config draws = .error s') :
    ∃ t, Drives s.nextId (s.startPoll config) t ∧ Alike s' t ∧ t.polls.get? s.nextId = none := by
  unfold reconcile at h
  split at h
  · rename_i s1 hloop
    cases h
    obtain ⟨t', ⟨polls, nextId, trace, rfl⟩, hdrives⟩ := fails_loop s.nextId
      { config, existing := s.host.interfaces, ports := [], stage := .listing }
      (alike_startPoll s config) hloop
    exact ⟨_, drives_listing s config draws hdrives, ⟨_, nextId, _, rfl⟩,
      OMap.get?_delete_self _ _⟩
  · cases h

end Agent

end Meshezia
