import Meshezia.Agent.Reconciler

/-!
# Ports of the relay proxies (`relay-proxy.ts`, `poll` of `index.ts`)

A poll goes through the peers of the configuration that have a pubkey.  A peer without
a relay proxy gets one on the port `41820 + idx`, where `idx` is its position among them;
a peer that has one keeps it.  At the end of the poll the proxies of the other peers go.

A proxy keeps the position at which its peer joined (`rejoin`), so the ports stay
pairwise distinct exactly when no peer joins at a position that a peer with a live proxy
joined at:

    Along poll DuringPoll … configs ↔ Along rejoin JoinsApart … configs
                                                        (relay_ports_distinct_iff)
-/

namespace Meshezia

def RELAY_BASE_PORT : Nat := 41820

structure RelayEntry where
  peerId : PeerId
  localPort : Nat
deriving DecidableEq, Repr

abbrev Relays := OMap PeerId RelayEntry

/-! ## Algorithm -/

/-- The local port of a peer's relay proxy, which is started when there is none. -/
def ensureRelayProxy (relays : Relays) (peerId : PeerId) (index : Nat) : Nat × Relays :=
  match relays.get? peerId with
  | some entry => (entry.localPort, relays)
  | none =>
    let localPort := RELAY_BASE_PORT + index
    (localPort, relays.set peerId { peerId, localPort })

/-- What `poll` works on. -/
structure Proxies where
  peerToIf : OMap PeerId IfName
  relays : Relays
  peerStates : PeerStates

/-- The names that `reconcile` assigns to the peers with a pubkey and keeps for the peers of
the configuration. -/
def reconcileNames (peerToIf : OMap PeerId IfName) (config : PeerConfig) : OMap PeerId IfName :=
  let named := (config.peers.filter fun p => p.pubkey ≠ []).foldl
    (fun m p => (getIfName m p.id).2) peerToIf
  named.filter fun id _ => config.peers.any fun p => p.id = id

structure PollLoop where
  relays : Relays
  peerStates : PeerStates
  activePeerIds : List PeerId
  idx : Nat

/-- The body of the loop over the peers of the configuration. -/
def pollPeer (peerToIf : OMap PeerId IfName) (l : PollLoop) (peer : PeerEndpoint) : PollLoop :=
  if peer.pubkey = [] then l
  else
    let l := { l with activePeerIds := l.activePeerIds ++ [peer.id] }
    match peerToIf.get? peer.id with
    | none => l
    | some ifName =>
      let (relayPort, relays) := ensureRelayProxy l.relays peer.id l.idx
      { l with relays, peerStates := initPeerState l.peerStates peer ifName relayPort
               idx := l.idx + 1 }

/-- The loop of a poll after the peers `done`. -/
def pollLoop (s : Proxies) (config : PeerConfig) (done : List PeerEndpoint) : PollLoop :=
  done.foldl (pollPeer (reconcileNames s.peerToIf config))
    { relays := s.relays, peerStates := s.peerStates, activePeerIds := [], idx := 0 }

/-- Remove the state and the proxy of a peer that is not active. -/
def removeInactive (l : PollLoop) (peerId : PeerId) : PollLoop :=
  if peerId ∈ l.activePeerIds then l
  else { l with peerStates := l.peerStates.delete peerId, relays := l.relays.delete peerId }

def poll (s : Proxies) (config : PeerConfig) : Proxies :=
  let l := pollLoop s config config.peers
  let l := l.peerStates.keys.foldl removeInactive l
  { peerToIf := reconcileNames s.peerToIf config, relays := l.relays, peerStates := l.peerStates }

/-- An agent that has started, with the names of its interfaces from disk. -/
def Proxies.boot (names : OMap PeerId IfName) : Proxies :=
  { peerToIf := names, relays := .empty, peerStates := .empty }

/-! ## What is claimed -/

def PortsDistinct (relays : Relays) : Prop :=
  ∀ p q e f, relays.get? p = some e → relays.get? q = some f → e.localPort = f.localPort → p = q

/-- The ports are distinct after each peer of the poll and after its end. -/
def DuringPoll (s : Proxies) (config : PeerConfig) : Prop :=
  (∀ done rest, config.peers = done ++ rest → PortsDistinct (pollLoop s config done).relays) ∧
    PortsDistinct (poll s config).relays

/-! ## Positions -/

def withPubkey (peers : List PeerEndpoint) : List PeerId :=
  (peers.filter fun p => p.pubkey ≠ []).map PeerEndpoint.id

/-- The position at which each peer with a proxy joined, after one more poll. -/
def rejoin (held : PeerId → Option Nat) (config : PeerConfig) : PeerId → Option Nat := fun p =>
  if p ∈ withPubkey config.peers then
    some ((held p).getD ((withPubkey config.peers).idxOf p)) else none

/-- No peer joins at a position at which a peer that still has its proxy joined. -/
def JoinsApart (held : PeerId → Option Nat) (config : PeerConfig) : Prop :=
  ∀ p ∈ withPubkey config.peers, held p = none →
    ∀ q, held q ≠ some ((withPubkey config.peers).idxOf p)

/-! ## Lemmas -/

theorem withPubkey_append (peers peers' : List PeerEndpoint) :
    withPubkey (peers ++ peers') = withPubkey peers ++ withPubkey peers' := by
  simp [withPubkey]

theorem PeerConfig.ids_nodup (config : PeerConfig) : (config.peers.map PeerEndpoint.id).Nodup :=
  List.pairwise_map.mpr (config.sorted.imp fun hlt => ne_of_jsLt hlt)

theorem withPubkey_nodup (config : PeerConfig) : (withPubkey config.peers).Nodup :=
  config.ids_nodup.sublist ((List.filter_sublist).map _)

/-- Every peer with a pubkey has an interface name after `reconcile`. -/
theorem reconcileNames_get? (peerToIf : OMap PeerId IfName) {config : PeerConfig}
    {peer : PeerEndpoint} (hmem : peer ∈ config.peers) (hkey : peer.pubkey ≠ []) :
    ∃ ifName, (reconcileNames peerToIf config).get? peer.id = some ifName := by
  have hloop : ∀ (l : List PeerEndpoint) (m : OMap PeerId IfName),
      (peer ∈ l ∨ ∃ n, m.get? peer.id = some n) →
      ∃ n, (l.foldl (fun m p => (getIfName m p.id).2) m).get? peer.id = some n := by
    intro l
    induction l with
    | nil =>
      intro m h
      simpa using h
    | cons p rest ih =>
      intro m h
      refine ih _ ?_
      by_cases hp : p.id = peer.id
      · rw [← hp]
        exact Or.inr ⟨_, getIfName_get? m p.id⟩
      · rcases h with h | h
        · rcases List.mem_cons.mp h with rfl | h
          · exact absurd rfl hp
          · exact Or.inl h
        · exact Or.inr (by rw [getIfName_get?_ne m hp]; exact h)
  obtain ⟨n, hn⟩ := hloop (config.peers.filter fun p => p.pubkey ≠ []) peerToIf
    (Or.inl (List.mem_filter.mpr ⟨hmem, by simpa using hkey⟩))
  refine ⟨n, ?_⟩
  unfold reconcileNames
  simp only []
  rw [OMap.get?_filter, hn, Option.filter_some, if_pos]
  exact List.any_eq_true.mpr ⟨peer, hmem, by simp⟩

/-- The entry of a peer that joins at position `i`. -/
def entryAt (p : PeerId) (i : Nat) : RelayEntry := ⟨p, RELAY_BASE_PORT + i⟩

/-- **The loop**: the proxies there are stay, and the peers without one get one at their
position. -/
structure LoopSpec (s : Proxies) (ids : List PeerId) (l : PollLoop) : Prop where
  idx : l.idx = ids.length
  active : l.activePeerIds = ids
  relays : ∀ q, l.relays.get? q = match s.relays.get? q with
    | some e => some e
    | none => if q ∈ ids then some (entryAt q (ids.idxOf q)) else none
  states : ∀ q, l.peerStates.has q = (s.peerStates.has q || decide (q ∈ ids))

theorem loopSpec (s : Proxies) (config : PeerConfig) {done rest : List PeerEndpoint}
    (he : config.peers = done ++ rest) :
    LoopSpec s (withPubkey done) (pollLoop s config done) := by
  induction done using List.reverseRecOn generalizing rest with
  | nil =>
    refine ⟨rfl, rfl, fun q => ?_, fun q => by simp [pollLoop, withPubkey]⟩
    simp only [pollLoop, List.foldl_nil]
    cases s.relays.get? q <;> simp [withPubkey]
  | append_singleton done peer ih =>
    have hprev := ih (show config.peers = done ++ peer :: rest by simpa using he)
    have hmem : peer ∈ config.peers := by rw [he]; simp
    have hnodup := withPubkey_nodup config
    unfold pollLoop at hprev ⊢
    rw [List.foldl_append, List.foldl_cons, List.foldl_nil]
    generalize List.foldl _ _ done = l at hprev ⊢
    rw [withPubkey_append]
    unfold pollPeer
    by_cases hkey : peer.pubkey = []
    · have hnil : withPubkey [peer] = [] := by simp [withPubkey, hkey]
      rw [if_pos hkey, hnil, List.append_nil]
      exact hprev
    · have hone : withPubkey [peer] = [peer.id] := by simp [withPubkey, hkey]
      obtain ⟨ifName, hname⟩ := reconcileNames_get? s.peerToIf hmem hkey
      have hnew : peer.id ∉ withPubkey done := by
        rw [he, withPubkey_append, withPubkey_append, hone, List.append_assoc,
          List.nodup_append] at hnodup
        exact fun hin => hnodup.2.2 _ hin _ (by simp) rfl
      rw [if_neg hkey, hone]
      simp only [hname]
      refine ⟨by simp [hprev.idx], by simp [hprev.active], fun q => ?_, fun q => ?_⟩
      · simp only [ensureRelayProxy]
        by_cases hq : peer.id = q
        · subst hq
          have hget := hprev.relays peer.id
          cases hold : s.relays.get? peer.id with
          | some e =>
            rw [hold] at hget
            simp only at hget
            simp only [hget]
          | none =>
            rw [hold] at hget
            simp only [if_neg hnew] at hget
            simp only [hget, OMap.get?_set_self]
            rw [if_pos (by simp), List.idxOf_append_of_notMem hnew, hprev.idx]
            simp [entryAt]
        · have hq' : ¬ q = peer.id := fun e => hq e.symm
          have hsame : (ensureRelayProxy l.relays peer.id l.idx).2.get? q = l.relays.get? q := by
            unfold ensureRelayProxy
            split
            · rfl
            · exact OMap.get?_set_ne _ _ hq
          have hmemq : q ∈ withPubkey done ++ [peer.id] ↔ q ∈ withPubkey done := by
            simp [hq']
          unfold ensureRelayProxy at hsame
          rw [hsame, hprev.relays q]
          cases s.relays.get? q with
          | some e => rfl
          | none =>
            simp only [hmemq]
            split
            · rename_i hin
              rw [List.idxOf_append_of_mem hin]
            · rfl
      · rw [has_initPeerState, hprev.states q]
        simp [Bool.or_assoc]

/-- The removals at the end of the loop. -/
theorem removeInactive_spec (l : PollLoop) (ids : List PeerId) :
    let l' := ids.foldl removeInactive l
    l'.activePeerIds = l.activePeerIds ∧
      (∀ q, l'.relays.get? q = if q ∈ ids ∧ q ∉ l.activePeerIds then none else l.relays.get? q) ∧
      (∀ q, l'.peerStates.has q =
        (l.peerStates.has q && !(decide (q ∈ ids) && !decide (q ∈ l.activePeerIds)))) := by
  induction ids generalizing l with
  | nil => simp
  | cons p rest ih =>
    obtain ⟨hactive, hrelays, hstates⟩ := ih (removeInactive l p)
    have hkeep : (removeInactive l p).activePeerIds = l.activePeerIds := by
      unfold removeInactive
      split <;> rfl
    simp only [List.foldl_cons]
    refine ⟨hactive.trans hkeep, fun q => ?_, fun q => ?_⟩
    · rw [hrelays q, hkeep]
      unfold removeInactive
      by_cases hp : p ∈ l.activePeerIds
      · rw [if_pos hp]
        by_cases hq : q = p
        · subst hq; simp [hp]
        · simp [hq]
      · rw [if_neg hp]
        by_cases hq : q = p
        · subst hq; simp [hp]
        · simp [hq, OMap.get?_delete_ne _ (fun e => hq e.symm)]
    · rw [hstates q, hkeep]
      unfold removeInactive OMap.has
      by_cases hp : p ∈ l.activePeerIds
      · rw [if_pos hp]
        by_cases hq : q = p
        · subst hq; simp [hp]
        · simp [hq]
      · rw [if_neg hp]
        by_cases hq : q = p
        · subst hq; simp [hp]
        · simp [hq, OMap.get?_delete_ne _ (fun e => hq e.symm)]

/-- Between polls: the proxies are those of the peers with a state, each on the port of the
position at which its peer joined. -/
structure Holds (s : Proxies) (held : PeerId → Option Nat) : Prop where
  relays : ∀ q, s.relays.get? q = (held q).map (entryAt q)
  states : ∀ q, s.peerStates.has q = (held q).isSome

/-- No two peers with a proxy joined at the same position. -/
def HeldApart (held : PeerId → Option Nat) : Prop :=
  ∀ p q i, held p = some i → held q = some i → p = q

section
variable {s : Proxies} {held : PeerId → Option Nat} {config : PeerConfig}

theorem Holds.boot (names : OMap PeerId IfName) : Holds (.boot names) fun _ => none :=
  ⟨fun _ => rfl, fun _ => rfl⟩

/-- The proxies during the loop. -/
theorem Holds.during (h : Holds s held) {done rest : List PeerEndpoint}
    (he : config.peers = done ++ rest) (q : PeerId) :
    (pollLoop s config done).relays.get? q = match held q with
      | some i => some (entryAt q i)
      | none => if q ∈ withPubkey done then
          some (entryAt q ((withPubkey config.peers).idxOf q)) else none := by
  rw [(loopSpec s config he).relays q, h.relays q]
  cases held q with
  | some i => rfl
  | none =>
    simp only [Option.map_none]
    split
    · rename_i hin
      rw [he, withPubkey_append, List.idxOf_append_of_mem hin]
    · rfl

theorem Holds.poll (h : Holds s held) : Holds (poll s config) (rejoin held config) := by
  have hloop := loopSpec s config (show config.peers = config.peers ++ [] by simp)
  have hduring := h.during (show config.peers = config.peers ++ [] by simp)
  obtain ⟨-, hrelays, hstates⟩ := removeInactive_spec (pollLoop s config config.peers)
    (pollLoop s config config.peers).peerStates.keys
  have hkeys : ∀ q, q ∈ (pollLoop s config config.peers).peerStates.keys ↔
      held q ≠ none ∨ q ∈ withPubkey config.peers := by
    intro q
    rw [OMap.mem_keys, hloop.states q, h.states q, Bool.or_eq_true, decide_eq_true_eq,
      Option.isSome_iff_ne_none]
  refine ⟨fun q => ?_, fun q => ?_⟩
  · simp only [Meshezia.poll]
    rw [hrelays q, hduring q]
    simp only [hkeys q, hloop.active]
    unfold rejoin
    by_cases hin : q ∈ withPubkey config.peers
    · cases held q <;> simp [hin]
    · cases held q <;> simp [hin]
  · simp only [Meshezia.poll]
    have hmem := hkeys q
    rw [OMap.mem_keys] at hmem
    rw [hstates q, hloop.active]
    unfold rejoin
    by_cases hin : q ∈ withPubkey config.peers
    · simp only [hin, if_true, decide_true, Bool.not_true, Bool.and_false, Bool.not_false,
        Bool.and_true, Option.isSome_some]
      exact hmem.mpr (Or.inr hin)
    · simp only [hin, if_false, decide_false, Bool.not_false, Bool.and_true, Option.isSome_none]
      cases hkey : decide (q ∈ (pollLoop s config config.peers).peerStates.keys) with
      | true => simp
      | false =>
        rw [decide_eq_false_iff_not, OMap.mem_keys] at hkey
        simpa using hkey

theorem portsDistinct_of_apart {relays : Relays}
    (h : ∀ q, relays.get? q = (held q).map (entryAt q)) (happart : HeldApart held) :
    PortsDistinct relays := by
  intro p q e f hp hq hport
  rw [h p, Option.map_eq_some_iff] at hp
  rw [h q, Option.map_eq_some_iff] at hq
  obtain ⟨i, hi, rfl⟩ := hp
  obtain ⟨j, hj, rfl⟩ := hq
  simp only [entryAt, Nat.add_left_cancel_iff] at hport
  exact happart p q i hi (hport ▸ hj)

/-- The positions held once a poll has gone through the peers `ids`. -/
def joining (held : PeerId → Option Nat) (config : PeerConfig) (ids : List PeerId) :
    PeerId → Option Nat := fun q =>
  match held q with
  | some i => some i
  | none => if q ∈ ids then some ((withPubkey config.peers).idxOf q) else none

theorem joining_apart (happart : HeldApart held) (hjoins : JoinsApart held config)
    {ids : List PeerId} (hids : ∀ q ∈ ids, q ∈ withPubkey config.peers) :
    HeldApart (joining held config ids) := by
  intro p q i hp hq
  unfold joining at hp hq
  cases hhp : held p with
  | some j =>
    rw [hhp] at hp
    cases hhq : held q with
    | some k =>
      rw [hhq] at hq
      exact happart p q i (hhp.trans hp) (hhq.trans hq)
    | none =>
      rw [hhq] at hq
      simp only [Option.ite_none_right_eq_some, Option.some.injEq] at hp hq
      exact absurd (hhp.trans (by rw [hp, hq.2])) (hjoins q (hids q hq.1) hhq p)
  | none =>
    rw [hhp] at hp
    simp only [Option.ite_none_right_eq_some, Option.some.injEq] at hp
    cases hhq : held q with
    | some k =>
      rw [hhq] at hq
      simp only [Option.some.injEq] at hq
      exact absurd (hhq.trans (by rw [hq, hp.2])) (hjoins p (hids p hp.1) hhp q)
    | none =>
      rw [hhq] at hq
      simp only [Option.ite_none_right_eq_some, Option.some.injEq] at hq
      exact (List.idxOf_inj (hids p hp.1)).mp (hp.2.trans hq.2.symm)

theorem rejoin_apart (happart : HeldApart held) (hjoins : JoinsApart held config) :
    HeldApart (rejoin held config) := by
  have h : HeldApart (joining held config (withPubkey config.peers)) :=
    joining_apart happart hjoins fun _ hq => hq
  have hsub : ∀ q i, rejoin held config q = some i →
      joining held config (withPubkey config.peers) q = some i := by
    intro q i hq
    unfold rejoin at hq
    simp only [Option.ite_none_right_eq_some, Option.some.injEq] at hq
    obtain ⟨hin, rfl⟩ := hq
    unfold joining
    cases held q <;> simp [hin]
  exact fun p q i hp hq => h p q i (hsub p i hp) (hsub q i hq)

/-- **One poll** keeps the ports apart exactly when its joins are apart. -/
theorem duringPoll_iff (h : Holds s held) (happart : HeldApart held) :
    DuringPoll s config ↔ JoinsApart held config := by
  constructor
  · rintro ⟨hdistinct, -⟩ p hp hnone q hq
    have hall := hdistinct config.peers [] (by simp)
    have hgetp := h.during (show config.peers = config.peers ++ [] by simp) p
    have hgetq := h.during (show config.peers = config.peers ++ [] by simp) q
    simp only [hnone, hp, if_true] at hgetp
    simp only [hq] at hgetq
    have he := hall p q _ _ hgetp hgetq rfl
    rw [he, hq] at hnone
    cases hnone
  · intro hjoins
    refine ⟨fun done rest he => ?_, ?_⟩
    · have hnow : HeldApart (joining held config (withPubkey done)) := by
        refine joining_apart happart hjoins fun q hq => ?_
        rw [he, withPubkey_append]
        exact List.mem_append_left _ hq
      refine portsDistinct_of_apart (fun q => ?_) hnow
      rw [h.during he q]
      unfold joining
      cases held q with
      | some i => rfl
      | none => simp only; split <;> rfl
    · exact portsDistinct_of_apart h.poll.relays (rejoin_apart happart hjoins)

end

/-! ## Top theorem -/

/-- **The relay proxies have distinct ports exactly when peers join at positions of their
own**, in every state of every sequence of polls. -/
theorem relay_ports_distinct_iff (names : OMap PeerId IfName) (configs : List PeerConfig) :
    Along poll DuringPoll (.boot names) configs ↔
      Along rejoin JoinsApart (fun _ => none) configs := by
  have hrun : ∀ (s : Proxies) (held : PeerId → Option Nat), Holds s held → HeldApart held →
      (Along poll DuringPoll s configs ↔ Along rejoin JoinsApart held configs) := by
    induction configs with
    | nil => exact fun _ _ _ _ => Iff.rfl
    | cons config rest ih =>
      intro s held h happart
      have hhead : DuringPoll s config ↔ JoinsApart held config := duringPoll_iff h happart
      constructor
      · rintro ⟨hd, hrest⟩
        have hj := hhead.mp hd
        exact ⟨hj, (ih _ _ h.poll (rejoin_apart happart hj)).mp hrest⟩
      · rintro ⟨hj, hrest⟩
        exact ⟨hhead.mpr hj, (ih _ _ h.poll (rejoin_apart happart hj)).mpr hrest⟩
  refine hrun _ _ (Holds.boot names) ?_
  intro p q i hp
  cases hp

/-- A configuration of two peers. -/
def configOf (a b : PeerId) (h : jsLt a b = true) : PeerConfig where
  peers := [⟨a, [107], [], [], 0⟩, ⟨b, [107], [], [], 0⟩]
  sorted := by simpa using h

/-- A peer leaves, and the one that joins gets the port of the one that stays. -/
theorem relay_ports_collide :
    ¬ Along poll DuringPoll (.boot .empty)
      [configOf [97] [98] (by decide), configOf [98] [99] (by decide)] := by
  rintro ⟨-, ⟨-, h⟩, -⟩
  have he := h [98] [99] ⟨[98], 41821⟩ ⟨[99], 41821⟩ (by decide) (by decide) rfl
  exact absurd he (by decide)

end Meshezia
