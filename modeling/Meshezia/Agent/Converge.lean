import Meshezia.Agent.Reconcile

/-!
# Does reconcile converge?

A call of `reconcile` whose commands all succeed is to leave on the host one interface for
each peer of the configuration that has a pubkey, the one of `peerToIf`, with that pubkey
as its only AWG peer (`Converged`).

What a call removes it takes from the mapping, not from the host, and it never takes an AWG
peer from an interface.  So it converges when there is nothing else to remove (`Clean`):
every interface on the host belongs to a peer with a pubkey, which is then its only AWG
peer, or to a peer that is gone, and no two peers share one.  The condition is exact:

    every call of the run converges  ↔  every call of it finds the host clean
                                                             (reconcile_converges_iff)

A call that follows one that converged finds the host clean whenever the peers that stay
have kept their keys: `reconcile_converges_of_steady`.
-/

namespace Meshezia

/-! ## What is claimed -/

/-- A call of `reconcile`: its configuration, the random numbers it gets, and what the
monitor knows at the time. -/
structure ReconcileCall where
  config : PeerConfig
  draws : PeerId → List Nat
  monitor : Monitor

/-- Peer `p` of the list has a pubkey, and the interface `i`. -/
def Uses (peerToIf : OMap PeerId IfName) (peers : List PeerEndpoint) (p : PeerEndpoint)
    (i : IfName) : Prop :=
  p ∈ peers ∧ p.pubkey ≠ [] ∧ peerToIf.get? p.id = some i

/-- `i` is the interface of a peer that is not in the configuration any more. -/
def OfGonePeer (peerToIf : OMap PeerId IfName) (config : PeerConfig) (i : IfName) : Prop :=
  ∃ g, peerToIf.get? g = some i ∧ Agent.isDesired config g = false

/-- The host is as the configuration says. -/
structure Converged (config : PeerConfig) (s : Agent) : Prop where
  named : ∀ p ∈ config.peers, p.pubkey ≠ [] → ∃ i, s.peerToIf.get? p.id = some i
  distinct : ∀ p q i, Uses s.peerToIf config.peers p i → Uses s.peerToIf config.peers q i → p = q
  interfaces : ∀ i, i ∈ s.host.interfaces ↔ ∃ p, Uses s.peerToIf config.peers p i
  peers : ∀ p i, Uses s.peerToIf config.peers p i →
    ∀ key, s.host.peers.has (i, key) = true ↔ key = p.pubkey

namespace Agent

def reconcileCall (s : Agent) (call : ReconcileCall) : Except Agent (Agent × List (PeerId × Nat)) :=
  { s with monitor := call.monitor }.reconcile call.config call.draws

/-- The agent after a call, whether it returns or throws. -/
def reconcileStep (s : Agent) (call : ReconcileCall) : Agent :=
  match s.reconcileCall call with
  | .ok (s, _) => s
  | .error s => s

/-- The call returns, and the host is as its configuration says. -/
def Converges (s : Agent) (call : ReconcileCall) : Prop :=
  ∃ s' ports, s.reconcileCall call = .ok (s', ports) ∧ Converged call.config s'

/-- `getPort` finds a port for every peer that needs one, in turn. -/
def portsFound (draws : PeerId → List Nat) (s : Agent) : List PeerEndpoint → Bool
  | [] => true
  | peer :: rest =>
    if peer.pubkey = [] then portsFound draws s rest
    else
      match s.listenPortOf peer (draws peer.id) with
      | none => false
      | some (_, peerToPort) => portsFound draws { s with peerToPort } rest

end Agent

/-- The interfaces that the peers with a pubkey have, or get by `getIfName` in turn. -/
def named (peerToIf : OMap PeerId IfName) (peers : List PeerEndpoint) : OMap PeerId IfName :=
  peers.foldl (fun m p => if p.pubkey = [] then m else (getIfName m p.id).2) peerToIf

/-- There is nothing to remove but the interfaces of peers that are gone, and a port for
every peer that needs one. -/
structure Clean (s : Agent) (call : ReconcileCall) : Prop where
  ports : s.portsFound call.draws call.config.peers = true
  distinct : ∀ p q i, Uses (named s.peerToIf call.config.peers) call.config.peers p i →
    Uses (named s.peerToIf call.config.peers) call.config.peers q i → p = q
  gone : ∀ p i, Uses (named s.peerToIf call.config.peers) call.config.peers p i →
    ¬ OfGonePeer s.peerToIf call.config i
  known : ∀ i ∈ s.host.interfaces, OfGonePeer s.peerToIf call.config i ∨
    ∃ p, Uses (named s.peerToIf call.config.peers) call.config.peers p i
  alone : ∀ p i, Uses (named s.peerToIf call.config.peers) call.config.peers p i →
    i ∈ s.host.interfaces → ∀ key, s.host.peers.has (i, key) = true → key = p.pubkey

/-! ## Names -/

section
variable {m : OMap PeerId IfName} {peers : List PeerEndpoint}

theorem named_cons (m : OMap PeerId IfName) (p : PeerEndpoint) (rest : List PeerEndpoint) :
    named m (p :: rest) =
      named (if p.pubkey = [] then m else (getIfName m p.id).2) rest := rfl

/-- A peer keeps its interface. -/
theorem named_get?_of_some {p : PeerId} {i : IfName} (h : m.get? p = some i) :
    (named m peers).get? p = some i := by
  refine foldl_invariant (I := fun m : OMap PeerId IfName => m.get? p = some i) _ _ ?_ h
  intro m' q _ hm
  split
  · exact hm
  · by_cases hq : q.id = p
    · subst hq
      rw [getIfName_of_some hm]
      exact hm
    · rw [getIfName_get?_ne m' hq]
      exact hm

/-- A peer that is not in the list is not named. -/
theorem named_get?_of_not_mem {p : PeerId} (h : ∀ q ∈ peers, q.id ≠ p) :
    (named m peers).get? p = m.get? p := by
  refine foldl_invariant (I := fun m' : OMap PeerId IfName => m'.get? p = m.get? p) _ _ ?_ rfl
  intro m' q hq hm
  split
  · exact hm
  · rw [getIfName_get?_ne m' (h q hq)]
    exact hm

theorem named_isSome {p : PeerEndpoint} (hp : p ∈ peers) (hkey : p.pubkey ≠ []) :
    ∃ i, (named m peers).get? p.id = some i := by
  induction peers generalizing m with
  | nil => cases hp
  | cons q rest ih =>
    rw [named_cons]
    rcases List.mem_cons.mp hp with rfl | hp
    · rw [if_neg hkey]
      exact ⟨_, named_get?_of_some (getIfName_get? m p.id)⟩
    · exact ih hp

end

/-! ## The commands -/

theorem has_awgSet (h : Host) (ifName : IfName) (pubkey endpoint : JsString) (i : IfName)
    (key : JsString) : (h.awgSet ifName pubkey endpoint).peers.has (i, key) = true ↔
      (i = ifName ∧ key = pubkey) ∨ h.peers.has (i, key) = true := by
  unfold Host.awgSet
  rw [OMap.has_set, Bool.or_eq_true, decide_eq_true_eq, Prod.mk.injEq]
  constructor
  · rintro (⟨hi, hk⟩ | hold)
    · exact Or.inl ⟨hi.symm, hk.symm⟩
    · exact Or.inr hold
  · rintro (⟨hi, hk⟩ | hold)
    · exact Or.inl ⟨hi.symm, hk.symm⟩
    · exact Or.inr hold

theorem has_dropIf (peers : OMap (IfName × JsString) JsString) (ifName i : IfName)
    (key : JsString) :
    (peers.filter fun k _ => !decide (k.1 = ifName)).has (i, key) = true ↔
      peers.has (i, key) = true ∧ i ≠ ifName := by
  rw [OMap.has_filter peers (fun k => !decide (k.1 = ifName)), Bool.and_eq_true]
  simp

/-- What a turn of the first loop does. -/
theorem reconcilePeer_ok {s s' : Agent} {existing : List IfName} {draws : List Nat}
    {peer : PeerEndpoint} {port : Nat}
    (h : s.reconcilePeer existing draws peer = .ok (s', port)) :
    s'.peerToIf = (getIfName s.peerToIf peer.id).2 ∧
      s.listenPortOf peer draws = some (port, s'.peerToPort) ∧ s'.range = s.range ∧
      ∃ endpoint, s'.host = (if existing.contains (getIfName s.peerToIf peer.id).1 then s.host
        else s.host.linkAdd (getIfName s.peerToIf peer.id).1).awgSet
          (getIfName s.peerToIf peer.id).1 peer.pubkey endpoint := by
  unfold Agent.reconcilePeer at h
  dsimp only at h
  split at h
  · cases h
  · rename_i listenPort peerToPort hport
    cases h
    unfold Agent.ensureInterface
    cases hnew : existing.contains (getIfName s.peerToIf peer.id).1
    · exact ⟨rfl, hport, rfl, _, rfl⟩
    · exact ⟨rfl, hport, rfl, _, rfl⟩

theorem reconcilePeer_error {s s' : Agent} {existing : List IfName} {draws : List Nat}
    {peer : PeerEndpoint} (h : s.reconcilePeer existing draws peer = .error s') :
    s.listenPortOf peer draws = none := by
  unfold Agent.reconcilePeer at h
  dsimp only at h
  split at h
  · rename_i hnone
    exact hnone
  · cases h

/-! ## The first loop -/

/-- What the first loop does for the peers of a list.  It adds the interfaces of those with
a pubkey and their AWG peers; on an interface that it does not add, the AWG peers stay. -/
structure SetUp (existing : List IfName) (peers : List PeerEndpoint) (s s' : Agent) : Prop where
  names : s'.peerToIf = named s.peerToIf peers
  interfaces : ∀ i, i ∈ s'.host.interfaces ↔
    i ∈ s.host.interfaces ∨ ∃ p, Uses s'.peerToIf peers p i
  kept : ∀ i key, (i ∈ existing ∨ ∀ p, ¬ Uses s'.peerToIf peers p i) →
    s.host.peers.has (i, key) = true → s'.host.peers.has (i, key) = true
  only : ∀ i key, s'.host.peers.has (i, key) = true →
    (∃ p, Uses s'.peerToIf peers p i ∧ key = p.pubkey) ∨
      (s.host.peers.has (i, key) = true ∧ (i ∈ existing ∨ ∀ p, ¬ Uses s'.peerToIf peers p i))
  own : ∀ p i, Uses s'.peerToIf peers p i → (∀ q, Uses s'.peerToIf peers q i → q = p) →
    s'.host.peers.has (i, p.pubkey) = true

section
variable {existing : List IfName} {s s1 s' : Agent} {peer : PeerEndpoint} {rest : List PeerEndpoint}

theorem setUp_nil (existing : List IfName) (s : Agent) : SetUp existing [] s s where
  names := rfl
  interfaces := by
    intro i
    simp [Uses]
  kept := fun _ _ _ h => h
  only := by
    intro i key h
    exact Or.inr ⟨h, Or.inr fun p hp => by cases hp.1⟩
  own := fun p i hp => by cases hp.1

/-- A peer without a pubkey is passed over. -/
theorem uses_cons_of_nil {m : OMap PeerId IfName} (hnil : peer.pubkey = []) {p : PeerEndpoint}
    {i : IfName} : Uses m (peer :: rest) p i ↔ Uses m rest p i := by
  unfold Uses
  rw [List.mem_cons]
  constructor
  · rintro ⟨rfl | hp, hkey, hget⟩
    · exact absurd hnil hkey
    · exact ⟨hp, hkey, hget⟩
  · rintro ⟨hp, hkey, hget⟩
    exact ⟨Or.inr hp, hkey, hget⟩

theorem uses_cons {m : OMap PeerId IfName} {n : IfName} (hkey : peer.pubkey ≠ [])
    (hself : m.get? peer.id = some n) (p : PeerEndpoint) (i : IfName) :
    Uses m (peer :: rest) p i ↔ (p = peer ∧ i = n) ∨ Uses m rest p i := by
  unfold Uses
  rw [List.mem_cons]
  constructor
  · rintro ⟨rfl | hp, hp', hget⟩
    · exact Or.inl ⟨rfl, Option.some.inj (hget.symm.trans hself)⟩
    · exact Or.inr ⟨hp, hp', hget⟩
  · rintro (⟨rfl, rfl⟩ | ⟨hp, hp', hget⟩)
    · exact ⟨Or.inl rfl, hkey, hself⟩
    · exact ⟨Or.inr hp, hp', hget⟩

theorem setUp_cons_of_nil (hnil : peer.pubkey = []) (h : SetUp existing rest s s') :
    SetUp existing (peer :: rest) s s' where
  names := by rw [named_cons, if_pos hnil, h.names]
  interfaces := by
    simp only [uses_cons_of_nil hnil]
    exact h.interfaces
  kept := by
    simp only [uses_cons_of_nil hnil]
    exact h.kept
  only := by
    simp only [uses_cons_of_nil hnil]
    exact h.only
  own := by
    simp only [uses_cons_of_nil hnil]
    exact h.own

/-- The host after a turn of the loop: on an interface that is not new the AWG peers stay. -/
theorem host_reconcilePeer {draws : List Nat} {port : Nat}
    (hexisting : ∀ i ∈ existing, i ∈ s.host.interfaces)
    (hpeer : s.reconcilePeer existing draws peer = .ok (s1, port)) :
    (∀ i, i ∈ s1.host.interfaces ↔
      i ∈ s.host.interfaces ∨ i = (getIfName s.peerToIf peer.id).1) ∧
    ∀ i key, s1.host.peers.has (i, key) = true ↔
      (i = (getIfName s.peerToIf peer.id).1 ∧ key = peer.pubkey) ∨
        (s.host.peers.has (i, key) = true ∧
          (i ∈ existing ∨ i ≠ (getIfName s.peerToIf peer.id).1)) := by
  obtain ⟨-, -, -, endpoint, hhost⟩ := reconcilePeer_ok hpeer
  generalize (getIfName s.peerToIf peer.id).1 = i0 at hhost ⊢
  rw [hhost]
  simp only [has_awgSet]
  by_cases hold : i0 ∈ existing
  · rw [if_pos (List.contains_iff_mem.mpr hold)]
    constructor
    · intro i
      refine ⟨Or.inl, ?_⟩
      rintro (hi | rfl)
      · exact hi
      · exact hexisting i hold
    · intro i key
      -- every interface is an old one or another
      have hany : i ∈ existing ∨ i ≠ i0 := by
        by_cases hi : i = i0
        · exact Or.inl (hi ▸ hold)
        · exact Or.inr hi
      exact or_congr_right (and_iff_left hany).symm
  · rw [if_neg (fun h => hold (List.contains_iff_mem.mp h))]
    constructor
    · intro i
      show i ∈ s.host.interfaces ++ [i0] ↔ _
      simp
    · intro i key
      have hne : (i ∈ existing ∨ i ≠ i0) ↔ i ≠ i0 := by
        refine ⟨?_, Or.inr⟩
        rintro (hmem | hi)
        · exact fun he => hold (he ▸ hmem)
        · exact hi
      show _ ∨ (s.host.peers.filter fun k _ => !decide (k.1 = i0)).has (i, key) = true ↔ _
      rw [has_dropIf, hne]

theorem setUp_cons {draws : List Nat} {port : Nat} (hkey : peer.pubkey ≠ [])
    (hexisting : ∀ i ∈ existing, i ∈ s.host.interfaces)
    (hpeer : s.reconcilePeer existing draws peer = .ok (s1, port))
    (h : SetUp existing rest s1 s') : SetUp existing (peer :: rest) s s' := by
  obtain ⟨hifs, hhas⟩ := host_reconcilePeer hexisting hpeer
  obtain ⟨hnames, -⟩ := reconcilePeer_ok hpeer
  have hself : s'.peerToIf.get? peer.id = some (getIfName s.peerToIf peer.id).1 := by
    rw [h.names]
    exact named_get?_of_some (hnames ▸ getIfName_get? s.peerToIf peer.id)
  have huses := fun p i => @uses_cons peer rest _ _ hkey hself p i
  constructor
  · rw [named_cons, if_neg hkey, ← hnames, h.names]
  · intro i
    rw [h.interfaces, hifs]
    constructor
    · rintro ((hi | rfl) | ⟨p, hp⟩)
      · exact Or.inl hi
      · exact Or.inr ⟨peer, (huses _ _).mpr (Or.inl ⟨rfl, rfl⟩)⟩
      · exact Or.inr ⟨p, (huses _ _).mpr (Or.inr hp)⟩
    · rintro (hi | ⟨p, hp⟩)
      · exact Or.inl (Or.inl hi)
      · rcases (huses _ _).mp hp with ⟨-, hi⟩ | hp
        · exact Or.inl (Or.inr hi)
        · exact Or.inr ⟨p, hp⟩
  · intro i key hor hold
    refine h.kept i key ?_ ((hhas i key).mpr (Or.inr ⟨hold, ?_⟩))
    · exact hor.imp_right fun hno p hp => hno p ((huses _ _).mpr (Or.inr hp))
    · exact hor.imp_right fun hno hi => hno peer ((huses _ _).mpr (Or.inl ⟨rfl, hi⟩))
  · intro i key hget
    rcases h.only i key hget with ⟨p, hp, hk⟩ | ⟨hs1, hrest⟩
    · exact Or.inl ⟨p, (huses _ _).mpr (Or.inr hp), hk⟩
    · rcases (hhas i key).mp hs1 with ⟨hi, hk⟩ | ⟨hs, hpeer'⟩
      · exact Or.inl ⟨peer, (huses _ _).mpr (Or.inl ⟨rfl, hi⟩), hk⟩
      · refine Or.inr ⟨hs, ?_⟩
        by_cases hi : i ∈ existing
        · exact Or.inl hi
        · refine Or.inr fun p hp => ?_
          rcases (huses _ _).mp hp with ⟨-, he⟩ | hp
          · exact hpeer'.resolve_left hi he
          · exact hrest.resolve_left hi p hp
  · intro p i hp hunique
    by_cases hmore : ∃ q, Uses s'.peerToIf rest q i
    · -- the peer comes again in the rest
      obtain ⟨q, hq⟩ := hmore
      have hqp := hunique q ((huses _ _).mpr (Or.inr hq))
      subst hqp
      exact h.own q i hq fun r hr => hunique r ((huses _ _).mpr (Or.inr hr))
    · rcases (huses _ _).mp hp with ⟨rfl, rfl⟩ | hp
      · exact h.kept _ _ (Or.inr fun q hq => hmore ⟨q, hq⟩)
          ((hhas _ _).mpr (Or.inl ⟨rfl, rfl⟩))
      · exact absurd ⟨p, hp⟩ hmore

/-- **The first loop.** -/
theorem setUp_loop {draws : PeerId → List Nat} {ports ports' : List (PeerId × Nat)}
    {peers : List PeerEndpoint} (hexisting : ∀ i ∈ existing, i ∈ s.host.interfaces)
    (hloop : s.reconcileLoop existing draws ports peers = .ok (s', ports')) :
    SetUp existing peers s s' := by
  induction peers generalizing s ports with
  | nil =>
    cases hloop
    exact setUp_nil existing _
  | cons peer rest ih =>
    unfold Agent.reconcileLoop at hloop
    split at hloop
    · rename_i hnil
      exact setUp_cons_of_nil hnil (ih hexisting hloop)
    · rename_i hkey
      split at hloop
      · cases hloop
      · rename_i s1 port hpeer
        refine setUp_cons hkey hexisting hpeer (ih ?_ hloop)
        intro i hi
        exact ((host_reconcilePeer hexisting hpeer).1 i).mpr (Or.inl (hexisting i hi))

end

/-! ## Ports -/

/-- The search for ports looks at nothing else of the agent. -/
theorem portsFound_congr {s t : Agent} (hrange : s.range = t.range)
    (hports : s.peerToPort = t.peerToPort) (draws : PeerId → List Nat)
    (peers : List PeerEndpoint) : s.portsFound draws peers = t.portsFound draws peers := by
  induction peers generalizing s t with
  | nil => rfl
  | cons peer rest ih =>
    have hport : s.listenPortOf peer (draws peer.id) = t.listenPortOf peer (draws peer.id) := by
      unfold Agent.listenPortOf
      rw [hrange, hports]
    unfold Agent.portsFound
    rw [hport, ih hrange hports]
    split
    · rfl
    · split
      · rfl
      · exact ih hrange rfl

theorem loop_returns_iff (existing : List IfName) (draws : PeerId → List Nat) (s : Agent)
    (ports : List (PeerId × Nat)) (peers : List PeerEndpoint) :
    (∃ s' ports', s.reconcileLoop existing draws ports peers = .ok (s', ports')) ↔
      s.portsFound draws peers = true := by
  induction peers generalizing s ports with
  | nil => simp [Agent.reconcileLoop, Agent.portsFound]
  | cons peer rest ih =>
    unfold Agent.reconcileLoop Agent.portsFound
    split
    · exact ih s ports
    · cases hpeer : s.reconcilePeer existing (draws peer.id) peer with
      | error s' =>
        rw [reconcilePeer_error hpeer]
        simp
      | ok r =>
        obtain ⟨s1, port⟩ := r
        obtain ⟨-, hport, hrange, -⟩ := reconcilePeer_ok hpeer
        rw [hport]
        dsimp only
        rw [ih]
        rw [portsFound_congr (t := { s with peerToPort := s1.peerToPort }) hrange rfl]

/-! ## The second loop -/

section
variable (s : Agent)

theorem removeGonePeers_interfaces (l : List (PeerId × IfName)) (i : IfName) :
    i ∈ (l.foldl Agent.removeGonePeer s).host.interfaces ↔
      i ∈ s.host.interfaces ∧ ∀ e ∈ l, e.2 ≠ i := by
  induction l generalizing s with
  | nil => simp
  | cons e rest ih =>
    rw [List.foldl_cons, ih]
    show i ∈ s.host.interfaces.filter (fun j => !decide (j = e.2)) ∧ _ ↔ _
    rw [List.mem_filter, List.forall_mem_cons]
    simp only [Bool.not_eq_true', decide_eq_false_iff_not, and_assoc, ne_eq, @eq_comm _ i e.2]

theorem removeGonePeers_peers (l : List (PeerId × IfName)) (i : IfName) (key : JsString) :
    (l.foldl Agent.removeGonePeer s).host.peers.has (i, key) = true ↔
      s.host.peers.has (i, key) = true ∧ ∀ e ∈ l, e.2 ≠ i := by
  induction l generalizing s with
  | nil => simp
  | cons e rest ih =>
    rw [List.foldl_cons, ih]
    show (s.host.peers.filter fun k _ => !decide (k.1 = e.2)).has (i, key) = true ∧ _ ↔ _
    rw [has_dropIf, List.forall_mem_cons]
    simp only [and_assoc, ne_eq, @eq_comm _ i e.2]

theorem removeGonePeers_peerToIf (l : List (PeerId × IfName)) {p : PeerId}
    (h : ∀ e ∈ l, e.1 ≠ p) :
    (l.foldl Agent.removeGonePeer s).peerToIf.get? p = s.peerToIf.get? p := by
  refine foldl_invariant (I := fun t : Agent => t.peerToIf.get? p = s.peerToIf.get? p) _ _ ?_ rfl
  intro t e he ht
  exact (OMap.get?_delete_ne _ (h e he)).trans ht

end

/-- The peers that are gone keep their names through the first loop. -/
theorem named_get?_of_gone {m : OMap PeerId IfName} {config : PeerConfig} {g : PeerId}
    (hg : Agent.isDesired config g = false) : (named m config.peers).get? g = m.get? g := by
  refine named_get?_of_not_mem fun q hq hid => ?_
  rw [← hid, isDesired_of_mem hq] at hg
  cases hg

theorem forall_goneEntries_iff (m : OMap PeerId IfName) (config : PeerConfig) (i : IfName) :
    (∀ e ∈ (named m config.peers).entries.filter fun e => !Agent.isDesired config e.1, e.2 ≠ i) ↔
      ¬ OfGonePeer m config i := by
  constructor
  · rintro hall ⟨g, hget, hg⟩
    refine hall (g, i) (List.mem_filter.mpr ⟨?_, by simp [hg]⟩) rfl
    rw [OMap.mem_entries, named_get?_of_gone hg]
    exact hget
  · rintro hno ⟨g, j⟩ he rfl
    obtain ⟨hmem, hg⟩ := List.mem_filter.mp he
    have hg : Agent.isDesired config g = false := by simpa using hg
    rw [OMap.mem_entries, named_get?_of_gone hg] at hmem
    exact hno ⟨g, hmem, hg⟩

theorem saveMappings_apart (s : Agent) :
    s.saveMappings.host = s.host ∧ s.saveMappings.peerToIf = s.peerToIf := by
  unfold Agent.saveMappings
  split <;> exact ⟨rfl, rfl⟩

/-- What a call does that returns. -/
theorem reconcile_ok {s s' : Agent} {config : PeerConfig} {draws : PeerId → List Nat}
    {ports : List (PeerId × Nat)} (h : s.reconcile config draws = .ok (s', ports)) :
    ∃ s1, SetUp s.host.interfaces config.peers s s1 ∧
      (∀ p ∈ config.peers, s'.peerToIf.get? p.id = s1.peerToIf.get? p.id) ∧
      (∀ g i, s'.peerToIf.get? g = some i → s1.peerToIf.get? g = some i) ∧
      (∀ i, i ∈ s'.host.interfaces ↔ i ∈ s1.host.interfaces ∧ ¬ OfGonePeer s.peerToIf config i) ∧
      ∀ i key, s'.host.peers.has (i, key) = true ↔
        s1.host.peers.has (i, key) = true ∧ ¬ OfGonePeer s.peerToIf config i := by
  unfold Agent.reconcile at h
  split at h
  · cases h
  · rename_i s1 ports1 hloop
    cases h
    have hsetUp := setUp_loop (fun _ hi => hi) hloop
    obtain ⟨hhost, hnames⟩ := saveMappings_apart (s1.removeGone config)
    rw [hhost, hnames]
    refine ⟨s1, hsetUp, ?_, ?_, ?_, ?_⟩
    · intro p hp
      refine removeGonePeers_peerToIf s1 _ fun e he hid => ?_
      have hgone := (List.mem_filter.mp he).2
      rw [hid, isDesired_of_mem hp] at hgone
      cases hgone
    · intro g i
      refine foldl_invariant
        (I := fun t : Agent => t.peerToIf.get? g = some i → s1.peerToIf.get? g = some i) _ _ ?_
        fun hget => hget
      intro t e _ ht hget
      exact ht (OMap.get?_of_get?_delete hget).2
    · intro i
      rw [← forall_goneEntries_iff, ← hsetUp.names]
      exact removeGonePeers_interfaces s1 _ i
    · intro i key
      rw [← forall_goneEntries_iff, ← hsetUp.names]
      exact removeGonePeers_peers s1 _ i key

/-! ## Convergence -/

section
variable {s s' : Agent} {call : ReconcileCall} {ports : List (PeerId × Nat)}

/-- After a call a peer has the interface that it had, or that `getIfName` gave it. -/
theorem uses_reconcile (h : s.reconcileCall call = .ok (s', ports)) (p : PeerEndpoint)
    (i : IfName) : Uses s'.peerToIf call.config.peers p i ↔
      Uses (named s.peerToIf call.config.peers) call.config.peers p i := by
  obtain ⟨s1, hsetUp, hnames, -⟩ := reconcile_ok h
  have hnamed : s1.peerToIf = named s.peerToIf call.config.peers := hsetUp.names
  unfold Uses
  rw [← hnamed]
  constructor
  · rintro ⟨hp, hkey, hget⟩
    exact ⟨hp, hkey, hnames p hp ▸ hget⟩
  · rintro ⟨hp, hkey, hget⟩
    exact ⟨hp, hkey, (hnames p hp).trans hget⟩

/-- The host after a call. -/
theorem host_reconcile (h : s.reconcileCall call = .ok (s', ports)) :
    (∀ i, i ∈ s'.host.interfaces ↔ (i ∈ s.host.interfaces ∨
      ∃ p, Uses (named s.peerToIf call.config.peers) call.config.peers p i) ∧
        ¬ OfGonePeer s.peerToIf call.config i) ∧
    (∀ i key, i ∈ s.host.interfaces → ¬ OfGonePeer s.peerToIf call.config i →
      s.host.peers.has (i, key) = true → s'.host.peers.has (i, key) = true) ∧
    (∀ i key p, s'.host.peers.has (i, key) = true →
      Uses (named s.peerToIf call.config.peers) call.config.peers p i →
      (∃ q, Uses (named s.peerToIf call.config.peers) call.config.peers q i ∧ key = q.pubkey) ∨
        (i ∈ s.host.interfaces ∧ s.host.peers.has (i, key) = true)) ∧
    ∀ p i, Uses (named s.peerToIf call.config.peers) call.config.peers p i →
      (∀ q, Uses (named s.peerToIf call.config.peers) call.config.peers q i → q = p) →
      ¬ OfGonePeer s.peerToIf call.config i → s'.host.peers.has (i, p.pubkey) = true := by
  obtain ⟨s1, hsetUp, -, -, hifs, hpeers⟩ := reconcile_ok h
  have hnamed : s1.peerToIf = named s.peerToIf call.config.peers := hsetUp.names
  rw [← hnamed]
  refine ⟨?_, ?_, ?_, ?_⟩
  · intro i
    rw [hifs, hsetUp.interfaces]
  · intro i key hi hno hhas
    exact (hpeers i key).mpr ⟨hsetUp.kept i key (Or.inl hi) hhas, hno⟩
  · intro i key p hhas hp
    rcases hsetUp.only i key ((hpeers i key).mp hhas).1 with hq | ⟨hold, hi | hnone⟩
    · exact Or.inl hq
    · exact Or.inr ⟨hi, hold⟩
    · exact absurd hp (hnone p)
  · intro p i hp hunique hno
    exact (hpeers i _).mpr ⟨hsetUp.own p i hp hunique, hno⟩

theorem converged_of_clean (h : s.reconcileCall call = .ok (s', ports)) (hc : Clean s call) :
    Converged call.config s' := by
  obtain ⟨hifs, -, honly, hown⟩ := host_reconcile h
  constructor
  · intro p hp hkey
    obtain ⟨i, hi⟩ := named_isSome (m := s.peerToIf) hp hkey
    exact ⟨i, ((uses_reconcile h p i).mpr ⟨hp, hkey, hi⟩).2.2⟩
  · intro p q i hp hq
    exact hc.distinct p q i ((uses_reconcile h p i).mp hp) ((uses_reconcile h q i).mp hq)
  · intro i
    simp only [uses_reconcile h]
    rw [hifs]
    constructor
    · rintro ⟨hi | hp, hno⟩
      · exact (hc.known i hi).resolve_left hno
      · exact hp
    · rintro ⟨p, hp⟩
      exact ⟨Or.inr ⟨p, hp⟩, hc.gone p i hp⟩
  · intro p i hp key
    have hp := (uses_reconcile h p i).mp hp
    constructor
    · intro hhas
      rcases honly i key p hhas hp with ⟨q, hq, hk⟩ | ⟨hi, hold⟩
      · rw [hc.distinct p q i hp hq]
        exact hk
      · exact hc.alone p i hp hi key hold
    · rintro rfl
      exact hown p i hp (fun q hq => hc.distinct q p i hq hp) (hc.gone p i hp)

theorem clean_of_converged (h : s.reconcileCall call = .ok (s', ports))
    (hports : s.portsFound call.draws call.config.peers = true)
    (hc : Converged call.config s') : Clean s call := by
  obtain ⟨hifs, hkept, -, -⟩ := host_reconcile h
  have hgone : ∀ p i, Uses (named s.peerToIf call.config.peers) call.config.peers p i →
      ¬ OfGonePeer s.peerToIf call.config i := by
    intro p i hp
    have hi := (hc.interfaces i).mpr ⟨p, (uses_reconcile h p i).mpr hp⟩
    exact ((hifs i).mp hi).2
  constructor
  · exact hports
  · intro p q i hp hq
    exact hc.distinct p q i ((uses_reconcile h p i).mpr hp) ((uses_reconcile h q i).mpr hq)
  · exact hgone
  · intro i hi
    by_cases hno : OfGonePeer s.peerToIf call.config i
    · exact Or.inl hno
    · obtain ⟨p, hp⟩ := (hc.interfaces i).mp ((hifs i).mpr ⟨Or.inl hi, hno⟩)
      exact Or.inr ⟨p, (uses_reconcile h p i).mp hp⟩
  · intro p i hp hi key hhas
    exact (hc.peers p i ((uses_reconcile h p i).mpr hp) key).mp
      (hkept i key hi (hgone p i hp) hhas)

theorem reconcileCall_returns_iff (s : Agent) (call : ReconcileCall) :
    (∃ s' ports, s.reconcileCall call = .ok (s', ports)) ↔
      s.portsFound call.draws call.config.peers = true := by
  have hloop := loop_returns_iff s.host.interfaces call.draws { s with monitor := call.monitor } []
    call.config.peers
  have hsame : { s with monitor := call.monitor }.portsFound call.draws call.config.peers =
      s.portsFound call.draws call.config.peers := by
    apply portsFound_congr <;> rfl
  rw [hsame] at hloop
  rw [← hloop]
  unfold Agent.reconcileCall Agent.reconcile
  constructor
  · rintro ⟨s', ports, h⟩
    split at h
    · cases h
    · rename_i s1 ports1 hl
      exact ⟨s1, ports1, hl⟩
  · rintro ⟨s1, ports1, hl⟩
    dsimp only
    rw [hl]
    exact ⟨_, _, rfl⟩

end

/-- **One call.** -/
theorem converges_iff_clean (s : Agent) (call : ReconcileCall) :
    s.Converges call ↔ Clean s call := by
  constructor
  · rintro ⟨s', ports, h, hc⟩
    exact clean_of_converged h ((reconcileCall_returns_iff s call).mp ⟨s', ports, h⟩) hc
  · intro hc
    obtain ⟨s', ports, h⟩ := (reconcileCall_returns_iff s call).mpr hc.ports
    exact ⟨s', ports, h, converged_of_clean h hc⟩

/-- **Reconcile converges exactly on clean hosts.**  In every run of calls, on every host and
with every mapping: after each call the interfaces of the host are those of the peers with a
pubkey, each with its pubkey as its only AWG peer, if and only if each call finds the host
clean. -/
theorem reconcile_converges_iff (s : Agent) (calls : List ReconcileCall) :
    Along Agent.reconcileStep Agent.Converges s calls ↔
      Along Agent.reconcileStep Clean s calls :=
  along_congr Agent.reconcileStep converges_iff_clean s calls

/-- A call for one peer `b` at `10.9.0.2`, with a pubkey or (`[]`) without one yet. -/
def onePeerCall (pubkey : JsString) : ReconcileCall where
  config :=
    { peers := [{ id := [98], pubkey, meshIpv4 := [49, 48, 46, 57, 46, 48, 46, 50], endpoint := [] }]
      sorted := List.pairwise_singleton _ _ }
  draws := fun _ => [0]
  monitor := .empty

/-- An agent that has started on a host with the interface `mza3` and no mapping file. -/
def leftoverAgent : Agent := .boot ⟨51820, 52819⟩ ⟨[3], .empty⟩ .empty

/-- **Reconcile does not always converge.**  An interface that the mapping does not know
stays; a peer that changes its key keeps its old AWG peer; one that loses it keeps its
interface. -/
theorem reconcile_leaves :
    ¬ Along Agent.reconcileStep Agent.Converges leftoverAgent [onePeerCall [107]] ∧
    ¬ Along Agent.reconcileStep Agent.Converges (.boot ⟨51820, 52819⟩ ⟨[], .empty⟩ .empty)
      [onePeerCall [107], onePeerCall [108]] ∧
    ¬ Along Agent.reconcileStep Agent.Converges (.boot ⟨51820, 52819⟩ ⟨[], .empty⟩ .empty)
      [onePeerCall [107], onePeerCall []] := by
  refine ⟨?_, ?_, ?_⟩
  · rintro ⟨⟨s', ports, h, hc⟩, -⟩
    cases h
    obtain ⟨p, hp, -, hget⟩ := (hc.interfaces 3).mp (by decide)
    cases List.mem_singleton.mp hp
    revert hget
    decide
  · rintro ⟨-, ⟨s', ports, h, hc⟩, -⟩
    cases h
    have hpeer := hc.peers ((onePeerCall [108]).config.peers.head (by simp [onePeerCall])) 0
      ⟨by decide, by decide, by decide⟩ [107]
    revert hpeer
    decide
  · rintro ⟨-, ⟨s', ports, h, hc⟩, -⟩
    cases h
    obtain ⟨p, hp, hkey, -⟩ := (hc.interfaces 0).mp (by decide)
    cases List.mem_singleton.mp hp
    exact hkey rfl

/-! ## Steady configurations

From a host that is as its configuration says, what the next call needs can be said of the
configurations: a peer that stays keeps its key. -/

/-- A peer of the one configuration that has a pubkey has the same in the other, if it is in it. -/
def Steady (config next : PeerConfig) : Prop :=
  ∀ p ∈ config.peers, p.pubkey ≠ [] → ∀ q ∈ next.peers, q.id = p.id → q.pubkey = p.pubkey

theorem named_injective {m : OMap PeerId IfName} (h : InjectiveMap m) (peers : List PeerEndpoint) :
    InjectiveMap (named m peers) := by
  refine foldl_invariant (I := InjectiveMap) _ _ ?_ h
  intro m p _ hm
  split
  · exact hm
  · exact getIfName_injective hm p.id

theorem clean_of_steady {s : Agent} {config : PeerConfig} {call : ReconcileCall}
    (hc : Converged config s) (hm : InjectiveMap s.peerToIf) (hsteady : Steady config call.config)
    (hports : s.portsFound call.draws call.config.peers = true) : Clean s call := by
  have hinj := named_injective hm call.config.peers
  constructor
  · exact hports
  · rintro p q i ⟨hp, -, hpi⟩ ⟨hq, -, hqi⟩
    exact PeerConfig.eq_of_id hp hq (hinj _ _ i hpi hqi)
  · rintro p i ⟨hp, -, hpi⟩ ⟨g, hg, hgone⟩
    have hid := hinj _ _ i hpi (named_get?_of_some hg)
    rw [← hid, isDesired_of_mem hp] at hgone
    cases hgone
  · intro i hi
    obtain ⟨p, hp, hkey, hpi⟩ := (hc.interfaces i).mp hi
    cases hdesired : Agent.isDesired call.config p.id with
    | false => exact Or.inl ⟨p.id, hpi, hdesired⟩
    | true =>
      obtain ⟨q, hq, hid⟩ := List.any_eq_true.mp hdesired
      have hid := of_decide_eq_true hid
      refine Or.inr ⟨q, hq, ?_, ?_⟩
      · rw [hsteady p hp hkey q hq hid]
        exact hkey
      · rw [hid]
        exact named_get?_of_some hpi
  · rintro p i ⟨hp, -, hpi⟩ hi key hhas
    obtain ⟨q, hq, hkey, hqi⟩ := (hc.interfaces i).mp hi
    have hid := hinj _ _ i hpi (named_get?_of_some hqi)
    rw [hsteady q hq hkey p hp hid]
    exact (hc.peers q i ⟨hq, hkey, hqi⟩ key).mp hhas

theorem injectiveMap_reconcile {s s' : Agent} {call : ReconcileCall} {ports : List (PeerId × Nat)}
    (h : s.reconcileCall call = .ok (s', ports)) (hm : InjectiveMap s.peerToIf) :
    InjectiveMap s'.peerToIf := by
  obtain ⟨s1, hsetUp, -, hsub, -⟩ := reconcile_ok h
  have hnamed : s1.peerToIf = named s.peerToIf call.config.peers := hsetUp.names
  have hinj := named_injective hm call.config.peers
  rw [← hnamed] at hinj
  exact fun p q i hp hq => hinj p q i (hsub p i hp) (hsub q i hq)

/-- **Reconcile converges while the peers keep their keys.**  From a host that is as its
configuration says, in every run of calls each of which is steady after the one before. -/
theorem reconcile_converges_of_steady {s : Agent} {config : PeerConfig}
    (hc : Converged config s) (hm : InjectiveMap s.peerToIf) {calls : List ReconcileCall}
    (hsteady : List.IsChain Steady (config :: calls.map ReconcileCall.config))
    (hports : Along Agent.reconcileStep
      (fun s call => s.portsFound call.draws call.config.peers = true) s calls) :
    Along Agent.reconcileStep Agent.Converges s calls := by
  induction calls generalizing s config with
  | nil => trivial
  | cons call rest ih =>
    rw [List.map_cons, List.isChain_cons_cons] at hsteady
    obtain ⟨hport, hports⟩ := hports
    have hclean := clean_of_steady hc hm hsteady.1 hport
    obtain ⟨s', ports, h, hc'⟩ := (converges_iff_clean s call).mpr hclean
    refine ⟨⟨s', ports, h, hc'⟩, ?_⟩
    have hstep : Agent.reconcileStep s call = s' := by
      unfold Agent.reconcileStep
      rw [h]
    rw [hstep] at hports ⊢
    exact ih hc' (injectiveMap_reconcile h hm) hsteady.2 hports

/-- A host without interfaces, and no mapping file, is as the empty configuration says. -/
theorem converged_boot (range : PortRange) (peers : OMap (IfName × JsString) JsString) :
    Converged ⟨[], List.Pairwise.nil⟩ (.boot range ⟨[], peers⟩ .empty) ∧
      InjectiveMap (Agent.boot range ⟨[], peers⟩ .empty).peerToIf := by
  refine ⟨⟨?_, ?_, ?_, ?_⟩, ?_⟩
  · intro p hp
    cases hp
  · intro p q i hp
    cases hp.1
  · intro i
    constructor
    · intro hi
      cases hi
    · rintro ⟨p, hp, -⟩
      cases hp
  · intro p i hp
    cases hp.1
  · intro p q i hp
    cases hp

end Meshezia
