import Meshezia.Lib.Run
import Meshezia.Server.Db

/-!
# Peer states (`monitor.ts`)

What an agent keeps of each peer: its state with the mode, and the time since which it
is frozen.  The mesh configuration an agent polls lists the other peers of the network
in the order of their ids.
-/

namespace Meshezia

/-- A peer of the configuration; `pubkey` is empty until its agent has registered one. -/
structure PeerEndpoint where
  id : PeerId
  pubkey : JsString
  meshIpv4 : JsString
  endpoint : JsString
  listenPort : Nat := 0
deriving DecidableEq, Repr

/-- The answer of `GET /api/peers/:id/config`, in the order of its query. -/
structure PeerConfig where
  peers : List PeerEndpoint
  sorted : peers.Pairwise fun a b => jsLt a.id b.id = true

/-- The number of an interface name: `mza{n}`. -/
abbrev IfName := Nat

def FROZEN_TIMEOUT_MS : Int := 30000

structure PeerState where
  ifName : IfName
  pubkey : JsString
  peerIpv4 : JsString
  directEndpoint : JsString
  relayPort : Nat
  mode : Mode := .direct
  rxAlive : Bool := true
  lastRxBytes : Int := -1
  directMissed : Nat := 0
deriving DecidableEq, Repr

abbrev PeerStates := OMap PeerId PeerState

def initPeerState (peerStates : PeerStates) (peer : PeerEndpoint) (ifName : IfName)
    (relayPort : Nat) : PeerStates :=
  match peerStates.get? peer.id with
  | some existing => peerStates.set peer.id
      { existing with directEndpoint := peer.endpoint, peerIpv4 := peer.meshIpv4,
                      pubkey := peer.pubkey, ifName, relayPort }
  | none => peerStates.set peer.id
      { ifName, pubkey := peer.pubkey, peerIpv4 := peer.meshIpv4,
        directEndpoint := peer.endpoint, relayPort }

/-- Set the mode of a peer and reset its rx tracking. -/
def setPeerMode (peerStates : PeerStates) (peerId : PeerId) (mode : Mode) : PeerStates :=
  match peerStates.get? peerId with
  | none => peerStates
  | some state => peerStates.set peerId
      { state with mode, lastRxBytes := -1, directMissed := 0, rxAlive := decide (mode = .direct) }

structure Monitor where
  peerStates : PeerStates
  frozenPeers : OMap PeerId Unit
  frozenAt : OMap PeerId Int

namespace Monitor

def empty : Monitor := ⟨.empty, .empty, .empty⟩

variable (m : Monitor) (peerId : PeerId)

def removePeerState : Monitor where
  peerStates := m.peerStates.delete peerId
  frozenPeers := m.frozenPeers.delete peerId
  frozenAt := m.frozenAt.delete peerId

def freezePeer (now : Int) : Monitor :=
  { m with frozenPeers := m.frozenPeers.set peerId (), frozenAt := m.frozenAt.set peerId now }

def unfreezePeer : Monitor :=
  { m with frozenPeers := m.frozenPeers.delete peerId, frozenAt := m.frozenAt.delete peerId }

def clearAllFrozen : Monitor := { m with frozenPeers := .empty, frozenAt := .empty }

def isFrozen : Bool := m.frozenPeers.has peerId

/-- The first loop of `tick`: unfreeze the peers frozen for too long.  It deletes no entry but
the one it is at, so it goes through all entries there are when it starts. -/
def unfreezeStuck (now : Int) : Monitor :=
  m.frozenAt.entries.foldl
    (fun m e => if now - e.2 > FROZEN_TIMEOUT_MS then m.unfreezePeer e.1 else m) m

end Monitor

/-! ## Lemmas -/

section
variable (peerStates : PeerStates)

theorem get?_initPeerState_ne (peer : PeerEndpoint) (ifName : IfName) (relayPort : Nat)
    {q : PeerId} (h : peer.id ≠ q) :
    (initPeerState peerStates peer ifName relayPort).get? q = peerStates.get? q := by
  unfold initPeerState
  split <;> exact OMap.get?_set_ne _ _ h

/-- The state of a peer after `initPeerState`: its mode is the one it had, or direct. -/
theorem get?_initPeerState (peer : PeerEndpoint) (ifName : IfName) (relayPort : Nat) :
    ∃ st, (initPeerState peerStates peer ifName relayPort).get? peer.id = some st ∧
      st.ifName = ifName ∧ st.pubkey = peer.pubkey ∧ st.directEndpoint = peer.endpoint ∧
      st.relayPort = relayPort ∧
      st.mode = match peerStates.get? peer.id with
        | some existing => existing.mode
        | none => .direct := by
  unfold initPeerState
  cases peerStates.get? peer.id with
  | none => exact ⟨_, OMap.get?_set_self .., rfl, rfl, rfl, rfl, rfl⟩
  | some existing => exact ⟨_, OMap.get?_set_self .., rfl, rfl, rfl, rfl, rfl⟩

/-- A state after `initPeerState` is that of the peer, or one that was there. -/
theorem of_get?_initPeerState {peer : PeerEndpoint} {ifName : IfName} {relayPort : Nat} {q : PeerId}
    {st : PeerState} (h : (initPeerState peerStates peer ifName relayPort).get? q = some st) :
    (peer.id = q ∧ st.ifName = ifName ∧ st.pubkey = peer.pubkey ∧ st.directEndpoint = peer.endpoint ∧
      st.relayPort = relayPort ∧ st.mode = match peerStates.get? peer.id with
        | some existing => existing.mode
        | none => .direct) ∨
      (peer.id ≠ q ∧ peerStates.get? q = some st) := by
  by_cases hq : peer.id = q
  · subst hq
    obtain ⟨st', hst', hspec⟩ := get?_initPeerState peerStates peer ifName relayPort
    rw [hst', Option.some.injEq] at h
    exact Or.inl ⟨rfl, h ▸ hspec⟩
  · exact Or.inr ⟨hq, (get?_initPeerState_ne peerStates peer ifName relayPort hq).symm.trans h⟩

theorem has_initPeerState (peer : PeerEndpoint) (ifName : IfName) (relayPort : Nat) (q : PeerId) :
    (initPeerState peerStates peer ifName relayPort).has q =
      (peerStates.has q || decide (q = peer.id)) := by
  unfold initPeerState OMap.has
  by_cases hq : peer.id = q
  · subst hq
    split <;> simp
  · have hq' : ¬ q = peer.id := fun e => hq e.symm
    split <;> simp [OMap.get?_set_ne _ _ hq, hq']

theorem get?_setPeerMode {p : PeerId} {st : PeerState} (h : peerStates.get? p = some st)
    (mode : Mode) : (setPeerMode peerStates p mode).get? p =
      some { st with
        mode, lastRxBytes := -1, directMissed := 0, rxAlive := decide (mode = .direct) } := by
  simp [setPeerMode, h]

theorem get?_setPeerMode_ne (mode : Mode) {p q : PeerId} (h : p ≠ q) :
    (setPeerMode peerStates p mode).get? q = peerStates.get? q := by
  unfold setPeerMode
  split
  · rfl
  · exact OMap.get?_set_ne _ _ h

/-- A state after `setPeerMode` differs from the one before in its mode only, and only for `p`. -/
theorem of_get?_setPeerMode {mode : Mode} {p q : PeerId} {st' : PeerState}
    (h : (setPeerMode peerStates p mode).get? q = some st') :
    ∃ st, peerStates.get? q = some st ∧ st'.ifName = st.ifName ∧ st'.pubkey = st.pubkey ∧
      st'.relayPort = st.relayPort ∧ st'.directEndpoint = st.directEndpoint ∧
      (q = p → st'.mode = mode) ∧ (q ≠ p → st' = st) := by
  by_cases hqp : p = q
  · subst hqp
    cases hold : peerStates.get? p with
    | none => simp [setPeerMode, hold] at h
    | some st =>
      rw [get?_setPeerMode peerStates hold mode, Option.some.injEq] at h
      subst h
      exact ⟨st, rfl, rfl, rfl, rfl, rfl, fun _ => rfl, fun e => absurd rfl e⟩
  · rw [get?_setPeerMode_ne peerStates mode hqp] at h
    exact ⟨st', h, rfl, rfl, rfl, rfl, fun e => absurd e.symm hqp, fun _ => rfl⟩

end

@[simp] theorem unfreezeStuck_peerStates (m : Monitor) (now : Int) :
    (m.unfreezeStuck now).peerStates = m.peerStates := by
  unfold Monitor.unfreezeStuck
  refine foldl_invariant (I := fun t : Monitor => t.peerStates = m.peerStates) _ _ ?_ rfl
  intro t e _ ht
  split
  · exact ht
  · exact ht

end Meshezia
