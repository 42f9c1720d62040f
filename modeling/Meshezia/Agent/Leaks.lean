import Meshezia.Agent.Release

/-!
# Lost servers

A TCP probe server that is started while another is in the slot takes its place, and nothing
remembers the other any more (`LostServer`): no message and no end of the WebSocket stops it.

    probe-relay-serve binds while (k, q) is in the slot  →
      server k, for q, is open in every later state                          (server_lost)

So the condition under which probe resources are released cannot do without the free slot.
-/

namespace Meshezia

/-! ## What a step does to the servers -/

theorem sameServers_udpBound (s : Prober) (id : Nat) (bind : Except JsString Int) :
    (s.udpBound id bind).SameServers s := by
  unfold Prober.udpBound
  split
  · split
    · exact ⟨rfl, rfl, Nat.le_succ _⟩
    · exact ⟨rfl, rfl, Nat.le_refl _⟩
  · exact sameServers_refl s

/-- What a step can do to the servers: nothing, start one in the slot, or stop the one in the
slot. -/
inductive ServerStep (s s' : Prober) : Prop where
  | same : s'.SameServers s → ServerStep s s'
  | started {server} : s'.servers = s.servers.set s.nextId server →
      s'.tcpProbeServer = some (s.nextId, server.peerId) → s.nextId < s'.nextId → ServerStep s s'
  | stopped {k owner} : s.tcpProbeServer = some (k, owner) → s'.servers = s.servers.delete k →
      s'.tcpProbeServer = none → s.nextId ≤ s'.nextId → ServerStep s s'

theorem serverStep_closeTcpProbeServer (s : Prober) (p : PeerId) :
    ServerStep s (s.closeTcpProbeServer p) := by
  unfold Prober.closeTcpProbeServer
  split
  · exact .same (sameServers_refl s)
  · rename_i hslot
    split
    · exact .stopped hslot rfl rfl (Nat.le_refl _)
    · exact .same (sameServers_refl s)

theorem ServerStep.then_same {s s' s'' : Prober} (h : ServerStep s s')
    (hsame : s''.SameServers s') : ServerStep s s'' := by
  obtain ⟨hservers, hslot, hid⟩ := hsame
  cases h with
  | same h => exact .same (sameServers_trans ⟨hservers, hslot, hid⟩ h)
  | started h1 h2 h3 =>
    exact .started (hservers.trans h1) (hslot.trans h2) (Nat.lt_of_lt_of_le h3 hid)
  | stopped h1 h2 h3 h4 =>
    exact .stopped h1 (hservers.trans h2) (hslot.trans h3) (Nat.le_trans h4 hid)

/-- The handlers that clean up. -/
theorem serverStep_cleanUp (s : Prober) (now : Int) (msg : ServerMsg) (p : PeerId) :
    ServerStep s (Prober.cleanUp
      { s with agent := s.agent.receive now msg, log := .received msg :: s.log } p) := by
  have hclose := (serverStep_closeTcpProbeServer
    { s with agent := s.agent.receive now msg, log := .received msg :: s.log } p).then_same
      (beside_closeUdpProbeSocket _ p).2
  cases hclose with
  | same h => exact .same h
  | started h1 h2 h3 => exact .started h1 h2 h3
  | stopped h1 h2 h3 h4 => exact .stopped h1 h2 h3 h4

theorem serverStep_wsClose (s : Prober) : ServerStep s (probeStep s .wsClose) := by
  cases hslot : s.tcpProbeServer with
  | none =>
    refine .same ⟨?_, hslot.symm, Nat.le_refl _⟩
    show s.stopServer = s.servers
    unfold Prober.stopServer
    rw [hslot]
  | some e =>
    obtain ⟨k, owner⟩ := e
    refine .stopped hslot ?_ rfl (Nat.le_refl _)
    show s.stopServer = s.servers.delete k
    unfold Prober.stopServer
    rw [hslot]

/-- **One step.** -/
theorem probeStep_servers (s : Prober) (e : ProbeEvent) : ServerStep s (probeStep s e) := by
  cases e with
  | receive now msg nonce bind =>
    cases msg with
    | probeRelayServe p =>
      cases bind with
      | ok port => exact @ServerStep.started s _ ⟨p, port, nonce⟩ rfl rfl (Nat.lt_succ_self _)
      | error text => exact .same ⟨rfl, rfl, Nat.le_refl _⟩
    | probeRelayCheck p _ _ _ _ _ => exact .same ⟨rfl, rfl, Nat.le_succ _⟩
    | probeDirectStart p => exact .same ⟨rfl, rfl, Nat.le_succ _⟩
    | probeDirectGo p ip port peerNonce =>
      exact .same (beside_handleProbeDirectGo _ p ip port peerNonce).2
    | probeVerdict p _ => exact serverStep_cleanUp s now _ p
    | negotiateAbort p _ => exact serverStep_cleanUp s now _ p
    | forceMode p _ => exact serverStep_cleanUp s now _ p
    | peerRemoved p => exact .same ⟨rfl, rfl, Nat.le_refl _⟩
  | fetched id ok => exact .same (beside_fetched s id ok).2
  | udpBound id bind => exact .same (sameServers_udpBound s id bind)
  | udpResume id => exact .same (beside_udpResume s id).2
  | goStep id timeUp => exact .same (beside_goStep s id timeUp).2
  | datagram entry text => exact .same ⟨rfl, rfl, Nat.le_refl _⟩
  | wsClose => exact serverStep_wsClose s
  | awgApplied id => exact .same ⟨rfl, rfl, Nat.le_refl _⟩
  | switchDone id => exact .same ⟨rfl, rfl, Nat.le_refl _⟩
  | startPoll config => exact .same ⟨rfl, rfl, Nat.le_refl _⟩
  | pollStep id ok draws => exact .same ⟨rfl, rfl, Nat.le_refl _⟩
  | tick now => exact .same ⟨rfl, rfl, Nat.le_refl _⟩

/-! ## Every run -/

/-- What is in the slot is open. -/
def SlotOpen (s : Prober) : Prop :=
  ∀ k p, s.tcpProbeServer = some (k, p) →
    k < s.nextId ∧ ∃ server, s.servers.get? k = some server ∧ server.peerId = p

theorem slotOpen_step {s : Prober} (h : SlotOpen s) (e : ProbeEvent) : SlotOpen (probeStep s e) := by
  intro k p hslot
  cases probeStep_servers s e with
  | same hsame =>
    obtain ⟨hservers, hslot', hid⟩ := hsame
    rw [hslot'] at hslot
    obtain ⟨hk, hopen⟩ := h k p hslot
    rw [hservers]
    exact ⟨Nat.lt_of_lt_of_le hk hid, hopen⟩
  | @started server hservers hslot' hid =>
    rw [hslot'] at hslot
    cases hslot
    rw [hservers]
    exact ⟨hid, server, OMap.get?_set_self _ _ _, rfl⟩
  | stopped _ _ hslot' _ =>
    rw [hslot'] at hslot
    cases hslot

/-- The server `k` is open, and nothing remembers it. -/
structure LostServer (k : Nat) (server : TcpServer) (s : Prober) : Prop where
  isOpen : s.servers.get? k = some server
  slot : ∀ p, s.tcpProbeServer ≠ some (k, p)
  old : k < s.nextId

theorem lostServer_step {k : Nat} {server : TcpServer} {s : Prober} (h : LostServer k server s)
    (e : ProbeEvent) : LostServer k server (probeStep s e) := by
  cases probeStep_servers s e with
  | same hsame =>
    obtain ⟨hservers, hslot, hid⟩ := hsame
    constructor
    · rw [hservers]
      exact h.isOpen
    · rw [hslot]
      exact h.slot
    · exact Nat.lt_of_lt_of_le h.old hid
  | started hservers hslot hid =>
    have hne := Nat.ne_of_gt h.old
    constructor
    · rw [hservers, OMap.get?_set_ne _ _ hne]
      exact h.isOpen
    · intro p hp
      rw [hslot] at hp
      cases hp
      exact hne rfl
    · exact Nat.lt_trans h.old hid
  | @stopped k' owner hslot hservers hnone hid =>
    have hne : k' ≠ k := by
      rintro rfl
      exact h.slot owner hslot
    constructor
    · rw [hservers, OMap.get?_delete_ne _ hne]
      exact h.isOpen
    · intro p hp
      rw [hnone] at hp
      cases hp
    · exact Nat.lt_of_lt_of_le h.old hid

/-- **A server is lost for good.**  In every run, the server that another takes the slot of
is open in every later state, for the peer that it was started for. -/
theorem server_lost (range : PortRange) (host : Host) (file : MappingFile)
    (selfMeshIpv4 : JsString) (es es' : List ProbeEvent) {k : Nat} {q : PeerId}
    (hslot : (run probeStep (.boot range host file selfMeshIpv4) es).tcpProbeServer = some (k, q))
    (now : Int) (p : PeerId) (nonce : JsString) (port : Int) :
    ∃ server, server.peerId = q ∧ (run probeStep (.boot range host file selfMeshIpv4)
      (es ++ .receive now (.probeRelayServe p) nonce (.ok port) :: es')).servers.get? k =
        some server := by
  have hopen : SlotOpen (run probeStep (.boot range host file selfMeshIpv4) es) :=
    run_invariant probeStep (I := SlotOpen) (fun _ e h => slotOpen_step h e)
      (fun _ _ h => by cases h) es
  rw [run_append, run_cons]
  generalize run probeStep (.boot range host file selfMeshIpv4) es = s at hslot hopen ⊢
  obtain ⟨hk, server, hget, hq⟩ := hopen k q hslot
  have hne := Nat.ne_of_gt hk
  have hlost : LostServer k server
      (probeStep s (.receive now (.probeRelayServe p) nonce (.ok port))) := by
    constructor
    · exact (OMap.get?_set_ne _ _ hne).trans hget
    · intro x hx
      cases hx
      exact hne rfl
    · exact Nat.lt_succ_of_lt hk
  have hlater := run_invariant probeStep (I := LostServer k server)
    (fun _ e h => lostServer_step h e) hlost es'
  exact ⟨server, hq, hlater.isOpen⟩

end Meshezia
