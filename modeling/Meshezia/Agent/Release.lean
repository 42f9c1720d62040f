import Meshezia.Agent.Probes

/-!
# The release of probe resources

With no handler in flight, a peer whose negotiation is over (`cleanedUp`: the last message
about it was a verdict, an abort or a force command, or the WebSocket has closed since) is
to have nothing left: it is not frozen, and no TCP server and no UDP socket opened for it
is open (`Released`).

A peer that is frozen is never cleaned up.  A server is lost when another takes its slot;
a socket is lost when another is registered for its peer, and outlives its negotiation when
it is registered after that is over.  Nothing else is left open:

    every TCP server starts with the slot free, and every socket is registered for a peer
    without one whose negotiation goes on (`InTime`)  →  Released after every such run
                                                                     (probes_released)
-/

namespace Meshezia

/-! ## What is claimed -/

/-- The peer a negotiate message is about, and whether it ends the negotiation. -/
def ServerMsg.about : ServerMsg → Option (PeerId × Bool)
  | .probeRelayServe peer => some (peer, false)
  | .probeRelayCheck peer _ _ _ _ _ => some (peer, false)
  | .probeDirectStart peer => some (peer, false)
  | .probeDirectGo peer _ _ _ => some (peer, false)
  | .probeVerdict peer _ => some (peer, true)
  | .negotiateAbort peer _ => some (peer, true)
  | .forceMode peer _ => some (peer, true)
  | .peerRemoved _ => none

/-- What bears on the negotiation of `p`: a message about it, and the end of the WebSocket. -/
def endsProbe (p : PeerId) : ProbeItem → Option Bool
  | .received msg =>
    match msg.about with
    | some (q, ends) => if q = p then some ends else none
    | none => none
  | .disconnected => some true

/-- The last that bore on the negotiation of `p` ended it. -/
def cleanedUp (log : List ProbeItem) (p : PeerId) : Bool :=
  match latest (endsProbe p) log with
  | some (ends, _) => ends
  | none => false

/-- No handler is in flight. -/
def Prober.Quiet (s : Prober) : Prop := s.handlers.entries = [] ∧ s.agent.switches.entries = []

instance (s : Prober) : Decidable s.Quiet := inferInstanceAs (Decidable (_ ∧ _))

def Released (s : Prober) : Prop :=
  s.Quiet → ∀ p, cleanedUp s.log p = true →
    s.agent.monitor.isFrozen p = false ∧
    (∀ k server, s.servers.get? k = some server → server.peerId ≠ p) ∧
    ∀ k e, s.entries.get? k = some e → e.isOpen = true → e.peerId ≠ p

/-- A TCP server starts with the slot free; a socket is registered for a peer that has none
and whose negotiation goes on. -/
def InTime (s : Prober) : ProbeEvent → Prop
  | .receive _ (.probeRelayServe _) _ (.ok _) => s.tcpProbeServer = none
  | .udpResume id => ∀ p k, s.handlers.get? id = some (.bound p k) →
      s.udpProbeSockets.get? p = none ∧ cleanedUp s.log p = false
  | _ => True

/-! ## The log -/

theorem cleanedUp_received_ne {msg : ServerMsg} {p : PeerId}
    (h : ∀ ends, msg.about ≠ some (p, ends)) (log : List ProbeItem) :
    cleanedUp (.received msg :: log) p = cleanedUp log p := by
  have hnone : endsProbe p (.received msg) = none := by
    unfold endsProbe
    dsimp only
    split
    · rename_i q ends hq
      rw [if_neg]
      rintro rfl
      exact h ends hq
    · rfl
  unfold cleanedUp
  rw [latest_cons_none hnone]

theorem cleanedUp_received {msg : ServerMsg} {p : PeerId} {ends : Bool}
    (h : msg.about = some (p, ends)) (log : List ProbeItem) :
    cleanedUp (.received msg :: log) p = ends := by
  have hsome : endsProbe p (.received msg) = some ends := by
    simp [endsProbe, h]
  unfold cleanedUp
  rw [latest_cons_some hsome]

/-- A peer that is cleaned up after a message is one that the message cleans up, or was
cleaned up before and the message is not about it. -/
theorem cleanedUp_received_iff (msg : ServerMsg) (log : List ProbeItem) (p : PeerId) :
    cleanedUp (.received msg :: log) p = true ↔
      msg.about = some (p, true) ∨ (cleanedUp log p = true ∧ msg.about ≠ some (p, false)) := by
  by_cases h : ∃ ends, msg.about = some (p, ends)
  · obtain ⟨ends, h⟩ := h
    rw [cleanedUp_received h, h]
    cases ends <;> simp
  · have hne : ∀ ends, msg.about ≠ some (p, ends) := fun ends he => h ⟨ends, he⟩
    rw [cleanedUp_received_ne hne]
    simp [hne]

/-! ## Frozen peers -/

section
variable {m : Monitor} {p q : PeerId}

theorem isFrozen_unfreezePeer (h : (m.unfreezePeer p).isFrozen q = true) :
    m.isFrozen q = true ∧ q ≠ p := by
  obtain ⟨v, hv⟩ := (OMap.has_iff _ _).mp h
  obtain ⟨hne, hv⟩ := OMap.get?_of_get?_delete hv
  exact ⟨OMap.has_of_get? hv, Ne.symm hne⟩

theorem isFrozen_freezePeer {now : Int} (h : (m.freezePeer p now).isFrozen q = true) :
    m.isFrozen q = true ∨ q = p := by
  have h : (m.frozenPeers.set p ()).has q = true := h
  rw [OMap.has_set, Bool.or_eq_true, decide_eq_true_eq] at h
  rcases h with rfl | h
  · exact Or.inr rfl
  · exact Or.inl h

theorem isFrozen_unfreezeStuck {now : Int} (h : (m.unfreezeStuck now).isFrozen q = true) :
    m.isFrozen q = true := by
  revert h
  refine foldl_invariant (I := fun t : Monitor => t.isFrozen q = true → m.isFrozen q = true) _ _
    ?_ id
  intro t e _ ht
  split
  · exact fun h => ht (isFrozen_unfreezePeer h).1
  · exact ht

end

section
variable (s : Agent) {q : PeerId}

theorem monitor_frozen_switchPeerMode (p : PeerId) (target : Mode) :
    (s.switchPeerMode p target).monitor.frozenPeers = s.monitor.frozenPeers := by
  unfold Agent.switchPeerMode
  split
  · rfl
  · split
    · rfl
    · split <;> rfl

/-- A message freezes its peer, or unfreezes it, and no other. -/
theorem isFrozen_receive {now : Int} {msg : ServerMsg}
    (h : (s.receive now msg).monitor.isFrozen q = true) :
    msg.about = some (q, false) ∨ (s.monitor.isFrozen q = true ∧ msg.about ≠ some (q, true)) := by
  have hfreeze : ∀ {p}, (s.monitor.freezePeer p now).isFrozen q = true →
      some (p, false) = some (q, false) ∨
        (s.monitor.isFrozen q = true ∧ some (p, false) ≠ some (q, true)) := by
    intro p hp
    rcases isFrozen_freezePeer hp with hp | rfl
    · exact Or.inr ⟨hp, by simp⟩
    · exact Or.inl rfl
  have hthaw : ∀ {p} {t : Monitor}, t.frozenPeers = (s.monitor.unfreezePeer p).frozenPeers →
      t.isFrozen q = true → some (p, true) = some (q, false) ∨
        (s.monitor.isFrozen q = true ∧ some (p, true) ≠ some (q, true)) := by
    intro p t ht hp
    have hp : (s.monitor.unfreezePeer p).isFrozen q = true := by
      unfold Monitor.isFrozen at hp ⊢
      rw [← ht]
      exact hp
    obtain ⟨hq, hne⟩ := isFrozen_unfreezePeer hp
    exact Or.inr ⟨hq, by simp [Ne.symm hne]⟩
  cases msg with
  | probeRelayServe p => exact hfreeze h
  | probeRelayCheck p _ _ _ _ _ => exact hfreeze h
  | probeDirectStart p => exact hfreeze h
  | probeDirectGo p _ _ _ => exact Or.inr ⟨h, by simp [ServerMsg.about]⟩
  | probeVerdict p action =>
    refine hthaw ?_ h
    cases action with
    | switchRelay => exact monitor_frozen_switchPeerMode _ p .relay
    | switchDirect => exact monitor_frozen_switchPeerMode _ p .direct
    | stay => rfl
  | negotiateAbort p _ => exact hthaw rfl h
  | forceMode p mode =>
    refine hthaw ?_ h
    cases mode with
    | auto => rfl
    | force m => exact monitor_frozen_switchPeerMode _ p m.mode
  | peerRemoved p => exact Or.inr ⟨h, by simp [ServerMsg.about]⟩

theorem monitor_reconcileRemovals (id : Nat) (poll : Poll) :
    (s.reconcileRemovals id poll).monitor = s.monitor := by
  unfold Agent.reconcileRemovals
  split
  · rfl
  · split <;> rfl

theorem monitor_reconcilePeers (id : Nat) (poll : Poll) (draws : List Nat)
    (l : List PeerEndpoint) : (s.reconcilePeers id poll draws l).monitor = s.monitor := by
  induction l generalizing s with
  | nil => exact monitor_reconcileRemovals s id poll
  | cons peer rest ih =>
    unfold Agent.reconcilePeers
    split
    · exact ih s
    · dsimp only
      split <;> rfl

theorem isFrozen_proxyPeers {id : Nat} {poll : Poll} {idx : Nat} {active : List PeerId}
    {l : List PeerEndpoint}
    (h : (s.proxyPeers id poll idx active l).monitor.isFrozen q = true) :
    s.monitor.isFrozen q = true := by
  induction l generalizing active with
  | nil =>
    have h : (s.removeInactive active).monitor.isFrozen q = true := h
    revert h
    refine foldl_invariant
      (I := fun t : Agent => t.monitor.isFrozen q = true → s.monitor.isFrozen q = true) _ _ ?_
      fun h => h
    intro t p _ ht h
    apply ht
    obtain ⟨v, hv⟩ := (OMap.has_iff _ _).mp h
    exact OMap.has_of_get? (OMap.get?_of_get?_delete hv).2
  | cons peer rest ih =>
    unfold Agent.proxyPeers at h
    split at h
    · exact ih h
    · dsimp only at h
      split at h
      · exact ih h
      · exact h

/-- A poll freezes no peer. -/
theorem isFrozen_pollStep {id : Nat} {ok : Bool} {draws : List Nat}
    (h : (s.pollStep id ok draws).monitor.isFrozen q = true) : s.monitor.isFrozen q = true := by
  have hpeers : ∀ {t : Agent} {poll : Poll} {l : List PeerEndpoint},
      (t.reconcilePeers id poll draws l).monitor.isFrozen q = true →
      t.monitor.isFrozen q = true := by
    intro t poll l h
    rwa [monitor_reconcilePeers] at h
  unfold Agent.pollStep at h
  split at h
  · exact h
  · split at h
    · exact hpeers h
    · split at h
      · exact h
      · exact hpeers h
    · split at h
      · exact h
      · exact hpeers h
    · exact hpeers h
    · exact h
    · rwa [monitor_reconcileRemovals] at h
    · split at h <;> exact h
    · exact h
    · split at h
      · exact isFrozen_proxyPeers s h
      · split at h
        · have hframe := isFrozen_proxyPeers _ h
          exact hframe
        · exact h
    · split at h
      · have hframe := isFrozen_proxyPeers _ h
        exact hframe
      · exact h

end

/-! ## Servers and sockets -/

/-- What is open is remembered, and nothing is remembered for a peer that is `done`. -/
structure Resources (done : PeerId → Prop) (s : Prober) : Prop where
  server : ∀ k server, s.servers.get? k = some server → s.tcpProbeServer = some (k, server.peerId)
  slot : ∀ k p, s.tcpProbeServer = some (k, p) → ¬ done p
  socket : ∀ k e, s.entries.get? k = some e → e.isOpen = true →
    s.udpProbeSockets.get? e.peerId = some k ∨
      ∃ id, s.handlers.get? id = some (.bound e.peerId k)
  registered : ∀ p k, s.udpProbeSockets.get? p = some k → ¬ done p
  handlerIds : ∀ id h, s.handlers.get? id = some h → id < s.nextId

section
variable {done : PeerId → Prop} {s s' : Prober}

theorem Resources.weaken (h : Resources done s) (done' : PeerId → Prop)
    (hdone : ∀ p, done' p → done p) : Resources done' s :=
  { h with
    slot := fun k p hp hd => h.slot k p hp (hdone p hd)
    registered := fun p k hp hd => h.registered p k hp (hdone p hd) }

/-- The entries `es'` are those of `es`, changed in nothing but what handlers and datagrams
write to them, or closed. -/
def SubEntries (es' es : OMap Nat ProbeEntry) : Prop :=
  ∀ k e', es'.get? k = some e' → e'.isOpen = true →
    ∃ e, es.get? k = some e ∧ e.isOpen = true ∧ e.peerId = e'.peerId

theorem subEntries_refl (es : OMap Nat ProbeEntry) : SubEntries es es :=
  fun _ e' he ho => ⟨e', he, ho, rfl⟩

theorem subEntries_mapVals (es : OMap Nat ProbeEntry) (f : Nat → ProbeEntry → ProbeEntry)
    (hf : ∀ k e, (f k e).peerId = e.peerId ∧ ((f k e).isOpen = true → e.isOpen = true)) :
    SubEntries (es.mapVals f) es := by
  intro k e' he' ho
  rw [OMap.get?_mapVals, Option.map_eq_some_iff] at he'
  obtain ⟨e, he, rfl⟩ := he'
  exact ⟨e, he, (hf k e).2 ho, (hf k e).1.symm⟩

/-- A step that leaves the slot and the registered sockets as they are, and no handler that
is about to register one. -/
theorem Resources.frame (h : Resources done s) (hslot : s'.tcpProbeServer = s.tcpProbeServer)
    (hservers : s'.servers = s.servers) (hsockets : s'.udpProbeSockets = s.udpProbeSockets)
    (hentries : SubEntries s'.entries s.entries)
    (hbound : ∀ id p k, s.handlers.get? id = some (.bound p k) →
      s'.handlers.get? id = some (.bound p k))
    (hids : ∀ id x, s'.handlers.get? id = some x → id < s'.nextId) : Resources done s' where
  server := by
    rw [hslot, hservers]
    exact h.server
  slot := by
    rw [hslot]
    exact h.slot
  socket := by
    intro k e' he' ho
    obtain ⟨e, he, ho, hp⟩ := hentries k e' he' ho
    rw [hsockets, ← hp]
    rcases h.socket k e he ho with hreg | ⟨id, hid⟩
    · exact Or.inl hreg
    · exact Or.inr ⟨id, hbound id _ k hid⟩
  registered := by
    rw [hsockets]
    exact h.registered
  handlerIds := hids

/-- A handler that is not about to register a socket goes on, or is over. -/
theorem bound_of_set {hs : OMap Nat ProbeHandler} {id : Nat} {old new : ProbeHandler}
    (hold : hs.get? id = some old) (hne : ∀ p k, old ≠ .bound p k) {i : Nat} {p : PeerId} {k : Nat}
    (hi : hs.get? i = some (.bound p k)) : (hs.set id new).get? i = some (.bound p k) := by
  have hii : id ≠ i := by
    rintro rfl
    rw [hold] at hi
    exact hne p k (Option.some.inj hi)
  rw [OMap.get?_set_ne _ _ hii]
  exact hi

theorem bound_of_delete {hs : OMap Nat ProbeHandler} {id : Nat} {old : ProbeHandler}
    (hold : hs.get? id = some old) (hne : ∀ p k, old ≠ .bound p k) {i : Nat} {p : PeerId} {k : Nat}
    (hi : hs.get? i = some (.bound p k)) : (hs.delete id).get? i = some (.bound p k) := by
  have hii : id ≠ i := by
    rintro rfl
    rw [hold] at hi
    exact hne p k (Option.some.inj hi)
  rw [OMap.get?_delete_ne _ hii]
  exact hi

theorem Resources.ids_set (h : Resources done s) {id : Nat} {old new : ProbeHandler}
    (hold : s.handlers.get? id = some old) :
    ∀ i x, (s.handlers.set id new).get? i = some x → i < s.nextId := by
  intro i x hx
  rcases OMap.get?_set_cases hx with ⟨rfl, -⟩ | ⟨-, hx⟩
  · exact h.handlerIds id old hold
  · exact h.handlerIds i x hx

theorem Resources.ids_delete (h : Resources done s) {id : Nat} :
    ∀ i x, (s.handlers.delete id).get? i = some x → i < s.nextId :=
  fun i x hx => h.handlerIds i x (OMap.get?_of_get?_delete hx).2

/-- A handler that goes on, or is over, without having touched a server or a socket. -/
theorem Resources.goOn (h : Resources done s) {id : Nat} {old : ProbeHandler}
    (hold : s.handlers.get? id = some old) (hne : ∀ p k, old ≠ .bound p k) (new : ProbeHandler) :
    Resources done { s with handlers := s.handlers.set id new } :=
  h.frame rfl rfl rfl (subEntries_refl _) (fun _ _ _ hi => bound_of_set hold hne hi)
    (h.ids_set hold)

theorem Resources.over (h : Resources done s) {id : Nat} {old : ProbeHandler}
    (hold : s.handlers.get? id = some old) (hne : ∀ p k, old ≠ .bound p k) :
    Resources done { s with handlers := s.handlers.delete id } :=
  h.frame rfl rfl rfl (subEntries_refl _) (fun _ _ _ hi => bound_of_delete hold hne hi)
    h.ids_delete

theorem Resources.await (h : Resources done s) (x : ProbeHandler) : Resources done (s.await x) := by
  refine h.frame rfl rfl rfl (subEntries_refl _) ?_ ?_
  · intro id p k hid
    have hlt := h.handlerIds id _ hid
    show (s.handlers.set s.nextId x).get? id = _
    rw [OMap.get?_set_ne _ _ (by omega)]
    exact hid
  · intro id y hy
    show id < s.nextId + 1
    rcases OMap.get?_set_cases hy with ⟨rfl, -⟩ | ⟨-, hy⟩
    · omega
    · have hlt := h.handlerIds id y hy
      omega

theorem Resources.sendNonce (h : Resources done s) (entry : Nat) (ip : JsString) (port : Int) :
    Resources done (s.sendNonce entry ip port) := by
  unfold Prober.sendNonce
  split
  · exact h
  · split
    · exact h.frame rfl rfl rfl (subEntries_refl _) (fun _ _ _ hi => hi) h.handlerIds
    · exact h

theorem handlers_sendNonce (s : Prober) (entry : Nat) (ip : JsString) (port : Int) :
    (s.sendNonce entry ip port).handlers = s.handlers := by
  unfold Prober.sendNonce
  split
  · rfl
  · split <;> rfl

theorem Resources.closeTcp (h : Resources done s) (p : PeerId) :
    Resources (fun q => done q) (s.closeTcpProbeServer p) ∧
      ∀ k, (s.closeTcpProbeServer p).tcpProbeServer ≠ some (k, p) := by
  unfold Prober.closeTcpProbeServer
  split
  · rename_i hnone
    exact ⟨h, fun k hk => by rw [hnone] at hk; cases hk⟩
  · rename_i k owner hslot
    split
    · refine ⟨?_, fun k hk => by cases hk⟩
      constructor
      · intro k' server hget
        obtain ⟨hne, hget⟩ := OMap.get?_of_get?_delete hget
        have hk := h.server k' server hget
        rw [hslot] at hk
        cases hk
        exact absurd rfl hne
      · intro k' q hq
        cases hq
      · exact h.socket
      · exact h.registered
      · exact h.handlerIds
    · rename_i hno
      refine ⟨h, ?_⟩
      intro k' hk'
      rw [hslot] at hk'
      cases hk'
      exact hno (Or.inr rfl)

theorem get?_closeEntry {es : OMap Nat ProbeEntry} {entry k : Nat} {e : ProbeEntry}
    (h : (Prober.closeEntry es entry).get? k = some e) (ho : e.isOpen = true) :
    es.get? k = some e ∧ k ≠ entry := by
  rw [Prober.closeEntry, OMap.get?_mapVals, Option.map_eq_some_iff] at h
  obtain ⟨old, hold, rfl⟩ := h
  split at ho
  · cases ho
  · rename_i hne
    rw [if_neg hne]
    exact ⟨hold, hne⟩

theorem Resources.closeUdp (h : Resources done s) (p : PeerId) :
    Resources (fun q => done q) (s.closeUdpProbeSocket p) ∧
      (s.closeUdpProbeSocket p).udpProbeSockets.get? p = none := by
  unfold Prober.closeUdpProbeSocket
  split
  · rename_i hnone
    exact ⟨h, hnone⟩
  · rename_i entry hentry
    refine ⟨?_, OMap.get?_delete_self _ _⟩
    constructor
    · exact h.server
    · exact h.slot
    · intro k e he ho
      obtain ⟨he, hne⟩ := get?_closeEntry he ho
      rcases h.socket k e he ho with hreg | hbound
      · left
        have hp : p ≠ e.peerId := by
          rintro rfl
          rw [hentry] at hreg
          exact hne (Option.some.inj hreg).symm
        show (s.udpProbeSockets.delete p).get? e.peerId = some k
        rw [OMap.get?_delete_ne _ hp]
        exact hreg
      · exact Or.inr hbound
    · intro q k hq
      exact h.registered q k (OMap.get?_of_get?_delete hq).2
    · exact h.handlerIds

theorem tcpProbeServer_closeUdp (s : Prober) (p : PeerId) :
    (s.closeUdpProbeSocket p).tcpProbeServer = s.tcpProbeServer := by
  unfold Prober.closeUdpProbeSocket
  split <;> rfl

/-- **Cleanup.**  Nothing is remembered for the peer any more. -/
theorem Resources.cleanUp (h : Resources done s) (p : PeerId) :
    Resources (fun q => done q ∨ q = p) (s.cleanUp p) := by
  obtain ⟨h1, hslot⟩ := h.closeTcp p
  obtain ⟨h2, hsocket⟩ := h1.closeUdp p
  refine { h2 with slot := ?_, registered := ?_ }
  · rintro k q hq (hd | rfl)
    · exact h2.slot k q hq hd
    · rw [Prober.cleanUp, tcpProbeServer_closeUdp] at hq
      exact hslot k hq
  · rintro q k hq (hd | rfl)
    · exact h2.registered q k hq hd
    · have hq : ((s.closeTcpProbeServer q).closeUdpProbeSocket q).udpProbeSockets.get? q =
          some k := hq
      rw [hsocket] at hq
      cases hq

theorem mem_closeAll {l : List (PeerId × Nat)} {es : OMap Nat ProbeEntry} {k : Nat}
    {e : ProbeEntry} (h : (l.foldl (fun es e => Prober.closeEntry es e.2) es).get? k = some e)
    (ho : e.isOpen = true) : es.get? k = some e ∧ ∀ p, (p, k) ∉ l := by
  induction l generalizing es with
  | nil => exact ⟨h, fun _ hm => by cases hm⟩
  | cons x rest ih =>
    obtain ⟨h, hrest⟩ := ih h
    obtain ⟨h, hne⟩ := get?_closeEntry h ho
    refine ⟨h, ?_⟩
    intro p hm
    rcases List.mem_cons.mp hm with rfl | hm
    · exact hne rfl
    · exact hrest p hm

/-- **The end of the WebSocket.**  Nothing is remembered for any peer. -/
theorem Resources.reset (h : Resources done s) :
    Resources (fun _ => True) s.resetNegotiateState := by
  constructor
  · intro k server hget
    -- a server that is open is in the slot, and is stopped
    have hold : s.servers.get? k = some server ∧ ∀ x, s.tcpProbeServer ≠ some (k, x) := by
      have hget : s.stopServer.get? k = some server := hget
      unfold Prober.stopServer at hget
      split at hget
      · rename_i hnone
        exact ⟨hget, fun x hx => by rw [hnone] at hx; cases hx⟩
      · rename_i k' owner hslot
        obtain ⟨hne, hget⟩ := OMap.get?_of_get?_delete hget
        refine ⟨hget, ?_⟩
        intro x hx
        rw [hslot] at hx
        cases hx
        exact hne rfl
    exact absurd (h.server k server hold.1) (hold.2 _)
  · intro k p hp
    cases hp
  · intro k e he ho
    obtain ⟨he, hno⟩ := mem_closeAll he ho
    rcases h.socket k e he ho with hreg | hbound
    · exact absurd ((OMap.mem_entries _ _ _).mpr hreg) (hno _)
    · exact Or.inr hbound
  · intro p k hp
    cases hp
  · exact h.handlerIds

end

/-! ## The steps of the handlers -/

section
variable {done : PeerId → Prop} {s : Prober}

theorem Resources.finish (h : Resources done s) {id : Nat} {old : ProbeHandler}
    (hold : s.handlers.get? id = some old) (hne : ∀ p k, old ≠ .bound p k) (p : PeerId)
    (success : Bool) : Resources done (s.finishDirectGo id p success) := by
  have hclosed := ((h.over hold hne).closeUdp p).1
  exact hclosed.frame rfl rfl rfl (subEntries_refl _) (fun _ _ _ hi => hi) hclosed.handlerIds

theorem Resources.look (h : Resources done s) {id : Nat} {old : ProbeHandler}
    (hold : s.handlers.get? id = some old) (hne : ∀ p k, old ≠ .bound p k) (p : PeerId)
    (entry : Nat) : Resources done (s.lookResolved id p entry) := by
  unfold Prober.lookResolved
  split
  · exact h.finish hold hne p true
  · exact h.goOn hold hne _

theorem Resources.go (h : Resources done s) (id : Nat) (timeUp : Bool) :
    Resources done (s.goStep id timeUp) := by
  unfold Prober.goStep
  split
  · rename_i p entry ip port sent hid
    have hne : ∀ q k, ProbeHandler.sending p entry ip port sent ≠ .bound q k := by
      intro q k hc
      cases hc
    have hsent := h.sendNonce entry ip port
    have hid' : (s.sendNonce entry ip port).handlers.get? id =
        some (.sending p entry ip port sent) := by
      rw [handlers_sendNonce]
      exact hid
    dsimp only
    split
    · exact hsent.goOn hid' hne _
    · exact hsent.look hid' hne p entry
  · rename_i p entry hid
    have hne : ∀ q k, ProbeHandler.polling p entry ≠ .bound q k := by
      intro q k hc
      cases hc
    split
    · exact h.finish hid hne p false
    · exact h.look hid hne p entry
  · exact h

theorem Resources.fetched (h : Resources done s) (id : Nat) (ok : Bool) :
    Resources done (s.fetched id ok) := by
  unfold Prober.fetched
  split
  · rename_i p hid
    have hover := h.over hid fun q k hc => by cases hc
    exact hover.frame rfl rfl rfl (subEntries_refl _) (fun _ _ _ hi => hi) hover.handlerIds
  · exact h

theorem Resources.bound (h : Resources done s) (id : Nat) (bind : Except JsString Int) :
    Resources done (s.udpBound id bind) := by
  unfold Prober.udpBound
  split
  · rename_i p nonce hid
    have hne : ∀ q k, ProbeHandler.binding p nonce ≠ .bound q k := by
      intro q k hc
      cases hc
    split
    · -- the new socket is the handler's
      rename_i port
      constructor
      · exact h.server
      · exact h.slot
      · intro k e he ho
        rcases OMap.get?_set_cases he with ⟨rfl, rfl⟩ | ⟨-, hold⟩
        · exact Or.inr ⟨id, OMap.get?_set_self _ _ _⟩
        · rcases h.socket k e hold ho with hreg | ⟨i, hi⟩
          · exact Or.inl hreg
          · exact Or.inr ⟨i, bound_of_set hid hne hi⟩
      · exact h.registered
      · intro i x hx
        have hlt := h.ids_set hid i x hx
        show i < s.nextId + 1
        omega
    · have hover := h.over hid hne
      exact hover.frame rfl rfl rfl (subEntries_refl _) (fun _ _ _ hi => hi) hover.handlerIds
  · exact h

/-- A socket that is registered in time. -/
theorem Resources.resume (h : Resources done s) (id : Nat)
    (htime : ∀ p k, s.handlers.get? id = some (.bound p k) →
      s.udpProbeSockets.get? p = none ∧ ¬ done p) : Resources done (s.udpResume id) := by
  unfold Prober.udpResume
  split
  · rename_i p entry hid
    obtain ⟨hfree, hopen⟩ := htime p entry hid
    have hregistered : Resources done
        { s with udpProbeSockets := s.udpProbeSockets.set p entry
                 handlers := s.handlers.delete id } := by
      constructor
      · exact h.server
      · exact h.slot
      · intro k e he ho
        rcases h.socket k e he ho with hreg | ⟨i, hi⟩
        · left
          have hne : p ≠ e.peerId := by
            rintro rfl
            rw [hfree] at hreg
            cases hreg
          show (s.udpProbeSockets.set p entry).get? e.peerId = some k
          rw [OMap.get?_set_ne _ _ hne]
          exact hreg
        · by_cases hii : id = i
          · subst hii
            rw [hid] at hi
            cases hi
            exact Or.inl (OMap.get?_set_self _ _ _)
          · right
            refine ⟨i, ?_⟩
            show (s.handlers.delete id).get? i = _
            rw [OMap.get?_delete_ne _ hii]
            exact hi
      · intro q k hq
        rcases OMap.get?_set_cases hq with ⟨rfl, -⟩ | ⟨-, hq⟩
        · exact hopen
        · exact h.registered q k hq
      · exact h.ids_delete
    dsimp only
    split
    · exact hregistered
    · exact hregistered.frame rfl rfl rfl (subEntries_refl _) (fun _ _ _ hi => hi)
        hregistered.handlerIds
  · exact h

theorem Resources.datagram (h : Resources done s) (entry : Nat) (text : JsString) :
    Resources done (s.datagram entry text) := by
  refine h.frame rfl rfl rfl (subEntries_mapVals _ _ ?_) (fun _ _ _ hi => hi) h.handlerIds
  intro k e
  split <;> exact ⟨rfl, id⟩

theorem Resources.directGo (h : Resources done s) (p : PeerId) (ip : JsString) (port : Int)
    (nonce : JsString) : Resources done (s.handleProbeDirectGo p ip port nonce) := by
  unfold Prober.handleProbeDirectGo
  split
  · exact h
  · refine Resources.await (Resources.sendNonce ?_ _ ip port) _
    refine h.frame rfl rfl rfl (subEntries_mapVals _ _ ?_) (fun _ _ _ hi => hi) h.handlerIds
    intro k e
    split <;> exact ⟨rfl, id⟩

/-- A server that starts with the slot free. -/
theorem Resources.serve (h : Resources done s) {p : PeerId} (hp : ¬ done p) (nonce : JsString)
    (bind : Except JsString Int) (htime : ∀ port, bind = .ok port → s.tcpProbeServer = none) :
    Resources done (s.handleProbeRelayServe p nonce bind) := by
  unfold Prober.handleProbeRelayServe
  split
  · rename_i port
    have hfree := htime port rfl
    constructor
    · intro k server hget
      rcases OMap.get?_set_cases hget with ⟨rfl, rfl⟩ | ⟨-, hold⟩
      · rfl
      · have hk := h.server k server hold
        rw [hfree] at hk
        cases hk
    · intro k q hq
      cases hq
      exact hp
    · exact h.socket
    · exact h.registered
    · intro i x hx
      have hlt := h.handlerIds i x hx
      show i < s.nextId + 1
      omega
  · exact h.frame rfl rfl rfl (subEntries_refl _) (fun _ _ _ hi => hi) h.handlerIds

end

/-! ## Every run -/

/-- The peers that are cleaned up. -/
abbrev Prober.done (s : Prober) (p : PeerId) : Prop := cleanedUp s.log p = true

structure ProbeInv (s : Prober) : Prop where
  frozen : ∀ p, s.agent.monitor.isFrozen p = true → ¬ s.done p
  resources : Resources s.done s

section
variable {s : Prober}

/-- A message that ends nothing leaves the resources to the peers that had them. -/
theorem Resources.received (h : Resources s.done s) (now : Int) {msg : ServerMsg}
    (hgo : ∀ p, msg.about ≠ some (p, true)) :
    Resources (fun p => cleanedUp (.received msg :: s.log) p = true)
      { s with agent := s.agent.receive now msg, log := .received msg :: s.log } := by
  have hweak := h.weaken (fun p => cleanedUp (.received msg :: s.log) p = true) ?_
  · exact hweak.frame rfl rfl rfl (subEntries_refl _) (fun _ _ _ hi => hi) hweak.handlerIds
  · intro p hp
    rcases (cleanedUp_received_iff msg s.log p).mp hp with hend | ⟨hp, -⟩
    · exact absurd hend (hgo p)
    · exact hp

/-- A message that ends the negotiation of `p`, and cleans up. -/
theorem Resources.ended (h : Resources s.done s) (now : Int) {msg : ServerMsg} {p : PeerId}
    (hend : msg.about = some (p, true)) :
    Resources (fun q => cleanedUp (.received msg :: s.log) q = true)
      (Prober.cleanUp
        { s with agent := s.agent.receive now msg, log := .received msg :: s.log } p) := by
  have hframe : Resources s.done
      { s with agent := s.agent.receive now msg, log := .received msg :: s.log } :=
    h.frame rfl rfl rfl (subEntries_refl _) (fun _ _ _ hi => hi) h.handlerIds
  refine (hframe.cleanUp p).weaken _ ?_
  intro q hq
  rcases (cleanedUp_received_iff msg s.log q).mp hq with hq | ⟨hq, -⟩
  · rw [hend] at hq
    cases hq
    exact Or.inr rfl
  · exact Or.inl hq

theorem apart_handleNegotiateMessage (s : Prober) (msg : ServerMsg) (nonce : JsString)
    (bind : Except JsString Int) :
    (s.handleNegotiateMessage msg nonce bind).log = s.log ∧
      ∀ q, (s.handleNegotiateMessage msg nonce bind).agent.monitor.isFrozen q = true →
        s.agent.monitor.isFrozen q = true := by
  have happly : ∀ {t : Prober}, t.Apart s → t.log = s.log ∧
      ∀ q, t.agent.monitor.isFrozen q = true → s.agent.monitor.isFrozen q = true := by
    intro t ht
    refine ⟨ht.2, ?_⟩
    intro q hq
    rwa [ht.1] at hq
  cases msg with
  | probeRelayServe p =>
    cases bind with
    | ok port => exact happly ⟨rfl, rfl⟩
    | error text => exact ⟨rfl, fun q hq => (isFrozen_unfreezePeer hq).1⟩
  | probeRelayCheck p _ _ _ _ _ => exact happly ⟨rfl, rfl⟩
  | probeDirectStart p => exact happly ⟨rfl, rfl⟩
  | probeDirectGo p ip port peerNonce =>
    exact happly (beside_handleProbeDirectGo s p ip port peerNonce).1
  | probeVerdict p _ => exact happly (apart_cleanUp s p)
  | negotiateAbort p _ => exact happly (apart_cleanUp s p)
  | forceMode p _ => exact happly (apart_cleanUp s p)
  | peerRemoved p => exact happly ⟨rfl, rfl⟩

/-- **Messages.** -/
theorem probeInv_receive (h : ProbeInv s) (now : Int) (msg : ServerMsg) (nonce : JsString)
    (bind : Except JsString Int) (htime : InTime s (.receive now msg nonce bind)) :
    ProbeInv (s.receive now msg nonce bind) := by
  obtain ⟨hlog, hfrozen⟩ := apart_handleNegotiateMessage
    { s with agent := s.agent.receive now msg, log := .received msg :: s.log } msg nonce bind
  have hlog : (s.receive now msg nonce bind).log = .received msg :: s.log := hlog
  constructor
  · intro q hq hdone
    unfold Prober.done at hdone
    rw [hlog] at hdone
    rcases (cleanedUp_received_iff msg s.log q).mp hdone with hend | ⟨hdone, hgo⟩
    · rcases isFrozen_receive s.agent (hfrozen q hq) with hgo | ⟨-, hgo⟩
      · rw [hend] at hgo
        cases hgo
      · exact hgo hend
    · rcases isFrozen_receive s.agent (hfrozen q hq) with habout | ⟨hq, -⟩
      · exact hgo habout
      · exact h.frozen q hq hdone
  · unfold Prober.done
    rw [hlog]
    have hgoes : (∀ p, msg.about ≠ some (p, true)) → _ :=
      fun hgo => h.resources.received now hgo
    cases msg with
    | probeRelayServe p =>
      refine (hgoes fun q hq => by cases hq).serve ?_ nonce bind ?_
      · rw [cleanedUp_received (p := p) rfl]
        simp
      · rintro port rfl
        exact htime
    | probeRelayCheck p _ _ _ _ _ => exact (hgoes fun q hq => by cases hq).await _
    | probeDirectStart p => exact (hgoes fun q hq => by cases hq).await _
    | probeDirectGo p ip port peerNonce =>
      exact (hgoes fun q hq => by cases hq).directGo p ip port peerNonce
    | probeVerdict p _ => exact h.resources.ended now rfl
    | negotiateAbort p _ => exact h.resources.ended now rfl
    | forceMode p _ => exact h.resources.ended now rfl
    | peerRemoved p => exact hgoes fun q hq => by cases hq

/-- What leaves the agent and the log alone keeps the frozen peers in order. -/
theorem ProbeInv.apart (h : ProbeInv s) {s' : Prober} (hs : s'.Apart s)
    (hresources : Resources s.done s') : ProbeInv s' := by
  obtain ⟨hagent, hlog⟩ := hs
  constructor
  · unfold Prober.done
    rw [hagent, hlog]
    exact h.frozen
  · unfold Prober.done
    rw [hlog]
    exact hresources

/-- A step of the rest of the agent that freezes nothing. -/
theorem ProbeInv.agent (h : ProbeInv s) {a : Agent}
    (hfrozen : ∀ p, a.monitor.isFrozen p = true → s.agent.monitor.isFrozen p = true) :
    ProbeInv { s with agent := a } where
  frozen := fun p hp => h.frozen p (hfrozen p hp)
  resources := h.resources.frame rfl rfl rfl (subEntries_refl _) (fun _ _ _ hi => hi)
    h.resources.handlerIds

theorem probeInv_udpBound (h : ProbeInv s) (id : Nat) (bind : Except JsString Int) :
    ProbeInv (s.udpBound id bind) := by
  have hresources := h.resources.bound id bind
  revert hresources
  unfold Prober.udpBound
  split
  · split
    · exact fun hresources => ⟨h.frozen, hresources⟩
    · exact fun hresources => ⟨fun q hq => h.frozen q (isFrozen_unfreezePeer hq).1, hresources⟩
  · exact fun hresources => ⟨h.frozen, hresources⟩

theorem probeInv_wsClose (h : ProbeInv s) : ProbeInv (probeStep s .wsClose) where
  frozen := by
    intro p hp
    cases hp
  resources := by
    have hreset := h.resources.reset.weaken
      (fun p => cleanedUp (.disconnected :: s.log) p = true) fun _ _ => trivial
    exact hreset.frame rfl rfl rfl (subEntries_refl _) (fun _ _ _ hi => hi) hreset.handlerIds

theorem frozen_awgApplied (a : Agent) (id : Nat) : (a.awgApplied id).monitor = a.monitor := by
  unfold Agent.awgApplied
  split
  · rfl
  · split <;> rfl

theorem frozen_switchDone (a : Agent) (id : Nat) :
    (a.switchDone id).monitor.frozenPeers = a.monitor.frozenPeers := by
  unfold Agent.switchDone
  split
  · rfl
  · split <;> rfl

/-- **One step.** -/
theorem probeInv_step (h : ProbeInv s) (e : ProbeEvent) (htime : InTime s e) :
    ProbeInv (probeStep s e) := by
  cases e with
  | receive now msg nonce bind => exact probeInv_receive h now msg nonce bind htime
  | fetched id ok => exact h.apart (beside_fetched s id ok).1 (h.resources.fetched id ok)
  | udpBound id bind => exact probeInv_udpBound h id bind
  | udpResume id =>
    refine h.apart (beside_udpResume s id).1 (h.resources.resume id ?_)
    intro p k hid
    obtain ⟨hfree, hopen⟩ := htime p k hid
    exact ⟨hfree, by simp [hopen]⟩
  | goStep id timeUp => exact h.apart (beside_goStep s id timeUp).1 (h.resources.go id timeUp)
  | datagram entry text => exact h.apart ⟨rfl, rfl⟩ (h.resources.datagram entry text)
  | wsClose => exact probeInv_wsClose h
  | awgApplied id =>
    refine h.agent fun p hp => ?_
    rwa [frozen_awgApplied] at hp
  | switchDone id =>
    refine h.agent fun p hp => ?_
    unfold Monitor.isFrozen at hp ⊢
    rwa [frozen_switchDone] at hp
  | startPoll config => exact h.agent fun p hp => hp
  | pollStep id ok draws => exact h.agent fun p hp => isFrozen_pollStep s.agent hp
  | tick now => exact h.agent fun p hp => isFrozen_unfreezeStuck hp

theorem probeInv_boot (range : PortRange) (host : Host) (file : MappingFile)
    (selfMeshIpv4 : JsString) : ProbeInv (.boot range host file selfMeshIpv4) where
  frozen := by
    intro p hp
    cases hp
  resources := by
    constructor <;> intro _ _ hget <;> cases hget

end

/-- With no handler in flight the invariant is the claim. -/
theorem released_of_probeInv {s : Prober} (h : ProbeInv s) : Released s := by
  intro hquiet p hp
  refine ⟨?_, ?_, ?_⟩
  · by_contra hfrozen
    exact h.frozen p (by simpa using hfrozen) hp
  · rintro k server hk rfl
    exact h.resources.slot k _ (h.resources.server k server hk) hp
  · rintro k e hk ho rfl
    rcases h.resources.socket k e hk ho with hreg | ⟨id, hid⟩
    · exact h.resources.registered _ k hreg hp
    · have hmem := (OMap.mem_entries _ _ _).mpr hid
      rw [hquiet.1] at hmem
      cases hmem

/-- **Probe resources are released.**  In every run whose servers and sockets are opened in
time. -/
theorem probes_released (range : PortRange) (host : Host) (file : MappingFile)
    (selfMeshIpv4 : JsString) (es : List ProbeEvent)
    (htime : Along probeStep InTime (.boot range host file selfMeshIpv4) es) :
    Released (run probeStep (.boot range host file selfMeshIpv4) es) :=
  released_of_probeInv (run_invariant_along probeStep (I := ProbeInv)
    (fun _ e h ht => probeInv_step h e ht) (probeInv_boot range host file selfMeshIpv4) htime)

/-- An agent with the mesh address `10.9.0.1` that has just started. -/
def freshProber : Prober :=
  .boot ⟨51820, 52819⟩ ⟨[], .empty⟩ .empty [49, 48, 46, 57, 46, 48, 46, 49]

/-- A relay probe with peer `a`, ended by a verdict, and a direct probe with `b`, cut off by
the end of the WebSocket. -/
def timelyRun : List ProbeEvent :=
  [.receive 0 (.probeRelayServe [97]) [110] (.ok 40000),
   .receive 0 (.probeDirectStart [98]) [111] (.error []),
   .udpBound 1 (.ok 40001), .udpResume 1,
   .receive 1 (.probeVerdict [97] .stay) [] (.error []),
   .wsClose]

theorem probes_released_timelyRun : Released (run probeStep freshProber timelyRun) := by
  refine probes_released ⟨51820, 52819⟩ ⟨[], .empty⟩ .empty [49, 48, 46, 57, 46, 48, 46, 49]
    timelyRun ⟨rfl, trivial, trivial, ?_, trivial, trivial, trivial⟩
  intro p k hid
  cases hid
  decide

/-- A second server takes the slot of the first, and both negotiations are aborted. -/
def twoServersRun : List ProbeEvent :=
  [.receive 0 (.probeRelayServe [97]) [110] (.ok 40000),
   .receive 0 (.probeRelayServe [98]) [111] (.ok 40001),
   .receive 1 (.negotiateAbort [97] .timeout) [] (.error []),
   .receive 1 (.negotiateAbort [98] .timeout) [] (.error [])]

/-- A socket is registered after its negotiation has been aborted. -/
def lateSocketRun : List ProbeEvent :=
  [.receive 0 (.probeDirectStart [98]) [111] (.error []),
   .receive 1 (.negotiateAbort [98] .timeout) [] (.error []),
   .udpBound 0 (.ok 40001), .udpResume 0]

/-- **Probe resources are not always released.**  A server outlives its negotiation, and so
does a socket. -/
theorem probes_leak :
    ¬ Released (run probeStep freshProber twoServersRun) ∧
      ¬ Released (run probeStep freshProber lateSocketRun) := by
  constructor
  · intro h
    obtain ⟨-, hserver, -⟩ := h (by decide) [97] (by decide)
    exact hserver 0 ⟨[97], 40000, [110]⟩ (by decide) rfl
  · intro h
    obtain ⟨-, -, hsocket⟩ := h (by decide) [98] (by decide)
    exact hsocket 1 ⟨[98], 40001, [111], none, false, true⟩ (by decide) rfl rfl

end Meshezia
