import Meshezia.Server.Outcome
import Meshezia.Server.Reaper

/-!
# What the messages of a probe rest on

The server passes on what agents tell it: the address and the nonce of a ready go into the
check or the go to the other side, and successful results into a verdict to switch.  So
whatever is known of the messages that arrive (`C`) is known of those behind a check, a go and
a verdict (`Vouched`), of the ready of a direct probe also while it waits for the other one:

    VouchInv C s → C of the message that arrives → VouchInv C (step cfg s e)   (vouched_step)

A probe message or a verdict is sent for a negotiation, never without one (`noBare_step`).
-/

namespace Meshezia

open ServerState Relation

/-! ## Probe messages are sent for a negotiation -/

/-- A message of a probe: its verdict too, but not its abort. -/
def ServerMsg.ofProbe : ServerMsg → Bool
  | .probeVerdict _ _ => true
  | msg => msg.isProbe

/-- A message of a probe that is sent for no negotiation. -/
def TraceItem.isBare : TraceItem → Bool
  | .sent _ _ msg none => msg.ofProbe
  | _ => false

/-- From `s` to `s'` every message of a probe is sent for a negotiation. -/
def NoBare (s s' : ServerState) : Prop :=
  ∀ it ∈ s'.trace, it ∈ s.trace ∨ it.isBare = false

section
variable {s s' s'' : ServerState}

theorem NoBare.refl (s : ServerState) : NoBare s s := fun _ h => Or.inl h

theorem NoBare.trans (h : NoBare s s') (h' : NoBare s' s'') : NoBare s s'' :=
  fun it hit => (h' it hit).elim (h it) Or.inr

theorem noBare_of_trace (h : s'.trace = s.trace) : NoBare s s' :=
  fun _ hit => Or.inl (h ▸ hit)

/-- A loop, whose body sends no such message. -/
theorem noBare_foldl {α : Type} {f : ServerState → α → ServerState} (l : List α)
    (hf : ∀ s, ∀ a ∈ l, NoBare s (f s a)) (s : ServerState) : NoBare s (l.foldl f s) :=
  foldl_invariant (I := NoBare s) f l (fun s' a ha h => h.trans (hf s' a ha)) (.refl s)

variable (s)

theorem noBare_note {it : TraceItem} (h : it.isBare = false) : NoBare s (s.note it) := by
  intro x hx
  rcases List.mem_cons.mp hx with rfl | hx
  · exact Or.inr h
  · exact Or.inl hx

theorem noBare_sendMsg {neg : Option Nat} {msg : ServerMsg}
    (h : neg ≠ none ∨ msg.ofProbe = false) (p : PeerId) : NoBare s (s.sendMsg neg p msg) := by
  unfold ServerState.sendMsg
  split
  · refine noBare_note s ?_
    cases neg with
    | none => exact h.resolve_left (fun hne => hne rfl)
    | some n => rfl
  · exact .refl s

theorem noBare_sendIfConnected {neg : Option Nat} {msg : ServerMsg}
    (h : neg ≠ none ∨ msg.ofProbe = false) (p : PeerId) :
    NoBare s (s.sendIfConnected neg p msg) := by
  unfold sendIfConnected
  split
  · exact noBare_sendMsg s h p
  · exact .refl s

theorem trace_updateHealth (key : PairKey) (f : PairHealth → PairHealth) :
    (s.updateHealth key f).trace = s.trace := by
  unfold updateHealth
  split <;> rfl

theorem trace_updateHealthRef (r : HealthRef) (f : PairHealth → PairHealth) :
    (s.updateHealthRef r f).trace = s.trace := by
  unfold updateHealthRef
  split
  · split <;> rfl
  · rfl

theorem noBare_finish (key : PairKey) : NoBare s (s.finishNegotiation key) :=
  noBare_of_trace (trace_finishNegotiation s key)

theorem noBare_abortNegotiation (key : PairKey) (reason : AbortReason) :
    NoBare s (s.abortNegotiation key reason) := by
  unfold abortNegotiation
  split
  · exact .refl s
  · exact ((noBare_sendIfConnected s (Or.inl (by simp)) _).trans
      (noBare_sendIfConnected _ (Or.inl (by simp)) _)).trans (noBare_finish _ key)

theorem noBare_abortPeerNegotiations (p : PeerId) (reason : AbortReason) :
    NoBare s (s.abortPeerNegotiations p reason) := by
  refine noBare_foldl _ (fun s e _ => ?_) s
  unfold abortPeerEntry
  dsimp only
  split
  · exact (noBare_sendIfConnected s (Or.inl (by simp)) _).trans (noBare_finish _ _)
  · exact .refl s

theorem noBare_sendVerdict (neg : NegotiationState) (action : VerdictAction) :
    NoBare s (s.sendVerdict neg action) :=
  (noBare_sendMsg s (Or.inl (by simp)) _).trans (noBare_sendMsg _ (Or.inl (by simp)) _)

/-- A negotiation starts: its item, and its first message or messages. -/
theorem noBare_started {key : PairKey} {nid : Nat} {type : NegotiationType}
    {now backoff : Int} (h : s'.trace = .started key nid type now backoff :: s.trace) :
    NoBare s s' := by
  intro it hit
  rw [h] at hit
  rcases List.mem_cons.mp hit with rfl | hit
  · exact Or.inr rfl
  · exact Or.inl hit

theorem noBare_initiateRelayProbe (key : PairKey) (health : PairHealth) (now : Int) :
    NoBare s (s.initiateRelayProbe key health now) := by
  unfold initiateRelayProbe
  dsimp only
  exact NoBare.trans (noBare_started s rfl) (noBare_sendMsg _ (Or.inl (by simp)) _)

theorem noBare_initiateDirectProbe (key : PairKey) (health : PairHealth) (now : Int) :
    NoBare s (s.initiateDirectProbe key health now) := by
  unfold initiateDirectProbe
  dsimp only
  exact NoBare.trans (NoBare.trans (noBare_started s rfl)
    (noBare_sendMsg _ (Or.inl (by simp)) _)) (noBare_sendMsg _ (Or.inl (by simp)) _)

theorem noBare_shouldInitiate (cfg : Config) (a b : PeerId) (key : PairKey)
    (health : PairHealth) : NoBare s (shouldInitiateRelayProbe cfg s a b key health).2 := by
  refine noBare_of_trace ?_
  unfold shouldInitiateRelayProbe
  dsimp only
  (repeat' split) <;> rfl

theorem noBare_checkStreaks (cfg : Config) (p q : PeerId) (key : PairKey)
    (health : PairHealth) (now : Int) :
    NoBare s (checkStreaks cfg s p q key health now) := by
  unfold checkStreaks
  split
  · dsimp only
    split
    · exact (noBare_shouldInitiate s cfg p q key health).trans
        (noBare_initiateRelayProbe _ key health now)
    · exact noBare_shouldInitiate s cfg p q key health
  · exact .refl s

theorem noBare_getOrCreateHealth (cfg : Config) (key : PairKey) :
    NoBare s (getOrCreateHealth cfg s key).2 := by
  unfold getOrCreateHealth
  split
  · exact .refl s
  · exact noBare_note s rfl

theorem noBare_handleHealthReport (cfg : Config) (p : PeerId) (reports : List HealthReport)
    (now : Int) : NoBare s (s.handleHealthReport cfg p reports now) := by
  unfold handleHealthReport
  dsimp only
  refine NoBare.trans (noBare_of_trace rfl) (noBare_foldl reports
    (fun s report _ => ?_) { s with db := upsertReports s.db p reports now })
  have hcreated := noBare_getOrCreateHealth s cfg (pairKey p report.peerId)
  unfold handleReportEntry
  dsimp only
  generalize getOrCreateHealth cfg s (pairKey p report.peerId) = created at hcreated
  have hnoted := hcreated.trans (@noBare_note created.2
    (.entry p report.peerId now report.mode report.rxAlive) rfl)
  split
  · exact hnoted.trans (noBare_of_trace rfl)
  · split
    · exact hnoted.trans (noBare_of_trace rfl)
    · refine (hnoted.trans ?_).trans (noBare_checkStreaks _ cfg p report.peerId _ _ now)
      exact noBare_of_trace rfl

theorem noBare_probeRelayReady (p q : PeerId) (ip : JsString) (port : Int) (nonce : JsString) :
    NoBare s (s.handleProbeRelayReady p q ip port nonce) := by
  unfold handleProbeRelayReady
  dsimp only
  split
  · exact .refl s
  · split
    · exact .refl s
    · split
      · exact .refl s
      · split
        · exact noBare_sendMsg s (Or.inl (by simp)) _
        · exact noBare_abortNegotiation s _ _

theorem noBare_probeRelayResult (p q : PeerId) (success : Bool) :
    NoBare s (s.handleProbeRelayResult p q success) := by
  unfold handleProbeRelayResult
  dsimp only
  split
  · exact .refl s
  · split
    · exact .refl s
    · split
      · exact .refl s
      · refine NoBare.trans ?_ (noBare_of_trace (trace_updateHealth _ _ _))
        exact ((noBare_sendVerdict s _ _).trans (noBare_finish _ _)).trans
          (noBare_note _ rfl)

theorem noBare_probeDirectReady (p q : PeerId) (port : Int) (nonce : JsString) :
    NoBare s (s.handleProbeDirectReady p q port nonce) := by
  unfold handleProbeDirectReady
  dsimp only
  split
  · exact .refl s
  · split
    · exact .refl s
    · generalize (@ite NegotiationState (p = (parsePairKey (pairKey p q)).1) _ _ _) = neg'
      refine @NoBare.trans s { s with
        activeNegotiations := s.activeNegotiations.set (pairKey p q) neg' } _
        (noBare_of_trace rfl) ?_
      split
      · unfold sendDirectGo
        dsimp only
        split
        · refine NoBare.trans ?_ (noBare_of_trace rfl)
          refine NoBare.trans ?_ (noBare_sendMsg _ (Or.inl (by simp)) _)
          refine NoBare.trans ?_ (noBare_sendMsg _ (Or.inl (by simp)) _)
          exact noBare_of_trace (by rw [clearTimeout_eq])
        · refine NoBare.trans ?_ (noBare_abortNegotiation _ _ _)
          exact noBare_of_trace (by rw [clearTimeout_eq])
      · exact .refl _

theorem noBare_probeDirectResult (cfg : Config) (p q : PeerId) (success : Bool) :
    NoBare s (s.handleProbeDirectResult cfg p q success) := by
  unfold handleProbeDirectResult
  dsimp only
  split
  · exact .refl s
  · split
    · exact .refl s
    · generalize (@ite NegotiationState (p = (parsePairKey (pairKey p q)).1) _ _ _) = neg'
      refine @NoBare.trans s { s with
        activeNegotiations := s.activeNegotiations.set (pairKey p q) neg' } _
        (noBare_of_trace rfl) ?_
      split
      · refine NoBare.trans ?_ (noBare_of_trace (trace_updateHealth _ _ _))
        exact (noBare_sendVerdict _ _ _).trans (noBare_finish _ _)
      · exact .refl _

theorem noBare_probeError (p q : PeerId) : NoBare s (s.handleProbeError p q) := by
  unfold handleProbeError
  dsimp only
  split
  · exact .refl s
  · refine NoBare.trans ?_ (noBare_abortNegotiation _ _ _)
    split
    · exact noBare_of_trace (trace_updateHealth _ _ _)
    · exact .refl s

theorem noBare_handleForceMode (cfg : Config) (a b : PeerId) (mode : ForceCommand) :
    NoBare s (s.handleForceMode cfg a b mode) := by
  have habort : NoBare s (s.abortForForce (pairKey a b)) := by
    unfold abortForForce
    split
    · exact .refl s
    · exact ((noBare_sendMsg s (Or.inl (by simp)) _).trans
        (noBare_sendMsg _ (Or.inl (by simp)) _)).trans (noBare_finish _ _)
  unfold handleForceMode
  dsimp only
  have hcreated := habort.trans (noBare_getOrCreateHealth _ cfg (pairKey a b))
  generalize getOrCreateHealth cfg (s.abortForForce (pairKey a b)) (pairKey a b) = created
    at hcreated
  refine NoBare.trans ?_ (noBare_sendMsg _ (Or.inr rfl) _)
  refine NoBare.trans ?_ (noBare_sendMsg _ (Or.inr rfl) _)
  exact (hcreated.trans (noBare_of_trace rfl)).trans (noBare_note _ rfl)

theorem noBare_fireTimer (id : Nat) : NoBare s (s.fireTimer id) := by
  unfold fireTimer
  split
  · exact .refl s
  · rename_i t _
    refine @NoBare.trans s { s with timers := s.timers.delete id } _
      (noBare_of_trace rfl) ?_
    generalize { s with timers := s.timers.delete id } = s'
    cases t.callback with
    | relayProbeTimeout key => exact noBare_abortNegotiation s' key .timeout
    | directReadyTimeout key a b ref =>
      refine NoBare.trans ?_ (noBare_of_trace (trace_updateHealthRef _ _ _))
      refine NoBare.trans ?_ (noBare_finish _ _)
      exact (noBare_sendIfConnected s' (Or.inl (by simp)) _).trans
        (noBare_sendIfConnected _ (Or.inl (by simp)) _)
    | directResultTimeout key a b =>
      refine NoBare.trans ?_ (noBare_of_trace (trace_updateHealth _ _ _))
      refine NoBare.trans ?_ (noBare_finish _ _)
      exact (noBare_sendMsg s' (Or.inl (by simp)) _).trans
        (noBare_sendMsg _ (Or.inl (by simp)) _)

theorem noBare_staleSweep (cfg : Config) (now : Int) :
    NoBare s (s.staleSweep cfg now) := by
  unfold staleSweep
  dsimp only
  refine NoBare.trans (noBare_foldl s.activeNegotiations.entries (fun s e _ => ?_) s)
    (noBare_foldl _ (fun s row _ => ?_) _)
  · unfold abortIfStale
    split
    · exact noBare_abortNegotiation s _ _
    · exact .refl s
  · unfold checkDirectProbe
    dsimp only
    split
    · exact .refl s
    · (repeat' split) <;> first | exact .refl s | exact noBare_initiateDirectProbe s _ _ now

theorem noBare_reap (now : Int) (deleteFails : Bool) :
    NoBare s (s.reap now deleteFails) := by
  have hforget : NoBare s ((expiredPeers s.db now).foldl forgetPeer s) :=
    noBare_foldl _ (fun s e _ => (noBare_abortPeerNegotiations s e.1 .peerRemoved).trans
      (noBare_of_trace rfl)) s
  unfold ServerState.reap
  dsimp only
  split
  · exact hforget
  · generalize (expiredPeers s.db now).foldl forgetPeer s = s' at hforget
    refine (hforget.trans (noBare_of_trace rfl)).trans
      (noBare_foldl _ (fun s e _ => ?_) _)
    unfold notifyRemoved
    exact noBare_foldl _ (fun s d _ => noBare_foldl _
      (fun s p _ => noBare_sendMsg s (Or.inr rfl) p) s) s

theorem noBare_handleNegotiateMessage (cfg : Config) (p : PeerId) (now : Int)
    (msg : AgentMsg) : NoBare s (s.handleNegotiateMessage cfg p now msg) := by
  cases msg with
  | healthReport reports => exact noBare_handleHealthReport s cfg p reports now
  | probeRelayReady q ip port nonce => exact noBare_probeRelayReady s p q ip port nonce
  | probeRelayResult q success => exact noBare_probeRelayResult s p q success
  | probeDirectReady q port nonce => exact noBare_probeDirectReady s p q port nonce
  | probeDirectResult q success => exact noBare_probeDirectResult s cfg p q success
  | probeError q error => exact noBare_probeError s p q

/-- **No message of a probe without a negotiation**, whatever happens. -/
theorem noBare_step (cfg : Config) (e : Event) : NoBare s (step cfg s e) := by
  cases e with
  | «open» ws => exact noBare_of_trace rfl
  | close ws =>
    exact NoBare.trans (noBare_of_trace rfl) (noBare_abortPeerNegotiations
      { s with connections := wsClose s.connections ws } ws.peerId .wsReset)
  | message ws now msg =>
    show NoBare s (s.handleMessage cfg ws now msg)
    unfold handleMessage
    cases msg.peer? with
    | none => exact noBare_handleNegotiateMessage s cfg ws.peerId now msg
    | some q =>
      refine NoBare.trans (noBare_note s ?_)
        (noBare_handleNegotiateMessage _ cfg ws.peerId now msg)
      rfl
  | timer id => exact noBare_fireTimer s id
  | sweep now => exact noBare_staleSweep s cfg now
  | reap now deleteFails => exact noBare_reap s now deleteFails
  | forceMode a b mode =>
    show NoBare s (s.postForceMode cfg a b mode)
    rw [postForceMode_eq]
    split
    · exact noBare_handleForceMode s cfg a b mode
    · exact .refl s
  | api write => exact noBare_of_trace rfl
  | restart => exact noBare_of_trace rfl

end

/-! ## What stands behind a message -/

/-- What is known of the messages that arrive is known of those behind a message to `p`. -/
def ServerMsg.Vouched (C : PeerId → AgentMsg → Prop) (p : PeerId) : ServerMsg → Prop
  | .probeRelayCheck q ip port nonce _ _ => C q (.probeRelayReady p ip port nonce)
  | .probeDirectGo q _ port nonce => C q (.probeDirectReady p port nonce)
  | .probeVerdict q .switchRelay => C p (.probeRelayResult q true) ∨ C q (.probeRelayResult p true)
  | .probeVerdict q .switchDirect =>
    C p (.probeDirectResult q true) ∧ C q (.probeDirectResult p true)
  | _ => True

/-- And of those behind what is sent for a negotiation. -/
def TraceItem.Vouched (C : PeerId → AgentMsg → Prop) : TraceItem → Prop
  | .sent p _ msg (some _) => msg.Vouched C p
  | _ => True

/-- And of those that a negotiation has stored. -/
structure NegVouched (C : PeerId → AgentMsg → Prop) (neg : NegotiationState) : Prop where
  readyA : ∀ r, neg.readyA = some r → C neg.peerA (.probeDirectReady neg.peerB r.udpPort r.nonce)
  readyB : ∀ r, neg.readyB = some r → C neg.peerB (.probeDirectReady neg.peerA r.udpPort r.nonce)
  resultA : neg.resultA = some true → C neg.peerA (.probeDirectResult neg.peerB true)
  resultB : neg.resultB = some true → C neg.peerB (.probeDirectResult neg.peerA true)

structure VouchInv (C : PeerId → AgentMsg → Prop) (s : ServerState) : Prop where
  negs : ∀ k neg, s.activeNegotiations.get? k = some neg → NegVouched C neg
  items : ∀ it ∈ s.trace, it.Vouched C

section
variable {C C' : PeerId → AgentMsg → Prop} {D : Nat → PeerId → AbortReason → Prop}
  {F : TraceItem → Prop} {s s' : ServerState} {neg : NegotiationState} {p q : PeerId}
  {msg : AgentMsg}

/-! ## More may be known later -/

theorem ServerMsg.Vouched.imp (hC : ∀ p msg, C p msg → C' p msg) {msg : ServerMsg}
    (h : msg.Vouched C p) : msg.Vouched C' p := by
  cases msg with
  | probeRelayCheck q ip port nonce clientPubkey serverPubkey => exact hC _ _ h
  | probeDirectGo q ip port nonce => exact hC _ _ h
  | probeVerdict q action =>
    cases action with
    | switchRelay => exact Or.imp (hC _ _) (hC _ _) h
    | switchDirect => exact And.imp (hC _ _) (hC _ _) h
    | stay => trivial
  | _ => trivial

theorem NegVouched.imp (hC : ∀ p msg, C p msg → C' p msg) (h : NegVouched C neg) :
    NegVouched C' neg :=
  ⟨fun r hr => hC _ _ (h.readyA r hr), fun r hr => hC _ _ (h.readyB r hr),
    fun hr => hC _ _ (h.resultA hr), fun hr => hC _ _ (h.resultB hr)⟩

theorem VouchInv.imp (hC : ∀ p msg, C p msg → C' p msg) (h : VouchInv C s) : VouchInv C' s := by
  refine ⟨fun k neg hn => (h.negs k neg hn).imp hC, fun it hit => ?_⟩
  have hold := h.items it hit
  unfold TraceItem.Vouched at hold ⊢
  split
  · exact ServerMsg.Vouched.imp hC hold
  · trivial

/-! ## One step of the table -/

theorem vouched_of_untagged {it : TraceItem} (h : it.tag = none) : it.Vouched C := by
  unfold TraceItem.Vouched
  split
  · cases h
  · trivial

theorem vouched_sentItems {c : Connections} {neg : Option Nat} {msg : ServerMsg}
    {it : TraceItem} (hit : it ∈ sentItems c neg p msg) (h : msg.Vouched C p) : it.Vouched C := by
  obtain ⟨ws, rfl⟩ := mem_sentItems hit
  cases neg with
  | none => trivial
  | some n => exact h

/-- What a message from `p` about `q` stores is known. -/
theorem NegVouched.store (h : NegVouched C neg) (hkeyed : NegKeyed (pairKey p q) neg)
    (hknown : C p msg) (hpeer : msg.peer? = some q) :
    NegVouched C (neg.store (isSideA p (pairKey p q)) msg) := by
  cases msg with
  | probeDirectReady x port nonce =>
    cases hpeer
    rcases hkeyed.side with ⟨rfl, rfl, hside⟩ | ⟨rfl, rfl, hside⟩ <;> rw [hside]
    · exact { h with readyA := fun r hr => by cases hr; exact hknown }
    · exact { h with readyB := fun r hr => by cases hr; exact hknown }
  | probeDirectResult x success =>
    cases hpeer
    rcases hkeyed.side with ⟨rfl, rfl, hside⟩ | ⟨rfl, rfl, hside⟩ <;> rw [hside]
    · exact { h with resultA := fun hr => by cases hr; exact hknown }
    · exact { h with resultB := fun hr => by cases hr; exact hknown }
  | _ => exact h

/-- The client node of a probe is the peer that the ready of its server node is about. -/
theorem client_of_counts (hi : TableInv s) {client : PeerId} {ip : JsString} {port : Int}
    {nonce : JsString}
    (counts : Counts (fun _ => C) s p q (.probeRelayReady q ip port nonce) neg)
    (role : neg.clientNode = some client) : client = q := by
  have hkeyed := hi.keyed _ neg counts.active
  have hrelay : neg.type = .relayProbe ∧ neg.serverNode = some p := by
    simpa [AgentMsg.countsFor] using counts.counts
  rcases hkeyed.side with ⟨hp, hq, -⟩ | ⟨hp, hq, -⟩ <;>
    rcases hkeyed.roles hrelay.1 with ⟨hserver, hc⟩ | ⟨hserver, hc⟩ <;>
    rw [role] at hc <;> rw [hrelay.2] at hserver <;>
    have hserver := Option.some.inj hserver <;> have hc := Option.some.inj hc
  · exact hc.trans hq.symm
  · exact absurd (hp.symm.trans hserver) hkeyed.ne
  · exact absurd (hserver.symm.trans hp) hkeyed.ne
  · exact hc.trans hq.symm

/-- The messages at the end of a negotiation. -/
theorem vouched_ending (hi : TableInv s) (h : NegVouched C neg) {key : PairKey}
    {receipt : Option (PeerId × AgentMsg)} {ending : Ending}
    (active : s.activeNegotiations.get? key = some neg)
    (counts : ∀ p msg, receipt = some (p, msg) →
      ∃ q, key = pairKey p q ∧ Counts (fun _ => C) s p q msg neg)
    (allowed : ending.Allowed D neg receipt) {it : TraceItem}
    (hit : it ∈ ending.items s.connections neg) : it.Vouched C := by
  have hboth : ∀ {m m' : ServerMsg}, it ∈ sentItems s.connections (some neg.nid) neg.peerB m ++
        sentItems s.connections (some neg.nid) neg.peerA m' →
      m.Vouched C neg.peerB → m'.Vouched C neg.peerA → it.Vouched C := by
    intro m m' hmem hm hm'
    exact (List.mem_append.mp hmem).elim (fun hmem => vouched_sentItems hmem hm)
      fun hmem => vouched_sentItems hmem hm'
  have hkeyed := hi.keyed key neg active
  cases ending with
  | abort reason => exact hboth hit trivial trivial
  | abortOther x reason => exact vouched_sentItems hit trivial
  | verdict action =>
    cases action with
    | stay => exact hboth hit trivial trivial
    | switchRelay =>
      obtain ⟨-, p, q, rfl⟩ := allowed
      obtain ⟨x, rfl, hcounts⟩ := counts p _ rfl
      obtain rfl : q = x := Option.some.inj hcounts.peer
      have hknown := hcounts.known
      rcases hkeyed.side with ⟨rfl, rfl, -⟩ | ⟨rfl, rfl, -⟩
      · exact hboth hit (Or.inr hknown) (Or.inl hknown)
      · exact hboth hit (Or.inl hknown) (Or.inr hknown)
    | switchDirect =>
      obtain ⟨-, p, q, rfl, hA, hB⟩ := allowed
      obtain ⟨x, rfl, hcounts⟩ := counts p _ rfl
      obtain rfl : q = x := Option.some.inj hcounts.peer
      have hstored := h.store hkeyed hcounts.known hcounts.peer
      rw [hkeyed.pairKey_eq] at hA hB
      have hresA := hstored.resultA hA
      have hresB := hstored.resultB hB
      rw [store_peerA, store_peerB] at hresA hresB
      exact hboth hit ⟨hresB, hresA⟩ ⟨hresA, hresB⟩

/-- **One step.** -/
theorem TableStep.vouched (step : TableStep (fun _ => C) D F s s') (h : VouchInv C s)
    (hi : TableInv s) : VouchInv C s' := by
  have hadded : ∀ items, s'.trace = items ++ s.trace → (∀ it ∈ items, it.Vouched C) →
      ∀ it ∈ s'.trace, it.Vouched C := by
    intro items htrace hitems it hit
    rw [htrace] at hit
    exact (List.mem_append.mp hit).elim (hitems it) (h.items it)
  cases step with
  | quiet items untagged active timers ref trace connIds connected health =>
    refine ⟨fun k neg hn => h.negs k neg (active ▸ hn), hadded items trace fun it hit => ?_⟩
    exact vouched_of_untagged (untagged it hit).1
  | ignored p msg idle =>
    exact ⟨h.negs, hadded [_] rfl fun it hit => by rw [List.mem_singleton.mp hit]; trivial⟩
  | stored p q msg neg neg' counts direct store pending =>
    refine ⟨fun k n hn => ?_,
      hadded [_] rfl fun it hit => by rw [List.mem_singleton.mp hit]; trivial⟩
    rcases OMap.get?_set_cases hn with ⟨-, rfl⟩ | ⟨-, hn⟩
    · rw [store]
      exact (h.negs _ neg counts.active).store (hi.keyed _ neg counts.active) counts.known
        counts.peer
    · exact h.negs k n hn
  | checked p q neg client ip port nonce clientPubkey serverPubkey counts role =>
    obtain rfl := client_of_counts hi counts role
    refine ⟨h.negs, fun it hit => ?_⟩
    rcases List.mem_append.mp hit with hit | hit
    · exact vouched_sentItems hit counts.known
    · rcases List.mem_cons.mp hit with rfl | hit
      · trivial
      · exact h.items it hit
  | went p q udpPort nonce neg neg' infoA infoB readyA readyB counts store ready =>
    have hstored : NegVouched C neg' := by
      rw [store]
      exact (h.negs _ neg counts.active).store (hi.keyed _ neg counts.active) counts.known
        counts.peer
    refine ⟨fun k n hn => ?_, fun it hit => ?_⟩
    · rcases OMap.get?_set_cases hn with ⟨-, rfl⟩ | ⟨-, hn⟩
      · exact { hstored with }
      · exact h.negs k n hn
    · rcases List.mem_append.mp hit with hit | hit
      · rcases List.mem_append.mp hit with hit | hit
        · exact vouched_sentItems hit (hstored.readyA readyA ready.1)
        · exact vouched_sentItems hit (hstored.readyB readyB ready.2)
      · rcases List.mem_cons.mp hit with rfl | hit
        · trivial
        · exact h.items it hit
  | started key neg callback delay now backoff items may =>
    obtain ⟨hA, hB, hrA, hrB⟩ := may.fresh
    refine ⟨fun k n hn => ?_, fun it hit => ?_⟩
    · rcases OMap.get?_set_cases hn with ⟨-, rfl⟩ | ⟨-, hn⟩
      · constructor
        · intro r hr
          cases hA.symm.trans hr
        · intro r hr
          cases hB.symm.trans hr
        · intro hr
          cases hrA.symm.trans hr
        · intro hr
          cases hrB.symm.trans hr
      · exact h.negs k n hn
    · rcases List.mem_append.mp hit with hit | hit
      · rcases may.items with ⟨q, client, -, -, -, he⟩ | ⟨-, he⟩ <;> rw [he] at hit
        · exact vouched_sentItems hit trivial
        · exact (List.mem_append.mp hit).elim (fun hit => vouched_sentItems hit trivial)
            fun hit => vouched_sentItems hit trivial
      · rcases List.mem_cons.mp hit with rfl | hit
        · trivial
        · exact h.items it hit
  | concluded key neg receipt ending active counts allowed =>
    refine ⟨fun k n hn => h.negs k n (OMap.get?_of_get?_delete hn).2, fun it hit => ?_⟩
    rcases List.mem_append.mp hit with hending | hrest
    · exact vouched_ending hi (h.negs key neg active) active counts allowed hending
    · rcases List.mem_append.mp hrest with hreceipt | hold
      · cases receipt with
        | none => cases hreceipt
        | some r =>
          rw [List.mem_singleton.mp hreceipt]
          trivial
      · exact h.items it hold

theorem vouched_steps (hsteps : ReflTransGen (TableStep (fun _ => C) D F) s s')
    (h : VouchInv C s) (hi : TableInv s) : VouchInv C s' := by
  induction hsteps with
  | refl => exact h
  | tail hpre hstep ih => exact hstep.vouched ih (steps_inv hpre hi)

/-- **One event.**  What is known of its message is known of all that the server passes on. -/
theorem vouched_step (cfg : Config) (hi : TableInv s) (h : VouchInv C s) {e : Event}
    (hids : e.idsOk) (hknown : e.Known (fun _ => C) s) : VouchInv C (step cfg s e) := by
  by_cases hrestart : e = .restart
  · subst hrestart
    refine ⟨?_, h.items⟩
    intro k neg hn
    cases hn
  · exact vouched_steps (steps_of_step cfg hi e hids hknown hrestart) h hi

end

end Meshezia
