import Mathlib.Logic.Relation
import Meshezia.Server.Step

/-!
# What a step can do to the negotiation table

The handlers of the negotiator change `activeNegotiations` and `timers`, and what the
history says of negotiations, in seven ways only; `TableStep` lists them, each with
its guard:

* `quiet`: the table stays, nothing is received or sent for a negotiation, and no switch is
  sent but a force command;
* `ignored`: a probe message arrives that counts for no active negotiation;
* `stored`: a ready or a result of a direct probe arrives and is kept until the other
  side's;
* `checked`, `went`: a ready arrives and the second message of the probe is sent;
* `started`, `concluded`: a negotiation begins, or ends with its last messages.

`C s p msg` is what is known of a message `msg` from `p` that counts in state `s`,
`D n p r` says that negotiation `n` may be dropped for the reason `r` that its peer `p`
gave, and `F` which force commands may be sent.  `TableInv` is the invariant of the table
that every such step keeps (`TableStep.inv`).
-/

namespace Meshezia

open ServerState

/-! ## History items of a message -/

/-- The negotiation a history item belongs to. -/
def TraceItem.tag : TraceItem → Option Nat
  | .recv _ _ n => n
  | .sent _ _ _ n => n
  | .started _ n _ _ _ => some n
  | _ => none

/-- The receiver of a switch, the peer it is about, and the mode. -/
def TraceItem.switch? : TraceItem → Option (PeerId × PeerId × Mode)
  | .sent p _ msg _ => msg.switch?.map fun x => (p, x)
  | _ => none

/-- What sending `msg` to `p` adds to the history. -/
def sentItems (c : Connections) (neg : Option Nat) (p : PeerId) (msg : ServerMsg) :
    List TraceItem :=
  match sendTextToPeer c p with
  | some ws => [.sent p ws msg neg]
  | none => []

theorem mem_sentItems {c : Connections} {neg : Option Nat} {p : PeerId} {msg : ServerMsg}
    {it : TraceItem} (h : it ∈ sentItems c neg p msg) : ∃ ws, it = .sent p ws msg neg := by
  unfold sentItems at h
  split at h
  · exact ⟨_, List.mem_singleton.mp h⟩
  · cases h

theorem tag_of_mem_sentItems {c : Connections} {neg : Option Nat} {p : PeerId} {msg : ServerMsg}
    {it : TraceItem} (h : it ∈ sentItems c neg p msg) : it.tag = neg := by
  obtain ⟨ws, rfl⟩ := mem_sentItems h
  rfl

theorem switch?_of_mem_sentItems {c : Connections} {neg : Option Nat} {p : PeerId} {msg : ServerMsg}
    (hmsg : msg.switch? = none) {it : TraceItem} (h : it ∈ sentItems c neg p msg) :
    it.switch? = none := by
  obtain ⟨ws, rfl⟩ := mem_sentItems h
  simp [TraceItem.switch?, hmsg]

/-- To a connected peer a message is sent, on the socket of the table. -/
theorem sentItems_of_connected {c : Connections} {p : PeerId}
    (h : isPeerConnected c p = true) (neg : Option Nat) (msg : ServerMsg) :
    ∃ ws, sentItems c neg p msg = [.sent p ws msg neg] := by
  obtain ⟨ws, hws⟩ := (OMap.has_iff c p).mp h
  exact ⟨ws, by simp [sentItems, sendTextToPeer, hws]⟩

/-! ## How a negotiation changes and ends -/

/-- Does `msg` from `p` count for the negotiation `neg`?  The handlers drop the others. -/
def AgentMsg.countsFor (p : PeerId) (neg : NegotiationState) : AgentMsg → Bool
  | .healthReport _ => false
  | .probeRelayReady _ _ _ _ => decide (neg.type = .relayProbe) && decide (neg.serverNode = some p)
  | .probeRelayResult _ _ => decide (neg.type = .relayProbe) && decide (neg.clientNode = some p)
  | .probeDirectReady _ _ _ => decide (neg.type = .directProbe)
  | .probeDirectResult _ _ => decide (neg.type = .directProbe)
  | .probeError _ _ => true

/-- Store a ready or a result on the side of its sender. -/
def NegotiationState.store (neg : NegotiationState) (isA : Bool) : AgentMsg → NegotiationState
  | .probeDirectReady _ udpPort nonce =>
    if isA then { neg with readyA := some ⟨udpPort, nonce⟩ }
    else { neg with readyB := some ⟨udpPort, nonce⟩ }
  | .probeDirectResult _ success =>
    if isA then { neg with resultA := some success } else { neg with resultB := some success }
  | _ => neg

/-- Is `p` the first peer of the key? -/
def isSideA (p : PeerId) (key : PairKey) : Bool := decide (p = (parsePairKey key).1)

section
variable (neg : NegotiationState) (isA : Bool) (msg : AgentMsg)

@[simp] theorem store_nid : (neg.store isA msg).nid = neg.nid := by
  cases msg <;> cases isA <;> rfl

@[simp] theorem store_type : (neg.store isA msg).type = neg.type := by
  cases msg <;> cases isA <;> rfl

@[simp] theorem store_pairKey : (neg.store isA msg).pairKey = neg.pairKey := by
  cases msg <;> cases isA <;> rfl

@[simp] theorem store_peerA : (neg.store isA msg).peerA = neg.peerA := by
  cases msg <;> cases isA <;> rfl

@[simp] theorem store_peerB : (neg.store isA msg).peerB = neg.peerB := by
  cases msg <;> cases isA <;> rfl

@[simp] theorem store_timeoutId : (neg.store isA msg).timeoutId = neg.timeoutId := by
  cases msg <;> cases isA <;> rfl

@[simp] theorem store_serverNode : (neg.store isA msg).serverNode = neg.serverNode := by
  cases msg <;> cases isA <;> rfl

@[simp] theorem store_clientNode : (neg.store isA msg).clientNode = neg.clientNode := by
  cases msg <;> cases isA <;> rfl

theorem store_ready_isSome :
    (neg.readyA.isSome → (neg.store isA msg).readyA.isSome) ∧
      (neg.readyB.isSome → (neg.store isA msg).readyB.isSome) := by
  cases msg <;> cases isA <;> simp [NegotiationState.store]

end

/-- The last messages of a negotiation: a verdict to both peers, an abort to both, or an
abort to the other peer of one that disconnected or was removed. -/
inductive Ending where
  | verdict (action : VerdictAction)
  | abort (reason : AbortReason)
  | abortOther (peerId : PeerId) (reason : AbortReason)
deriving DecidableEq, Repr

def NegotiationState.other (neg : NegotiationState) (peerId : PeerId) : PeerId :=
  if neg.peerA = peerId then neg.peerB else neg.peerA

/-- What an ending adds to the history, newest first. -/
def Ending.items (c : Connections) (neg : NegotiationState) : Ending → List TraceItem
  | .verdict action =>
    sentItems c (some neg.nid) neg.peerB (.probeVerdict neg.peerA action) ++
      sentItems c (some neg.nid) neg.peerA (.probeVerdict neg.peerB action)
  | .abort reason =>
    sentItems c (some neg.nid) neg.peerB (.negotiateAbort neg.peerA reason) ++
      sentItems c (some neg.nid) neg.peerA (.negotiateAbort neg.peerB reason)
  | .abortOther peerId reason =>
    sentItems c (some neg.nid) (neg.other peerId) (.negotiateAbort peerId reason)

/-- The receipt of the message that makes a negotiation act, if there is one. -/
def receiptItems (neg : NegotiationState) : Option (PeerId × AgentMsg) → List TraceItem
  | some (p, msg) => [.recv p msg (some neg.nid)]
  | none => []

/-- When a negotiation may end so, on the receipt of `receipt`. -/
def Ending.Allowed (D : Nat → PeerId → AbortReason → Prop) (neg : NegotiationState)
    (receipt : Option (PeerId × AgentMsg)) : Ending → Prop
  | .verdict .switchDirect =>
    neg.type = .directProbe ∧ ∃ p q, receipt = some (p, .probeDirectResult q true) ∧
      (neg.store (isSideA p neg.pairKey) (.probeDirectResult q true)).resultA = some true ∧
      (neg.store (isSideA p neg.pairKey) (.probeDirectResult q true)).resultB = some true
  | .verdict .switchRelay =>
    neg.type = .relayProbe ∧ ∃ p q, receipt = some (p, .probeRelayResult q true)
  | .verdict .stay => True
  | .abort reason => reason = .timeout ∨ reason = .adminForce
  | .abortOther peerId reason =>
    receipt = none ∧ (neg.peerA = peerId ∨ neg.peerB = peerId) ∧ D neg.nid peerId reason

def cleared (timers : OMap Nat Timer) (timeoutId : Option Nat) : OMap Nat Timer :=
  match timeoutId with
  | some id => timers.delete id
  | none => timers

/-- The negotiation at `key` ends. -/
def conclude (s : ServerState) (key : PairKey) (neg : NegotiationState)
    (receipt : Option (PeerId × AgentMsg)) (ending : Ending) : ServerState :=
  { s with
    timers := cleared s.timers neg.timeoutId
    activeNegotiations := s.activeNegotiations.delete key
    trace := ending.items s.connections neg ++ (receiptItems neg receipt ++ s.trace) }

/-- The negotiation `neg` begins at `key`, its timer armed with `callback`. -/
def begin (s : ServerState) (key : PairKey) (neg : NegotiationState) (callback : TimerCallback)
    (delay now backoff : Int) (items : List TraceItem) : ServerState :=
  { s with
    timers := s.timers.set (s.nextRef + 1) { owner := s.nextRef, callback, delay }
    activeNegotiations := s.activeNegotiations.set key { neg with timeoutId := some (s.nextRef + 1) }
    nextRef := s.nextRef + 2
    trace := items ++ .started key s.nextRef neg.type now backoff :: s.trace }

/-- The two go messages. -/
def goItems (c : Connections) (neg : NegotiationState) (infoA infoB : PeerRow)
    (readyA readyB : DirectReady) : List TraceItem :=
  sentItems c (some neg.nid) neg.peerB
      (.probeDirectGo neg.peerA infoA.publicIp readyA.udpPort readyA.nonce) ++
    sentItems c (some neg.nid) neg.peerA
      (.probeDirectGo neg.peerB infoB.publicIp readyB.udpPort readyB.nonce)

/-- On the ready of `p`, stored in `neg`, both sides of the direct probe at `key` are told
to go and its timer is re-armed. -/
def go (s : ServerState) (key : PairKey) (neg : NegotiationState) (p : PeerId) (msg : AgentMsg)
    (infoA infoB : PeerRow) (readyA readyB : DirectReady) : ServerState :=
  { s with
    timers := (cleared s.timers neg.timeoutId).set s.nextRef
      { owner := neg.nid, callback := .directResultTimeout key neg.peerA neg.peerB,
        delay := DIRECT_RESULT_TIMEOUT_MS }
    activeNegotiations := s.activeNegotiations.set key { neg with timeoutId := some s.nextRef }
    nextRef := s.nextRef + 1
    trace := goItems s.connections neg infoA infoB readyA readyB ++
      (.recv p msg (some neg.nid) :: s.trace) }

/-! ## The invariant -/

/-- The table of connections names sockets of their peers, with colon-free ids. -/
def ConnIds (c : Connections) : Prop := ∀ p ws, c.get? p = some ws → ws.peerId = p ∧ ColonFree p

/-- A negotiation is stored under the key of its two peers. -/
structure NegKeyed (key : PairKey) (neg : NegotiationState) : Prop where
  pairKey_eq : neg.pairKey = key
  parse : parsePairKey key = (neg.peerA, neg.peerB)
  pair : pairKey neg.peerA neg.peerB = key
  freeA : ColonFree neg.peerA
  freeB : ColonFree neg.peerB
  ne : neg.peerA ≠ neg.peerB
  roles : neg.type = .relayProbe →
    (neg.serverNode = some neg.peerA ∧ neg.clientNode = some neg.peerB) ∨
      (neg.serverNode = some neg.peerB ∧ neg.clientNode = some neg.peerA)

/-- A message that meets a negotiation comes from one of its peers, about the other. -/
theorem NegKeyed.side {p q : PeerId} {neg : NegotiationState} (h : NegKeyed (pairKey p q) neg) :
    (p = neg.peerA ∧ q = neg.peerB ∧ isSideA p (pairKey p q) = true) ∨
      (p = neg.peerB ∧ q = neg.peerA ∧ isSideA p (pairKey p q) = false) := by
  have hfree := colonFree_of_pairKey_eq h.freeA h.freeB h.pair.symm
  have hside : isSideA p (pairKey p q) = decide (p = neg.peerA) := by
    unfold isSideA
    rw [h.parse]
  rcases pairKey_inj hfree.1 hfree.2 h.freeA h.freeB h.pair.symm with ⟨rfl, rfl⟩ | ⟨rfl, rfl⟩
  · exact Or.inl ⟨rfl, rfl, by simp [hside]⟩
  · exact Or.inr ⟨rfl, rfl, by simp [hside, h.ne.symm]⟩

/-- The callback of a negotiation's timer is the one of its type and stage. -/
def TimerCallback.Fits (neg : NegotiationState) : TimerCallback → Prop
  | .relayProbeTimeout _ => neg.type = .relayProbe
  | .directReadyTimeout _ a b _ => neg.type = .directProbe ∧ a = neg.peerA ∧ b = neg.peerB
  | .directResultTimeout _ a b =>
    neg.type = .directProbe ∧ a = neg.peerA ∧ b = neg.peerB ∧ neg.readyA.isSome ∧ neg.readyB.isSome

/-- The record a callback closes over is the one in the map. -/
def TimerCallback.RefCurrent (health : OMap PairKey PairHealth) : TimerCallback → Prop
  | .directReadyTimeout key _ _ ref =>
    ref.key = key ∧ (health.get? key).map PairHealth.hid = some ref.hid
  | _ => True

/-- A peer that reports about itself is its own side A, so the other streak stays 0. -/
def SelfStreaks (health : OMap PairKey PairHealth) : Prop :=
  ∀ p h, ColonFree p → health.get? (pairKey p p) = some h → h.streakBA = 0

structure TableInv (s : ServerState) : Prop where
  connIds : ConnIds s.connections
  keyed : ∀ k n, s.activeNegotiations.get? k = some n → NegKeyed k n
  connected : ∀ k n, s.activeNegotiations.get? k = some n →
    s.isConnected n.peerA = true ∧ s.isConnected n.peerB = true
  armed : ∀ k n, s.activeNegotiations.get? k = some n →
    ∃ t tm, n.timeoutId = some t ∧ s.timers.get? t = some tm ∧ tm.callback.key = k ∧ tm.owner = n.nid
  owned : ∀ t tm, s.timers.get? t = some tm →
    ∃ n, s.activeNegotiations.get? tm.callback.key = some n ∧ n.nid = tm.owner ∧
      n.timeoutId = some t ∧ tm.callback.Fits n
  refs : ∀ t tm, s.timers.get? t = some tm → tm.callback.RefCurrent s.pairHealthMap
  selfStreaks : SelfStreaks s.pairHealthMap
  nidLt : ∀ k n, s.activeNegotiations.get? k = some n → n.nid < s.nextRef
  timerLt : ∀ t tm, s.timers.get? t = some tm → t < s.nextRef
  nidInj : ∀ k n k' n', s.activeNegotiations.get? k = some n →
    s.activeNegotiations.get? k' = some n' → n.nid = n'.nid → k = k'
  tagLt : ∀ it ∈ s.trace, ∀ n, it.tag = some n → n < s.nextRef

/-! ## The steps -/

/-- What a probe starter has checked before it starts a probe at `key`. -/
structure MayStart (s : ServerState) (key : PairKey) (neg : NegotiationState)
    (callback : TimerCallback) (items : List TraceItem) : Prop where
  free : s.activeNegotiations.get? key = none
  nid : neg.nid = s.nextRef
  keyed : NegKeyed key neg
  connected : s.isConnected neg.peerA = true ∧ s.isConnected neg.peerB = true
  timer : callback.key = key ∧ callback.Fits neg ∧ callback.RefCurrent s.pairHealthMap
  fresh : neg.readyA = none ∧ neg.readyB = none ∧ neg.resultA = none ∧ neg.resultB = none
  items : (∃ q, ∃ client, neg.type = .relayProbe ∧ neg.serverNode = some q ∧
      neg.clientNode = some client ∧
      items = sentItems s.connections (some neg.nid) q (.probeRelayServe client)) ∨
    (neg.type = .directProbe ∧
      items = sentItems s.connections (some neg.nid) neg.peerB (.probeDirectStart neg.peerA) ++
        sentItems s.connections (some neg.nid) neg.peerA (.probeDirectStart neg.peerB))

/-- A message from `p` about `q` counts for the active negotiation `neg`. -/
structure Counts (C : ServerState → PeerId → AgentMsg → Prop) (s : ServerState) (p q : PeerId)
    (msg : AgentMsg) (neg : NegotiationState) : Prop where
  known : C s p msg
  peer : msg.peer? = some q
  active : s.activeNegotiations.get? (pairKey p q) = some neg
  counts : msg.countsFor p neg = true

/-- A quiet step keeps the health records of active pairs. -/
structure HealthKept (s s' : ServerState) : Prop where
  selfStreaks : SelfStreaks s.pairHealthMap → SelfStreaks s'.pairHealthMap
  record : ∀ k n hid, s.activeNegotiations.get? k = some n →
    (s.pairHealthMap.get? k).map PairHealth.hid = some hid →
    (s'.pairHealthMap.get? k).map PairHealth.hid = some hid

inductive TableStep (C : ServerState → PeerId → AgentMsg → Prop)
    (D : Nat → PeerId → AbortReason → Prop) (F : TraceItem → Prop) :
    ServerState → ServerState → Prop
  | quiet {s s' : ServerState} (items : List TraceItem)
      (untagged : ∀ it ∈ items, it.tag = none ∧ (it.switch? = none ∨ F it))
      (active : s'.activeNegotiations = s.activeNegotiations)
      (timers : s'.timers = s.timers)
      (ref : s.nextRef ≤ s'.nextRef)
      (trace : s'.trace = items ++ s.trace)
      (connIds : ConnIds s.connections → ConnIds s'.connections)
      (connected : ∀ k n, s.activeNegotiations.get? k = some n → ∀ p, p = n.peerA ∨ p = n.peerB →
        s.isConnected p = true → s'.isConnected p = true)
      (health : HealthKept s s') : TableStep C D F s s'
  | ignored {s : ServerState} (p : PeerId) (msg : AgentMsg)
      (idle : ∀ q neg, msg.peer? = some q → s.activeNegotiations.get? (pairKey p q) = some neg →
        msg.countsFor p neg = false) :
      TableStep C D F s (s.note (.recv p msg (s.negotiationMet p msg)))
  | stored {s : ServerState} (p q : PeerId) (msg : AgentMsg) (neg neg' : NegotiationState)
      (counts : Counts C s p q msg neg) (direct : neg.type = .directProbe)
      (store : neg' = neg.store (isSideA p (pairKey p q)) msg)
      (pending : (neg'.readyA = neg.readyA ∧ neg'.readyB = neg.readyB) ∨
        ¬ (neg'.readyA.isSome ∧ neg'.readyB.isSome)) :
      TableStep C D F s { s with
        activeNegotiations := s.activeNegotiations.set (pairKey p q) neg'
        trace := .recv p msg (some neg.nid) :: s.trace }
  | checked {s : ServerState} (p q : PeerId) (neg : NegotiationState) (client : PeerId)
      (meshIpv4 : JsString) (tcpPort : Int) (nonce clientPubkey serverPubkey : JsString)
      (counts : Counts C s p q (.probeRelayReady q meshIpv4 tcpPort nonce) neg)
      (role : neg.clientNode = some client) :
      TableStep C D F s { s with
        trace := sentItems s.connections (some neg.nid) client
            (.probeRelayCheck p meshIpv4 tcpPort nonce clientPubkey serverPubkey) ++
          (.recv p (.probeRelayReady q meshIpv4 tcpPort nonce) (some neg.nid) :: s.trace) }
  | went {s : ServerState} (p q : PeerId) (udpPort : Int) (nonce : JsString)
      (neg neg' : NegotiationState) (infoA infoB : PeerRow) (readyA readyB : DirectReady)
      (counts : Counts C s p q (.probeDirectReady q udpPort nonce) neg)
      (store : neg' = neg.store (isSideA p (pairKey p q)) (.probeDirectReady q udpPort nonce))
      (ready : neg'.readyA = some readyA ∧ neg'.readyB = some readyB) :
      TableStep C D F s (go s (pairKey p q) neg' p (.probeDirectReady q udpPort nonce) infoA infoB
        readyA readyB)
  | started {s : ServerState} (key : PairKey) (neg : NegotiationState) (callback : TimerCallback)
      (delay now backoff : Int) (items : List TraceItem) (may : MayStart s key neg callback items) :
      TableStep C D F s (begin s key neg callback delay now backoff items)
  | concluded {s : ServerState} (key : PairKey) (neg : NegotiationState)
      (receipt : Option (PeerId × AgentMsg)) (ending : Ending)
      (active : s.activeNegotiations.get? key = some neg)
      (counts : ∀ p msg, receipt = some (p, msg) → ∃ q, key = pairKey p q ∧ Counts C s p q msg neg)
      (allowed : ending.Allowed D neg receipt) :
      TableStep C D F s (conclude s key neg receipt ending)

/-! ## The steps keep the invariant -/

theorem isConnected_congr {s s' : ServerState} (h : s'.connections = s.connections) (p : PeerId) :
    s'.isConnected p = s.isConnected p := by
  unfold ServerState.isConnected
  rw [h]

theorem tag_of_mem_ending {c : Connections} {neg : NegotiationState} {ending : Ending}
    {it : TraceItem} (h : it ∈ ending.items c neg) : it.tag = some neg.nid := by
  cases ending with
  | verdict action =>
    rcases List.mem_append.mp h with h | h <;> exact tag_of_mem_sentItems h
  | abort reason =>
    rcases List.mem_append.mp h with h | h <;> exact tag_of_mem_sentItems h
  | abortOther peerId reason => exact tag_of_mem_sentItems h

theorem tag_of_mem_receipt {neg : NegotiationState} {receipt : Option (PeerId × AgentMsg)}
    {it : TraceItem} (h : it ∈ receiptItems neg receipt) : it.tag = some neg.nid := by
  cases receipt with
  | none => cases h
  | some r => rw [List.mem_singleton.mp h]; rfl

theorem MayStart.tag_items {s : ServerState} {key : PairKey} {neg : NegotiationState}
    {callback : TimerCallback} {items : List TraceItem} (may : MayStart s key neg callback items) :
    ∀ it ∈ items, it.tag = some neg.nid := by
  intro it hit
  rcases may.items with ⟨q, client, -, -, -, h⟩ | ⟨-, h⟩ <;> rw [h] at hit
  · exact tag_of_mem_sentItems hit
  · rcases List.mem_append.mp hit with hit | hit <;> exact tag_of_mem_sentItems hit

theorem get?_cleared {timers : OMap Nat Timer} {timeoutId : Option Nat} {t : Nat} {tm : Timer}
    (h : (cleared timers timeoutId).get? t = some tm) :
    timers.get? t = some tm ∧ timeoutId ≠ some t := by
  unfold cleared at h
  split at h
  · rename_i id
    rw [OMap.get?_delete] at h
    split at h
    · cases h
    · rename_i hne
      exact ⟨h, fun e => hne (Option.some.inj e)⟩
  · exact ⟨h, by simp⟩

theorem get?_cleared_of_ne {timers : OMap Nat Timer} {timeoutId : Option Nat} {t : Nat}
    (h : timeoutId ≠ some t) : (cleared timers timeoutId).get? t = timers.get? t := by
  unfold cleared
  split
  · rename_i id
    exact OMap.get?_delete_ne _ fun e => h (by rw [e])
  · rfl

/-- Two negotiations with one timer are one. -/
theorem TableInv.timer_unique {s : ServerState} (hi : TableInv s) {k k' : PairKey}
    {n n' : NegotiationState} (h : s.activeNegotiations.get? k = some n)
    (h' : s.activeNegotiations.get? k' = some n') (ht : n.timeoutId = n'.timeoutId) : k = k' := by
  obtain ⟨t, tm, h1, h2, h3, _⟩ := hi.armed k n h
  obtain ⟨t', tm', h1', h2', h3', _⟩ := hi.armed k' n' h'
  have htt : t = t' := by rw [h1, h1'] at ht; exact Option.some.inj ht
  subst htt
  rw [h2] at h2'
  rw [← h3, ← h3', Option.some.inj h2']

section
variable {C : ServerState → PeerId → AgentMsg → Prop} {D : Nat → PeerId → AbortReason → Prop}
  {F : TraceItem → Prop} {s s' : ServerState}

theorem TableInv.of_quiet (hi : TableInv s) (items : List TraceItem)
    (untagged : ∀ it ∈ items, it.tag = none)
    (active : s'.activeNegotiations = s.activeNegotiations) (timers : s'.timers = s.timers)
    (ref : s.nextRef ≤ s'.nextRef) (trace : s'.trace = items ++ s.trace)
    (connIds : ConnIds s.connections → ConnIds s'.connections)
    (connected : ∀ k n, s.activeNegotiations.get? k = some n → ∀ p, p = n.peerA ∨ p = n.peerB →
      s.isConnected p = true → s'.isConnected p = true)
    (health : HealthKept s s') : TableInv s' where
  connIds := connIds hi.connIds
  keyed := by rw [active]; exact hi.keyed
  connected := by
    rw [active]
    intro k n hn
    obtain ⟨hA, hB⟩ := hi.connected k n hn
    exact ⟨connected k n hn _ (Or.inl rfl) hA, connected k n hn _ (Or.inr rfl) hB⟩
  armed := by rw [active, timers]; exact hi.armed
  owned := by rw [active, timers]; exact hi.owned
  refs := by
    rw [timers]
    intro t tm ht
    obtain ⟨n, hn, -⟩ := hi.owned t tm ht
    have href := hi.refs t tm ht
    cases hcb : tm.callback with
    | relayProbeTimeout k => trivial
    | directResultTimeout k a b => trivial
    | directReadyTimeout k a b ref =>
      rw [hcb] at href hn
      exact ⟨href.1, health.record k n ref.hid hn href.2⟩
  selfStreaks := health.selfStreaks hi.selfStreaks
  nidLt := by
    rw [active]
    exact fun k n hn => Nat.lt_of_lt_of_le (hi.nidLt k n hn) ref
  timerLt := by
    rw [timers]
    exact fun t tm ht => Nat.lt_of_lt_of_le (hi.timerLt t tm ht) ref
  nidInj := by rw [active]; exact hi.nidInj
  tagLt := by
    rw [trace]
    intro it hit n hn
    rcases List.mem_append.mp hit with hit | hit
    · rw [untagged it hit] at hn; cases hn
    · exact Nat.lt_of_lt_of_le (hi.tagLt it hit n hn) ref

/-- More history for a negotiation that is active. -/
theorem TableInv.addTrace (hi : TableInv s) {k : PairKey} {n : NegotiationState}
    (hn : s.activeNegotiations.get? k = some n) (items : List TraceItem)
    (hitems : ∀ it ∈ items, it.tag = some n.nid) :
    TableInv { s with trace := items ++ s.trace } :=
  { hi with
    tagLt := by
      intro it hit m hm
      rcases List.mem_append.mp hit with hit | hit
      · rw [hitems it hit] at hm
        rw [← Option.some.inj hm]
        exact hi.nidLt k n hn
      · exact hi.tagLt it hit m hm }

theorem tag_recv_lt (hi : TableInv s) (p : PeerId) (msg : AgentMsg) (n : Nat)
    (h : s.negotiationMet p msg = some n) : n < s.nextRef := by
  unfold negotiationMet at h
  split at h
  · rename_i q _
    cases hq : s.activeNegotiations.get? (pairKey p q) with
    | none => simp [hq] at h
    | some neg =>
      simp only [hq, Option.map_some, Option.some.injEq] at h
      exact h ▸ hi.nidLt _ _ hq
  · cases h

theorem TableInv.of_ignored (hi : TableInv s) (p : PeerId) (msg : AgentMsg) :
    TableInv (s.note (.recv p msg (s.negotiationMet p msg))) :=
  { hi with
    tagLt := by
      intro it hit n hn
      rcases List.mem_cons.mp hit with rfl | hit
      · exact tag_recv_lt hi p msg n hn
      · exact hi.tagLt it hit n hn }

/-- A negotiation written back under its key is of the same identity and pair as the one there. -/
theorem get?_set_same {key : PairKey} {neg m : NegotiationState}
    (hk : s.activeNegotiations.get? key = some neg) (hnid : m.nid = neg.nid)
    (hA : m.peerA = neg.peerA) (hB : m.peerB = neg.peerB) {k : PairKey} {n : NegotiationState}
    (hn : (s.activeNegotiations.set key m).get? k = some n) :
    ∃ old, s.activeNegotiations.get? k = some old ∧ n.nid = old.nid ∧ n.peerA = old.peerA ∧
      n.peerB = old.peerB := by
  rcases OMap.get?_set_cases hn with ⟨rfl, rfl⟩ | ⟨-, hn⟩
  · exact ⟨neg, hk, hnid, hA, hB⟩
  · exact ⟨n, hn, rfl, rfl, rfl⟩

/-- Rewrite a negotiation in place, all but its timer and its identity open to change. -/
theorem TableInv.replace (hi : TableInv s) {key : PairKey} {neg n : NegotiationState}
    (hk : s.activeNegotiations.get? key = some neg) (hkeyed : NegKeyed key n)
    (hnid : n.nid = neg.nid) (htimer : n.timeoutId = neg.timeoutId)
    (hA : n.peerA = neg.peerA) (hB : n.peerB = neg.peerB)
    (hfits : ∀ cb : TimerCallback, cb.Fits neg → cb.Fits n) :
    TableInv { s with activeNegotiations := s.activeNegotiations.set key n } where
  connIds := hi.connIds
  keyed := by
    intro k n hn
    rcases OMap.get?_set_cases hn with ⟨rfl, rfl⟩ | ⟨-, hn⟩
    · exact hkeyed
    · exact hi.keyed k n hn
  connected := by
    intro k n hn
    obtain ⟨old, hold, -, hoA, hoB⟩ := get?_set_same hk hnid hA hB hn
    rw [hoA, hoB]
    exact hi.connected k old hold
  armed := by
    intro k n hn
    rcases OMap.get?_set_cases hn with ⟨rfl, rfl⟩ | ⟨-, hn⟩
    · rw [htimer, hnid]
      exact hi.armed key neg hk
    · exact hi.armed k n hn
  owned := by
    intro t tm ht
    obtain ⟨n, h1, h2, h3, h4⟩ := hi.owned t tm ht
    by_cases e : key = tm.callback.key
    · rw [← e, hk] at h1
      cases h1
      exact ⟨n, by simp [e], by rw [hnid, h2], by rw [htimer, h3], hfits _ h4⟩
    · exact ⟨n, by simp [OMap.get?_set, e, h1], h2, h3, h4⟩
  refs := hi.refs
  selfStreaks := hi.selfStreaks
  nidLt := by
    intro k n hn
    obtain ⟨old, hold, hoid, -⟩ := get?_set_same hk hnid hA hB hn
    exact hoid ▸ hi.nidLt k old hold
  timerLt := hi.timerLt
  nidInj := by
    intro k n k' n' hn hn' he
    obtain ⟨old, hold, hoid, -⟩ := get?_set_same hk hnid hA hB hn
    obtain ⟨old', hold', hoid', -⟩ := get?_set_same hk hnid hA hB hn'
    exact hi.nidInj k old k' old' hold hold' (by rw [← hoid, he, hoid'])
  tagLt := hi.tagLt

theorem NegKeyed.of_eq {key : PairKey} {neg neg' : NegotiationState} (h : NegKeyed key neg)
    (h1 : neg'.pairKey = neg.pairKey) (h2 : neg'.peerA = neg.peerA) (h3 : neg'.peerB = neg.peerB)
    (h4 : neg'.type = neg.type) (h5 : neg'.serverNode = neg.serverNode)
    (h6 : neg'.clientNode = neg.clientNode) : NegKeyed key neg' := by
  obtain ⟨a, b, c, d, e, f, g⟩ := h
  exact ⟨by rw [h1, a], by rw [h2, h3, b], by rw [h2, h3, c], by rw [h2]; exact d,
    by rw [h3]; exact e, by rw [h2, h3]; exact f, by rw [h2, h3, h4, h5, h6]; exact g⟩

theorem NegKeyed.of_store {key : PairKey} {neg : NegotiationState} (h : NegKeyed key neg)
    (isA : Bool) (msg : AgentMsg) : NegKeyed key (neg.store isA msg) :=
  h.of_eq (by simp) (by simp) (by simp) (by simp) (by simp) (by simp)

theorem TimerCallback.Fits.store {cb : TimerCallback} {neg : NegotiationState} (h : cb.Fits neg)
    (isA : Bool) (msg : AgentMsg) : cb.Fits (neg.store isA msg) := by
  have hr := store_ready_isSome neg isA msg
  cases cb with
  | relayProbeTimeout k => simpa [TimerCallback.Fits] using h
  | directReadyTimeout k a b r => simpa [TimerCallback.Fits] using h
  | directResultTimeout k a b =>
    obtain ⟨h1, h2, h3, h4, h5⟩ := h
    exact ⟨by simpa using h1, by simpa using h2, by simpa using h3, hr.1 h4, hr.2 h5⟩

/-- The negotiation of `key` changes and gets a new timer, its old one is cleared. -/
theorem TableInv.rearm (hi : TableInv s) {key : PairKey} {neg m : NegotiationState}
    (hk : s.activeNegotiations.get? key = some neg) (hkeyed : NegKeyed key m)
    (hnid : m.nid = neg.nid) (hA : m.peerA = neg.peerA) (hB : m.peerB = neg.peerB)
    (htimer : m.timeoutId = some s.nextRef) (tm : Timer) (howner : tm.owner = neg.nid)
    (hkey : tm.callback.key = key) (hfits : tm.callback.Fits m)
    (href : tm.callback.RefCurrent s.pairHealthMap) :
    TableInv { s with
      timers := (cleared s.timers neg.timeoutId).set s.nextRef tm
      activeNegotiations := s.activeNegotiations.set key m
      nextRef := s.nextRef + 1 } where
  connIds := hi.connIds
  keyed := by
    intro k n hn
    rcases OMap.get?_set_cases hn with ⟨rfl, rfl⟩ | ⟨-, hn⟩
    · exact hkeyed
    · exact hi.keyed k n hn
  connected := by
    intro k n hn
    obtain ⟨old, hold, -, hoA, hoB⟩ := get?_set_same hk hnid hA hB hn
    rw [hoA, hoB]
    exact hi.connected k old hold
  armed := by
    intro k n hn
    rcases OMap.get?_set_cases hn with ⟨rfl, rfl⟩ | ⟨hne, hn⟩
    · exact ⟨s.nextRef, tm, htimer, by simp, hkey, by rw [howner, hnid]⟩
    · obtain ⟨t, tm', h1, h2, h3, h4⟩ := hi.armed k n hn
      refine ⟨t, tm', h1, ?_, h3, h4⟩
      have hold : t ≠ s.nextRef := Nat.ne_of_lt (hi.timerLt t tm' h2)
      -- the cleared timer is not this one: a timer belongs to one key only
      have hother : neg.timeoutId ≠ some t := fun e =>
        hne (hi.timer_unique hk hn (by rw [e, h1]))
      rw [OMap.get?_set, if_neg (Ne.symm hold), get?_cleared_of_ne hother, h2]
  owned := by
    intro t tm' ht
    rcases OMap.get?_set_cases ht with ⟨rfl, rfl⟩ | ⟨-, ht⟩
    · exact ⟨m, by simp [hkey], by rw [hnid, howner], htimer, hfits⟩
    · obtain ⟨hold, hne⟩ := get?_cleared ht
      obtain ⟨n, h1, h2, h3, h4⟩ := hi.owned t tm' hold
      by_cases e : key = tm'.callback.key
      · rw [← e, hk] at h1
        cases h1
        exact absurd h3 hne
      · exact ⟨n, by simp [OMap.get?_set, e, h1], h2, h3, h4⟩
  refs := by
    intro t tm' ht
    rcases OMap.get?_set_cases ht with ⟨-, rfl⟩ | ⟨-, ht⟩
    · exact href
    · exact hi.refs t tm' (get?_cleared ht).1
  selfStreaks := hi.selfStreaks
  nidLt := by
    intro k n hn
    obtain ⟨old, hold, hoid, -⟩ := get?_set_same hk hnid hA hB hn
    exact hoid ▸ Nat.lt_succ_of_lt (hi.nidLt k old hold)
  timerLt := by
    intro t tm' ht
    rcases OMap.get?_set_cases ht with ⟨rfl, -⟩ | ⟨-, ht⟩
    · exact Nat.lt_succ_self _
    · exact Nat.lt_succ_of_lt (hi.timerLt t tm' (get?_cleared ht).1)
  nidInj := by
    intro k n k' n' hn hn' he
    obtain ⟨old, hold, hoid, -⟩ := get?_set_same hk hnid hA hB hn
    obtain ⟨old', hold', hoid', -⟩ := get?_set_same hk hnid hA hB hn'
    exact hi.nidInj k old k' old' hold hold' (by rw [← hoid, he, hoid'])
  tagLt := fun it hit n hn => Nat.lt_succ_of_lt (hi.tagLt it hit n hn)

/-- A negotiation begins under a key that is free. -/
theorem TableInv.of_begin (hi : TableInv s) {key : PairKey} {neg : NegotiationState}
    {callback : TimerCallback} {items : List TraceItem} (may : MayStart s key neg callback items)
    (delay now backoff : Int) : TableInv (begin s key neg callback delay now backoff items) where
  connIds := hi.connIds
  keyed := by
    intro k n hn
    rcases OMap.get?_set_cases hn with ⟨rfl, rfl⟩ | ⟨-, hn⟩
    · exact may.keyed.of_eq rfl rfl rfl rfl rfl rfl
    · exact hi.keyed k n hn
  connected := by
    intro k n hn
    rcases OMap.get?_set_cases hn with ⟨-, rfl⟩ | ⟨-, hn⟩
    · exact may.connected
    · exact hi.connected k n hn
  armed := by
    intro k n hn
    rcases OMap.get?_set_cases hn with ⟨rfl, rfl⟩ | ⟨-, hn⟩
    · exact ⟨s.nextRef + 1, { owner := s.nextRef, callback, delay }, rfl,
        by simp [begin], may.timer.1, by simp [may.nid]⟩
    · obtain ⟨t, tm, h1, h2, h3, h4⟩ := hi.armed k n hn
      refine ⟨t, tm, h1, ?_, h3, h4⟩
      have hlt := hi.timerLt t tm h2
      rw [begin, OMap.get?_set, if_neg (by omega), h2]
  owned := by
    intro t tm ht
    rcases OMap.get?_set_cases ht with ⟨rfl, rfl⟩ | ⟨-, ht⟩
    · refine ⟨{ neg with timeoutId := some (s.nextRef + 1) }, by simp [begin, may.timer.1],
        may.nid, rfl, ?_⟩
      have hfits := may.timer.2.1
      cases callback <;> exact hfits
    · obtain ⟨n, h1, h2, h3, h4⟩ := hi.owned t tm ht
      refine ⟨n, ?_, h2, h3, h4⟩
      rw [begin, OMap.get?_set, if_neg ?_, h1]
      rintro rfl
      rw [may.free] at h1
      cases h1
  refs := by
    intro t tm ht
    rcases OMap.get?_set_cases ht with ⟨-, rfl⟩ | ⟨-, ht⟩
    · exact may.timer.2.2
    · exact hi.refs t tm ht
  selfStreaks := hi.selfStreaks
  nidLt := by
    intro k n hn
    rcases OMap.get?_set_cases hn with ⟨-, rfl⟩ | ⟨-, hn⟩
    · have := may.nid
      simp only [begin]
      omega
    · have := hi.nidLt k n hn
      simp only [begin]
      omega
  timerLt := by
    intro t tm ht
    simp only [begin]
    rcases OMap.get?_set_cases ht with ⟨rfl, -⟩ | ⟨-, ht⟩
    · omega
    · have := hi.timerLt t tm ht
      omega
  nidInj := by
    intro k n k' n' hn hn' he
    have hnid := may.nid
    rcases OMap.get?_set_cases hn with ⟨rfl, rfl⟩ | ⟨-, hn⟩ <;>
      rcases OMap.get?_set_cases hn' with ⟨rfl, rfl⟩ | ⟨-, hn'⟩
    · rfl
    · have := hi.nidLt k' n' hn'
      simp only at he
      omega
    · have := hi.nidLt k n hn
      simp only at he
      omega
    · exact hi.nidInj k n k' n' hn hn' he
  tagLt := by
    intro it hit n hn
    simp only [begin] at hit ⊢
    rcases List.mem_append.mp hit with hit | hit
    · rw [may.tag_items it hit, may.nid] at hn
      cases hn; omega
    · rcases List.mem_cons.mp hit with rfl | hit
      · cases hn; omega
      · have := hi.tagLt it hit n hn
        omega

/-- A negotiation ends: it goes with its timer, all others keep theirs. -/
theorem TableInv.of_conclude (hi : TableInv s) {key : PairKey} {neg : NegotiationState}
    (hk : s.activeNegotiations.get? key = some neg) (receipt : Option (PeerId × AgentMsg))
    (ending : Ending) : TableInv (conclude s key neg receipt ending) where
  connIds := hi.connIds
  keyed := fun k n hn => hi.keyed k n (OMap.get?_of_get?_delete hn).2
  connected := fun k n hn => hi.connected k n (OMap.get?_of_get?_delete hn).2
  armed := by
    intro k n hn
    obtain ⟨hne, hn⟩ := OMap.get?_of_get?_delete hn
    obtain ⟨t, tm, h1, h2, h3, h4⟩ := hi.armed k n hn
    refine ⟨t, tm, h1, ?_, h3, h4⟩
    have hother : neg.timeoutId ≠ some t := fun e =>
      hne (hi.timer_unique hk hn (by rw [e, h1]))
    rw [conclude, get?_cleared_of_ne hother, h2]
  owned := by
    intro t tm ht
    obtain ⟨hold, hne⟩ := get?_cleared ht
    obtain ⟨n, h1, h2, h3, h4⟩ := hi.owned t tm hold
    refine ⟨n, ?_, h2, h3, h4⟩
    rw [conclude, OMap.get?_delete, if_neg ?_, h1]
    rintro rfl
    rw [hk] at h1
    cases h1
    exact hne h3
  refs := fun t tm ht => hi.refs t tm (get?_cleared ht).1
  selfStreaks := hi.selfStreaks
  nidLt := fun k n hn => hi.nidLt k n (OMap.get?_of_get?_delete hn).2
  timerLt := fun t tm ht => hi.timerLt t tm (get?_cleared ht).1
  nidInj := fun k n k' n' hn hn' he =>
    hi.nidInj k n k' n' (OMap.get?_of_get?_delete hn).2 (OMap.get?_of_get?_delete hn').2 he
  tagLt := by
    intro it hit n hn
    rcases List.mem_append.mp hit with hit | hit
    · rw [tag_of_mem_ending hit] at hn
      exact Option.some.inj hn ▸ hi.nidLt key neg hk
    · rcases List.mem_append.mp hit with hit | hit
      · rw [tag_of_mem_receipt hit] at hn
        exact Option.some.inj hn ▸ hi.nidLt key neg hk
      · exact hi.tagLt it hit n hn

theorem tag_of_mem_goItems {c : Connections} {neg : NegotiationState} {infoA infoB : PeerRow}
    {readyA readyB : DirectReady} {it : TraceItem}
    (h : it ∈ goItems c neg infoA infoB readyA readyB) : it.tag = some neg.nid := by
  rcases List.mem_append.mp h with h | h <;> exact tag_of_mem_sentItems h

/-- Every step keeps the invariant of the table. -/
theorem TableStep.inv (h : TableStep C D F s s') (hi : TableInv s) : TableInv s' := by
  cases h with
  | quiet items untagged active timers ref trace connIds connected health =>
    exact hi.of_quiet items (fun it hit => (untagged it hit).1) active timers ref trace connIds
      connected health
  | ignored p msg idle => exact hi.of_ignored p msg
  | stored p q msg neg neg' counts direct store pending =>
    subst store
    have hr := hi.replace counts.active (n := neg.store (isSideA p (pairKey p q)) msg)
      ((hi.keyed _ _ counts.active).of_store _ _)
      (by simp) (by simp) (by simp) (by simp) (fun _ hf => hf.store _ _)
    refine hr.addTrace (n := neg.store (isSideA p (pairKey p q)) msg) (OMap.get?_set_self ..)
      [.recv p msg (some neg.nid)] ?_
    simp [TraceItem.tag]
  | checked p q neg client meshIpv4 tcpPort nonce clientPubkey serverPubkey counts role =>
    rw [← List.singleton_append, ← List.append_assoc]
    refine hi.addTrace counts.active _ fun it hit => ?_
    rcases List.mem_append.mp hit with hit | hit
    · exact tag_of_mem_sentItems hit
    · rw [List.mem_singleton.mp hit]; rfl
  | went p q udpPort nonce neg neg' infoA infoB readyA readyB counts store ready =>
    have hdirect : neg.type = .directProbe := by simpa [AgentMsg.countsFor] using counts.counts
    have hr := hi.rearm counts.active (m := { neg' with timeoutId := some s.nextRef })
      (((hi.keyed _ _ counts.active).of_store (isSideA p (pairKey p q))
        (.probeDirectReady q udpPort nonce)).of_eq (by rw [store]) (by rw [store]) (by rw [store])
          (by rw [store]) (by rw [store]) (by rw [store]))
      (by simp [store]) (by simp [store]) (by simp [store]) rfl
      { owner := neg.nid, callback := .directResultTimeout (pairKey p q) neg.peerA neg.peerB,
        delay := DIRECT_RESULT_TIMEOUT_MS }
      rfl rfl ⟨by simp [store, hdirect], by simp [store], by simp [store], by simp [ready.1],
        by simp [ready.2]⟩ trivial
    have ha := hr.addTrace (n := { neg' with timeoutId := some s.nextRef }) (OMap.get?_set_self ..)
      (goItems s.connections neg' infoA infoB readyA readyB ++
        [.recv p (.probeDirectReady q udpPort nonce) (some neg'.nid)]) fun it hit => by
        rcases List.mem_append.mp hit with hit | hit
        · exact tag_of_mem_goItems hit
        · rw [List.mem_singleton.mp hit]; rfl
    have hnid : neg'.nid = neg.nid := by simp [store]
    have hA : neg'.peerA = neg.peerA := by simp [store]
    have hB : neg'.peerB = neg.peerB := by simp [store]
    have ht : neg'.timeoutId = neg.timeoutId := by simp [store]
    simpa [go, hnid, hA, hB, ht] using ha
  | started key neg callback delay now backoff items may => exact hi.of_begin may delay now backoff
  | concluded key neg receipt ending active counts allowed =>
    exact hi.of_conclude active receipt ending

end

theorem TableInv.init (db : Db) : TableInv (ServerState.init db) := by
  constructor <;> simp [ServerState.init, ConnIds, SelfStreaks, OMap.get?_empty]

end Meshezia
