import Meshezia.Lib.History
import Meshezia.Server.Handlers

/-!
# Switch verdicts and the exchange they rest on

A switch verdict counts results: the last one stored of each side for switch-direct, the
one of the client node for switch-relay.  `Grounded` says that each of them was received
after the exchange it is the result of, in the same negotiation: the ready messages of
both sides and the go to both (`exchanged`), the ready of the server node and the check
to the client node (`checked`).

The server stores a result whenever it comes, so a result left over from an earlier
negotiation of the pair, or sent early, is counted (`leftover_results_counted`).  Verdicts are
grounded in every run in which no success result comes before the ready messages of
the probe it meets (`ResultsInOrder`):

    IdsOk es → Along (step cfg) ResultsInOrder … es → Grounded (exec cfg db es).trace
                                                            (verdicts_grounded)
-/

namespace Meshezia

open ServerState Relation

/-! ## What is claimed of a history -/

def isDirectReadyFrom (n : Nat) (p : PeerId) : TraceItem → Bool
  | .recv x (.probeDirectReady _ _ _) m => decide (x = p ∧ m = some n)
  | _ => false

def isGoTo (n : Nat) (p : PeerId) : TraceItem → Bool
  | .sent x _ (.probeDirectGo _ _ _ _) m => decide (x = p ∧ m = some n)
  | _ => false

def isServeTo (n : Nat) (p : PeerId) : TraceItem → Bool
  | .sent x _ (.probeRelayServe _) m => decide (x = p ∧ m = some n)
  | _ => false

def isRelayReadyFrom (n : Nat) (p : PeerId) : TraceItem → Bool
  | .recv x (.probeRelayReady _ _ _ _) m => decide (x = p ∧ m = some n)
  | _ => false

def isCheckTo (n : Nat) (p : PeerId) : TraceItem → Bool
  | .sent x _ (.probeRelayCheck _ _ _ _ _ _) m => decide (x = p ∧ m = some n)
  | _ => false

/-- The direct-probe result that an item brings from `p` for negotiation `n`. -/
def directResultOf (n : Nat) (p : PeerId) : TraceItem → Option Bool
  | .recv x (.probeDirectResult _ success) m => if x = p ∧ m = some n then some success else none
  | _ => none

def relayResultOf (n : Nat) (p : PeerId) : TraceItem → Option Bool
  | .recv x (.probeRelayResult _ success) m => if x = p ∧ m = some n then some success else none
  | _ => none

/-- Ready received from both peers and go sent to both. -/
def exchanged (n : Nat) (a b : PeerId) (trace : List TraceItem) : Bool :=
  trace.any (isDirectReadyFrom n a) && trace.any (isDirectReadyFrom n b) &&
    (trace.any (isGoTo n a) && trace.any (isGoTo n b))

/-- `server` was told to serve, its ready was received and the check sent to `client`. -/
def checked (n : Nat) (server client : PeerId) (trace : List TraceItem) : Bool :=
  trace.any (isServeTo n server) && trace.any (isRelayReadyFrom n server) &&
    trace.any (isCheckTo n client)

/-- The result of `p` that counts is a success received after the exchange of `a` and `b`. -/
def directCounted (n : Nat) (p a b : PeerId) (trace : List TraceItem) : Bool :=
  match latest (directResultOf n p) trace with
  | some (true, earlier) => exchanged n a b earlier
  | _ => false

/-- The result of the client node is a success received after the exchange of the probe. -/
def relayCounted (n : Nat) (server client : PeerId) (trace : List TraceItem) : Bool :=
  match latest (relayResultOf n client) trace with
  | some (true, earlier) => checked n server client earlier
  | _ => false

/-- A switch verdict rests on results that count. -/
def verdictGrounded (it : TraceItem) (earlier : List TraceItem) : Bool :=
  match it with
  | .sent p _ (.probeVerdict q .switchDirect) (some n) =>
    directCounted n p p q earlier && directCounted n q p q earlier
  | .sent p _ (.probeVerdict q .switchRelay) (some n) =>
    relayCounted n p q earlier || relayCounted n q p earlier
  | _ => true

def Grounded (trace : List TraceItem) : Prop := each verdictGrounded trace = true

instance (trace : List TraceItem) : Decidable (Grounded trace) :=
  inferInstanceAs (Decidable (_ = true))

/-- A success result does not come before the ready messages of the probe it meets. -/
def ResultInOrder (s : ServerState) (p : PeerId) : AgentMsg → Prop
  | .probeDirectResult q true => ∀ neg ∈ s.activeNegotiations.get? (pairKey p q),
      neg.type = .directProbe → neg.readyA.isSome ∧ neg.readyB.isSome
  | .probeRelayResult q true => ∀ neg ∈ s.activeNegotiations.get? (pairKey p q),
      neg.type = .relayProbe → neg.clientNode = some p → ∀ server ∈ neg.serverNode,
        s.trace.any (isRelayReadyFrom neg.nid server) = true
  | _ => True

instance (s : ServerState) (p : PeerId) : (msg : AgentMsg) → Decidable (ResultInOrder s p msg)
  | .probeDirectResult _ true => by unfold ResultInOrder; infer_instance
  | .probeRelayResult _ true => by unfold ResultInOrder; infer_instance
  | .probeDirectResult _ false => isTrue trivial
  | .probeRelayResult _ false => isTrue trivial
  | .healthReport _ => isTrue trivial
  | .probeRelayReady _ _ _ _ => isTrue trivial
  | .probeDirectReady _ _ _ => isTrue trivial
  | .probeError _ _ => isTrue trivial

def ResultsInOrder (s : ServerState) (e : Event) : Prop := e.Known ResultInOrder s

instance (s : ServerState) (e : Event) : Decidable (ResultsInOrder s e) :=
  inferInstanceAs (Decidable (e.Known ResultInOrder s))

/-! ## Items of other negotiations -/

section
variable {n : Nat} {p : PeerId} {it : TraceItem}

theorem isRelayReadyFrom_tag (h : isRelayReadyFrom n p it = true) : it.tag = some n := by
  unfold isRelayReadyFrom at h
  split at h <;> simp_all [TraceItem.tag]

theorem directResultOf_tag {b : Bool} (h : directResultOf n p it = some b) : it.tag = some n := by
  unfold directResultOf at h
  split at h <;> simp_all [TraceItem.tag]

end

theorem exchanged_comm (n : Nat) (a b : PeerId) (trace : List TraceItem) :
    exchanged n a b trace = exchanged n b a trace := by
  unfold exchanged
  rw [Bool.and_comm (trace.any (isDirectReadyFrom n a)), Bool.and_comm (trace.any (isGoTo n a))]

theorem any_append_of {P : TraceItem → Bool} {trace : List TraceItem} (h : trace.any P = true)
    (items : List TraceItem) : (items ++ trace).any P = true := by
  simp [h]

theorem any_sentItems {c : Connections} {p : PeerId} (h : isPeerConnected c p = true)
    (neg : Option Nat) (msg : ServerMsg) {P : TraceItem → Bool}
    (hP : ∀ ws, P (.sent p ws msg neg) = true) : (sentItems c neg p msg).any P = true := by
  obtain ⟨ws, hws⟩ := sentItems_of_connected h neg msg
  simp [hws, hP]

theorem latest_sentItems {f : TraceItem → Option Bool}
    (h : ∀ p ws msg neg, f (.sent p ws msg neg) = none)
    (c : Connections) (neg : Option Nat) (p : PeerId) (msg : ServerMsg) (l : List TraceItem) :
    latest f (sentItems c neg p msg ++ l) = latest f l := by
  refine latest_append (fun it hit => ?_) l
  unfold sentItems at hit
  split at hit
  · rw [List.mem_singleton.mp hit]; exact h ..
  · cases hit

/-! ## The invariant -/

/-- What the history holds for an active negotiation. -/
structure NegGrounded (trace : List TraceItem) (neg : NegotiationState) : Prop where
  readyA : neg.readyA.isSome → trace.any (isDirectReadyFrom neg.nid neg.peerA) = true
  readyB : neg.readyB.isSome → trace.any (isDirectReadyFrom neg.nid neg.peerB) = true
  go : neg.readyA.isSome → neg.readyB.isSome →
    trace.any (isGoTo neg.nid neg.peerA) = true ∧ trace.any (isGoTo neg.nid neg.peerB) = true
  resultA : neg.type = .directProbe → neg.resultA = some true →
    directCounted neg.nid neg.peerA neg.peerA neg.peerB trace = true
  resultB : neg.type = .directProbe → neg.resultB = some true →
    directCounted neg.nid neg.peerB neg.peerA neg.peerB trace = true
  relay : neg.type = .relayProbe → ∀ server client, neg.serverNode = some server →
    neg.clientNode = some client → trace.any (isServeTo neg.nid server) = true ∧
      (trace.any (isRelayReadyFrom neg.nid server) = true →
        trace.any (isCheckTo neg.nid client) = true)

structure GroundInv (s : ServerState) : Prop where
  negs : ∀ k neg, s.activeNegotiations.get? k = some neg → NegGrounded s.trace neg
  grounded : Grounded s.trace

/-- New items without results of the two peers and without the ready of the server node. -/
theorem NegGrounded.more {trace : List TraceItem} {neg : NegotiationState}
    (h : NegGrounded trace neg) {l : List TraceItem}
    (results : neg.type = .directProbe → ∀ it ∈ l,
      directResultOf neg.nid neg.peerA it = none ∧ directResultOf neg.nid neg.peerB it = none)
    (ready : neg.type = .relayProbe → ∀ server, neg.serverNode = some server → ∀ it ∈ l,
      isRelayReadyFrom neg.nid server it = false) :
    NegGrounded (l ++ trace) neg where
  readyA := fun hr => any_append_of (h.readyA hr) l
  readyB := fun hr => any_append_of (h.readyB hr) l
  go := fun hA hB =>
    ⟨any_append_of (h.go hA hB).1 l, any_append_of (h.go hA hB).2 l⟩
  resultA := fun ht hr => by
    unfold directCounted
    rw [latest_append fun it hit => (results ht it hit).1]
    exact h.resultA ht hr
  resultB := fun ht hr => by
    unfold directCounted
    rw [latest_append fun it hit => (results ht it hit).2]
    exact h.resultB ht hr
  relay := by
    intro ht server client hs hc
    obtain ⟨h1, h2⟩ := h.relay ht server client hs hc
    refine ⟨any_append_of h1 l, fun hready => any_append_of (h2 ?_) l⟩
    rw [List.any_append, Bool.or_eq_true] at hready
    refine hready.resolve_left fun hitems => ?_
    obtain ⟨it, hit, hP⟩ := List.any_eq_true.mp hitems
    rw [ready ht server hs it hit] at hP
    cases hP

/-- Items of other negotiations do not matter. -/
theorem NegGrounded.other {trace : List TraceItem} {neg : NegotiationState}
    (h : NegGrounded trace neg) {l : List TraceItem}
    (hitems : ∀ it ∈ l, it.tag ≠ some neg.nid) : NegGrounded (l ++ trace) neg := by
  have hresult : ∀ p, ∀ it ∈ l, directResultOf neg.nid p it = none := by
    intro p it hit
    cases hr : directResultOf neg.nid p it with
    | none => rfl
    | some b => exact absurd (directResultOf_tag hr) (hitems it hit)
  refine h.more (fun _ it hit => ⟨hresult _ it hit, hresult _ it hit⟩) fun _ server _ it hit => ?_
  cases hr : isRelayReadyFrom neg.nid server it with
  | false => rfl
  | true => exact absurd (isRelayReadyFrom_tag hr) (hitems it hit)

/-- No item here is a switch verdict. -/
def NoSwitch (items : List TraceItem) : Prop :=
  ∀ it ∈ items, ∀ earlier, verdictGrounded it earlier = true

theorem noSwitch_of_untagged {items : List TraceItem} (h : ∀ it ∈ items, it.tag = none) :
    NoSwitch items := by
  intro it hit earlier
  have := h it hit
  unfold verdictGrounded
  split <;> simp_all [TraceItem.tag]

theorem noSwitch_sentItems {msg : ServerMsg}
    (h : ∀ q, msg ≠ .probeVerdict q .switchDirect ∧ msg ≠ .probeVerdict q .switchRelay)
    (c : Connections) (neg : Option Nat) (p : PeerId) : NoSwitch (sentItems c neg p msg) := by
  intro it hit earlier
  unfold sentItems at hit
  split at hit
  · rw [List.mem_singleton.mp hit]
    unfold verdictGrounded
    split
    · rename_i q n heq
      simp only [TraceItem.sent.injEq] at heq
      exact absurd heq.2.2.1 (h q).1
    · rename_i q n heq
      simp only [TraceItem.sent.injEq] at heq
      exact absurd heq.2.2.1 (h q).2
    · rfl
  · cases hit

theorem NoSwitch.append {l l' : List TraceItem} (h : NoSwitch l) (h' : NoSwitch l') :
    NoSwitch (l ++ l') := fun it hit =>
  (List.mem_append.mp hit).elim (h it) (h' it)

theorem noSwitch_recv (p : PeerId) (msg : AgentMsg) (neg : Option Nat) :
    NoSwitch [.recv p msg neg] := by
  intro it hit earlier
  rw [List.mem_singleton.mp hit]
  rfl

theorem NoSwitch.grounded {items trace : List TraceItem} (h : NoSwitch items)
    (hg : Grounded trace) : Grounded (items ++ trace) := each_append h hg

/-! ## The steps -/

section
variable {D : Nat → PeerId → AbortReason → Prop} {F : TraceItem → Prop} {s s' : ServerState}

theorem directCounted_recv_self (n : Nat) (p q a b : PeerId) (success : Bool)
    (trace : List TraceItem) :
    directCounted n p a b (.recv p (.probeDirectResult q success) (some n) :: trace) =
      (success && exchanged n a b trace) := by
  unfold directCounted
  rw [latest_cons_some (b := success) (by simp [directResultOf])]
  cases success <;> rfl

theorem directCounted_recv_other {n : Nat} {p x : PeerId} (h : p ≠ x) (a b : PeerId)
    (msg : AgentMsg) (neg : Option Nat) (trace : List TraceItem) :
    directCounted n x a b (.recv p msg neg :: trace) = directCounted n x a b trace := by
  unfold directCounted
  rw [latest_cons_none]
  cases msg <;> simp [directResultOf, h]

theorem directCounted_sent (n : Nat) (x a b : PeerId) (c : Connections) (neg : Option Nat)
    (p : PeerId) (msg : ServerMsg) (trace : List TraceItem) :
    directCounted n x a b (sentItems c neg p msg ++ trace) = directCounted n x a b trace := by
  unfold directCounted
  rw [latest_sentItems (fun _ _ _ _ => rfl)]

/-- A negotiation with both readies has made its exchange. -/
theorem NegGrounded.exchanged {trace : List TraceItem} {neg : NegotiationState}
    (h : NegGrounded trace neg) (hA : neg.readyA.isSome) (hB : neg.readyB.isSome) :
    exchanged neg.nid neg.peerA neg.peerB trace = true := by
  have hgo := h.go hA hB
  simp [Meshezia.exchanged, h.readyA hA, h.readyB hB, hgo.1, hgo.2]

/-- A success result that counts for a direct probe comes after its exchange. -/
theorem exchanged_of_inOrder (h : GroundInv s) {p q : PeerId} {neg : NegotiationState}
    (counts : Counts ResultInOrder s p q (.probeDirectResult q true) neg) :
    exchanged neg.nid neg.peerA neg.peerB s.trace = true := by
  have hdirect : neg.type = .directProbe := by simpa [AgentMsg.countsFor] using counts.counts
  obtain ⟨hA, hB⟩ := counts.known neg counts.active hdirect
  exact (h.negs _ neg counts.active).exchanged hA hB

/-- A negotiation that the items, all of the negotiation `neg` under `key`, are not about. -/
theorem GroundInv.other (h : GroundInv s) (hi : TableInv s) {key k : PairKey}
    {neg n : NegotiationState} (active : s.activeNegotiations.get? key = some neg)
    (hn : s.activeNegotiations.get? k = some n) (hne : key ≠ k) {l : List TraceItem}
    (htag : ∀ it ∈ l, it.tag = some neg.nid) : NegGrounded (l ++ s.trace) n := by
  refine (h.negs k n hn).other fun it hit => ?_
  rw [htag it hit]
  exact fun e => hne (hi.nidInj _ _ _ _ active hn (Option.some.inj e))

/-- Storing a ready while the other side's is missing, or a result in order. -/
theorem negGrounded_stored (h : GroundInv s) (hi : TableInv s) {p q : PeerId} {msg : AgentMsg}
    {neg neg' : NegotiationState} (counts : Counts ResultInOrder s p q msg neg)
    (direct : neg.type = .directProbe) (store : neg' = neg.store (isSideA p (pairKey p q)) msg)
    (pending : (neg'.readyA = neg.readyA ∧ neg'.readyB = neg.readyB) ∨
      ¬ (neg'.readyA.isSome ∧ neg'.readyB.isSome)) :
    NegGrounded (.recv p msg (some neg.nid) :: s.trace) neg' := by
  have hold := h.negs _ neg counts.active
  have hkeyed := hi.keyed _ neg counts.active
  have hne := hkeyed.ne
  have hgo : neg'.readyA.isSome → neg'.readyB.isSome → neg.readyA.isSome ∧ neg.readyB.isSome := by
    intro hA hB
    rcases pending with ⟨h1, h2⟩ | hnot
    · exact ⟨h1 ▸ hA, h2 ▸ hB⟩
    · exact absurd ⟨hA, hB⟩ hnot
  have hrelay : neg'.type ≠ .relayProbe := by rw [store, store_type, direct]; simp
  cases msg with
  | healthReport reports => exact absurd counts.counts (by simp [AgentMsg.countsFor])
  | probeRelayReady x ip port nonce =>
    exact absurd counts.counts (by simp [AgentMsg.countsFor, direct])
  | probeRelayResult x success => exact absurd counts.counts (by simp [AgentMsg.countsFor, direct])
  | probeError x error =>
    rw [show neg' = neg from store]
    exact hold.more (l := [.recv p (.probeError x error) (some neg.nid)])
      (by simp [directResultOf]) (by simp [isRelayReadyFrom])
  | probeDirectReady x port nonce =>
    have hmore := hold.more (l := [.recv p (.probeDirectReady x port nonce) (some neg.nid)])
      (by simp [directResultOf]) (by simp [isRelayReadyFrom])
    rcases hkeyed.side with ⟨rfl, -, hside⟩ | ⟨rfl, -, hside⟩ <;> rw [hside] at store <;>
      subst store
    · exact ⟨fun _ => by simp [NegotiationState.store, isDirectReadyFrom], hmore.readyB,
        fun hA hB => hmore.go (hgo hA hB).1 (hgo hA hB).2, hmore.resultA, hmore.resultB,
        fun ht => absurd ht hrelay⟩
    · exact ⟨hmore.readyA, fun _ => by simp [NegotiationState.store, isDirectReadyFrom],
        fun hA hB => hmore.go (hgo hA hB).1 (hgo hA hB).2, hmore.resultA, hmore.resultB,
        fun ht => absurd ht hrelay⟩
  | probeDirectResult x success =>
    have hq : x = q := by
      have := counts.peer
      simpa [AgentMsg.peer?] using this
    subst hq
    have hany : ∀ P : TraceItem → Bool, s.trace.any P = true →
        (.recv p (.probeDirectResult x success) (some neg.nid) :: s.trace).any P = true :=
      fun P hP => any_append_of hP [_]
    have hself : success = true → exchanged neg.nid neg.peerA neg.peerB s.trace = true := by
      rintro rfl
      exact exchanged_of_inOrder h counts
    rcases hkeyed.side with ⟨rfl, -, hside⟩ | ⟨rfl, -, hside⟩ <;> rw [hside] at store <;>
      subst store
    · refine ⟨fun hA => hany _ (hold.readyA hA), fun hB => hany _ (hold.readyB hB),
        fun hA hB => ⟨hany _ (hold.go hA hB).1, hany _ (hold.go hA hB).2⟩, ?_, ?_,
        fun ht => absurd ht hrelay⟩
      · intro _ hr
        have hs : success = true := by simpa [NegotiationState.store] using hr
        simp only [NegotiationState.store, if_true]
        rw [directCounted_recv_self, hs, hself hs]
        rfl
      · intro ht hr
        simp only [NegotiationState.store, if_true] at hr ⊢
        rw [directCounted_recv_other hne]
        exact hold.resultB direct hr
    · refine ⟨fun hA => hany _ (hold.readyA hA), fun hB => hany _ (hold.readyB hB),
        fun hA hB => ⟨hany _ (hold.go hA hB).1, hany _ (hold.go hA hB).2⟩, ?_, ?_,
        fun ht => absurd ht hrelay⟩
      · intro ht hr
        simp only [NegotiationState.store, Bool.false_eq_true, if_false] at hr ⊢
        rw [directCounted_recv_other hne.symm]
        exact hold.resultA direct hr
      · intro _ hr
        have hs : success = true := by simpa [NegotiationState.store] using hr
        simp only [NegotiationState.store, Bool.false_eq_true, if_false]
        rw [directCounted_recv_self, hs, hself hs]
        rfl

theorem negGrounded_went (h : GroundInv s) (hi : TableInv s) {p q : PeerId} {udpPort : Int}
    {nonce : JsString} {neg neg' : NegotiationState} {infoA infoB : PeerRow}
    {readyA readyB : DirectReady}
    (counts : Counts ResultInOrder s p q (.probeDirectReady q udpPort nonce) neg)
    (store : neg' = neg.store (isSideA p (pairKey p q)) (.probeDirectReady q udpPort nonce))
    (timeoutId : Option Nat) :
    NegGrounded (goItems s.connections neg' infoA infoB readyA readyB ++
      (.recv p (.probeDirectReady q udpPort nonce) (some neg'.nid) :: s.trace))
      { neg' with timeoutId := timeoutId } := by
  have hold := h.negs _ neg counts.active
  have hkeyed := hi.keyed _ neg counts.active
  have hconn := hi.connected _ neg counts.active
  have hdirect : neg.type = .directProbe := by simpa [AgentMsg.countsFor] using counts.counts
  have hrelay : neg'.type ≠ .relayProbe := by rw [store, store_type, hdirect]; simp
  have hresult : ∀ x, directCounted neg'.nid x neg'.peerA neg'.peerB
      (goItems s.connections neg' infoA infoB readyA readyB ++
        (.recv p (.probeDirectReady q udpPort nonce) (some neg'.nid) :: s.trace)) =
      directCounted neg'.nid x neg'.peerA neg'.peerB s.trace := by
    intro x
    rw [goItems, List.append_assoc, directCounted_sent, directCounted_sent]
    unfold directCounted
    rw [latest_cons_none rfl]
  have hready : (neg'.readyA.isSome → (TraceItem.recv p (.probeDirectReady q udpPort nonce)
        (some neg'.nid) :: s.trace).any (isDirectReadyFrom neg'.nid neg'.peerA) = true) ∧
      (neg'.readyB.isSome → (TraceItem.recv p (.probeDirectReady q udpPort nonce)
        (some neg'.nid) :: s.trace).any (isDirectReadyFrom neg'.nid neg'.peerB) = true) := by
    rcases hkeyed.side with ⟨rfl, -, hside⟩ | ⟨rfl, -, hside⟩ <;> rw [hside] at store <;>
      subst store
    · exact ⟨fun _ => by simp [NegotiationState.store, isDirectReadyFrom],
        fun hB => any_append_of (hold.readyB hB) [_]⟩
    · exact ⟨fun hA => any_append_of (hold.readyA hA) [_],
        fun _ => by simp [NegotiationState.store, isDirectReadyFrom]⟩
  have hsame : neg'.nid = neg.nid ∧ neg'.peerA = neg.peerA ∧ neg'.peerB = neg.peerB := by
    simp [store]
  refine ⟨fun hA => any_append_of (hready.1 hA) _, fun hB => any_append_of (hready.2 hB) _, ?_, ?_,
    ?_, fun ht => absurd ht hrelay⟩
  · intro _ _
    simp only [goItems, List.any_append, Bool.or_eq_true]
    rw [hsame.2.1, hsame.2.2]
    exact ⟨Or.inl (Or.inr (any_sentItems hconn.1 _ _ fun ws => by simp [isGoTo])),
      Or.inl (Or.inl (any_sentItems hconn.2 _ _ fun ws => by simp [isGoTo]))⟩
  · intro ht hr
    rw [hresult, hsame.1, hsame.2.1, hsame.2.2]
    exact hold.resultA hdirect (by rw [← hr, store]; cases isSideA p (pairKey p q) <;> rfl)
  · intro ht hr
    rw [hresult, hsame.1, hsame.2.1, hsame.2.2]
    exact hold.resultB hdirect (by rw [← hr, store]; cases isSideA p (pairKey p q) <;> rfl)

theorem negGrounded_begin (hi : TableInv s) {key : PairKey} {neg : NegotiationState}
    {callback : TimerCallback} {items : List TraceItem} (may : MayStart s key neg callback items)
    (now backoff : Int) (timeoutId : Option Nat) :
    NegGrounded (items ++ .started key s.nextRef neg.type now backoff :: s.trace)
      { neg with timeoutId := timeoutId } := by
  obtain ⟨hA, hB, hrA, hrB⟩ := may.fresh
  refine ⟨fun h => by simp [hA] at h, fun h => by simp [hB] at h, fun h => by simp [hA] at h,
    fun _ h => by simp [hrA] at h, fun _ h => by simp [hrB] at h, ?_⟩
  intro ht server client hs hc
  rcases may.items with ⟨q, client', -, hq, hc', he⟩ | ⟨ht', -⟩
  · have hconn : isPeerConnected s.connections q = true := by
      rcases may.keyed.roles ht with ⟨h1, -⟩ | ⟨h1, -⟩ <;> rw [h1] at hq <;> cases hq
      · exact may.connected.1
      · exact may.connected.2
    have hserver : server = q := by
      have : neg.serverNode = some server := hs
      rw [this] at hq
      exact Option.some.inj hq
    subst hserver
    refine ⟨?_, fun hready => ?_⟩
    · rw [he, List.any_append, any_sentItems hconn _ _ fun ws => by simp [isServeTo]]
      rfl
    · -- no message of the new negotiation was received yet
      obtain ⟨it, hit, hP⟩ := List.any_eq_true.mp hready
      rcases List.mem_append.mp hit with hit | hit
      · rw [he, sentItems] at hit
        split at hit
        · rw [List.mem_singleton.mp hit] at hP; cases hP
        · cases hit
      · rcases List.mem_cons.mp hit with rfl | hit
        · cases hP
        · have hlt := hi.tagLt it hit _ (isRelayReadyFrom_tag hP)
          have hnid := may.nid
          simp only at hlt
          omega
  · rw [show neg.type = .relayProbe from ht] at ht'
    cases ht'

/-! ### Verdicts -/

theorem directCounted_comm (n : Nat) (p a b : PeerId) (trace : List TraceItem) :
    directCounted n p a b trace = directCounted n p b a trace := by
  unfold directCounted
  split
  · exact exchanged_comm ..
  · rfl

theorem grounded_switchDirect {c : Connections} {n : Nat} {a b : PeerId} {trace : List TraceItem}
    (hg : Grounded trace) (hA : directCounted n a a b trace = true)
    (hB : directCounted n b a b trace = true) :
    Grounded (sentItems c (some n) b (.probeVerdict a .switchDirect) ++
      sentItems c (some n) a (.probeVerdict b .switchDirect) ++ trace) := by
  have hfirst : Grounded (sentItems c (some n) a (.probeVerdict b .switchDirect) ++ trace) := by
    unfold sentItems
    split
    · simpa [Grounded, each, verdictGrounded, hA, hB] using hg
    · exact hg
  rw [List.append_assoc]
  have hA' := directCounted_sent n a a b c (some n) a (.probeVerdict b .switchDirect) trace
  have hB' := directCounted_sent n b a b c (some n) a (.probeVerdict b .switchDirect) trace
  rw [hA, directCounted_comm] at hA'
  rw [hB, directCounted_comm] at hB'
  generalize sentItems c (some n) a (.probeVerdict b .switchDirect) ++ trace = rest
    at hfirst hA' hB' ⊢
  unfold sentItems
  split
  · simpa [Grounded, each, verdictGrounded, hA', hB'] using hfirst
  · exact hfirst

theorem relayCounted_sent (n : Nat) (server client : PeerId) (c : Connections) (neg : Option Nat)
    (p : PeerId) (msg : ServerMsg) (trace : List TraceItem) :
    relayCounted n server client (sentItems c neg p msg ++ trace) =
      relayCounted n server client trace := by
  unfold relayCounted
  rw [latest_sentItems (fun _ _ _ _ => rfl)]

theorem grounded_switchRelay {c : Connections} {n : Nat} {a b server client : PeerId}
    {trace : List TraceItem} (hg : Grounded trace)
    (hroles : (server = a ∧ client = b) ∨ (server = b ∧ client = a))
    (hcount : relayCounted n server client trace = true) :
    Grounded (sentItems c (some n) b (.probeVerdict a .switchRelay) ++
      sentItems c (some n) a (.probeVerdict b .switchRelay) ++ trace) := by
  have hverdict : ∀ tr, relayCounted n server client tr = true →
      (relayCounted n a b tr || relayCounted n b a tr) = true := by
    intro tr htr
    rcases hroles with ⟨rfl, rfl⟩ | ⟨rfl, rfl⟩ <;> simp [htr]
  have hfirst : Grounded (sentItems c (some n) a (.probeVerdict b .switchRelay) ++ trace) := by
    unfold sentItems
    split
    · simpa [Grounded, each, verdictGrounded, hverdict trace hcount] using hg
    · exact hg
  rw [List.append_assoc]
  have hcount' := relayCounted_sent n server client c (some n) a (.probeVerdict b .switchRelay) trace
  rw [hcount] at hcount'
  generalize sentItems c (some n) a (.probeVerdict b .switchRelay) ++ trace = rest
    at hfirst hcount' ⊢
  unfold sentItems
  split
  · simpa [Grounded, each, verdictGrounded, Bool.or_comm, hverdict rest hcount'] using hfirst
  · exact hfirst

theorem grounded_conclude (h : GroundInv s) (hi : TableInv s) {key : PairKey}
    {neg : NegotiationState} (hk : s.activeNegotiations.get? key = some neg)
    {receipt : Option (PeerId × AgentMsg)} {ending : Ending}
    (counts : ∀ p msg, receipt = some (p, msg) →
      ∃ q, key = pairKey p q ∧ Counts ResultInOrder s p q msg neg)
    (allowed : ending.Allowed D neg receipt) :
    Grounded (conclude s key neg receipt ending).trace := by
  have hreceipt : Grounded (receiptItems neg receipt ++ s.trace) := by
    cases receipt with
    | none => exact h.grounded
    | some r => exact each_append (noSwitch_recv r.1 r.2 _) h.grounded
  have hkeyed := hi.keyed key neg hk
  have hold := h.negs key neg hk
  rw [conclude]
  cases ending with
  | abort reason =>
    exact ((noSwitch_sentItems (by simp) _ _ _).append
      (noSwitch_sentItems (by simp) _ _ _)).grounded hreceipt
  | abortOther x reason => exact (noSwitch_sentItems (by simp) _ _ _).grounded hreceipt
  | verdict action =>
    cases action with
    | stay =>
      exact ((noSwitch_sentItems (by simp) _ _ _).append
        (noSwitch_sentItems (by simp) _ _ _)).grounded hreceipt
    | switchDirect =>
      obtain ⟨hdirect, p, q, rfl, hrA, hrB⟩ := allowed
      obtain ⟨q', rfl, hcounts⟩ := counts p _ rfl
      obtain rfl : q = q' := by simpa [AgentMsg.peer?] using hcounts.peer
      rw [hkeyed.pairKey_eq] at hrA hrB
      have hex := exchanged_of_inOrder h hcounts
      refine grounded_switchDirect hreceipt ?_ ?_
      · rcases hkeyed.side with ⟨rfl, -, hside⟩ | ⟨rfl, -, hside⟩
        · exact (directCounted_recv_self _ _ _ _ _ true s.trace).trans (by rw [hex]; rfl)
        · rw [hside] at hrA
          exact (directCounted_recv_other hkeyed.ne.symm ..).trans (hold.resultA hdirect hrA)
      · rcases hkeyed.side with ⟨rfl, -, hside⟩ | ⟨rfl, -, hside⟩
        · rw [hside] at hrB
          exact (directCounted_recv_other hkeyed.ne ..).trans (hold.resultB hdirect hrB)
        · exact (directCounted_recv_self _ _ _ _ _ true s.trace).trans (by rw [hex]; rfl)
    | switchRelay =>
      obtain ⟨hrelay, p, q, rfl⟩ := allowed
      obtain ⟨q', rfl, hcounts⟩ := counts p _ rfl
      obtain rfl : q = q' := by simpa [AgentMsg.peer?] using hcounts.peer
      have hclient : neg.clientNode = some p := by
        simpa [AgentMsg.countsFor, hrelay] using hcounts.counts
      obtain ⟨server, hserver, hroles⟩ : ∃ server, neg.serverNode = some server ∧
          ((server = neg.peerA ∧ p = neg.peerB) ∨ (server = neg.peerB ∧ p = neg.peerA)) := by
        rcases hkeyed.roles hrelay with ⟨h1, h2⟩ | ⟨h1, h2⟩ <;> rw [hclient] at h2 <;>
          rw [Option.some.inj h2]
        · exact ⟨_, h1, Or.inl ⟨rfl, rfl⟩⟩
        · exact ⟨_, h1, Or.inr ⟨rfl, rfl⟩⟩
      have hready := hcounts.known neg hcounts.active hrelay hclient server hserver
      obtain ⟨hserve, hcheck⟩ := hold.relay hrelay server p hserver hclient
      refine grounded_switchRelay hreceipt hroles ?_
      show relayCounted neg.nid server p (.recv p (.probeRelayResult q true) (some neg.nid) ::
        s.trace) = true
      unfold relayCounted
      rw [latest_cons_some (b := true) (by simp [relayResultOf])]
      simp [checked, hserve, hready, hcheck hready]

/-- A message that meets a negotiation and does not count for it. -/
theorem negGrounded_ignored (h : GroundInv s) (hi : TableInv s) {p : PeerId} {msg : AgentMsg}
    (idle : ∀ q neg, msg.peer? = some q → s.activeNegotiations.get? (pairKey p q) = some neg →
      msg.countsFor p neg = false) {k : PairKey} {neg : NegotiationState}
    (hn : s.activeNegotiations.get? k = some neg) :
    NegGrounded (.recv p msg (s.negotiationMet p msg) :: s.trace) neg := by
  by_cases htag : s.negotiationMet p msg = some neg.nid
  · have hcount : msg.countsFor p neg = false := by
      cases hq : msg.peer? with
      | none => simp [negotiationMet, hq] at htag
      | some q =>
        rw [negotiationMet_eq hq] at htag
        obtain ⟨neg', hn', hnid⟩ := Option.map_eq_some_iff.mp htag
        obtain rfl := hi.nidInj _ _ _ _ hn' hn hnid
        rw [hn] at hn'
        cases hn'
        exact idle q neg hq hn
    refine (h.negs k neg hn).more (l := [_]) (fun ht it hit => ?_)
      fun ht server hs it hit => ?_ <;> rw [List.mem_singleton.mp hit]
    · cases msg <;> simp_all [AgentMsg.countsFor, directResultOf]
    · cases msg <;> simp_all [AgentMsg.countsFor, isRelayReadyFrom]
      exact fun e => hcount e.symm
  · exact (h.negs k neg hn).other (l := [_]) fun it hit => by
      rw [List.mem_singleton.mp hit]; exact htag

/-- The ready of the server node arrives and the check is sent to the client node. -/
theorem negGrounded_checked (h : GroundInv s) (hi : TableInv s) {p q client : PeerId}
    {neg : NegotiationState} {meshIpv4 nonce clientPubkey serverPubkey : JsString} {tcpPort : Int}
    (counts : Counts ResultInOrder s p q (.probeRelayReady q meshIpv4 tcpPort nonce) neg)
    (role : neg.clientNode = some client) :
    NegGrounded (sentItems s.connections (some neg.nid) client
        (.probeRelayCheck p meshIpv4 tcpPort nonce clientPubkey serverPubkey) ++
      .recv p (.probeRelayReady q meshIpv4 tcpPort nonce) (some neg.nid) :: s.trace) neg := by
  have hconn := hi.connected _ neg counts.active
  have hrelay : neg.type = .relayProbe ∧ neg.serverNode = some p := by
    simpa [AgentMsg.countsFor] using counts.counts
  have hold := h.negs _ neg counts.active
  refine ⟨fun hr => any_append_of (any_append_of (hold.readyA hr) [_]) _,
    fun hr => any_append_of (any_append_of (hold.readyB hr) [_]) _,
    fun hA hB => ⟨any_append_of (any_append_of (hold.go hA hB).1 [_]) _,
      any_append_of (any_append_of (hold.go hA hB).2 [_]) _⟩,
    fun ht => absurd ht (by simp [hrelay.1]), fun ht => absurd ht (by simp [hrelay.1]), ?_⟩
  intro ht server client' hs hc
  rw [role] at hc
  cases hc
  refine ⟨any_append_of (any_append_of (hold.relay ht server client hs role).1 [_]) _,
    fun _ => ?_⟩
  have hclient : isPeerConnected s.connections client = true := by
    rcases (hi.keyed _ neg counts.active).roles ht with ⟨-, h2⟩ | ⟨-, h2⟩ <;>
      rw [role] at h2 <;> rw [Option.some.inj h2]
    · exact hconn.2
    · exact hconn.1
  rw [List.any_append, any_sentItems hclient _ _ fun ws => by simp [isCheckTo]]
  rfl

/-- **One step.** -/
theorem TableStep.groundInv (step : TableStep ResultInOrder D F s s') (h : GroundInv s)
    (hi : TableInv s) : GroundInv s' := by
  cases step with
  | quiet items untagged active timers ref trace connIds connected health =>
    refine ⟨fun k neg hn => ?_, ?_⟩
    · rw [active] at hn
      rw [trace]
      exact (h.negs k neg hn).other fun it hit => by rw [(untagged it hit).1]; simp
    · rw [trace]
      exact each_append (noSwitch_of_untagged fun it hit => (untagged it hit).1) h.grounded
  | ignored p msg idle =>
    exact ⟨fun k neg hn => negGrounded_ignored h hi idle hn,
      (noSwitch_recv _ _ _).grounded h.grounded⟩
  | stored p q msg neg neg' counts direct store pending =>
    refine ⟨fun k n hn => ?_, (noSwitch_recv _ _ _).grounded h.grounded⟩
    rcases OMap.get?_set_cases hn with ⟨-, rfl⟩ | ⟨hne, hn⟩
    · exact negGrounded_stored h hi counts direct store pending
    · exact h.other hi counts.active hn hne (l := [_]) fun it hit => by
        rw [List.mem_singleton.mp hit]; rfl
  | checked p q neg client meshIpv4 tcpPort nonce clientPubkey serverPubkey counts role =>
    refine ⟨fun k n hn => ?_, (noSwitch_sentItems (by simp) _ _ _).grounded
      ((noSwitch_recv _ _ _).grounded h.grounded)⟩
    by_cases hk : pairKey p q = k
    · subst hk
      rw [counts.active] at hn
      cases hn
      exact negGrounded_checked h hi counts role
    · rw [← List.singleton_append, ← List.append_assoc]
      refine h.other hi counts.active hn hk fun it hit => ?_
      rcases List.mem_append.mp hit with hit | hit
      · exact tag_of_mem_sentItems hit
      · rw [List.mem_singleton.mp hit]; rfl
  | went p q udpPort nonce neg neg' infoA infoB readyA readyB counts store ready =>
    have hnid : neg'.nid = neg.nid := by rw [store, store_nid]
    refine ⟨fun k n hn => ?_, ((noSwitch_sentItems (by simp) _ _ _).append
      (noSwitch_sentItems (by simp) _ _ _)).grounded ((noSwitch_recv _ _ _).grounded h.grounded)⟩
    rcases OMap.get?_set_cases hn with ⟨-, rfl⟩ | ⟨hne, hn⟩
    · exact negGrounded_went h hi counts store _
    · rw [go, ← List.singleton_append, ← List.append_assoc]
      refine h.other hi counts.active hn hne fun it hit => ?_
      rw [← hnid]
      rcases List.mem_append.mp hit with hit | hit
      · exact tag_of_mem_goItems hit
      · rw [List.mem_singleton.mp hit]; rfl
  | started key neg callback delay now backoff items may =>
    have hno : NoSwitch items := by
      rcases may.items with ⟨_, _, _, _, _, he⟩ | ⟨_, he⟩ <;> rw [he]
      · exact noSwitch_sentItems (by simp) _ _ _
      · exact (noSwitch_sentItems (by simp) _ _ _).append (noSwitch_sentItems (by simp) _ _ _)
    have hstart : NoSwitch [.started key s.nextRef neg.type now backoff] := fun it hit earlier => by
      rw [List.mem_singleton.mp hit]
      rfl
    refine ⟨fun k n hn => ?_, hno.grounded (hstart.grounded h.grounded)⟩
    rcases OMap.get?_set_cases hn with ⟨-, rfl⟩ | ⟨-, hn⟩
    · exact negGrounded_begin hi may now backoff _
    · have hother := (h.negs k n hn).other (l := items ++
        [.started key s.nextRef neg.type now backoff]) fun it hit => by
          have htag : it.tag = some s.nextRef := by
            rcases List.mem_append.mp hit with hit | hit
            · rw [may.tag_items it hit, may.nid]
            · rw [List.mem_singleton.mp hit]; rfl
          rw [htag]
          have := hi.nidLt k n hn
          exact fun e => by have := Option.some.inj e; omega
      simpa [begin] using hother
  | concluded key neg receipt ending active counts allowed =>
    refine ⟨fun k n hn => ?_, grounded_conclude h hi active counts allowed⟩
    obtain ⟨hne, hold⟩ := OMap.get?_of_get?_delete hn
    rw [conclude, ← List.append_assoc]
    refine h.other hi active hold hne fun it hit => ?_
    rcases List.mem_append.mp hit with hit | hit
    · exact tag_of_mem_ending hit
    · exact tag_of_mem_receipt hit

theorem groundInv_steps (hsteps : ReflTransGen (TableStep ResultInOrder D F) s s')
    (h : GroundInv s) (hi : TableInv s) : GroundInv s' := by
  induction hsteps with
  | refl => exact h
  | tail hpre hstep ih => exact hstep.groundInv ih (steps_inv hpre hi)

end

/-! ## Runs -/

theorem groundInv_step (cfg : Config) {s : ServerState} (h : GroundInv s) (hi : TableInv s)
    {e : Event} (hid : e.idsOk) (horder : ResultsInOrder s e) : GroundInv (step cfg s e) := by
  by_cases hrestart : e = .restart
  · subst hrestart
    exact ⟨fun k neg hn => by simp [step, OMap.get?_empty] at hn, h.grounded⟩
  · exact groundInv_steps (steps_of_step cfg hi e hid horder hrestart) h hi

/-- **Switch verdicts rest on a completed exchange**, in every run whose results come in order. -/
theorem verdicts_grounded (cfg : Config) (db : Db) (es : List Event) (hids : IdsOk es)
    (horder : Along (step cfg) ResultsInOrder (ServerState.init db) es) :
    Grounded (exec cfg db es).trace := by
  have hinv : TableInv (exec cfg db es) ∧ GroundInv (exec cfg db es) :=
    run_invariant_along (step cfg) (P := fun s e => e.idsOk ∧ ResultsInOrder s e)
      (I := fun s => TableInv s ∧ GroundInv s)
      (fun s e hs he => ⟨tableInv_step cfg hs.1 he.1, groundInv_step cfg hs.2 hs.1 he.1 he.2⟩)
      ⟨TableInv.init db, fun k neg hn => by simp [ServerState.init, OMap.get?_empty] at hn, rfl⟩
      (along_and _ (along_idsOk hids) horder)
  exact hinv.2.grounded

/-- A direct probe whose results come after the readies. -/
def switchDirectRun : List Event :=
  directProbeRun ++
    [.message wsOne 61000 (.probeDirectReady peerTwo 5000 []),
     .message wsTwo 61000 (.probeDirectReady peerOne 5001 []),
     .message wsOne 62000 (.probeDirectResult peerTwo true),
     .message wsTwo 62000 (.probeDirectResult peerOne true)]

theorem verdicts_grounded_switchDirectRun : Grounded (exec {} twoPeers switchDirectRun).trace :=
  verdicts_grounded {} twoPeers switchDirectRun (by decide) (by decide)

/-- The results of a direct probe that timed out come during the next one. -/
def leftoverResultsRun : List Event :=
  directProbeRun ++
    [.message wsOne 61000 (.probeDirectReady peerTwo 5000 []),
     .message wsTwo 61000 (.probeDirectReady peerOne 5001 []), .timer 3, .sweep 130000,
     .message wsOne 130500 (.probeDirectResult peerTwo true),
     .message wsTwo 130500 (.probeDirectResult peerOne true)]

/-- Not every switch verdict rests on a completed exchange. -/
theorem leftover_results_counted :
    ¬ ∀ (cfg : Config) (db : Db) (es : List Event), IdsOk es → Grounded (exec cfg db es).trace :=
  fun h => absurd (h {} twoPeers leftoverResultsRun (by decide)) (by decide)

end Meshezia
