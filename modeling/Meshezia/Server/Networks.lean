import Meshezia.Server.Binary
import Meshezia.Server.Connections
import Meshezia.Server.Isolation

/-!
# Traffic and networks

The network of a peer is checked when its socket is opened and never again: a frame may
name any connected peer.  `net p` is the network of `p`.  As long as the frames and the
sweeps of a run bring no two networks together (`FrameInside`, `SweepInside`), every
answer to a frame stays in the network of its sender (`AnswersInside`).

    Along (step cfg) (EventInside net) … → FrameInside net s ws frame →
      AnswersInside net s ws (s.wsMessage cfg ws now frame)        (answers_inside_network)

One binary frame to a peer of another network is enough to leave it
(`answers_leave_network`).
-/

namespace Meshezia

open ServerState Relation

/-! ## What is claimed -/

/-- What the server sends on a frame from `ws`, the text messages and the binary one, goes to
peers of the network of its sender. -/
structure AnswersInside (net : PeerId → NetworkId) (s : ServerState) (ws : Ws)
    (answer : ServerState × Relayed) : Prop where
  text : ∃ items, answer.1.trace = items ++ s.trace ∧
    ∀ it ∈ items, ∀ q, it.dest? = some q → net q = net ws.peerId
  binary : ∀ dest bytes, answer.2 = .sent dest bytes → net dest.peerId = net ws.peerId

/-- Every open connection is one of a registered peer, in the network `net` says. -/
def Admitted (net : PeerId → NetworkId) (s : ServerState) : Prop :=
  ∀ p ws, s.connections.get? p = some ws →
    ∃ row, s.db.peers.get? p = some row ∧ row.networkId = net p

/-- The streak of one side of the record under `key`. -/
def streakUnder (s : ServerState) (isA : Bool) (key : PairKey) : Nat :=
  ((s.pairHealthMap.get? key).map (streakOf · isA)).getD 0

/-- The entry of `p` is a loss under `key`, unless it comes in the grace period. -/
def lossUnder (p : PeerId) (key : PairKey) (r : HealthReport) : Bool :=
  decide (pairKey p r.peerId = key ∧ r.mode ≠ .relay ∧ r.rxAlive = false)

/-- A binary frame names no connected peer of another network.  The losses of a health report
about one that has itself reported enough loss about the sender do not make enough of them. -/
def FrameInside (net : PeerId → NetworkId) (s : ServerState) (ws : Ws) : Frame → Prop
  | .binary bytes => RELAY_PEER_ID_LEN ≤ bytes.length → ∀ dest,
    s.connections.get? (TextDecoder.decode (bytes.take RELAY_PEER_ID_LEN)) = some dest →
      net dest.peerId = net ws.peerId
  | .text (some (.healthReport reports)) => ∀ r ∈ reports,
    let key := pairKey ws.peerId r.peerId
    lossUnder ws.peerId key r = true → s.isConnected r.peerId = true →
      STREAK_THRESHOLD ≤ streakUnder s (!senderFirst ws.peerId r.peerId) key →
      STREAK_THRESHOLD ≤ streakUnder s (senderFirst ws.peerId r.peerId) key +
        reports.countP (lossUnder ws.peerId key) → net r.peerId = net ws.peerId
  | .text _ => True

/-- No two connected peers of different networks are each in relay mode about the other. -/
def SweepInside (net : PeerId → NetworkId) (s : ServerState) : Prop :=
  ∀ a b, (a, b) ∈ s.db.relayPairs → s.isConnected a = true → s.isConnected b = true →
    net a = net b

def EventInside (net : PeerId → NetworkId) (s : ServerState) : Event → Prop
  | .message ws _ msg => FrameInside net s ws (.text (some msg))
  | .sweep _ => SweepInside net s
  | _ => True

instance (net : PeerId → NetworkId) (s : ServerState) (ws : Ws) : (msg : AgentMsg) →
    Decidable (FrameInside net s ws (.text (some msg)))
  | .healthReport reports => inferInstanceAs (Decidable (∀ r ∈ reports, _ → _ → _ → _ → _))
  | .probeRelayReady _ _ _ _ | .probeRelayResult _ _ | .probeDirectReady _ _ _
  | .probeDirectResult _ _ | .probeError _ _ => .isTrue trivial

instance (net : PeerId → NetworkId) (s : ServerState) : Decidable (SweepInside net s) :=
  decidable_of_iff (∀ e ∈ s.db.relayPairs, s.isConnected e.1 = true → s.isConnected e.2 = true →
    net e.1 = net e.2) ⟨fun h a b hab => h (a, b) hab, fun h e he => h e.1 e.2 he⟩

instance (net : PeerId → NetworkId) (s : ServerState) : (e : Event) → Decidable (EventInside net s e)
  | .message ws _ msg => inferInstanceAs (Decidable (FrameInside net s ws (.text (some msg))))
  | .sweep _ => inferInstanceAs (Decidable (SweepInside net s))
  | .open _ | .close _ | .timer _ | .reap _ _ | .forceMode _ _ _ | .api _ | .restart =>
    .isTrue trivial

/-! ## Negotiations are within a network -/

/-- The two peers of every active negotiation are in one network. -/
def NetInv (net : PeerId → NetworkId) (s : ServerState) : Prop :=
  ∀ k n, s.activeNegotiations.get? k = some n → net n.peerA = net n.peerB

section
variable {net : PeerId → NetworkId} {s s' : ServerState} {a b : PeerId}

/-- The peers of a negotiation are those of its key. -/
theorem NegKeyed.net_eq {n : NegotiationState} (h : NegKeyed (pairKey a b) n)
    (hnet : net a = net b) : net n.peerA = net n.peerB := by
  rcases h.side with ⟨rfl, rfl, -⟩ | ⟨rfl, rfl, -⟩
  · exact hnet
  · exact hnet.symm

theorem NegKeyed.net_pair {n : NegotiationState} (h : NegKeyed (pairKey a b) n)
    (hnet : net n.peerA = net n.peerB) : net a = net b := by
  rcases h.side with ⟨rfl, rfl, -⟩ | ⟨rfl, rfl, -⟩
  · exact hnet
  · exact hnet.symm

/-- No negotiation is new. -/
theorem NetInv.of_subset (h : NetInv net s)
    (hsub : ∀ k n, s'.activeNegotiations.get? k = some n → s.activeNegotiations.get? k = some n) :
    NetInv net s' :=
  fun k n hn => h k n (hsub k n hn)

/-- After a step on a pair only a negotiation of this pair can be new. -/
theorem NetInv.apart (h : NetInv net s) (hi' : TableInv s') (hapart : Apart a b s s')
    (hpair : ∀ n, s'.activeNegotiations.get? (pairKey a b) = some n → net a = net b) :
    NetInv net s' := by
  intro k n hn
  by_cases hk : k = pairKey a b
  · subst hk
    exact (hi'.keyed _ n hn).net_eq (hpair n hn)
  · rw [hapart.active k hk] at hn
    exact h k n hn

/-! ## Probe messages -/

/-- A probe message about a pair without a negotiation is dropped. -/
theorem handleMessage_idle (cfg : Config) (ws : Ws) (now : Int) {msg : AgentMsg} {q : PeerId}
    (hq : msg.peer? = some q) (hidle : s.activeNegotiations.get? (pairKey ws.peerId q) = none) :
    s.handleMessage cfg ws now msg = s.note (.recv ws.peerId msg (s.negotiationMet ws.peerId msg)) := by
  have hnote : (s.note (.recv ws.peerId msg (s.negotiationMet ws.peerId msg))).activeNegotiations.get?
      (pairKey ws.peerId q) = none := hidle
  unfold handleMessage
  cases msg with
  | healthReport reports => cases hq
  | probeRelayReady x meshIpv4 tcpPort nonce =>
    cases hq
    simp only [AgentMsg.peer?, handleNegotiateMessage, handleProbeRelayReady, hnote]
  | probeRelayResult x success =>
    cases hq
    simp only [AgentMsg.peer?, handleNegotiateMessage, handleProbeRelayResult, hnote]
  | probeDirectReady x udpPort nonce =>
    cases hq
    simp only [AgentMsg.peer?, handleNegotiateMessage, handleProbeDirectReady, hnote]
  | probeDirectResult x success =>
    cases hq
    simp only [AgentMsg.peer?, handleNegotiateMessage, handleProbeDirectResult, hnote]
  | probeError x error =>
    cases hq
    simp only [AgentMsg.peer?, handleNegotiateMessage, handleProbeError, hnote]

/-- The answer to a probe message, and the negotiations after it. -/
theorem probe_inside (cfg : Config) (hi : TableInv s) (h : NetInv net s) (ws : Ws) (now : Int)
    {msg : AgentMsg} {q : PeerId} (hq : msg.peer? = some q)
    (hi' : TableInv (s.handleMessage cfg ws now msg)) :
    NetInv net (s.handleMessage cfg ws now msg) ∧
      ∃ items, (s.handleMessage cfg ws now msg).trace = items ++ s.trace ∧
        ∀ it ∈ items, ∀ x, it.dest? = some x → net x = net ws.peerId := by
  have htwin := probe_apart cfg hi ws now hq
  cases hg : s.activeNegotiations.get? (pairKey ws.peerId q) with
  | none =>
    rw [handleMessage_idle cfg ws now hq hg]
    refine ⟨h, [.recv ws.peerId msg (s.negotiationMet ws.peerId msg)], rfl, ?_⟩
    intro it hit x hx
    rw [List.mem_singleton.mp hit] at hx
    cases hx
  | some n =>
    have hnet := (hi.keyed _ n hg).net_pair (h _ n hg)
    obtain ⟨items, htrace, -, hdest⟩ := htwin.trace
    refine ⟨h.apart hi' htwin.apart fun _ _ => hnet, items, htrace, ?_⟩
    intro it hit x hx
    rcases hdest it hit x hx with rfl | rfl
    · rfl
    · exact hnet.symm

/-! ## Health reports -/

/-- `s'` is `s` to the negotiator but for health records, and nothing was sent. -/
structure NothingSent (s s' : ServerState) : Prop where
  active : s'.activeNegotiations = s.activeNegotiations
  trace : ∃ items, s'.trace = items ++ s.trace ∧ ∀ it ∈ items, it.dest? = none

theorem NothingSent.trans {s'' : ServerState} (h : NothingSent s s') (h' : NothingSent s' s'') :
    NothingSent s s'' := by
  obtain ⟨items, ht, hd⟩ := h.trace
  obtain ⟨items', ht', hd'⟩ := h'.trace
  refine ⟨h'.active.trans h.active, items' ++ items, by rw [ht', ht, List.append_assoc], ?_⟩
  intro it hit
  rcases List.mem_append.mp hit with hit | hit
  · exact hd' it hit
  · exact hd it hit

theorem getOrCreateHealth_sent (cfg : Config) (t : ServerState) (key : PairKey) :
    NothingSent t (getOrCreateHealth cfg t key).2 := by
  unfold getOrCreateHealth
  cases t.pairHealthMap.get? key with
  | some h => exact ⟨rfl, [], by simp⟩
  | none => exact ⟨rfl, [.healthCreated key], rfl, by simp [TraceItem.dest?]⟩

theorem getOrCreateHealth_streak (cfg : Config) (t : ServerState) (key : PairKey) (isA : Bool) :
    streakOf (getOrCreateHealth cfg t key).1 isA = streakUnder t isA key ∧
      ∀ k, streakUnder (getOrCreateHealth cfg t key).2 isA k = streakUnder t isA k := by
  unfold getOrCreateHealth
  cases hg : t.pairHealthMap.get? key with
  | some h => exact ⟨by simp [streakUnder, hg], fun _ => rfl⟩
  | none =>
    refine ⟨by cases isA <;> simp [streakUnder, hg, streakOf], fun k => ?_⟩
    unfold streakUnder
    by_cases hk : key = k
    · subst hk
      rw [hg, OMap.get?_set_self]
      cases isA <;> rfl
    · rw [OMap.get?_set_ne _ _ hk]

/-- The check of the streaks changes none. -/
theorem checkStreaks_streak (cfg : Config) {t : ServerState} (p q : PeerId) {key : PairKey}
    {h : PairHealth} (now : Int) (hget : t.pairHealthMap.get? key = some h) (isA : Bool) (k : PairKey) :
    streakUnder (t.checkStreaks cfg p q key h now) isA k = streakUnder t isA k := by
  have hshould : streakUnder (shouldInitiateRelayProbe cfg t p q key h).2 isA k =
      streakUnder t isA k := by
    unfold shouldInitiateRelayProbe
    simp only []
    repeat' split
    all_goals first
      | rfl
      | skip
    -- the forced mode of the rows is written to the record
    unfold streakUnder putHealth
    by_cases hk : key = k
    · subst hk
      rw [hget, OMap.get?_set_self]
      cases isA <;> rfl
    · rw [OMap.get?_set_ne _ _ hk]
  have hstart : ∀ u : ServerState, streakUnder (u.initiateRelayProbe key h now) isA k =
      streakUnder u isA k := by
    intro u
    unfold initiateRelayProbe
    simp only [sendMsg_eq]
    rfl
  unfold checkStreaks
  split
  · simp only []
    split
    · rw [hstart, hshould]
    · exact hshould
  · rfl

/-- An entry adds at most one to the streak of its sender, when it is a loss. -/
theorem handleReportEntry_streak (cfg : Config) (t : ServerState) (p : PeerId) (now : Int)
    (r : HealthReport) (k : PairKey) :
    streakUnder (handleReportEntry cfg p now t r) (isSideA p k) k ≤
      streakUnder t (isSideA p k) k + if lossUnder p k r = true then 1 else 0 := by
  obtain ⟨hrecord, hsame⟩ := getOrCreateHealth_streak cfg t (pairKey p r.peerId) (isSideA p k)
  rw [handleReportEntry_eq]
  generalize getOrCreateHealth cfg t (pairKey p r.peerId) = made at *
  obtain ⟨h0, t0⟩ := made
  simp only at hrecord hsame ⊢
  generalize hh1 : entryHealth cfg h0 (onSideA p r.peerId) now r.mode r.rxAlive = h1
  have hset : ((t0.note (entryItem p now r)).putHealth (pairKey p r.peerId) h1).pairHealthMap.get?
      (pairKey p r.peerId) = some h1 := OMap.get?_set_self ..
  have hwritten : streakUnder ((t0.note (entryItem p now r)).putHealth (pairKey p r.peerId) h1)
      (isSideA p k) k ≤ streakUnder t (isSideA p k) k + if lossUnder p k r = true then 1 else 0 := by
    by_cases hk : pairKey p r.peerId = k
    · subst hk
      have hside : isSideA p (pairKey p r.peerId) = onSideA p r.peerId := rfl
      rw [hside] at hrecord ⊢
      have hcount := (streakOf_updateStreak (recordJoin h0 (onSideA p r.peerId) now)
        (onSideA p r.peerId) r.rxAlive).1
      rw [streakOf_recordJoin, hrecord] at hcount
      unfold streakUnder at hrecord hcount ⊢
      rw [hset, Option.map_some, Option.getD_some, ← hh1]
      unfold entryHealth
      simp only []
      split
      · rw [streakOf_recordJoin, hrecord]
        exact Nat.le_add_right _ _
      · split
        · rw [streakOf_recordJoin, hrecord]
          exact Nat.le_add_right _ _
        · rename_i hmode
          rw [hcount]
          cases halive : r.rxAlive with
          | true => exact Nat.zero_le _
          | false => simp [lossUnder, hmode, halive]
    · refine Nat.le_trans (Nat.le_of_eq ?_) (Nat.le_add_right _ _)
      refine Eq.trans ?_ (hsame k)
      unfold streakUnder putHealth
      rw [OMap.get?_set_ne _ _ hk]
      rfl
  split
  · exact hwritten
  · rw [checkStreaks_streak cfg p r.peerId now hset]
    exact hwritten

theorem shouldInitiateRelayProbe_sent (cfg : Config) (t : ServerState) (p q : PeerId)
    (key : PairKey) (h : PairHealth) :
    NothingSent t (shouldInitiateRelayProbe cfg t p q key h).2 := by
  refine ⟨shouldInitiateRelayProbe_active cfg t p q key h, [], ?_, by simp⟩
  unfold shouldInitiateRelayProbe
  simp only []
  repeat' split
  all_goals rfl

/-- The check of the streaks sends nothing, or both peers are connected and both streaks
long enough. -/
theorem checkStreaks_cases (cfg : Config) (t : ServerState) (p q : PeerId) (key : PairKey)
    (h : PairHealth) (now : Int) :
    NothingSent t (t.checkStreaks cfg p q key h now) ∨
      (t.isConnected p = true ∧ t.isConnected q = true ∧
        STREAK_THRESHOLD ≤ h.streakAB ∧ STREAK_THRESHOLD ≤ h.streakBA) := by
  have hsent := shouldInitiateRelayProbe_sent cfg t p q key h
  have hiff := shouldInitiateRelayProbe_iff cfg t p q key h
  unfold checkStreaks
  by_cases hstreaks : h.streakAB ≥ STREAK_THRESHOLD ∧ h.streakBA ≥ STREAK_THRESHOLD
  · rw [if_pos hstreaks]
    generalize shouldInitiateRelayProbe cfg t p q key h = answer at hsent hiff ⊢
    obtain ⟨start, t'⟩ := answer
    cases start with
    | false => exact Or.inl hsent
    | true =>
      obtain ⟨-, -, -, hconn, -⟩ := hiff.mp rfl
      exact Or.inr ⟨hconn.1, hconn.2, hstreaks.1, hstreaks.2⟩
  · rw [if_neg hstreaks]
    exact Or.inl ⟨rfl, [], by simp⟩

/-- **What an entry does.**  It sends nothing, or it is a loss, both peers are connected, the
other one's streak was long enough before it, and the sender's is long enough with it. -/
theorem handleReportEntry_cases (cfg : Config) (t : ServerState) (p : PeerId) (now : Int)
    (r : HealthReport) :
    NothingSent t (handleReportEntry cfg p now t r) ∨
      (t.isConnected p = true ∧ t.isConnected r.peerId = true ∧
        STREAK_THRESHOLD ≤ streakUnder t (!isSideA p (pairKey p r.peerId)) (pairKey p r.peerId) ∧
        lossUnder p (pairKey p r.peerId) r = true ∧
        STREAK_THRESHOLD ≤
          streakUnder t (isSideA p (pairKey p r.peerId)) (pairKey p r.peerId) + 1) := by
  have hcreate := getOrCreateHealth_sent cfg t (pairKey p r.peerId)
  have hrecord := fun isA => (getOrCreateHealth_streak cfg t (pairKey p r.peerId) isA).1
  obtain ⟨-, hconn, -⟩ := getOrCreateHealth_frame cfg t (pairKey p r.peerId)
  rw [handleReportEntry_eq]
  generalize getOrCreateHealth cfg t (pairKey p r.peerId) = made at *
  obtain ⟨h0, t0⟩ := made
  simp only at hcreate hrecord hconn ⊢
  have hother := (entryHealth_otherSide cfg h0 (onSideA p r.peerId) now r.mode r.rxAlive).2
  generalize hh1 : entryHealth cfg h0 (onSideA p r.peerId) now r.mode r.rxAlive = h1 at hother ⊢
  have hwritten : NothingSent t ((t0.note (entryItem p now r)).putHealth (pairKey p r.peerId) h1) :=
    hcreate.trans ⟨rfl, [entryItem p now r], rfl, by simp [entryItem, TraceItem.dest?]⟩
  split
  · exact Or.inl hwritten
  · rename_i hcounts
    rw [not_or] at hcounts
    rcases checkStreaks_cases cfg ((t0.note (entryItem p now r)).putHealth (pairKey p r.peerId) h1)
      p r.peerId (pairKey p r.peerId) h1 now with hsent | ⟨hp, hq, hAB, hBA⟩
    · exact Or.inl (hwritten.trans hsent)
    · have hp' : isPeerConnected t0.connections p = true := hp
      have hq' : isPeerConnected t0.connections r.peerId = true := hq
      rw [hconn] at hp' hq'
      have hboth : ∀ isA, STREAK_THRESHOLD ≤ streakOf h1 isA := by
        intro isA
        cases isA
        · exact hBA
        · exact hAB
      -- the streak of the sender is what the entry makes of it
      have hown : streakOf h1 (onSideA p r.peerId) =
          if r.rxAlive then 0 else streakOf h0 (onSideA p r.peerId) + 1 := by
        rw [← hh1, ← streakOf_recordJoin h0 (onSideA p r.peerId) (onSideA p r.peerId) now,
          ← (streakOf_updateStreak _ _ _).1]
        unfold entryHealth
        simp only []
        rw [if_neg hcounts.1, if_neg hcounts.2]
      have hlong := hboth (onSideA p r.peerId)
      rw [hown] at hlong
      refine Or.inr ⟨hp', hq', ?_, ?_⟩
      · rw [← hrecord]
        exact Nat.le_trans (hboth (!onSideA p r.peerId)) (Nat.le_of_eq hother)
      · cases halive : r.rxAlive with
        | true =>
          rw [halive] at hlong
          cases hlong
        | false =>
          rw [halive] at hlong
          refine ⟨by simp [lossUnder, hcounts.2, halive], ?_⟩
          rw [← hrecord]
          exact hlong

/-- `t` is a state in which the entries `pre` have been processed: no streak of another peer has
grown, those of the sender have grown by the losses at most, and nothing has left the network. -/
structure EntriesInside (cfg : Config) (net : PeerId → NetworkId) (ws : Ws) (e : Event)
    (s : ServerState) (pre : List HealthReport) (t : ServerState) : Prop where
  table : TableInv t
  connections : t.connections = s.connections
  records : ReflTransGen (RecordStep cfg e) s.records t.records
  streaks : ∀ k, streakUnder t (isSideA ws.peerId k) k ≤
    streakUnder s (isSideA ws.peerId k) k + pre.countP (lossUnder ws.peerId k)
  active : NetInv net t
  trace : ∃ items, t.trace = items ++ s.trace ∧
    ∀ it ∈ items, ∀ x, it.dest? = some x → net x = net ws.peerId

/-- The answer to a health report, and the negotiations after it. -/
theorem report_inside (cfg : Config) (hi : TableInv s) (h : NetInv net s) {ws : Ws}
    (hp : ColonFree ws.peerId) (now : Int) {reports : List HealthReport}
    (hframe : FrameInside net s ws (.text (some (.healthReport reports)))) :
    NetInv net (s.handleHealthReport cfg ws.peerId reports now) ∧
      ∃ items, (s.handleHealthReport cfg ws.peerId reports now).trace = items ++ s.trace ∧
        ∀ it ∈ items, ∀ x, it.dest? = some x → net x = net ws.peerId := by
  suffices hinv : EntriesInside cfg net ws (.message ws now (.healthReport reports)) s reports
      (s.handleHealthReport cfg ws.peerId reports now) from ⟨hinv.active, hinv.trace⟩
  refine foldl_prefix_invariant (I := EntriesInside cfg net ws _ s) ?_ ?_
  swap
  · exact ⟨(db_step (C := fun _ _ _ => True) (D := fun _ _ _ => True) (F := fun _ => True) _).inv hi,
      rfl, .single (.reported ws.peerId reports now), fun _ => Nat.le_add_right _ _, h, [], rfl,
      by simp⟩
  · rintro t pre r post hreports ⟨hit, hconn, hsteps, hstreaks, hnet, items, htrace, hdest⟩
    have hit' : TableInv (handleReportEntry cfg ws.peerId now t r) :=
      steps_inv (handleReportEntry_steps (C := fun _ _ _ => True) (D := fun _ _ _ => True)
        (F := fun _ => True) cfg hit ws.peerId now r) hit
    have htwin : TwinStep id ws.peerId r.peerId t t (handleReportEntry cfg ws.peerId now t r)
        (handleReportEntry cfg ws.peerId now t r) :=
      (hit.pairInv ws.peerId r.peerId).twin.handleReportEntry Function.injective_id hit.connIds cfg
        now rfl
    have hrecords := @handleReportEntry_records cfg (.message ws now (.healthReport reports)) t ws now
      reports rfl r
    have hconn' := htwin.apart.connections.trans hconn
    have hstreaks' : ∀ k, streakUnder (handleReportEntry cfg ws.peerId now t r)
        (isSideA ws.peerId k) k ≤ streakUnder s (isSideA ws.peerId k) k +
          (pre ++ [r]).countP (lossUnder ws.peerId k) := by
      intro k
      have hentry := handleReportEntry_streak cfg t ws.peerId now r k
      have hbefore := hstreaks k
      rw [List.countP_append, List.countP_singleton]
      omega
    suffices hend : NetInv net (handleReportEntry cfg ws.peerId now t r) ∧
        ∃ items, (handleReportEntry cfg ws.peerId now t r).trace = items ++ s.trace ∧
          ∀ it ∈ items, ∀ x, it.dest? = some x → net x = net ws.peerId from
      ⟨hit', hconn', hsteps.trans hrecords, hstreaks', hend.1, hend.2⟩
    rcases handleReportEntry_cases cfg t ws.peerId now r with hsent | ⟨-, hq, hother, hloss, hown⟩
    · obtain ⟨items', htrace', hdest'⟩ := hsent.trace
      refine ⟨hnet.of_subset fun k n hn => hsent.active ▸ hn, items' ++ items, ?_, ?_⟩
      · rw [htrace', htrace, List.append_assoc]
      · intro it hit x hx
        rcases List.mem_append.mp hit with hit | hit
        · rw [hdest' it hit] at hx
          cases hx
        · exact hdest it hit x hx
    · have hsame : net r.peerId = net ws.peerId := by
        -- the streaks were long enough when the report came in
        have hotherBefore : STREAK_THRESHOLD ≤ streakUnder s (!isSideA ws.peerId
            (pairKey ws.peerId r.peerId)) (pairKey ws.peerId r.peerId) := by
          unfold streakUnder at hother
          cases hg : t.pairHealthMap.get? (pairKey ws.peerId r.peerId) with
          | none =>
            rw [hg] at hother
            cases hother
          | some g =>
            rw [hg] at hother
            exact Nat.le_trans hother (streak_steps hsteps r.peerId hg)
        have hownBefore : STREAK_THRESHOLD ≤ streakUnder s (isSideA ws.peerId
            (pairKey ws.peerId r.peerId)) (pairKey ws.peerId r.peerId) +
            reports.countP (lossUnder ws.peerId (pairKey ws.peerId r.peerId)) := by
          have hbefore := hstreaks (pairKey ws.peerId r.peerId)
          rw [hreports, List.countP_append, List.countP_cons, if_pos hloss]
          omega
        rw [isSideA_eq hp] at hotherBefore hownBefore
        have hq' : s.isConnected r.peerId = true := by
          rw [← hq, ServerState.isConnected, ServerState.isConnected, hconn]
        exact hframe r (by rw [hreports]; simp) hloss hq' hotherBefore hownBefore
      obtain ⟨items', htrace', -, hdest'⟩ := htwin.trace
      refine ⟨hnet.apart hit' htwin.apart fun _ _ => hsame.symm, items' ++ items, ?_, ?_⟩
      · rw [htrace', htrace, List.append_assoc]
      · intro it hit x hx
        rcases List.mem_append.mp hit with hit | hit
        · rcases hdest' it hit x hx with rfl | rfl
          · rfl
          · exact hsame
        · exact hdest it hit x hx

/-- A message of an agent. -/
theorem message_inside (cfg : Config) (hi : TableInv s) (h : NetInv net s) {ws : Ws}
    (hp : ColonFree ws.peerId) (now : Int) {msg : AgentMsg}
    (hframe : FrameInside net s ws (.text (some msg))) :
    NetInv net (s.handleMessage cfg ws now msg) ∧
      ∃ items, (s.handleMessage cfg ws now msg).trace = items ++ s.trace ∧
        ∀ it ∈ items, ∀ x, it.dest? = some x → net x = net ws.peerId := by
  have hi' : TableInv (s.handleMessage cfg ws now msg) :=
    tableInv_step cfg hi (e := .message ws now msg) hp
  cases hq : msg.peer? with
  | some q => exact probe_inside cfg hi h ws now hq hi'
  | none =>
    cases msg with
    | healthReport reports => exact report_inside cfg hi h hp now hframe
    | _ => cases hq

/-! ## The other events -/

/-- Of the negotiations only those of the peer end. -/
theorem abortPeerNegotiations_subset {p : PeerId} {reason : AbortReason} {k : PairKey}
    {n : NegotiationState}
    (hn : (s.abortPeerNegotiations p reason).activeNegotiations.get? k = some n) :
    s.activeNegotiations.get? k = some n ∧ ¬ n.Involves p := by
  have hmem : ∀ e ∈ s.activeNegotiations.entries, s.activeNegotiations.get? e.1 = some e.2 :=
    fun e he => (s.activeNegotiations.mem_entries e.1 e.2).mp he
  have hactive := (foldl_abortPeerEntry p reason _ s.activeNegotiations.nodup hmem).1
  obtain ⟨hold, hnot⟩ := (hactive k n).mp hn
  exact ⟨hold, hnot ((s.activeNegotiations.mem_entries k n).mpr hold)⟩

theorem sendMsg_active (s : ServerState) (neg : Option Nat) (p : PeerId) (msg : ServerMsg) :
    (s.sendMsg neg p msg).activeNegotiations = s.activeNegotiations := by
  rw [sendMsg_eq]

theorem notifyRemoved_active (s : ServerState) (e : NetworkId × List PeerId) :
    (s.notifyRemoved e).activeNegotiations = s.activeNegotiations := by
  unfold notifyRemoved
  simp only []
  refine foldl_invariant
    (I := fun t : ServerState => t.activeNegotiations = s.activeNegotiations) _ _ ?_ rfl
  intro t deletedId _ ht
  refine foldl_invariant
    (I := fun t : ServerState => t.activeNegotiations = s.activeNegotiations) _ _ ?_ ht
  intro u peer _ hu
  rw [sendMsg_active, hu]

theorem reap_subset {now : Int} {fails : Bool} {k : PairKey} {n : NegotiationState}
    (hn : (s.reap now fails).activeNegotiations.get? k = some n) :
    s.activeNegotiations.get? k = some n := by
  have hforget : ∀ l : List (PeerId × NetworkId),
      (l.foldl forgetPeer s).activeNegotiations.get? k = some n →
        s.activeNegotiations.get? k = some n := by
    intro l
    refine foldl_invariant (I := fun t : ServerState => t.activeNegotiations.get? k = some n →
      s.activeNegotiations.get? k = some n) forgetPeer l ?_ id
    intro t x _ ht hn
    exact ht (abortPeerNegotiations_subset hn).1
  unfold reap at hn
  simp only [] at hn
  split at hn
  · exact hforget _ hn
  · refine hforget (expiredPeers s.db now) ?_
    have hnotify : ∀ (l : List (NetworkId × List PeerId)) (t : ServerState),
        (l.foldl notifyRemoved t).activeNegotiations = t.activeNegotiations := by
      intro l t
      refine foldl_invariant (I := fun u : ServerState =>
        u.activeNegotiations = t.activeNegotiations) _ _ ?_ rfl
      intro u e _ hu
      rw [notifyRemoved_active, hu]
    rwa [hnotify] at hn

/-- A force command leaves no negotiation of its pair and those of the others. -/
theorem postForceMode_subset (cfg : Config) (hi : TableInv s) {mode : ForceCommand} {k : PairKey}
    {n : NegotiationState}
    (hn : (s.postForceMode cfg a b mode).activeNegotiations.get? k = some n) :
    s.activeNegotiations.get? k = some n := by
  by_cases hk : k = pairKey a b
  · subst hk
    rw [postForceMode_eq] at hn
    split at hn
    · obtain ⟨t, -, -, hnone, he⟩ := handleForceMode_spec (s := s) (C := fun _ _ _ => True)
        (D := fun _ _ _ => True) (F := fun _ => True) cfg a b mode
      rw [he, sendMsg_active, sendMsg_active, hnone] at hn
      cases hn
    · exact hn
  · have hapart := (apart_step cfg hi (e := .forceMode a b mode) (Or.inl ⟨rfl, rfl⟩)).apart
    rw [← hapart.active k hk]
    exact hn

theorem abortIfStale_connections (s : ServerState) (now : Int) (e : PairKey × NegotiationState) :
    (abortIfStale now s e).connections = s.connections := by
  unfold abortIfStale
  split
  · cases hg : s.activeNegotiations.get? e.1 with
    | none => simp only [abortNegotiation, hg]
    | some n => rw [abortNegotiation_eq s hg]; rfl
  · rfl

theorem sweep_inside (cfg : Config) (hi : TableInv s) (h : NetInv net s) (now : Int)
    (hsweep : SweepInside net s) : NetInv net (s.staleSweep cfg now) := by
  have hsteps := foldl_steps (C := fun _ _ _ => True) (D := fun _ _ _ => True)
    (F := fun _ => True) (abortIfStale now) s.activeNegotiations.entries
    (fun t e _ _ => abortIfStale_steps now e) hi
  have hdb := congrArg Records.db (records_foldl_abortIfStale s now s.activeNegotiations.entries)
  have hconn : (s.activeNegotiations.entries.foldl (abortIfStale now) s).connections =
      s.connections := by
    refine foldl_invariant (I := fun t : ServerState => t.connections = s.connections) _ _ ?_ rfl
    intro t e _ ht
    rw [abortIfStale_connections, ht]
  have hstale : NetInv net (s.activeNegotiations.entries.foldl (abortIfStale now) s) :=
    h.of_subset fun k n hn => (get?_abortStale now _ hn).1
  unfold staleSweep checkDirectProbes
  simp only [records] at hdb
  generalize s.activeNegotiations.entries.foldl (abortIfStale now) s = s1 at *
  refine (foldl_invariant (I := fun t => TableInv t ∧ t.db = s1.db ∧
    t.connections = s1.connections ∧ NetInv net t) _ _ ?_ ⟨steps_inv hsteps hi, rfl, rfl, hstale⟩).2.2.2
  rintro t row hrow ⟨hit, hdbt, hconnt, ht⟩
  have hit' : TableInv (checkDirectProbe now t row) :=
    steps_inv (checkDirectProbe_steps (C := fun _ _ _ => True) (D := fun _ _ _ => True)
      (F := fun _ => True) hit now (ne_of_mem_relayPairs cfg hrow)) hit
  have hapart := ((hit.pairInv row.1 row.2).twin.checkDirectProbe Function.injective_id
    hit.connIds now).apart
  have hconn' := hapart.connections.trans (hconnt.trans hconn)
  refine ⟨hit', (checkDirectProbe_db now row).trans hdbt, hapart.connections.trans hconnt,
    ht.apart hit' hapart fun n hn => ?_⟩
  -- both peers of the pair are connected and their rows are in the self-join
  have hrow' : (row.1, row.2) ∈ s.db.relayPairs := hdb ▸ (cfg.plan.rowOrder_perm _).mem_iff.mp hrow
  obtain ⟨hA, hB⟩ := hit'.connected _ n hn
  have hside := (hit'.keyed _ n hn).side
  simp only [isConnected, hconn'] at hA hB
  rcases hside with ⟨h1, h2, -⟩ | ⟨h1, h2, -⟩
  · rw [← h1] at hA
    rw [← h2] at hB
    exact hsweep _ _ hrow' hA hB
  · rw [← h2] at hA
    rw [← h1] at hB
    exact hsweep _ _ hrow' hB hA

/-- **One step** keeps the negotiations within a network. -/
theorem netInv_step (cfg : Config) (hi : TableInv s) (h : NetInv net s) {e : Event}
    (hids : e.idsOk) (hevent : EventInside net s e) : NetInv net (step cfg s e) := by
  cases e with
  | «open» ws => exact h
  | close ws => exact h.of_subset fun k n hn => (abortPeerNegotiations_subset hn).1
  | message ws now msg => exact (message_inside cfg hi h hids now hevent).1
  | timer id =>
    refine h.of_subset fun k n hn => ?_
    cases ht : s.timers.get? id with
    | none => rwa [step, fireTimer, ht] at hn
    | some tm =>
      rw [step, fireTimer_active hi ht] at hn
      exact (OMap.get?_of_get?_delete hn).2
  | sweep now => exact sweep_inside cfg hi h now hevent
  | reap now fails => exact h.of_subset fun k n hn => reap_subset hn
  | forceMode p q mode => exact h.of_subset fun k n hn => postForceMode_subset cfg hi hn
  | api write => exact h
  | restart =>
    intro k n hn
    cases hn

end

theorem netInv_exec {net : PeerId → NetworkId} (cfg : Config) (db : Db) {es : List Event}
    (hids : IdsOk es) (hinside : Along (step cfg) (EventInside net) (ServerState.init db) es) :
    TableInv (exec cfg db es) ∧ NetInv net (exec cfg db es) := by
  refine run_invariant_along (step cfg) (P := fun s e => e.idsOk ∧ EventInside net s e)
    (I := fun s => TableInv s ∧ NetInv net s) ?_ ⟨TableInv.init db, fun _ _ hn => by cases hn⟩
    (along_and (step cfg) (along_idsOk hids) hinside)
  rintro s e ⟨hi, h⟩ ⟨hid, hevent⟩
  exact ⟨tableInv_step cfg hi hid, netInv_step cfg hi h hid hevent⟩

/-! ## Top theorems -/

/-- A binary frame from a peer with an id of 36 bytes is answered inside its network exactly
when it names no connected peer outside. -/
theorem binary_inside_iff {net : PeerId → NetworkId} (cfg : Config) (s : ServerState) {ws : Ws}
    (hws : RelayId ws.peerId) (now : Int) (bytes : Bytes) :
    AnswersInside net s ws (s.wsMessage cfg ws now (.binary bytes)) ↔
      FrameInside net s ws (.binary bytes) := by
  constructor
  · intro h hlen dest hdest
    refine h.binary dest (srcIdBytes ws ++ bytes.drop RELAY_PEER_ID_LEN) ?_
    show relayBinary s.connections ws bytes = _
    rw [relayBinary_eq hws, if_neg (Nat.not_lt.mpr hlen), hdest]
  · intro h
    refine ⟨⟨[], rfl, by simp⟩, fun dest out hsent => ?_⟩
    obtain ⟨hlen, hdest⟩ := relayBinary_sent hsent
    exact h hlen dest hdest

/-- **Answers stay inside the network** of the sender, in every state of a run whose frames and
sweeps bring no two networks together. -/
theorem answers_inside_network (net : PeerId → NetworkId) (cfg : Config) (db : Db)
    (es : List Event) (hids : IdsOk es)
    (hinside : Along (step cfg) (EventInside net) (ServerState.init db) es) (ws : Ws)
    (hp : ColonFree ws.peerId) (now : Int) :
    (∀ frame, FrameInside net (exec cfg db es) ws frame →
      AnswersInside net (exec cfg db es) ws ((exec cfg db es).wsMessage cfg ws now frame)) ∧
    (RelayId ws.peerId → ∀ bytes,
      (AnswersInside net (exec cfg db es) ws
        ((exec cfg db es).wsMessage cfg ws now (.binary bytes)) ↔
        FrameInside net (exec cfg db es) ws (.binary bytes))) := by
  obtain ⟨hi, hnet⟩ := netInv_exec cfg db hids hinside
  refine ⟨fun frame hframe => ?_, fun hws bytes => binary_inside_iff cfg _ hws now bytes⟩
  cases frame with
  | text msg? =>
    cases msg? with
    | none => exact ⟨⟨[], rfl, by simp⟩, fun _ _ hsent => by cases hsent⟩
    | some msg =>
      refine ⟨(message_inside cfg hi hnet hp now hframe).2, fun _ _ hsent => ?_⟩
      cases hsent
  | binary bytes =>
    refine ⟨⟨[], rfl, by simp⟩, fun dest out hsent => ?_⟩
    obtain ⟨hlen, hdest⟩ := relayBinary_sent hsent
    exact hframe hlen dest hdest

/-- Two peers of two networks. -/
def twoNetworks : Db :=
  { Db.empty with
    networks := (OMap.empty.set [110] {}).set [111] {}
    peers := (OMap.empty.set relayOne { networkId := [110], publicIp := [] }).set relayTwo
      { networkId := [111], publicIp := [] } }

def twoNetworksNet (p : PeerId) : NetworkId := if p = relayTwo then [111] else [110]

/-- A third peer, in the network of the first. -/
def relayThree : PeerId := List.replicate 36 99

def threePeers : Db :=
  { twoNetworks with
    peers := twoNetworks.peers.set relayThree { networkId := [110], publicIp := [] } }

/-- A peer has lost the path to `p`. -/
def lossAbout (p : PeerId) : HealthReport := { peerId := p, mode := .direct, rxAlive := false }

/-- The first and the third peer report each other; then the first has three losses about the
third, and the third two. -/
def threePeersRun : List Event :=
  [.open ⟨1, relayOne⟩, .open ⟨2, relayTwo⟩, .open ⟨3, relayThree⟩,
    .message ⟨1, relayOne⟩ 1000 (.healthReport [lossAbout relayThree]),
    .message ⟨3, relayThree⟩ 1000 (.healthReport [lossAbout relayOne]),
    .message ⟨1, relayOne⟩ 20000 (.healthReport (List.replicate 3 (lossAbout relayThree))),
    .message ⟨3, relayThree⟩ 20000 (.healthReport (List.replicate 2 (lossAbout relayOne)))]

/-- A report of the third peer about both others is answered with a probe inside its network. -/
theorem answers_inside_network_twoNetworks :
    let s := exec {} threePeers threePeersRun
    let answer := s.wsMessage {} ⟨3, relayThree⟩ 22000
      (.text (some (.healthReport [lossAbout relayTwo, lossAbout relayOne])))
    AnswersInside twoNetworksNet s ⟨3, relayThree⟩ answer ∧
      ∃ it ∈ answer.1.trace, it ∉ s.trace ∧ it.dest? = some relayOne := by
  intro s answer
  have hinside : Along (step {}) (EventInside twoNetworksNet) (ServerState.init threePeers)
      threePeersRun := by decide +kernel
  obtain ⟨hanswers, -⟩ := answers_inside_network twoNetworksNet {} threePeers threePeersRun
    (by decide) hinside ⟨3, relayThree⟩ (by decide) 22000
  exact ⟨hanswers _ (by decide +kernel), by decide +kernel⟩

/-- One binary frame to a connected peer of another network is forwarded to it. -/
theorem answers_leave_network :
    ¬ ∀ (net : PeerId → NetworkId) (cfg : Config) (db : Db) (es : List Event) (ws : Ws) (now : Int)
      (frame : Frame), IdsOk es → Admitted net (exec cfg db es) →
      (exec cfg db es).connections.get? ws.peerId = some ws →
      AnswersInside net (exec cfg db es) ws ((exec cfg db es).wsMessage cfg ws now frame) := by
  intro h
  have hadmitted : Admitted twoNetworksNet
      (exec {} twoNetworks [.open ⟨1, relayOne⟩, .open ⟨2, relayTwo⟩]) := by
    intro p ws hws
    have htable : ((OMap.empty.set relayOne ⟨1, relayOne⟩).set relayTwo ⟨2, relayTwo⟩).get? p =
      some ws := hws
    rw [OMap.get?_set, OMap.get?_set] at htable
    split at htable
    · rename_i htwo
      subst htwo
      exact ⟨{ networkId := [111], publicIp := [] }, rfl, rfl⟩
    · split at htable
      · rename_i hone
        subst hone
        exact ⟨{ networkId := [110], publicIp := [] }, rfl, rfl⟩
      · cases htable
  have hsent := (h twoNetworksNet {} twoNetworks [.open ⟨1, relayOne⟩, .open ⟨2, relayTwo⟩]
    ⟨1, relayOne⟩ 0 (.binary (TextEncoder.encode relayTwo)) (by decide) hadmitted rfl).binary
      ⟨2, relayTwo⟩ (TextEncoder.encode relayOne) (by decide)
  revert hsent
  decide

end Meshezia
