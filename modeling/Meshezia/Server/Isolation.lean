import Meshezia.Server.PairSteps
import Meshezia.Server.Lock
import Meshezia.Server.Streak

/-!
# Pairs are isolated

An event about one pair of peers leaves the record, the negotiation, the timers and the
link rows of every other pair as they are and sends to the two peers only
(`LeavesPairs`).  A message from a peer, whatever it holds and whomever it names, touches
only records under keys of its sender, and on them it counts for the sender's side only
(`SenderOnly`).
-/

namespace Meshezia

open ServerState Relation

/-! ## Events about a pair -/

/-- The event concerns the pair of `a` and `b` only: a probe message, a health report of one
entry, an armed timer of a negotiation of the pair, a force-mode command. -/
def Event.About (s : ServerState) (a b : PeerId) : Event → Prop
  | .message ws _ (.healthReport reports) =>
    ∃ report, reports = [report] ∧ SamePair ws.peerId report.peerId a b
  | .message ws _ msg => ∃ q, msg.peer? = some q ∧ SamePair ws.peerId q a b
  | .timer id => ∃ tm, s.timers.get? id = some tm ∧ tm.callback.key = pairKey a b
  | .forceMode p q _ => SamePair p q a b
  | _ => False

/-- The event of a run in which timers go by other names. -/
def Event.rename (ρ : Nat → Nat) : Event → Event
  | .timer id => .timer (ρ id)
  | e => e

theorem SamePair.symm {a b c d : PeerId} (h : SamePair a b c d) : SamePair a b d c := by
  rcases h with ⟨h1, h2⟩ | ⟨h1, h2⟩
  · exact Or.inr ⟨h1, h2⟩
  · exact Or.inl ⟨h1, h2⟩

theorem pairKey_ne {a b c d : PeerId} (ha : ColonFree a) (hb : ColonFree b) (hc : ColonFree c)
    (hd : ColonFree d) (h : ¬ SamePair c d a b) : pairKey c d ≠ pairKey a b :=
  fun e => h (pairKey_inj hc hd ha hb e)

/-! ## The invariant gives what the handlers need -/

section
variable {ρ : Nat → Nat} {a b : PeerId} {s t s' t' : ServerState}

theorem TableInv.pairInv (hi : TableInv s) (a b : PeerId) : PairInv a b s where
  parties := by
    intro n hn
    have hkeyed := hi.keyed _ n hn
    have hroles := hkeyed.roles
    rcases hkeyed.side with ⟨rfl, rfl, -⟩ | ⟨rfl, rfl, -⟩
    · refine ⟨Or.inl rfl, Or.inr rfl, fun htype => ?_⟩
      rcases hroles htype with ⟨-, hc⟩ | ⟨-, hc⟩
      · exact ⟨_, hc, Or.inr rfl⟩
      · exact ⟨_, hc, Or.inl rfl⟩
    · refine ⟨Or.inr rfl, Or.inl rfl, fun htype => ?_⟩
      rcases hroles htype with ⟨-, hc⟩ | ⟨-, hc⟩
      · exact ⟨_, hc, Or.inl rfl⟩
      · exact ⟨_, hc, Or.inr rfl⟩
  own := by
    intro n i tm hn hti htm
    obtain ⟨i', tm', h1, h2, h3, -⟩ := hi.armed _ n hn
    rw [hti] at h1
    cases h1
    rw [htm] at h2
    cases h2
    exact h3
  fresh := hi.timerLt

theorem PairHealth.rename_id : PairHealth.rename id = id := rfl

theorem NegotiationState.rename_id : NegotiationState.rename id = id := by
  funext n
  simp [NegotiationState.rename]

theorem Timer.rename_id : Timer.rename id = id := by
  funext tm
  cases tm with
  | mk owner callback delay => cases callback <;> rfl

theorem PairInv.twin (h : PairInv a b s) : Twin id a b s s where
  toPairInv := h
  ref := fun _ => rfl
  health := by rw [PairHealth.rename_id, Option.map_id, id]
  active := by rw [NegotiationState.rename_id, Option.map_id, id]
  timers := fun i => by rw [Timer.rename_id, Option.map_id, id, id]
  connections := rfl
  networks := rfl
  peers := rfl
  links := rfl

/-- The peers and the record that a timer of the pair names are the pair's. -/
theorem TableInv.callback_within (hi : TableInv s) {id : Nat} {tm : Timer}
    (htm : s.timers.get? id = some tm) (hkey : tm.callback.key = pairKey a b) :
    tm.callback.Within a b := by
  obtain ⟨n, hn, -, -, hfits⟩ := hi.owned id tm htm
  have href := hi.refs id tm htm
  rw [hkey] at hn
  have hwithin := (hi.pairInv a b).parties n hn
  cases hc : tm.callback with
  | relayProbeTimeout key => trivial
  | directReadyTimeout key x y ref =>
    rw [hc] at hfits href hkey
    obtain ⟨-, rfl, rfl⟩ := hfits
    exact ⟨hwithin.peerA, hwithin.peerB, href.1.trans hkey⟩
  | directResultTimeout key x y =>
    rw [hc] at hfits
    obtain ⟨-, rfl, rfl, -⟩ := hfits
    exact ⟨hwithin.peerA, hwithin.peerB⟩

/-! ## The two peers in the other order -/

theorem pairLinks_comm (db : Db) (a b : PeerId) : db.pairLinks a b = db.pairLinks b a := by
  unfold Db.pairLinks isPair
  simp only [Bool.or_comm]

theorem otherLinks_comm (db : Db) (a b : PeerId) : db.otherLinks a b = db.otherLinks b a := by
  unfold Db.otherLinks isPair
  simp only [Bool.or_comm]

theorem Apart.symm (h : Apart a b s s') : Apart b a s s' where
  health := by rw [pairKey_comm b a]; exact h.health
  active := by rw [pairKey_comm b a]; exact h.active
  timers := by rw [pairKey_comm b a]; exact h.timers
  connections := h.connections
  networks := h.networks
  peers := h.peers
  ports := h.ports
  links := by rw [otherLinks_comm _ b a, otherLinks_comm _ b a]; exact h.links
  ref := h.ref
  hids := by rw [pairKey_comm b a]; exact h.hids

theorem Twin.symm (h : Twin ρ a b s t) : Twin ρ b a s t where
  parties := by
    rw [pairKey_comm b a]
    intro n hn
    have hwithin := h.parties n hn
    refine ⟨hwithin.peerA.symm, hwithin.peerB.symm, fun htype => ?_⟩
    obtain ⟨p, hp, hmem⟩ := hwithin.client htype
    exact ⟨p, hp, hmem.symm⟩
  own := by rw [pairKey_comm b a]; exact h.own
  fresh := h.fresh
  ref := h.ref
  health := by rw [pairKey_comm b a]; exact h.health
  active := by rw [pairKey_comm b a]; exact h.active
  timers := by rw [pairKey_comm b a]; exact h.timers
  connections := h.connections
  networks := h.networks
  peers := h.peers
  links := by rw [pairLinks_comm _ b a, pairLinks_comm _ b a]; exact h.links

theorem TwinStep.symm (h : TwinStep ρ a b s t s' t') : TwinStep ρ b a s t s' t' := by
  obtain ⟨items, hs, ht, hd⟩ := h.trace
  exact ⟨h.apart.symm, h.twin.symm, items, hs, ht, fun it hit p hp => (hd it hit p hp).symm⟩

/-- A lemma about a sender and its counterpart holds of a pair in either order. -/
theorem twinStep_of_samePair {p q : PeerId} (hpair : SamePair p q a b) (h : Twin ρ a b s t)
    (hstep : Twin ρ p q s t → TwinStep ρ p q s t s' t') : TwinStep ρ a b s t s' t' := by
  rcases hpair with ⟨rfl, rfl⟩ | ⟨rfl, rfl⟩
  · exact hstep h
  · exact (hstep h.symm).symm

/-! ## An event about a pair -/

/-- **Locality and renaming of a step.** -/
theorem twin_step (cfg : Config) (hi : TableInv s) (hρ : Function.Injective ρ) {e : Event}
    (habout : e.About s a b) (h : Twin ρ a b s t) :
    TwinStep ρ a b s t (step cfg s e) (step cfg t (e.rename ρ)) := by
  cases e with
  | message ws now msg =>
    by_cases hmsg : ∃ q, msg.peer? = some q ∧ SamePair ws.peerId q a b
    · obtain ⟨q, hq, hpair⟩ := hmsg
      exact twinStep_of_samePair hpair h fun h' => h'.handleMessage hρ cfg rfl now hq
    · cases msg with
      | healthReport reports =>
        obtain ⟨report, rfl, hpair⟩ := habout
        exact twinStep_of_samePair hpair h fun h' =>
          h'.handleHealthReport hρ hi.connIds cfg rfl now
      | probeRelayReady q meshIpv4 tcpPort nonce => exact absurd habout hmsg
      | probeRelayResult q success => exact absurd habout hmsg
      | probeDirectReady q udpPort nonce => exact absurd habout hmsg
      | probeDirectResult q success => exact absurd habout hmsg
      | probeError q error => exact absurd habout hmsg
  | timer id =>
    obtain ⟨tm, htm, hkey⟩ := habout
    exact h.fireTimer hρ htm hkey (hi.callback_within htm hkey)
  | forceMode p q mode =>
    exact twinStep_of_samePair habout h fun h' => h'.postForceMode hρ cfg mode
  | «open» ws => exact habout.elim
  | close ws => exact habout.elim
  | sweep now => exact habout.elim
  | reap now deleteFails => exact habout.elim
  | api write => exact habout.elim
  | restart => exact habout.elim

theorem Event.rename_id (e : Event) : e.rename id = e := by cases e <;> rfl

/-- One run of the step: what it leaves alone and whom it sends to. -/
theorem apart_step (cfg : Config) (hi : TableInv s) {e : Event} (habout : e.About s a b) :
    TwinStep id a b s s (step cfg s e) (step cfg s e) := by
  have h := twin_step cfg hi Function.injective_id habout (hi.pairInv a b).twin
  rwa [e.rename_id] at h

/-! ## Other pairs -/

/-- `s'` differs from `s` at no pair but that of `a` and `b`, and what was sent was sent to
these two. -/
structure LeavesPairs (a b : PeerId) (s s' : ServerState) : Prop where
  health : ∀ c d, ColonFree c → ColonFree d → ¬ SamePair c d a b →
    s'.pairHealthMap.get? (pairKey c d) = s.pairHealthMap.get? (pairKey c d)
  active : ∀ c d, ColonFree c → ColonFree d → ¬ SamePair c d a b →
    s'.activeNegotiations.get? (pairKey c d) = s.activeNegotiations.get? (pairKey c d)
  timers : ∀ c d, ColonFree c → ColonFree d → ¬ SamePair c d a b →
    ∀ id tm, tm.callback.key = pairKey c d →
      (s'.timers.get? id = some tm ↔ s.timers.get? id = some tm)
  links : ∀ c d, ¬ SamePair c d a b → s'.db.peerLinks.get? (c, d) = s.db.peerLinks.get? (c, d)
  sent : ∃ items, s'.trace = items ++ s.trace ∧
    ∀ it ∈ items, ∀ p, it.dest? = some p → p = a ∨ p = b

theorem isPair_eq_false {c d : PeerId} (h : ¬ SamePair c d a b) : isPair a b (c, d) = false := by
  simp only [isPair, Bool.or_eq_false_iff, decide_eq_false_iff_not, Prod.mk.injEq]
  exact ⟨fun e => h (Or.inl e), fun e => h (Or.inr e)⟩

theorem Apart.get?_links (h : Apart a b s s') {c d : PeerId} (hne : ¬ SamePair c d a b) :
    s'.db.peerLinks.get? (c, d) = s.db.peerLinks.get? (c, d) := by
  have hassoc := congrArg (OMap.assoc · (c, d)) h.links
  have hkeep : (fun k => !isPair a b k) (c, d) = true := by simp [isPair_eq_false hne]
  unfold Db.otherLinks at hassoc
  rwa [OMap.assoc_filter_of _ (fun k => !isPair a b k) hkeep,
    OMap.assoc_filter_of _ (fun k => !isPair a b k) hkeep] at hassoc

theorem TwinStep.leavesPairs (h : TwinStep ρ a b s t s' t') (ha : ColonFree a) (hb : ColonFree b) :
    LeavesPairs a b s s' where
  health := fun _ _ hc hd hne => h.apart.health _ (pairKey_ne ha hb hc hd hne)
  active := fun _ _ hc hd hne => h.apart.active _ (pairKey_ne ha hb hc hd hne)
  timers := fun _ _ hc hd hne id tm hkey =>
    h.apart.timers id tm (hkey ▸ pairKey_ne ha hb hc hd hne)
  links := fun _ _ hne => h.apart.get?_links hne
  sent := by
    obtain ⟨items, hs, -, hd⟩ := h.trace
    exact ⟨items, hs, hd⟩

/-! ## Health reports of several entries -/

/-- A health report is processed entry by entry, each about the pair of the sender and the
peer it names. -/
theorem handleHealthReport_rule (cfg : Config) (hi : TableInv s) {p : PeerId}
    {reports : List HealthReport} {now : Int} {I : ServerState → Prop}
    (hdb : I { s with db := upsertReports s.db p reports now })
    (hentry : ∀ t : ServerState, ∀ r ∈ reports, TableInv t →
      TableInv (handleReportEntry cfg p now t r) → I t →
      TwinStep id p r.peerId t t (handleReportEntry cfg p now t r) (handleReportEntry cfg p now t r) →
      I (handleReportEntry cfg p now t r)) : I (s.handleHealthReport cfg p reports now) := by
  have hdbInv : TableInv { s with db := upsertReports s.db p reports now } :=
    (db_step (C := fun _ _ _ => True) (D := fun _ _ _ => True) (F := fun _ => True) _).inv hi
  refine (foldl_invariant (I := fun t => TableInv t ∧ I t) _ reports ?_ ⟨hdbInv, hdb⟩).2
  rintro t r hr ⟨hit, hIt⟩
  have hit' : TableInv (handleReportEntry cfg p now t r) :=
    steps_inv (handleReportEntry_steps (C := fun _ _ _ => True) (D := fun _ _ _ => True)
      (F := fun _ => True) cfg hit p now r) hit
  exact ⟨hit', hentry t r hr hit hit' hIt ((hit.pairInv p r.peerId).twin.handleReportEntry
    Function.injective_id hit.connIds cfg now rfl)⟩

/-- A probe message is about the pair of its sender and the peer it names. -/
theorem probe_apart (cfg : Config) (hi : TableInv s) (ws : Ws) (now : Int) {msg : AgentMsg}
    {q : PeerId} (hq : msg.peer? = some q) :
    TwinStep id ws.peerId q s s (s.handleMessage cfg ws now msg)
      (s.handleMessage cfg ws now msg) :=
  (hi.pairInv ws.peerId q).twin.handleMessage Function.injective_id cfg rfl now hq

/-! ## What a message counts for -/

/-- The sender's id is the first part of the key. -/
def senderFirst (p q : PeerId) : Bool := !jsLt q p

/-- `readyA` or `readyB`. -/
def readyOf (n : NegotiationState) (isA : Bool) : Option DirectReady :=
  if isA then n.readyA else n.readyB

/-- `resultA` or `resultB`. -/
def resultOf (n : NegotiationState) (isA : Bool) : Option Bool :=
  if isA then n.resultA else n.resultB

/-- `s'` is `s` but for records, negotiations and timers under keys of `p` and its link rows. -/
structure OnlyOf (p : PeerId) (s s' : ServerState) : Prop where
  health : ∀ k, (∀ q, k ≠ pairKey p q) → s'.pairHealthMap.get? k = s.pairHealthMap.get? k
  active : ∀ k, (∀ q, k ≠ pairKey p q) →
    s'.activeNegotiations.get? k = s.activeNegotiations.get? k
  timers : ∀ id tm, (∀ q, tm.callback.key ≠ pairKey p q) →
    (s'.timers.get? id = some tm ↔ s.timers.get? id = some tm)
  links : ∀ c d, c ≠ p → d ≠ p → s'.db.peerLinks.get? (c, d) = s.db.peerLinks.get? (c, d)

/-- From `s` to `s'` only what is under keys of `p` changes; at each of them the streak of the
other side does not grow, and its ready and its result are set only as they were. -/
structure SenderOnly (p : PeerId) (s s' : ServerState) : Prop extends OnlyOf p s s' where
  streak : ∀ q h', s'.pairHealthMap.get? (pairKey p q) = some h' →
    streakOf h' (!senderFirst p q) ≤
      ((s.pairHealthMap.get? (pairKey p q)).map (streakOf · (!senderFirst p q))).getD 0
  ready : ∀ q n' r, s'.activeNegotiations.get? (pairKey p q) = some n' →
    readyOf n' (!senderFirst p q) = some r →
    ∃ n, s.activeNegotiations.get? (pairKey p q) = some n ∧ n.nid = n'.nid ∧
      readyOf n (!senderFirst p q) = some r
  result : ∀ q n' r, s'.activeNegotiations.get? (pairKey p q) = some n' →
    resultOf n' (!senderFirst p q) = some r →
    ∃ n, s.activeNegotiations.get? (pairKey p q) = some n ∧ n.nid = n'.nid ∧
      resultOf n (!senderFirst p q) = some r

/-! ## The side of the sender -/

theorem jsLt_append (p : JsString) (c : UInt16) (r : JsString) : jsLt p (p ++ c :: r) = true := by
  induction p with
  | nil => rfl
  | cons x xs ih => simp [jsLt, ih]

/-- The first part of a key that begins with a colon-free id. -/
theorem parsePairKey_fst {p : PeerId} (hp : ColonFree p) (r : JsString) :
    (parsePairKey (p ++ colon :: r)).1 = p := by
  unfold parsePairKey splitAt2
  rw [List.splitOn_append_cons_self_of_not_mem hp r]
  cases r.splitOn colon <;> rfl

/-- The handlers' test for the side of the sender, whatever it names as its counterpart. -/
theorem isSideA_eq {p : PeerId} (hp : ColonFree p) (q : PeerId) :
    isSideA p (pairKey p q) = senderFirst p q := by
  unfold isSideA senderFirst pairKey joinAt
  by_cases hlt : jsLt p q = true
  · rw [if_pos hlt, parsePairKey_fst hp, jsLt_asymm hlt]
    simp
  · rw [if_neg hlt]
    cases hqp : jsLt q p with
    | false =>
      have he : q = p := jsLt_total hqp (by simpa using hlt)
      subst he
      rw [parsePairKey_fst hp]
      simp
    | true =>
      -- were `p` the first part, `q` would be `p` itself or begin with `p:`
      simp only [Bool.not_true, decide_eq_false_iff_not]
      intro hfst
      by_cases hq : ColonFree q
      · rw [parsePairKey_fst hq] at hfst
        rw [hfst, jsLt_irrefl] at hqp
        cases hqp
      · obtain ⟨x, r, rfl, hx⟩ := List.eq_append_cons_of_mem (Classical.not_not.mp hq)
        rw [List.append_assoc, List.cons_append, parsePairKey_fst hx] at hfst
        subst hfst
        have hlt' := jsLt_append p colon r
        rw [jsLt_asymm hqp] at hlt'
        cases hlt'

/-! ## A message changes only what is its sender's -/

theorem OnlyOf.refl (p : PeerId) (s : ServerState) : OnlyOf p s s :=
  ⟨fun _ _ => rfl, fun _ _ => rfl, fun _ _ _ => Iff.rfl, fun _ _ _ _ => rfl⟩

theorem OnlyOf.trans {p : PeerId} {s'' : ServerState} (h : OnlyOf p s s') (h' : OnlyOf p s' s'') :
    OnlyOf p s s'' where
  health := fun k hk => (h'.health k hk).trans (h.health k hk)
  active := fun k hk => (h'.active k hk).trans (h.active k hk)
  timers := fun id tm hk => (h'.timers id tm hk).trans (h.timers id tm hk)
  links := fun c d hc hd => (h'.links c d hc hd).trans (h.links c d hc hd)

theorem Apart.onlyOf {p q : PeerId} (h : Apart p q s s') : OnlyOf p s s' where
  health := fun k hk => h.health k (hk q)
  active := fun k hk => h.active k (hk q)
  timers := fun id tm hk => h.timers id tm (hk q)
  links := by
    intro c d hc hd
    refine h.get?_links ?_
    rintro (⟨he, -⟩ | ⟨-, he⟩)
    · exact hc he
    · exact hd he

/-- The upserts of a report write rows of its sender. -/
theorem upsertReports_links (db : Db) (p : PeerId) (reports : List HealthReport) (now : Int)
    {c : PeerId} (hc : c ≠ p) (d : PeerId) :
    (upsertReports db p reports now).peerLinks.get? (c, d) = db.peerLinks.get? (c, d) := by
  refine upsertReports_rule (I := fun db' => db'.peerLinks.get? (c, d) = db.peerLinks.get? (c, d))
    ?_ reports rfl
  intro db1 db2 q row h hupsert
  rw [Db.eq_of_upsertLink hupsert, ← h]
  exact OMap.get?_set_ne _ _ fun he => hc (congrArg Prod.fst he).symm

theorem message_onlyOf (cfg : Config) (hi : TableInv s) (ws : Ws) (now : Int) (msg : AgentMsg) :
    OnlyOf ws.peerId s (s.handleMessage cfg ws now msg) := by
  cases hq : msg.peer? with
  | some q => exact (probe_apart cfg hi ws now hq).apart.onlyOf
  | none =>
    cases msg with
    | healthReport reports =>
      refine handleHealthReport_rule cfg hi (I := OnlyOf ws.peerId s) ?_ ?_
      · exact ⟨fun _ _ => rfl, fun _ _ => rfl, fun _ _ _ => Iff.rfl,
          fun c d hc _ => upsertReports_links s.db ws.peerId reports now hc d⟩
      · intro t r _ _ _ ht htwin
        exact ht.trans htwin.apart.onlyOf
    | probeRelayReady q meshIpv4 tcpPort nonce => cases hq
    | probeRelayResult q success => cases hq
    | probeDirectReady q udpPort nonce => cases hq
    | probeDirectResult q success => cases hq
    | probeError q error => cases hq

/-! ## A message counts for its sender's side -/

/-- A step on the records does not raise the streak of the other side. -/
theorem RecordStep.streak {cfg : Config} {ws : Ws} {now : Int} {msg : AgentMsg} {r r' : Records}
    (step : RecordStep cfg (.message ws now msg) r r') (q : PeerId) {h' : PairHealth}
    (hh' : r'.health.get? (pairKey ws.peerId q) = some h') :
    streakOf h' (!isSideA ws.peerId (pairKey ws.peerId q)) ≤
      ((r.health.get? (pairKey ws.peerId q)).map
        (streakOf · (!isSideA ws.peerId (pairKey ws.peerId q)))).getD 0 := by
  have hsame : ∀ {key : PairKey} {h0 g : PairHealth}, r.health.get? key = some h0 →
      (key = pairKey ws.peerId q → streakOf g (!isSideA ws.peerId (pairKey ws.peerId q)) ≤
        streakOf h0 (!isSideA ws.peerId (pairKey ws.peerId q))) →
      (r.health.set key g).get? (pairKey ws.peerId q) = some h' →
      streakOf h' (!isSideA ws.peerId (pairKey ws.peerId q)) ≤
        ((r.health.get? (pairKey ws.peerId q)).map
          (streakOf · (!isSideA ws.peerId (pairKey ws.peerId q)))).getD 0 := by
    intro key h0 g hfound hle hget
    rcases OMap.get?_set_cases hget with ⟨rfl, rfl⟩ | ⟨-, hget⟩
    · rw [hfound]
      exact hle rfl
    · rw [hget]
      exact Nat.le_refl _
  cases step with
  | created key hid free live =>
    rcases OMap.get?_set_cases hh' with ⟨rfl, rfl⟩ | ⟨-, hget⟩
    · cases isSideA ws.peerId (pairKey ws.peerId q) <;> exact Nat.zero_le _
    · rw [hget]
      exact Nat.le_refl _
  | entered x y now' mode rxAlive h found event =>
    obtain ⟨ws', reports, he, rfl⟩ := event
    cases he
    refine hsame found (fun hkey => ?_) hh'
    rw [hkey]
    exact Nat.le_of_eq (entryHealth_otherSide cfg h (isSideA ws.peerId _) now mode rxAlive).2
  | synced x y h row m found read forced =>
    refine hsame found (fun _ => ?_) hh'
    exact Nat.le_refl _
  | relayStarted x y h n now' found cached read => rw [hh']; exact Nat.le_refl _
  | directStarted x y h n now' found row due =>
    refine hsame found (fun _ => ?_) hh'
    exact Nat.le_refl _
  | answered key =>
    cases hg : r.health.get? key with
    | none =>
      simp only [hg] at hh'
      rw [hh']
      exact Nat.le_refl _
    | some h0 =>
      simp only [hg] at hh'
      refine hsame hg (fun _ => ?_) hh'
      cases isSideA ws.peerId (pairKey ws.peerId q) <;> exact Nat.zero_le _
  | backedOff key h g found event back =>
    refine hsame found (fun _ => ?_) hh'
    rcases back with rfl | rfl <;> exact Nat.le_refl _
  | forced x y mode h found event => cases event
  | reported p reports now' => rw [hh']; exact Nat.le_refl _
  | forgot p event => obtain ⟨now', fails, he⟩ := event; cases he
  | deleted now' event => cases event
  | wrote w event => cases event

/-- What `n'` holds for one side it had already as `o`, or holds nothing. -/
def SideKept (isA : Bool) (o : Option NegotiationState) (n' : NegotiationState) : Prop :=
  (∃ n, o = some n ∧ n.nid = n'.nid ∧ readyOf n' isA = readyOf n isA ∧
    resultOf n' isA = resultOf n isA) ∨ (readyOf n' isA = none ∧ resultOf n' isA = none)

theorem SideKept.of_eq {isA : Bool} {o : Option NegotiationState} {n' : NegotiationState}
    (h : o = some n') : SideKept isA o n' :=
  Or.inl ⟨n', h, rfl, rfl, rfl⟩

theorem store_otherSide (n : NegotiationState) (isA : Bool) (msg : AgentMsg) :
    readyOf (n.store isA msg) (!isA) = readyOf n (!isA) ∧
      resultOf (n.store isA msg) (!isA) = resultOf n (!isA) := by
  cases msg <;> cases isA <;> exact ⟨rfl, rfl⟩

/-- A step on a message of `p` stores nothing for the other side. -/
theorem TableStep.sideKept {p : PeerId} {D : Nat → PeerId → AbortReason → Prop}
    {F : TraceItem → Prop} (step : TableStep (fun _ x _ => x = p) D F s s') (q : PeerId)
    {n' : NegotiationState} (hn' : s'.activeNegotiations.get? (pairKey p q) = some n') :
    SideKept (!isSideA p (pairKey p q)) (s.activeNegotiations.get? (pairKey p q)) n' := by
  have hstore : ∀ {x y : PeerId} {msg : AgentMsg} {neg new : NegotiationState},
      Counts (fun _ x _ => x = p) s x y msg neg → new.nid = neg.nid →
      readyOf new (!isSideA x (pairKey x y)) = readyOf neg (!isSideA x (pairKey x y)) →
      resultOf new (!isSideA x (pairKey x y)) = resultOf neg (!isSideA x (pairKey x y)) →
      (s.activeNegotiations.set (pairKey x y) new).get? (pairKey p q) = some n' →
      SideKept (!isSideA p (pairKey p q)) (s.activeNegotiations.get? (pairKey p q)) n' := by
    intro x y msg neg new hcounts hnid hready hresult hget
    obtain rfl : x = p := hcounts.known
    rcases OMap.get?_set_cases hget with ⟨hkey, rfl⟩ | ⟨-, hget⟩
    · rw [← hkey]
      exact Or.inl ⟨neg, hcounts.active, hnid.symm, hready, hresult⟩
    · exact SideKept.of_eq hget
  cases step with
  | quiet items untagged active timers ref trace connIds connected health =>
    rw [active] at hn'
    exact SideKept.of_eq hn'
  | ignored x msg idle => exact SideKept.of_eq hn'
  | stored x y msg neg neg' counts direct store pending =>
    subst store
    exact hstore counts (store_nid ..) (store_otherSide ..).1 (store_otherSide ..).2 hn'
  | checked x y neg client meshIpv4 tcpPort nonce clientPubkey serverPubkey counts role =>
    exact SideKept.of_eq hn'
  | went x y udpPort nonce neg neg' infoA infoB readyA readyB counts store ready =>
    subst store
    have hother := store_otherSide neg (isSideA x (pairKey x y)) (.probeDirectReady y udpPort nonce)
    refine hstore counts ?_ ?_ ?_ hn'
    · exact store_nid neg _ (.probeDirectReady y udpPort nonce)
    · exact hother.1
    · exact hother.2
  | started key neg callback delay now backoff items may =>
    simp only [begin, OMap.get?_set] at hn'
    split at hn'
    · cases hn'
      obtain ⟨h1, h2, h3, h4⟩ := may.fresh
      right
      cases isSideA p (pairKey p q)
      · exact ⟨h1, h3⟩
      · exact ⟨h2, h4⟩
    · exact SideKept.of_eq hn'
  | concluded key neg receipt ending active counts allowed =>
    simp only [conclude, OMap.get?_delete] at hn'
    split at hn'
    · cases hn'
    · exact SideKept.of_eq hn'

theorem sideKept_steps {p : PeerId} {D : Nat → PeerId → AbortReason → Prop} {F : TraceItem → Prop}
    (hsteps : ReflTransGen (TableStep (fun _ x _ => x = p) D F) s s') (q : PeerId)
    {n' : NegotiationState} (hn' : s'.activeNegotiations.get? (pairKey p q) = some n') :
    SideKept (!isSideA p (pairKey p q)) (s.activeNegotiations.get? (pairKey p q)) n' := by
  induction hsteps generalizing n' with
  | refl => exact SideKept.of_eq hn'
  | tail _ hstep ih =>
    rcases hstep.sideKept q hn' with ⟨n, hn, hnid, hready, hresult⟩ | hnone
    · rcases ih hn with ⟨n0, hn0, hnid0, hready0, hresult0⟩ | hnone
      · exact Or.inl ⟨n0, hn0, hnid0.trans hnid, hready.trans hready0, hresult.trans hresult0⟩
      · exact Or.inr ⟨hready.trans hnone.1, hresult.trans hnone.2⟩
    · exact Or.inr hnone

theorem streak_steps {cfg : Config} {ws : Ws} {now : Int} {msg : AgentMsg} {r r' : Records}
    (hsteps : ReflTransGen (RecordStep cfg (.message ws now msg)) r r') (q : PeerId)
    {h' : PairHealth} (hh' : r'.health.get? (pairKey ws.peerId q) = some h') :
    streakOf h' (!isSideA ws.peerId (pairKey ws.peerId q)) ≤
      ((r.health.get? (pairKey ws.peerId q)).map
        (streakOf · (!isSideA ws.peerId (pairKey ws.peerId q)))).getD 0 := by
  induction hsteps generalizing h' with
  | refl => rw [hh']; exact Nat.le_refl _
  | @tail r1 _ _ hstep ih =>
    refine Nat.le_trans (hstep.streak q hh') ?_
    cases hg : r1.health.get? (pairKey ws.peerId q) with
    | none => exact Nat.zero_le _
    | some h => exact ih hg

/-- **A message counts for its sender.** -/
theorem message_senderOnly (cfg : Config) (hi : TableInv s) {ws : Ws} (hp : ColonFree ws.peerId)
    (now : Int) (msg : AgentMsg) : SenderOnly ws.peerId s (s.handleMessage cfg ws now msg) where
  toOnlyOf := message_onlyOf cfg hi ws now msg
  streak := by
    intro q h' hh'
    rw [← isSideA_eq hp q]
    have hsteps : ReflTransGen (RecordStep cfg (.message ws now msg)) s.records
        (s.handleMessage cfg ws now msg).records := message_records ws now msg
    exact streak_steps hsteps q hh'
  ready := by
    intro q n' r hn' hr
    have hsteps := message_steps cfg (C := fun _ x _ => x = ws.peerId) (D := fun _ _ _ => True)
      (F := fun _ => True) hi ws now msg rfl
    rw [← isSideA_eq hp q] at hr ⊢
    rcases sideKept_steps hsteps q hn' with ⟨n, hn, hnid, hready, -⟩ | ⟨hnone, -⟩
    · exact ⟨n, hn, hnid, hready ▸ hr⟩
    · rw [hnone] at hr
      cases hr
  result := by
    intro q n' r hn' hr
    have hsteps := message_steps cfg (C := fun _ x _ => x = ws.peerId) (D := fun _ _ _ => True)
      (F := fun _ => True) hi ws now msg rfl
    rw [← isSideA_eq hp q] at hr ⊢
    rcases sideKept_steps hsteps q hn' with ⟨n, hn, hnid, -, hresult⟩ | ⟨-, hnone⟩
    · exact ⟨n, hn, hnid, hresult ▸ hr⟩
    · rw [hnone] at hr
      cases hr

end

end Meshezia
