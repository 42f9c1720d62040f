import Meshezia.Server.Handlers

/-!
# Each negotiation has one outcome

`told n trace` is what the server sent for negotiation `n`, newest first.  In every
run it is the probe messages of `n` and, on top of them, its outcome: one verdict to both
peers, one abort to both, or an abort to one peer alone, when the other peer disconnected
or was removed and that ended the negotiation (`Cause`).  There is no outcome only as long
as nothing ended the negotiation (`Unended`).

    IdsOk es → EachOneOutcome (Unended cfg db es) (Cause cfg db es) (exec cfg db es).trace
                                                                          (one_outcome)
-/

namespace Meshezia

open ServerState Relation

/-! ## What is claimed of a history -/

/-- What was sent for negotiation `n`, newest first. -/
def told (n : Nat) (trace : List TraceItem) : List (PeerId × ServerMsg) :=
  trace.filterMap fun it =>
    match it with
    | .sent p _ msg (some m) => if m = n then some (p, msg) else none
    | _ => none

def ServerMsg.isProbe : ServerMsg → Bool
  | .probeRelayServe _ => true
  | .probeRelayCheck _ _ _ _ _ _ => true
  | .probeDirectStart _ => true
  | .probeDirectGo _ _ _ _ => true
  | _ => false

/-- The last messages of a negotiation of `a` and `b`, newest first; `U` says that nothing
ended it, `E p r` that the disconnect or removal of `p` ended it for the reason `r`. -/
inductive Outcome (a b : PeerId) (U : Prop) (E : PeerId → AbortReason → Prop) :
    List (PeerId × ServerMsg) → Prop
  | running (unended : U) : Outcome a b U E []
  | verdict (action : VerdictAction) :
      Outcome a b U E [(b, .probeVerdict a action), (a, .probeVerdict b action)]
  | abort (reason : AbortReason) :
      Outcome a b U E [(b, .negotiateAbort a reason), (a, .negotiateAbort b reason)]
  | withoutA (reason : AbortReason) (cause : E a reason) :
      Outcome a b U E [(b, .negotiateAbort a reason)]
  | withoutB (reason : AbortReason) (cause : E b reason) :
      Outcome a b U E [(a, .negotiateAbort b reason)]

/-- The messages of a negotiation of `a` and `b`: its outcome above its probe messages. -/
def OneOutcome (a b : PeerId) (U : Prop) (E : PeerId → AbortReason → Prop)
    (msgs : List (PeerId × ServerMsg)) : Prop :=
  ∃ terminals probes, msgs = terminals ++ probes ∧ (∀ m ∈ probes, m.2.isProbe = true) ∧
    Outcome a b U E terminals

/-- Every negotiation of the history has one outcome. -/
def EachOneOutcome (U : Nat → Prop) (E : Nat → PeerId → AbortReason → Prop)
    (trace : List TraceItem) : Prop :=
  ∀ key n type now backoff, TraceItem.started key n type now backoff ∈ trace →
    OneOutcome (parsePairKey key).1 (parsePairKey key).2 (U n) (E n) (told n trace)

/-- In the run `es`, the server restarted while negotiation `n` was active. -/
def CutOff (cfg : Config) (db : Db) (es : List Event) (n : Nat) : Prop :=
  ∃ pre post, es = pre ++ .restart :: post ∧ Active (exec cfg db pre) n

/-- In the run `es`, no event of a running server ended negotiation `n`: it is active at
the end, or a restart forgot it. -/
def Unended (cfg : Config) (db : Db) (es : List Event) (n : Nat) : Prop :=
  Active (exec cfg db es) n ∨ CutOff cfg db es n

/-- In the run `es`, negotiation `n` ended in an event that is a disconnect or the removal
of `p`. -/
def Cause (cfg : Config) (db : Db) (es : List Event) (n : Nat) (p : PeerId) (r : AbortReason) :
    Prop :=
  ∃ pre e post, es = pre ++ e :: post ∧ e.Drops (exec cfg db pre) p r ∧
    Active (exec cfg db pre) n ∧ ¬ Active (exec cfg db (pre ++ [e])) n

theorem Outcome.imp {a b : PeerId} {U U' : Prop} {E E' : PeerId → AbortReason → Prop}
    {l : List (PeerId × ServerMsg)} (h : Outcome a b U E l) (hU : l = [] → U → U')
    (hE : l ≠ [] → ∀ p r, E p r → E' p r) : Outcome a b U' E' l := by
  cases h with
  | running unended => exact .running (hU rfl unended)
  | verdict action => exact .verdict action
  | abort reason => exact .abort reason
  | withoutA reason cause => exact .withoutA reason (hE (by simp) _ _ cause)
  | withoutB reason cause => exact .withoutB reason (hE (by simp) _ _ cause)

/-- What ends a negotiation is no probe message. -/
theorem Outcome.terminal {a b : PeerId} {U : Prop} {E : PeerId → AbortReason → Prop}
    {l : List (PeerId × ServerMsg)} (h : Outcome a b U E l) : ∀ m ∈ l, m.2.isProbe = false := by
  cases h <;> simp [ServerMsg.isProbe]

theorem OneOutcome.imp {a b : PeerId} {U U' : Prop} {E E' : PeerId → AbortReason → Prop}
    {msgs : List (PeerId × ServerMsg)} (h : OneOutcome a b U E msgs) (hU : U → U')
    (hE : ∀ p r, E p r → E' p r) : OneOutcome a b U' E' msgs := by
  obtain ⟨terminals, probes, hmsgs, hprobes, ho⟩ := h
  exact ⟨terminals, probes, hmsgs, hprobes, ho.imp (fun _ => hU) (fun _ => hE)⟩

/-! ## What was sent -/

theorem told_append (n : Nat) (l l' : List TraceItem) : told n (l ++ l') = told n l ++ told n l' :=
  List.filterMap_append

theorem told_of_tag_ne {n : Nat} {l : List TraceItem} (h : ∀ it ∈ l, it.tag ≠ some n) :
    told n l = [] := by
  unfold told
  rw [List.filterMap_eq_nil_iff]
  intro it hit
  have ht := h it hit
  cases it with
  | sent p ws msg m =>
    cases m with
    | none => rfl
    | some m =>
      have hne : m ≠ n := fun e => ht (by rw [TraceItem.tag, e])
      simp [hne]
  | _ => rfl

theorem told_sentItems_of_ne {c : Connections} {m n : Nat} (h : m ≠ n) (p : PeerId)
    (msg : ServerMsg) : told n (sentItems c (some m) p msg) = [] :=
  told_of_tag_ne fun it hit => by
    rw [tag_of_mem_sentItems hit]
    exact fun e => h (Option.some.inj e)

theorem told_sentItems {c : Connections} {p : PeerId} (h : isPeerConnected c p = true) (n : Nat)
    (msg : ServerMsg) : told n (sentItems c (some n) p msg) = [(p, msg)] := by
  obtain ⟨ws, hws⟩ := sentItems_of_connected h (some n) msg
  rw [hws]
  simp [told]

theorem mem_told_sentItems {c : Connections} {m n : Nat} {p : PeerId} {msg : ServerMsg}
    {x : PeerId × ServerMsg} (h : x ∈ told n (sentItems c (some m) p msg)) :
    x = (p, msg) ∧ m = n := by
  by_cases hmn : m = n
  · subst hmn
    unfold sentItems at h
    split at h
    · exact ⟨by simpa [told] using h, rfl⟩
    · simp [told] at h
  · rw [told_sentItems_of_ne hmn] at h
    cases h

/-! ## The invariant -/

/-- `L n` says that a restart forgot negotiation `n`. -/
structure OutcomeInv (L : Nat → Prop) (E : Nat → PeerId → AbortReason → Prop)
    (s : ServerState) : Prop where
  probing : ∀ k neg, s.activeNegotiations.get? k = some neg →
    ∀ m ∈ told neg.nid s.trace, m.2.isProbe = true
  key : ∀ key n type now backoff, .started key n type now backoff ∈ s.trace →
    ∀ k neg, s.activeNegotiations.get? k = some neg → neg.nid = n → k = key
  outcome : EachOneOutcome (fun n => Active s n ∨ L n) E s.trace

/-- While a negotiation is active, only probe messages were sent for it. -/
theorem OutcomeInv.probing_of_active {L : Nat → Prop} {E : Nat → PeerId → AbortReason → Prop}
    {s : ServerState} (h : OutcomeInv L E s) {n : Nat} (hn : Active s n) :
    ∀ m ∈ told n s.trace, m.2.isProbe = true := by
  obtain ⟨k, neg, hk, rfl⟩ := hn
  exact h.probing k neg hk

section
variable {C : ServerState → PeerId → AgentMsg → Prop} {D E : Nat → PeerId → AbortReason → Prop}
  {F : TraceItem → Prop} {L L' : Nat → Prop} {s s' : ServerState}

/-- A negotiation stays active when its entry changes and keeps its identity. -/
theorem Active.of_set {key : PairKey} {neg neg' : NegotiationState} {n : Nat} (h : Active s n)
    (hk : s.activeNegotiations.get? key = some neg)
    (hset : s'.activeNegotiations = s.activeNegotiations.set key neg')
    (hnid : neg'.nid = neg.nid) : Active s' n := by
  obtain ⟨k, old, hold, rfl⟩ := h
  by_cases hne : key = k
  · subst hne
    rw [hk] at hold
    cases hold
    exact ⟨key, neg', by rw [hset, OMap.get?_set_self], hnid⟩
  · exact ⟨k, old, by rw [hset, OMap.get?_set, if_neg hne, hold], rfl⟩

/-- More history that ends and starts nothing, with probe messages of active negotiations. -/
theorem OutcomeInv.more (h : OutcomeInv L E s) {l : List TraceItem}
    (trace : s'.trace = l ++ s.trace)
    (noStart : ∀ key n type now backoff, .started key n type now backoff ∉ l)
    (active : ∀ k neg', s'.activeNegotiations.get? k = some neg' →
      ∃ neg, s.activeNegotiations.get? k = some neg ∧ neg.nid = neg'.nid)
    (unended : ∀ n, Active s n ∨ L n → Active s' n ∨ L' n)
    (probes : ∀ n, ∀ m ∈ told n l, m.2.isProbe = true ∧ Active s n) : OutcomeInv L' E s' where
  probing := by
    intro k neg' hn m hm
    obtain ⟨neg, hneg, hnid⟩ := active k neg' hn
    rw [trace, told_append] at hm
    rcases List.mem_append.mp hm with hm | hm
    · exact (probes _ m hm).1
    · exact h.probing k neg hneg m (hnid ▸ hm)
  key := by
    intro key n type now backoff hit k neg' hn hnid'
    obtain ⟨neg, hneg, hnid⟩ := active k neg' hn
    rw [trace] at hit
    rcases List.mem_append.mp hit with hit | hit
    · exact absurd hit (noStart key n type now backoff)
    · exact h.key key n type now backoff hit k neg hneg (by rw [hnid, hnid'])
  outcome := by
    intro key n type now backoff hit
    rw [trace] at hit
    rcases List.mem_append.mp hit with hit | hit
    · exact absurd hit (noStart key n type now backoff)
    rw [trace, told_append]
    cases hnew : told n l with
    | nil => exact (h.outcome key n type now backoff hit).imp (unended n) fun _ _ hc => hc
    | cons m rest =>
      have hactive := (probes n m (by rw [hnew]; simp)).2
      refine ⟨[], m :: rest ++ told n s.trace, rfl, fun x hx => ?_,
        .running (unended n (Or.inl hactive))⟩
      rcases List.mem_append.mp hx with hx | hx
      · exact (probes n x (hnew ▸ hx)).1
      · exact h.probing_of_active hactive x hx

/-- A probe starts: its identity is new, so nothing was sent for it before. -/
theorem OutcomeInv.of_begin (h : OutcomeInv L E s) (hi : TableInv s) {key : PairKey}
    {neg : NegotiationState} {callback : TimerCallback} {items : List TraceItem}
    (may : MayStart s key neg callback items) (delay now backoff : Int) :
    OutcomeInv L E (begin s key neg callback delay now backoff items) := by
  have htrace : (begin s key neg callback delay now backoff items).trace =
      items ++ .started key s.nextRef neg.type now backoff :: s.trace := rfl
  have hprobe : ∀ n, ∀ m ∈ told n items, m.2.isProbe = true ∧ neg.nid = n := by
    intro n m hm
    rcases may.items with ⟨q, client, -, -, -, he⟩ | ⟨-, he⟩
    · rw [he] at hm
      obtain ⟨rfl, hn⟩ := mem_told_sentItems hm
      exact ⟨rfl, hn⟩
    · rw [he, told_append] at hm
      rcases List.mem_append.mp hm with hm | hm <;> obtain ⟨rfl, hn⟩ := mem_told_sentItems hm <;>
        exact ⟨rfl, hn⟩
  have hfresh : told s.nextRef s.trace = [] := told_of_tag_ne fun it hit e =>
    Nat.lt_irrefl _ (hi.tagLt it hit _ e)
  have htold : ∀ n, told n (begin s key neg callback delay now backoff items).trace =
      told n items ++ told n s.trace := by
    intro n
    rw [htrace, told_append]
    rfl
  have hstarted : ∀ key' n type now' backoff',
      .started key' n type now' backoff' ∈ (begin s key neg callback delay now backoff items).trace →
      (key' = key ∧ n = s.nextRef) ∨ (.started key' n type now' backoff' ∈ s.trace) := by
    intro key' n type now' backoff' hit
    rw [htrace] at hit
    rcases List.mem_append.mp hit with hit | hit
    · rcases may.items with ⟨q, client, -, -, -, he⟩ | ⟨-, he⟩
      · rw [he, sentItems] at hit
        split at hit <;> simp at hit
      · rw [he, sentItems, sentItems] at hit
        split at hit <;> split at hit <;> simp at hit
    · rcases List.mem_cons.mp hit with hit | hit
      · cases hit; exact Or.inl ⟨rfl, rfl⟩
      · exact Or.inr hit
  refine ⟨?_, ?_, ?_⟩
  · intro k neg' hn m hm
    rw [begin, OMap.get?_set] at hn
    rw [htold] at hm
    split at hn
    · cases hn
      simp only [may.nid, hfresh, List.append_nil] at hm
      exact (hprobe _ m hm).1
    · rcases List.mem_append.mp hm with hm | hm
      · exact (hprobe _ m hm).1
      · exact h.probing k neg' hn m hm
  · intro key' n type now' backoff' hit k neg' hn hnid
    rw [begin, OMap.get?_set] at hn
    rcases hstarted key' n type now' backoff' hit with ⟨rfl, rfl⟩ | hold
    · split at hn
      · rename_i e; exact e.symm
      · exact absurd (hi.nidLt k neg' hn) (by omega)
    · have hlt := hi.tagLt _ hold n rfl
      split at hn
      · cases hn
        have := may.nid
        simp only at hnid
        omega
      · exact h.key key' n type now' backoff' hold k neg' hn hnid
  · intro key' n type now' backoff' hit
    rw [htold]
    rcases hstarted key' n type now' backoff' hit with ⟨rfl, rfl⟩ | hold
    · rw [hfresh, List.append_nil]
      have hactive : Active (begin s key' neg callback delay now' backoff' items) s.nextRef :=
        ⟨key', _, OMap.get?_set_self _ _ _, may.nid⟩
      exact ⟨[], _, rfl, fun m hm => (hprobe _ m hm).1, .running (Or.inl hactive)⟩
    · have hne : neg.nid ≠ n := by
        have := hi.tagLt _ hold n rfl
        have := may.nid
        omega
      have hnone : told n items = [] := by
        cases hnew : told n items with
        | nil => rfl
        | cons m rest => exact absurd (hprobe n m (by rw [hnew]; simp)).2 hne
      rw [hnone]
      -- the negotiations that were active stay so: the pair of the new one had none
      refine (h.outcome key' n type now' backoff' hold).imp (Or.imp_left ?_) fun _ _ hc => hc
      rintro ⟨k, neg', hk, hnid⟩
      refine ⟨k, neg', ?_, hnid⟩
      have hne' : key ≠ k := by
        rintro rfl
        rw [may.free] at hk
        cases hk
      rw [begin, OMap.get?_set, if_neg hne', hk]

/-- The messages of an ending are an outcome: both peers are connected. -/
theorem outcome_of_ending {neg : NegotiationState}
    (hconn : s.isConnected neg.peerA = true ∧ s.isConnected neg.peerB = true)
    (hD : ∀ p r, D neg.nid p r → E neg.nid p r) {receipt : Option (PeerId × AgentMsg)}
    {ending : Ending} (allowed : ending.Allowed D neg receipt) (U : Prop) :
    Outcome neg.peerA neg.peerB U (E neg.nid) (told neg.nid (ending.items s.connections neg)) := by
  cases ending with
  | verdict action =>
    rw [Ending.items, told_append, told_sentItems hconn.1, told_sentItems hconn.2]
    exact .verdict action
  | abort reason =>
    rw [Ending.items, told_append, told_sentItems hconn.1, told_sentItems hconn.2]
    exact .abort reason
  | abortOther p reason =>
    obtain ⟨-, hp, hcause⟩ := allowed
    rw [Ending.items, NegotiationState.other]
    by_cases hA : neg.peerA = p
    · rw [if_pos hA, told_sentItems hconn.2, ← hA]
      exact .withoutA reason (hD _ _ (hA ▸ hcause))
    · have hB : neg.peerB = p := hp.resolve_left hA
      rw [if_neg hA, told_sentItems hconn.1, ← hB]
      exact .withoutB reason (hD _ _ (hB ▸ hcause))

theorem OutcomeInv.of_conclude (h : OutcomeInv L E s) (hi : TableInv s) {key : PairKey}
    {neg : NegotiationState} (hk : s.activeNegotiations.get? key = some neg)
    (hD : ∀ p r, D neg.nid p r → E neg.nid p r) (receipt : Option (PeerId × AgentMsg))
    {ending : Ending} (allowed : ending.Allowed D neg receipt) :
    OutcomeInv L E (conclude s key neg receipt ending) := by
  have htold : ∀ n, told n (conclude s key neg receipt ending).trace =
      told n (ending.items s.connections neg) ++ told n s.trace := by
    intro n
    have hreceipt : told n (receiptItems neg receipt) = [] := by
      cases receipt <;> simp [receiptItems, told]
    rw [conclude, told_append, told_append, hreceipt, List.nil_append]
  have hother : ∀ n, neg.nid ≠ n → told n (ending.items s.connections neg) = [] := fun n hne =>
    told_of_tag_ne fun it hit => by
      rw [tag_of_mem_ending hit]
      exact fun e => hne (Option.some.inj e)
  have hstarted : ∀ key' n type now backoff,
      .started key' n type now backoff ∈ (conclude s key neg receipt ending).trace →
      .started key' n type now backoff ∈ s.trace := by
    intro key' n type now backoff hit
    have hnot : ∀ c o p msg, .started key' n type now backoff ∉ sentItems c o p msg := by
      intro c o p msg hmem
      unfold sentItems at hmem
      split at hmem <;> simp at hmem
    rw [conclude] at hit
    rcases List.mem_append.mp hit with hit | hit
    · cases ending <;> simp [Ending.items, hnot] at hit
    · rcases List.mem_append.mp hit with hit | hit
      · cases receipt <;> simp [receiptItems] at hit
      · exact hit
  refine ⟨?_, ?_, ?_⟩
  · intro k neg' hn m hm
    obtain ⟨hne, hold⟩ := OMap.get?_of_get?_delete hn
    have hnid : neg.nid ≠ neg'.nid := fun e => hne (hi.nidInj _ _ _ _ hk hold e)
    rw [htold, hother _ hnid] at hm
    exact h.probing k neg' hold m hm
  · intro key' n type now backoff hit k neg' hn hnid
    exact h.key key' n type now backoff (hstarted _ _ _ _ _ hit) k neg'
      (OMap.get?_of_get?_delete hn).2 hnid
  · intro key' n type now backoff hit
    have hold := hstarted _ _ _ _ _ hit
    rw [htold]
    by_cases hn : neg.nid = n
    · subst hn
      obtain rfl := h.key key' _ type now backoff hold key neg hk rfl
      rw [(hi.keyed key neg hk).parse]
      exact ⟨_, _, rfl, h.probing key neg hk,
        outcome_of_ending (hi.connected key neg hk) hD allowed _⟩
    · rw [hother n hn]
      refine (h.outcome key' n type now backoff hold).imp (Or.imp_left ?_) fun _ _ hc => hc
      rintro ⟨k, neg', hk', hnid⟩
      refine ⟨k, neg', ?_, hnid⟩
      have hne : key ≠ k := by
        rintro rfl
        rw [hk] at hk'
        cases hk'
        exact hn hnid
      rw [conclude, OMap.get?_delete, if_neg hne, hk']

/-- **One step.** -/
theorem TableStep.outcomeInv (step : TableStep C D F s s') (h : OutcomeInv L E s)
    (hi : TableInv s) (hD : ∀ n p r, D n p r → E n p r) : OutcomeInv L E s' := by
  cases step with
  | quiet items untagged active timers ref trace connIds connected health =>
    have hnone : ∀ n, told n items = [] := fun n => told_of_tag_ne fun it hit => by
      rw [(untagged it hit).1]; simp
    refine h.more trace ?_ (fun k neg hn => ⟨neg, by rw [← active]; exact hn, rfl⟩)
      (fun n => Or.imp_left ?_) ?_
    · intro key n type now backoff hit
      simpa [TraceItem.tag] using (untagged _ hit).1
    · rintro ⟨k, neg, hk, hnid⟩
      exact ⟨k, neg, by rw [active, hk], hnid⟩
    · intro n m hm
      rw [hnone n] at hm
      cases hm
  | ignored p msg idle =>
    exact h.more (l := [.recv p msg (s.negotiationMet p msg)]) rfl (by simp)
      (fun k neg hn => ⟨neg, hn, rfl⟩) (fun _ hn => hn) (by simp [told])
  | stored p q msg neg neg' counts direct store pending =>
    refine h.more (l := [.recv p msg (some neg.nid)]) rfl (by simp) ?_ (fun n => Or.imp_left
      fun hn => hn.of_set counts.active rfl (by rw [store, store_nid])) (by simp [told])
    intro k n hn
    rcases OMap.get?_set_cases hn with ⟨rfl, rfl⟩ | ⟨-, hn⟩
    · exact ⟨neg, counts.active, by rw [store, store_nid]⟩
    · exact ⟨n, hn, rfl⟩
  | checked p q neg client meshIpv4 tcpPort nonce clientPubkey serverPubkey counts role =>
    refine h.more (l := sentItems s.connections (some neg.nid) client
        (.probeRelayCheck p meshIpv4 tcpPort nonce clientPubkey serverPubkey) ++
      [.recv p (.probeRelayReady q meshIpv4 tcpPort nonce) (some neg.nid)]) (by simp) ?_
      (fun k neg hn => ⟨neg, hn, rfl⟩) (fun _ hn => hn) ?_
    · intro key n type now backoff
      unfold sentItems
      split <;> simp
    · intro n m hm
      rw [told_append] at hm
      rcases List.mem_append.mp hm with hm | hm
      · obtain ⟨rfl, rfl⟩ := mem_told_sentItems hm
        exact ⟨rfl, _, neg, counts.active, rfl⟩
      · simp [told] at hm
  | went p q udpPort nonce neg neg' infoA infoB readyA readyB counts store ready =>
    have hnid : neg'.nid = neg.nid := by rw [store, store_nid]
    refine h.more (l := goItems s.connections neg' infoA infoB readyA readyB ++
      [.recv p (.probeDirectReady q udpPort nonce) (some neg'.nid)]) (by simp [go]) ?_ ?_
      (fun n => Or.imp_left fun hn => hn.of_set counts.active rfl hnid) ?_
    · intro key n type now backoff
      unfold goItems sentItems
      split <;> split <;> simp
    · intro k n hn
      rcases OMap.get?_set_cases hn with ⟨rfl, rfl⟩ | ⟨-, hn⟩
      · exact ⟨neg, counts.active, hnid.symm⟩
      · exact ⟨n, hn, rfl⟩
    · intro n m hm
      rw [told_append, goItems, told_append] at hm
      rcases List.mem_append.mp hm with hm | hm
      · rcases List.mem_append.mp hm with hm | hm <;> obtain ⟨rfl, rfl⟩ := mem_told_sentItems hm <;>
          exact ⟨rfl, _, neg, counts.active, hnid.symm⟩
      · simp [told] at hm
  | started key neg callback delay now backoff items may =>
    exact h.of_begin hi may delay now backoff
  | concluded key neg receipt ending active counts allowed =>
    exact h.of_conclude hi active (fun p r => hD _ p r) receipt allowed

theorem outcomeInv_steps (hsteps : ReflTransGen (TableStep C D F) s s') (h : OutcomeInv L E s)
    (hi : TableInv s) (hD : ∀ n p r, D n p r → E n p r) : OutcomeInv L E s' := by
  induction hsteps with
  | refl => exact h
  | tail hpre hstep ih => exact hstep.outcomeInv ih (steps_inv hpre hi) hD

/-- The causes of outcomes matter only for negotiations that have ended. -/
theorem OutcomeInv.imp {E' : Nat → PeerId → AbortReason → Prop} (h : OutcomeInv L E s)
    (hL : ∀ n, L n → L' n) (hE : ∀ n p r, ¬ Active s n → E n p r → E' n p r) :
    OutcomeInv L' E' s where
  probing := h.probing
  key := h.key
  outcome := by
    intro key n type now backoff hit
    obtain ⟨terminals, probes, htold, hprobes, ho⟩ := h.outcome key n type now backoff hit
    refine ⟨terminals, probes, htold, hprobes,
      ho.imp (fun _ => Or.imp_right (hL n)) fun hne p r => hE n p r fun hactive => ?_⟩
    obtain ⟨m, hm⟩ := List.exists_mem_of_ne_nil terminals hne
    have hprobe := h.probing_of_active hactive m (by rw [htold]; simp [hm])
    rw [ho.terminal m hm] at hprobe
    cases hprobe

end

/-! ## Runs -/

/-- **Every run.** -/
theorem outcomeInv_exec (cfg : Config) (db : Db) {es : List Event} (hids : IdsOk es) :
    OutcomeInv (CutOff cfg db es) (Cause cfg db es) (exec cfg db es) := by
  induction es using List.reverseRecOn with
  | nil =>
    constructor <;> simp [exec, ServerState.init, EachOneOutcome, OMap.get?_empty]
  | append_singleton es e ih =>
    obtain ⟨hpre, hid⟩ := hids.of_concat
    have h := ih hpre
    have hi := tableInv_exec cfg db hpre
    have hcut : ∀ n, CutOff cfg db es n → CutOff cfg db (es ++ [e]) n := by
      rintro n ⟨pre, post, he, hactive⟩
      exact ⟨pre, post ++ [e], by simp [he], hactive⟩
    have hmono : ∀ n p r, Cause cfg db es n p r → Cause cfg db (es ++ [e]) n p r := by
      rintro n p r ⟨pre, e', post, he, hcause⟩
      exact ⟨pre, e', post ++ [e], by simp [he], hcause⟩
    rw [exec_concat]
    by_cases hrestart : e = .restart
    · subst hrestart
      have hsame : (step cfg (exec cfg db es) .restart).trace = [] ++ (exec cfg db es).trace := rfl
      refine (h.more hsame (by simp) ?_ (fun n hn => Or.inr ?_) (by simp [told])).imp
        (fun _ hn => hn) fun n p r _ => hmono n p r
      · intro k neg hn
        simp [step, OMap.get?_empty] at hn
      · exact hn.elim (fun hactive => ⟨es, [], rfl, hactive⟩) (hcut n)
    · have hsteps := steps_of_step cfg (C := fun _ _ _ => True) hi e hid (by cases e <;> trivial)
        hrestart
      have h' := outcomeInv_steps (E := fun n p r => Cause cfg db es n p r ∨
          (Active (exec cfg db es) n ∧ e.Drops (exec cfg db es) p r)) hsteps
        (h.imp (fun _ hn => hn) fun n p r _ hc => Or.inl hc) hi fun n p r hd => Or.inr hd
      refine h'.imp hcut fun n p r hended hc => ?_
      rcases hc with hc | ⟨hactive, hdrops⟩
      · exact hmono n p r hc
      · exact ⟨es, e, [], rfl, hdrops, hactive, by rw [exec_concat]; exact hended⟩

/-! ## Top theorem -/

/-- **Each negotiation has one outcome and both peers are told the same.** -/
theorem one_outcome (cfg : Config) (db : Db) (es : List Event) (hids : IdsOk es) :
    EachOneOutcome (Unended cfg db es) (Cause cfg db es) (exec cfg db es).trace :=
  (outcomeInv_exec cfg db hids).outcome

/-- One peer of a direct probe disconnects. -/
def disconnectRun : List Event := directProbeRun ++ [.close wsOne]

/-- The other peer is told that the probe is aborted, and the one that left is the cause. -/
theorem one_outcome_disconnectRun :
    EachOneOutcome (Unended {} twoPeers disconnectRun) (Cause {} twoPeers disconnectRun)
        (exec {} twoPeers disconnectRun).trace ∧
      told 1 (exec {} twoPeers disconnectRun).trace =
        [(peerTwo, .negotiateAbort peerOne .wsReset), (peerTwo, .probeDirectStart peerOne),
          (peerOne, .probeDirectStart peerTwo)] ∧
      Cause {} twoPeers disconnectRun 1 peerOne .wsReset :=
  ⟨one_outcome {} twoPeers disconnectRun (by decide), by decide +kernel,
    directProbeRun, .close wsOne, [], rfl, ⟨rfl, rfl⟩, ⟨pairKey peerOne peerTwo, _, rfl, rfl⟩, by
      rintro ⟨k, neg, hk, -⟩
      have hnone : (exec {} twoPeers (directProbeRun ++ [.close wsOne])).activeNegotiations.entries
          = [] := by decide +kernel
      rw [← OMap.mem_entries, hnone] at hk
      cases hk⟩

end Meshezia
