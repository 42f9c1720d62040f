import Meshezia.Server.Table

/-!
# Every handler is a sequence of table steps

`steps_of_step`: the state after an event is reached from the state before it by
`TableStep`s.  What a `TableStep` keeps, an event keeps; the invariant of the table
holds in every state a run reaches (`tableInv_exec`).

The lemmas go function by function, each sending or ending function first rewritten to
what it does to the table and the history.
-/

namespace Meshezia

open ServerState Relation

/-! ## What the sending and ending functions do -/

namespace ServerState

variable (s : ServerState)

theorem sendMsg_eq (neg : Option Nat) (p : PeerId) (msg : ServerMsg) :
    s.sendMsg neg p msg = { s with trace := sentItems s.connections neg p msg ++ s.trace } := by
  unfold sendMsg sentItems
  cases sendTextToPeer s.connections p <;> rfl

theorem sendIfConnected_eq (neg : Option Nat) (p : PeerId) (msg : ServerMsg) :
    s.sendIfConnected neg p msg =
      { s with trace := sentItems s.connections neg p msg ++ s.trace } := by
  unfold sendIfConnected
  split
  · exact s.sendMsg_eq neg p msg
  · rename_i h
    have hnone : s.connections.get? p = none := by
      simpa [isConnected, isPeerConnected, OMap.has_eq_false_iff] using h
    simp [sentItems, sendTextToPeer, hnone]

theorem clearTimeout_eq (timeoutId : Option Nat) :
    s.clearTimeout timeoutId = { s with timers := cleared s.timers timeoutId } := by
  cases timeoutId <;> rfl

theorem finishNegotiation_eq {key : PairKey} {n : NegotiationState}
    (h : s.activeNegotiations.get? key = some n) :
    s.finishNegotiation key =
      { s with timers := cleared s.timers n.timeoutId
               activeNegotiations := s.activeNegotiations.delete key } := by
  unfold finishNegotiation
  rw [h]
  simp only [clearTimeout_eq]

theorem abortNegotiation_eq {key : PairKey} {n : NegotiationState}
    (h : s.activeNegotiations.get? key = some n) (reason : AbortReason) :
    s.abortNegotiation key reason = conclude s key n none (.abort reason) := by
  unfold abortNegotiation
  rw [h]
  simp only [sendIfConnected_eq]
  rw [finishNegotiation_eq _ (n := n) (by exact h)]
  simp [conclude, Ending.items, receiptItems]

theorem abortForForce_eq {key : PairKey} {neg : NegotiationState}
    (h : s.activeNegotiations.get? key = some neg) :
    s.abortForForce key = conclude s key neg none (.abort .adminForce) := by
  unfold abortForForce
  rw [h]
  simp only [sendMsg_eq]
  rw [finishNegotiation_eq _ (n := neg) (by exact h)]
  simp [conclude, Ending.items, receiptItems]

/-- A verdict that ends the negotiation of `key`. -/
theorem sendVerdict_finish_eq {key : PairKey} {n : NegotiationState}
    (h : s.activeNegotiations.get? key = some n) (action : VerdictAction) :
    (s.sendVerdict n action).finishNegotiation key =
      conclude s key n none (.verdict action) := by
  unfold sendVerdict
  simp only [sendMsg_eq]
  rw [finishNegotiation_eq _ (n := n) (by exact h)]
  simp [conclude, Ending.items, receiptItems]

theorem abortPeerEntry_eq {key : PairKey} {neg : NegotiationState}
    (h : s.activeNegotiations.get? key = some neg) {peerId : PeerId} {reason : AbortReason}
    (hp : neg.peerA = peerId ∨ neg.peerB = peerId) :
    abortPeerEntry peerId reason s (key, neg) =
      conclude s key neg none (.abortOther peerId reason) := by
  unfold abortPeerEntry
  simp only [if_pos hp, sendIfConnected_eq]
  rw [finishNegotiation_eq _ (n := neg) (by exact h)]
  simp [conclude, Ending.items, receiptItems, NegotiationState.other]

theorem abortPeerEntry_of_not {key : PairKey} {neg : NegotiationState} {peerId : PeerId}
    (reason : AbortReason) (hp : ¬ (neg.peerA = peerId ∨ neg.peerB = peerId)) :
    abortPeerEntry peerId reason s (key, neg) = s := by
  simp [abortPeerEntry, hp]

end ServerState

theorem negotiationMet_eq {s : ServerState} {p q : PeerId} {msg : AgentMsg}
    (hq : msg.peer? = some q) :
    s.negotiationMet p msg =
      (s.activeNegotiations.get? (pairKey p q)).map NegotiationState.nid := by
  unfold negotiationMet
  rw [hq]

/-! ## Quiet steps -/

section
variable {C : ServerState → PeerId → AgentMsg → Prop} {D : Nat → PeerId → AbortReason → Prop}
  {F : TraceItem → Prop} {s s' : ServerState}

theorem steps_inv (h : ReflTransGen (TableStep C D F) s s') (hi : TableInv s) : TableInv s' := by
  induction h with
  | refl => exact hi
  | tail _ hstep ih => exact hstep.inv ih

theorem HealthKept.rfl' (h : s'.pairHealthMap = s.pairHealthMap) : HealthKept s s' :=
  ⟨by rw [h]; exact id, by rw [h]; exact fun _ _ _ _ => id⟩

/-- A step that leaves the tables of the negotiator and the connections alone. -/
theorem quiet_step (items : List TraceItem)
    (untagged : ∀ it ∈ items, it.tag = none ∧ (it.switch? = none ∨ F it))
    (active : s'.activeNegotiations = s.activeNegotiations) (timers : s'.timers = s.timers)
    (ref : s.nextRef ≤ s'.nextRef) (trace : s'.trace = items ++ s.trace)
    (connections : s'.connections = s.connections) (health : HealthKept s s') :
    TableStep C D F s s' :=
  .quiet items untagged active timers ref trace (by rw [connections]; exact id)
    (fun _ _ _ p _ hp => by rw [isConnected_congr connections p]; exact hp) health

theorem db_step (db : Db) : TableStep C D F s { s with db := db } :=
  quiet_step [] (by simp) rfl rfl (Nat.le_refl _) rfl rfl (.rfl' rfl)

theorem note_step {i : TraceItem} (h : i.tag = none) (hs : i.switch? = none) :
    TableStep C D F s (s.note i) :=
  quiet_step [i] (by simp [h, hs]) rfl rfl (Nat.le_refl _) rfl rfl (.rfl' rfl)

theorem send_step {p : PeerId} {msg : ServerMsg}
    (h : msg.switch? = none ∨ ∀ ws, F (.sent p ws msg none)) :
    TableStep C D F s (s.sendMsg none p msg) := by
  rw [sendMsg_eq]
  refine quiet_step _ (fun it hit => ⟨tag_of_mem_sentItems hit, ?_⟩) rfl rfl (Nat.le_refl _) rfl rfl
    (.rfl' rfl)
  rcases h with h | h
  · exact Or.inl (switch?_of_mem_sentItems h hit)
  · obtain ⟨ws, rfl⟩ := mem_sentItems hit
    exact Or.inr (h ws)

/-- The record `h` may stand at `key`, as far as reports of a peer about itself go. -/
def SelfOk (key : PairKey) (h : PairHealth) : Prop :=
  ∀ p, ColonFree p → key = pairKey p p → h.streakBA = 0

theorem SelfStreaks.selfOk {health : OMap PairKey PairHealth} {key : PairKey} {h : PairHealth}
    (hs : SelfStreaks health) (hk : health.get? key = some h) : SelfOk key h :=
  fun p hp e => hs p h hp (e ▸ hk)

theorem putHealth_step {key : PairKey} {old h : PairHealth}
    (hold : s.pairHealthMap.get? key = some old) (hid : h.hid = old.hid) (hself : SelfOk key h) :
    TableStep C D F s (s.putHealth key h) := by
  refine quiet_step [] (by simp) rfl rfl (Nat.le_refl _) rfl rfl ⟨?_, ?_⟩
  · intro hs p h' hp hg
    rcases OMap.get?_set_cases hg with ⟨e, rfl⟩ | ⟨-, hg⟩
    · exact hself p hp e
    · exact hs p h' hp hg
  · intro k n i hn hg
    rw [putHealth, OMap.get?_set]
    split
    · rename_i e
      subst e
      rw [hold] at hg
      simpa [hid] using hg
    · exact hg

/-- The record of `key`, made if there is none. -/
theorem getOrCreateHealth_spec (cfg : Config) (s : ServerState) (key : PairKey) :
    ((getOrCreateHealth cfg s key).2.pairHealthMap.get? key =
        some (getOrCreateHealth cfg s key).1) ∧
      TableStep C D F s (getOrCreateHealth cfg s key).2 := by
  unfold getOrCreateHealth
  cases hg : s.pairHealthMap.get? key with
  | some h => exact ⟨hg, quiet_step [] (by simp) rfl rfl (Nat.le_refl _) rfl rfl (.rfl' rfl)⟩
  | none =>
    refine ⟨by simp, quiet_step [.healthCreated key] (by simp [TraceItem.tag, TraceItem.switch?]) rfl rfl
      (Nat.le_succ _) rfl rfl ⟨?_, ?_⟩⟩
    · intro hs p h hp hk
      rcases OMap.get?_set_cases hk with ⟨-, rfl⟩ | ⟨-, hk⟩
      · rfl
      · exact hs p h hp hk
    · intro k n i hn hk
      have hne : key ≠ k := by
        rintro rfl
        rw [hg] at hk
        cases hk
      rw [OMap.get?_set_ne _ _ hne]
      exact hk

/-- A change of the record at `key` that keeps its identity. -/
theorem updateHealth_steps (hi : TableInv s) (key : PairKey) (f : PairHealth → PairHealth)
    (hid : ∀ h, (f h).hid = h.hid)
    (hself : ∀ h : PairHealth, h.streakBA = 0 → (f h).streakBA = 0) :
    ReflTransGen (TableStep C D F) s (s.updateHealth key f) := by
  unfold updateHealth
  cases hg : s.pairHealthMap.get? key with
  | none => exact .refl
  | some h =>
    exact .single (putHealth_step hg (hid h)
      fun p hp e => hself h (hi.selfStreaks.selfOk hg p hp e))

theorem updateHealthRef_steps (hi : TableInv s) (r : HealthRef) (f : PairHealth → PairHealth)
    (hid : ∀ h, (f h).hid = h.hid)
    (hself : ∀ h : PairHealth, h.streakBA = 0 → (f h).streakBA = 0) :
    ReflTransGen (TableStep C D F) s (s.updateHealthRef r f) := by
  unfold updateHealthRef
  cases hg : s.pairHealthMap.get? r.key with
  | none => exact .refl
  | some h =>
    simp only
    split
    · exact .single (putHealth_step hg (hid h)
        fun p hp e => hself h (hi.selfStreaks.selfOk hg p hp e))
    · exact .refl

/-! ## Probe messages -/

/-- A message that meets no negotiation leaves only its receipt. -/
theorem ignored_of_none {p q : PeerId} {msg : AgentMsg} (hq : msg.peer? = some q)
    (hg : s.activeNegotiations.get? (pairKey p q) = none) :
    ReflTransGen (TableStep C D F) s (s.note (.recv p msg (s.negotiationMet p msg))) := by
  refine .single (.ignored p msg fun q' neg hq' hn => ?_)
  rw [hq] at hq'
  cases hq'
  rw [hg] at hn
  cases hn

/-- So does one that does not count for the negotiation it meets. -/
theorem ignored_of_some {p q : PeerId} {msg : AgentMsg} {neg : NegotiationState}
    (hq : msg.peer? = some q) (hg : s.activeNegotiations.get? (pairKey p q) = some neg)
    (hcount : msg.countsFor p neg = false) :
    ReflTransGen (TableStep C D F) s (s.note (.recv p msg (s.negotiationMet p msg))) := by
  refine .single (.ignored p msg fun q' neg' hq' hn => ?_)
  rw [hq] at hq'
  cases hq'
  rw [hg] at hn
  cases hn
  exact hcount

theorem probeRelayReady_steps (hi : TableInv s) {p q : PeerId} {meshIpv4 : JsString} {tcpPort : Int}
    {nonce : JsString} (hC : C s p (.probeRelayReady q meshIpv4 tcpPort nonce)) :
    ReflTransGen (TableStep C D F) s
      ((s.note (.recv p (.probeRelayReady q meshIpv4 tcpPort nonce)
        (s.negotiationMet p (.probeRelayReady q meshIpv4 tcpPort nonce)))).handleProbeRelayReady
          p q meshIpv4 tcpPort nonce) := by
  unfold handleProbeRelayReady
  simp only [note]
  cases hg : s.activeNegotiations.get? (pairKey p q) with
  | none => exact ignored_of_none rfl hg
  | some neg =>
    have hmet : s.negotiationMet p (.probeRelayReady q meshIpv4 tcpPort nonce) = some neg.nid := by
      rw [negotiationMet_eq rfl, hg]; rfl
    simp only
    by_cases htype : neg.type = .relayProbe
    · rw [if_neg (by simp [htype])]
      by_cases hserver : some p = neg.serverNode
      · rw [if_neg (by simp [hserver])]
        have counts : Counts C s p q (.probeRelayReady q meshIpv4 tcpPort nonce) neg :=
          ⟨hC, rfl, hg, by simp [AgentMsg.countsFor, htype, ← hserver]⟩
        obtain ⟨client, hclient⟩ : ∃ client, neg.clientNode = some client := by
          rcases (hi.keyed _ _ hg).roles htype with ⟨_, h⟩ | ⟨_, h⟩ <;> exact ⟨_, h⟩
        rw [hmet]
        split
        · rw [sendMsg_eq]
          simp only [hclient, ← hserver, Option.getD_some]
          exact .single (.checked p q neg client _ _ _ _ _ counts hclient)
        · refine .single ?_
          rw [abortNegotiation_eq _ (n := neg) (by exact hg)]
          exact .concluded _ neg (some (p, _)) (.abort .timeout) hg
            (fun p' msg' h => by cases h; exact ⟨q, rfl, counts⟩) (Or.inl rfl)
      · rw [if_pos (by simpa using hserver)]
        exact ignored_of_some rfl hg (by simp [AgentMsg.countsFor, Ne.symm hserver])
    · rw [if_pos (by simpa using htype)]
      exact ignored_of_some rfl hg (by simp [AgentMsg.countsFor, htype])

theorem probeRelayResult_steps (hi : TableInv s) {p q : PeerId} {success : Bool}
    (hC : C s p (.probeRelayResult q success)) :
    ReflTransGen (TableStep C D F) s
      ((s.note (.recv p (.probeRelayResult q success)
        (s.negotiationMet p (.probeRelayResult q success)))).handleProbeRelayResult p q success) := by
  unfold handleProbeRelayResult
  simp only [note]
  cases hg : s.activeNegotiations.get? (pairKey p q) with
  | none => exact ignored_of_none rfl hg
  | some neg =>
    have hmet : s.negotiationMet p (.probeRelayResult q success) = some neg.nid := by
      rw [negotiationMet_eq rfl, hg]; rfl
    simp only
    by_cases htype : neg.type = .relayProbe
    · rw [if_neg (by simp [htype])]
      by_cases hclient : some p = neg.clientNode
      · rw [if_neg (by simp [hclient])]
        have counts : Counts C s p q (.probeRelayResult q success) neg :=
          ⟨hC, rfl, hg, by simp [AgentMsg.countsFor, htype, ← hclient]⟩
        rw [hmet, sendVerdict_finish_eq _ (n := neg) (by exact hg)]
        have hend : TableStep C D F s (conclude s (pairKey p q) neg
            (some (p, .probeRelayResult q success))
            (.verdict (if success then .switchRelay else .stay))) :=
          .concluded _ neg _ _ hg (fun p' msg' h => by cases h; exact ⟨q, rfl, counts⟩) (by
            cases success
            · trivial
            · exact ⟨htype, p, q, rfl⟩)
        have hnote := ReflTransGen.tail (.single hend)
          (note_step (C := C) (D := D) (F := F) (i := .relayResult (pairKey p q)) rfl rfl)
        exact hnote.trans (updateHealth_steps (steps_inv hnote hi) _ _ (fun _ => rfl)
          fun _ _ => rfl)
      · rw [if_pos (by simpa using hclient)]
        exact ignored_of_some rfl hg (by simp [AgentMsg.countsFor, Ne.symm hclient])
    · rw [if_pos (by simpa using htype)]
      exact ignored_of_some rfl hg (by simp [AgentMsg.countsFor, htype])

theorem probeError_steps (hi : TableInv s) {p q : PeerId} {error : JsString}
    (hC : C s p (.probeError q error)) :
    ReflTransGen (TableStep C D F) s
      ((s.note (.recv p (.probeError q error)
        (s.negotiationMet p (.probeError q error)))).handleProbeError p q) := by
  unfold handleProbeError
  simp only [note]
  cases hg : s.activeNegotiations.get? (pairKey p q) with
  | none => exact ignored_of_none rfl hg
  | some neg =>
    have hmet : s.negotiationMet p (.probeError q error) = some neg.nid := by
      rw [negotiationMet_eq rfl, hg]; rfl
    have hend : TableStep C D F s (conclude s (pairKey p q) neg (some (p, .probeError q error))
        (.abort .timeout)) :=
      .concluded _ neg _ _ hg (fun p' msg' h => by cases h; exact ⟨q, rfl, hC, rfl, hg, rfl⟩)
        (Or.inl rfl)
    simp only [hmet]
    by_cases htype : neg.type = .directProbe
    · rw [if_pos htype]
      -- the backoff is written before the abort; the two do not see each other
      have hback := updateHealth_steps (C := C) (D := D) (F := F) (hend.inv hi) (pairKey p q)
        PairHealth.backOff (fun _ => rfl) (fun _ h => h)
      convert (ReflTransGen.single hend).trans hback using 1
      unfold updateHealth
      simp only [conclude]
      cases s.pairHealthMap.get? (pairKey p q) <;>
        exact abortNegotiation_eq _ (n := neg) (by exact hg) .timeout
    · rw [if_neg htype]
      rw [abortNegotiation_eq _ (n := neg) (by exact hg)]
      exact .single hend

theorem cleared_cleared (timers : OMap Nat Timer) (timeoutId : Option Nat) :
    cleared (cleared timers timeoutId) timeoutId = cleared timers timeoutId := by
  cases timeoutId <;> simp [cleared]

/-- A negotiation that ends once the message received is stored in it, its timer perhaps
cleared already, ends as it would without. -/
theorem conclude_stored {key : PairKey} {neg neg' : NegotiationState} {timers : OMap Nat Timer}
    (hnid : neg'.nid = neg.nid) (hA : neg'.peerA = neg.peerA) (hB : neg'.peerB = neg.peerB)
    (ht : cleared timers neg'.timeoutId = cleared s.timers neg.timeoutId) (p : PeerId)
    (msg : AgentMsg) (ending : Ending) :
    conclude ⟨s.db, s.connections, s.pairHealthMap, s.activeNegotiations.set key neg', timers,
        s.nextRef, .recv p msg (some neg.nid) :: s.trace⟩ key neg' none ending =
      conclude s key neg (some (p, msg)) ending := by
  have hitems : ending.items s.connections neg' = ending.items s.connections neg := by
    cases ending <;> simp [Ending.items, NegotiationState.other, hnid, hA, hB]
  simp [conclude, hitems, receiptItems, ht]

theorem probeDirectReady_steps {p q : PeerId} {udpPort : Int} {nonce : JsString}
    (hC : C s p (.probeDirectReady q udpPort nonce)) :
    ReflTransGen (TableStep C D F) s
      ((s.note (.recv p (.probeDirectReady q udpPort nonce)
        (s.negotiationMet p (.probeDirectReady q udpPort nonce)))).handleProbeDirectReady
          p q udpPort nonce) := by
  unfold handleProbeDirectReady
  simp only [note]
  cases hg : s.activeNegotiations.get? (pairKey p q) with
  | none => exact ignored_of_none rfl hg
  | some neg =>
    have hmet : s.negotiationMet p (.probeDirectReady q udpPort nonce) = some neg.nid := by
      rw [negotiationMet_eq rfl, hg]; rfl
    simp only
    by_cases htype : neg.type = .directProbe
    · rw [if_neg (by simp [htype])]
      have counts : Counts C s p q (.probeDirectReady q udpPort nonce) neg :=
        ⟨hC, rfl, hg, by simp [AgentMsg.countsFor, htype]⟩
      have hstore : (if p = (parsePairKey (pairKey p q)).1 then
            { neg with readyA := some { udpPort, nonce } }
          else { neg with readyB := some { udpPort, nonce } }) =
          neg.store (isSideA p (pairKey p q)) (.probeDirectReady q udpPort nonce) := by
        simp [NegotiationState.store, isSideA]
      simp only [hstore]
      generalize hneg' : neg.store (isSideA p (pairKey p q)) (.probeDirectReady q udpPort nonce) =
        neg'
      have hnid : neg'.nid = neg.nid := by simp [← hneg']
      have hA : neg'.peerA = neg.peerA := by simp [← hneg']
      have hB : neg'.peerB = neg.peerB := by simp [← hneg']
      have ht : neg'.timeoutId = neg.timeoutId := by simp [← hneg']
      rw [hmet]
      split
      · rename_i readyA readyB hreadyA hreadyB
        unfold sendDirectGo
        simp only [clearTimeout_eq]
        split
        · rename_i infoA infoB _ _
          have hwent := TableStep.went (C := C) (D := D) (F := F) p q udpPort nonce neg neg' infoA infoB
            readyA readyB counts hneg'.symm ⟨hreadyA, hreadyB⟩
          refine .single ?_
          simpa [sendMsg_eq, armTimeout, go, goItems, hnid] using hwent
        · refine .single ?_
          rw [abortNegotiation_eq _ (n := neg') (by simp)]
          rw [conclude_stored hnid hA hB (by rw [cleared_cleared, ht])]
          exact .concluded _ neg (some (p, _)) (.abort .timeout) hg
            (fun p' msg' h => by cases h; exact ⟨q, rfl, counts⟩) (Or.inl rfl)
      · rename_i hnot
        refine .single (.stored p q _ neg neg' counts htype hneg'.symm (Or.inr ?_))
        rintro ⟨hA', hB'⟩
        obtain ⟨a, ha⟩ := Option.isSome_iff_exists.mp hA'
        obtain ⟨b, hb⟩ := Option.isSome_iff_exists.mp hB'
        exact hnot a b ha hb
    · rw [if_pos (by simpa using htype)]
      exact ignored_of_some rfl hg (by simp [AgentMsg.countsFor, htype])

theorem probeDirectResult_steps (cfg : Config) (hi : TableInv s) {p q : PeerId} {success : Bool}
    (hC : C s p (.probeDirectResult q success)) :
    ReflTransGen (TableStep C D F) s
      ((s.note (.recv p (.probeDirectResult q success)
        (s.negotiationMet p (.probeDirectResult q success)))).handleProbeDirectResult cfg
          p q success) := by
  unfold handleProbeDirectResult
  simp only [note]
  cases hg : s.activeNegotiations.get? (pairKey p q) with
  | none => exact ignored_of_none rfl hg
  | some neg =>
    have hmet : s.negotiationMet p (.probeDirectResult q success) = some neg.nid := by
      rw [negotiationMet_eq rfl, hg]; rfl
    simp only
    by_cases htype : neg.type = .directProbe
    · rw [if_neg (by simp [htype])]
      have counts : Counts C s p q (.probeDirectResult q success) neg :=
        ⟨hC, rfl, hg, by simp [AgentMsg.countsFor, htype]⟩
      have hstore : (if p = (parsePairKey (pairKey p q)).1 then
            { neg with resultA := some success } else { neg with resultB := some success }) =
          neg.store (isSideA p (pairKey p q)) (.probeDirectResult q success) := by
        simp [NegotiationState.store, isSideA]
      simp only [hstore]
      generalize hneg' : neg.store (isSideA p (pairKey p q)) (.probeDirectResult q success) = neg'
      have hnid : neg'.nid = neg.nid := by simp [← hneg']
      have hA : neg'.peerA = neg.peerA := by simp [← hneg']
      have hB : neg'.peerB = neg.peerB := by simp [← hneg']
      have ht : neg'.timeoutId = neg.timeoutId := by simp [← hneg']
      rw [hmet]
      split
      · rename_i resultA resultB hresultA hresultB
        rw [sendVerdict_finish_eq _ (n := neg') (by simp),
          conclude_stored hnid hA hB (by rw [ht])]
        have hend : TableStep C D F s (conclude s (pairKey p q) neg
            (some (p, .probeDirectResult q success))
            (.verdict (if resultA && resultB then .switchDirect else .stay))) := by
          refine .concluded _ neg _ _ hg (fun p' msg' h => by cases h; exact ⟨q, rfl, counts⟩) ?_
          cases resultA <;> cases resultB <;> try trivial
          have hkey : neg.pairKey = pairKey p q := (hi.keyed _ _ hg).pairKey_eq
          -- both are true, so the result just stored is
          have hsuccess : success = true := by
            rw [← hneg'] at hresultA hresultB
            cases hside : isSideA p (pairKey p q)
            · simpa [NegotiationState.store, hside] using hresultB
            · simpa [NegotiationState.store, hside] using hresultA
          subst hsuccess
          exact ⟨htype, p, q, rfl, by rw [hkey, hneg', hresultA], by rw [hkey, hneg', hresultB]⟩
        refine (ReflTransGen.single hend).trans (updateHealth_steps (hend.inv hi) _ _ ?_ ?_)
        · intro h; split <;> rfl
        · intro h h0; split <;> exact h0
      · refine .single (.stored p q _ neg neg' counts htype hneg'.symm (Or.inl ?_))
        rw [← hneg']
        cases isSideA p (pairKey p q) <;> exact ⟨rfl, rfl⟩
    · rw [if_pos (by simpa using htype)]
      exact ignored_of_some rfl hg (by simp [AgentMsg.countsFor, htype])

/-! ## Timers -/

/-- The timer that fires is the one of the negotiation under its callback's key, which
its callback ends. -/
theorem fireTimer_steps (hi : TableInv s) (id : Nat) :
    ReflTransGen (TableStep C D F) s (s.fireTimer id) := by
  unfold fireTimer
  cases ht : s.timers.get? id with
  | none => exact .refl
  | some tm =>
    obtain ⟨neg, hg, hnid, htimer, hfits⟩ := hi.owned id tm ht
    have hclear : s.timers.delete id = cleared s.timers neg.timeoutId := by rw [htimer]; rfl
    have hend : ∀ ending : Ending, ending.Allowed D neg none →
        TableStep C D F s (conclude s tm.callback.key neg none ending) := fun ending hallowed =>
      .concluded _ neg none ending hg (fun _ _ h => by cases h) hallowed
    have hverdict := hend (.verdict .stay) trivial
    simp only [hclear, ← hnid]
    cases hcb : tm.callback with
    | relayProbeTimeout key =>
      rw [hcb] at hg
      have habort := hend (.abort .timeout) (Or.inl rfl)
      rw [hcb] at habort
      simp only [runCallback]
      rw [abortNegotiation_eq _ (n := neg) (by exact hg)]
      refine .single ?_
      simpa [TimerCallback.key, conclude, Ending.items, receiptItems, cleared_cleared] using habort
    | directReadyTimeout key a b ref =>
      rw [hcb] at hg hfits hverdict
      obtain ⟨-, rfl, rfl⟩ := hfits
      simp only [runCallback, sendIfConnected_eq]
      rw [finishNegotiation_eq _ (n := neg) (by exact hg)]
      refine (ReflTransGen.single hverdict).trans ?_
      have h := updateHealthRef_steps (C := C) (D := D) (F := F) (hverdict.inv hi) ref PairHealth.backOff
        (fun _ => rfl) (fun _ h => h)
      simpa [TimerCallback.key, conclude, Ending.items, receiptItems, cleared_cleared] using h
    | directResultTimeout key a b =>
      rw [hcb] at hg hfits hverdict
      obtain ⟨-, rfl, rfl, -, -⟩ := hfits
      simp only [runCallback, sendMsg_eq]
      rw [finishNegotiation_eq _ (n := neg) (by exact hg)]
      refine (ReflTransGen.single hverdict).trans ?_
      have h := updateHealth_steps (C := C) (D := D) (F := F) (hverdict.inv hi) key PairHealth.backOff
        (fun _ => rfl) (fun _ h => h)
      simpa [TimerCallback.key, conclude, Ending.items, receiptItems, cleared_cleared] using h

/-! ## Probe starts -/

theorem colonFree_of_connected (hi : TableInv s) {p : PeerId} (hp : s.isConnected p = true) :
    ColonFree p := by
  obtain ⟨ws, hws⟩ := (OMap.has_iff s.connections p).mp hp
  exact (hi.connIds p ws hws).2

/-- What holds of the two peers of a pair holds of the two parts of its key. -/
theorem parts_of_both {P : PeerId → Prop} {p q : PeerId} (hp : ColonFree p) (hq : ColonFree q)
    (h : P p ∧ P q) : P (parsePairKey (pairKey p q)).1 ∧ P (parsePairKey (pairKey p q)).2 := by
  rcases parsePairKey_pairKey hp hq with e | e <;> rw [e]
  · exact h
  · exact h.symm

/-- A negotiation made from the key of two connected peers is stored under its key. -/
theorem negKeyed_of_pair {p q : PeerId} (hp : ColonFree p) (hq : ColonFree q) (hne : p ≠ q)
    {neg : NegotiationState} (hkey : neg.pairKey = pairKey p q)
    (hparse : parsePairKey (pairKey p q) = (neg.peerA, neg.peerB))
    (hroles : neg.type = .relayProbe →
      (neg.serverNode = some neg.peerA ∧ neg.clientNode = some neg.peerB) ∨
        (neg.serverNode = some neg.peerB ∧ neg.clientNode = some neg.peerA)) :
    NegKeyed (pairKey p q) neg := by
  have hpair := pairKey_parsePairKey hp hq
  have hfree := colonFree_parsePairKey hp hq
  have hparts := parsePairKey_pairKey hp hq
  rw [hparse] at hpair hfree hparts
  refine ⟨hkey, hparse, hpair, hfree.1, hfree.2, ?_, hroles⟩
  rcases hparts with e | e <;> rw [Prod.mk.injEq] at e <;> rw [e.1, e.2]
  · exact hne
  · exact hne.symm

theorem initiateRelayProbe_step (hi : TableInv s) {p q : PeerId}
    (hfree : s.activeNegotiations.get? (pairKey p q) = none) (hp : s.isConnected p = true)
    (hq : s.isConnected q = true) (hne : p ≠ q) (health : PairHealth) (now : Int) :
    TableStep C D F s (s.initiateRelayProbe (pairKey p q) health now) := by
  have hcp := colonFree_of_connected hi hp
  have hcq := colonFree_of_connected hi hq
  have hconn := parts_of_both (P := fun x => s.isConnected x = true) hcp hcq ⟨hp, hq⟩
  unfold initiateRelayProbe
  cases hparse : parsePairKey (pairKey p q) with
  | mk peerA peerB =>
    rw [hparse] at hconn
    simp only
    generalize hserver : (if health.streakAB ≥ health.streakBA then peerA else peerB) = serverNode
    generalize hclient : (if serverNode = peerA then peerB else peerA) = clientNode
    let neg : NegotiationState :=
      { nid := s.nextRef, type := .relayProbe, pairKey := pairKey p q, peerA, peerB,
        startedAt := now, serverNode := some serverNode, clientNode := some clientNode }
    have hroles : (serverNode = peerA ∧ clientNode = peerB) ∨
        (serverNode = peerB ∧ clientNode = peerA) := by
      by_cases h : serverNode = peerA
      · exact Or.inl ⟨h, by rw [← hclient, if_pos h]⟩
      · refine Or.inr ⟨?_, by rw [← hclient, if_neg h]⟩
        rw [← hserver] at h ⊢
        split at h
        · exact absurd rfl h
        · rename_i hlt; rw [if_neg hlt]
    have may : MayStart s (pairKey p q) neg (.relayProbeTimeout (pairKey p q))
        (sentItems s.connections (some s.nextRef) serverNode (.probeRelayServe clientNode)) :=
      { free := hfree, nid := rfl
        keyed := negKeyed_of_pair hcp hcq hne rfl hparse fun _ => by
          rcases hroles with ⟨h1, h2⟩ | ⟨h1, h2⟩
          · exact Or.inl ⟨congrArg some h1, congrArg some h2⟩
          · exact Or.inr ⟨congrArg some h1, congrArg some h2⟩
        connected := hconn, timer := ⟨rfl, rfl, trivial⟩, fresh := ⟨rfl, rfl, rfl, rfl⟩
        items := Or.inl ⟨serverNode, clientNode, rfl, rfl, rfl, rfl⟩ }
    have hstart := TableStep.started (C := C) (D := D) (F := F) _ neg _ RELAY_PROBE_TIMEOUT_MS now
      health.directProbeBackoff _ may
    simpa [armTimeout, sendMsg_eq, begin, neg] using hstart

theorem initiateDirectProbe_steps (hi : TableInv s) {p q : PeerId}
    (hfree : s.activeNegotiations.get? (pairKey p q) = none) (hp : s.isConnected p = true)
    (hq : s.isConnected q = true) (hne : p ≠ q) {health : PairHealth}
    (hhealth : s.pairHealthMap.get? (pairKey p q) = some health) (now : Int) :
    ReflTransGen (TableStep C D F) s (s.initiateDirectProbe (pairKey p q) health now) := by
  have hcp := colonFree_of_connected hi hp
  have hcq := colonFree_of_connected hi hq
  have hconn := parts_of_both (P := fun x => s.isConnected x = true) hcp hcq ⟨hp, hq⟩
  have hself := hi.selfStreaks.selfOk hhealth
  have hput : TableStep C D F s
      (s.putHealth (pairKey p q) { health with lastDirectProbeAt := now }) :=
    putHealth_step hhealth rfl fun x hx e => hself x hx e
  unfold initiateDirectProbe
  cases hparse : parsePairKey (pairKey p q) with
  | mk peerA peerB =>
    rw [hparse] at hconn
    let s1 := s.putHealth (pairKey p q) { health with lastDirectProbeAt := now }
    let neg : NegotiationState :=
      { nid := s1.nextRef, type := .directProbe, pairKey := pairKey p q, peerA, peerB,
        startedAt := now }
    have may : MayStart s1 (pairKey p q) neg
        (.directReadyTimeout (pairKey p q) peerA peerB ⟨pairKey p q, health.hid⟩)
        (sentItems s1.connections (some s1.nextRef) peerB (.probeDirectStart peerA) ++
          sentItems s1.connections (some s1.nextRef) peerA (.probeDirectStart peerB)) :=
      { free := hfree, nid := rfl
        keyed := negKeyed_of_pair hcp hcq hne rfl hparse fun h => by cases h
        connected := hconn
        timer := ⟨rfl, ⟨rfl, rfl, rfl⟩, rfl, by simp [s1, putHealth]⟩
        fresh := ⟨rfl, rfl, rfl, rfl⟩
        items := Or.inr ⟨rfl, rfl⟩ }
    have hstart := TableStep.started (C := C) (D := D) (F := F) _ neg _ DIRECT_READY_TIMEOUT_MS now
      health.directProbeBackoff _ may
    refine (ReflTransGen.single hput).tail ?_
    simpa [armTimeout, sendMsg_eq, begin, neg, s1] using hstart

/-! ## Health reports -/

theorem recordJoin_hid (h : PairHealth) (isFromA : Bool) (now : Int) :
    (recordJoin h isFromA now).hid = h.hid ∧
      (recordJoin h isFromA now).streakBA = h.streakBA := by
  unfold recordJoin
  split
  · exact ⟨rfl, rfl⟩
  · split <;> exact ⟨rfl, rfl⟩

theorem updateStreak_hid (h : PairHealth) (isFromA rxAlive : Bool) :
    (updateStreak h isFromA rxAlive).hid = h.hid := by
  cases isFromA <;> cases rxAlive <;> rfl

/-- A report about oneself counts for the side A. -/
theorem isFromA_of_self {p q x : PeerId} (hx : ColonFree x) (h : pairKey p q = pairKey x x) :
    p = (parsePairKey (pairKey p q)).1 := by
  have hfree := colonFree_of_pairKey_eq hx hx h
  rcases pairKey_inj hfree.1 hfree.2 hx hx h with ⟨rfl, -⟩ | ⟨rfl, -⟩ <;>
    rw [h, parsePairKey_self hx]

theorem updateStreak_selfOk {p q : PeerId} {h : PairHealth} (hself : SelfOk (pairKey p q) h)
    (rxAlive : Bool) :
    SelfOk (pairKey p q)
      (updateStreak h (decide (p = (parsePairKey (pairKey p q)).1)) rxAlive) := by
  intro x hx e
  rw [decide_eq_true (isFromA_of_self hx e)]
  cases rxAlive <;> exact hself x hx e

theorem checkStreaks_steps (cfg : Config) (hi : TableInv s) {p q : PeerId} {health : PairHealth}
    (hg : s.pairHealthMap.get? (pairKey p q) = some health) (now : Int) :
    ReflTransGen (TableStep C D F) s (s.checkStreaks cfg p q (pairKey p q) health now) := by
  have hself := hi.selfStreaks.selfOk hg
  unfold checkStreaks
  split
  · rename_i hstreaks
    unfold shouldInitiateRelayProbe
    cases hhas : s.activeNegotiations.has (pairKey p q) with
    | true => exact .refl
    | false =>
      have hfree := (OMap.has_eq_false_iff _ _).mp hhas
      simp only [Bool.false_eq_true, if_false]
      split
      · split
        · exact .single (putHealth_step hg rfl hself)
        · exact .refl
      · split
        · exact .refl
        · rename_i hconn
          split
          · exact .refl
          · simp only [Bool.or_eq_true, Bool.not_eq_true', not_or, Bool.not_eq_false] at hconn
            have hne : p ≠ q := by
              rintro rfl
              have h0 := hself p (colonFree_of_connected hi hconn.1) rfl
              simp only [h0, STREAK_THRESHOLD] at hstreaks
              omega
            exact .single (initiateRelayProbe_step hi hfree hconn.1 hconn.2 hne health now)
  · exact .refl

theorem handleReportEntry_steps (cfg : Config) (hi : TableInv s) (p : PeerId) (now : Int)
    (report : HealthReport) :
    ReflTransGen (TableStep C D F) s (handleReportEntry cfg p now s report) := by
  unfold handleReportEntry
  simp only []
  generalize hkey : pairKey p report.peerId = key
  obtain ⟨hget, hcreate⟩ := getOrCreateHealth_spec (C := C) (D := D) (F := F) cfg s key
  generalize getOrCreateHealth cfg s key = created at hget hcreate ⊢
  obtain ⟨health, s1⟩ := created
  simp only at hget hcreate ⊢
  have hnote := ReflTransGen.tail (.single hcreate) (note_step (C := C) (D := D) (F := F)
    (i := .entry p report.peerId now report.mode report.rxAlive) rfl rfl)
  have hi1 := steps_inv hnote hi
  generalize hs2 : s1.note (.entry p report.peerId now report.mode report.rxAlive) = s2 at hnote hi1 ⊢
  have hget2 : s2.pairHealthMap.get? key = some health := by rw [← hs2]; exact hget
  generalize hfrom : decide (p = (parsePairKey key).1) = isFromA
  obtain ⟨hhid, hBA⟩ := recordJoin_hid health isFromA now
  generalize recordJoin health isFromA now = joined at hhid hBA ⊢
  have hself : SelfOk key joined := fun x hx e => by
    rw [hBA]; exact hi1.selfStreaks.selfOk hget2 x hx e
  have hjoin := hnote.tail (putHealth_step (C := C) (D := D) (F := F) hget2 hhid hself)
  have hget3 : (s2.putHealth key joined).pairHealthMap.get? key = some joined := by simp [putHealth]
  split
  · exact hjoin
  · split
    · exact hjoin
    · have hself4 : SelfOk key (updateStreak joined isFromA report.rxAlive) := by
        subst hkey hfrom
        exact updateStreak_selfOk hself _
      have hstreak := hjoin.tail (putHealth_step (C := C) (D := D) (F := F) hget3
        (updateStreak_hid joined isFromA report.rxAlive) hself4)
      refine hstreak.trans ?_
      have hi4 := steps_inv hstreak hi
      generalize hs4 : (s2.putHealth key joined).putHealth key
        (updateStreak joined isFromA report.rxAlive) = s4 at hi4 ⊢
      have hget4 : s4.pairHealthMap.get? key =
          some (updateStreak joined isFromA report.rxAlive) := by rw [← hs4]; simp [putHealth]
      subst hkey
      exact checkStreaks_steps cfg hi4 hget4 now

/-- A loop whose body makes table steps makes table steps. -/
theorem foldl_steps {α : Type} (f : ServerState → α → ServerState) (l : List α)
    (hf : ∀ t, ∀ a ∈ l, TableInv t → ReflTransGen (TableStep C D F) t (f t a)) (hi : TableInv s) :
    ReflTransGen (TableStep C D F) s (l.foldl f s) :=
  foldl_invariant (I := fun t => ReflTransGen (TableStep C D F) s t) f l
    (fun t a ha h => h.trans (hf t a ha (steps_inv h hi))) .refl

theorem handleHealthReport_steps (cfg : Config) (hi : TableInv s) (p : PeerId)
    (reports : List HealthReport) (now : Int) :
    ReflTransGen (TableStep C D F) s (s.handleHealthReport cfg p reports now) := by
  unfold handleHealthReport
  have hdb := db_step (C := C) (D := D) (F := F) (s := s) (upsertReports s.db p reports now)
  exact (ReflTransGen.single hdb).trans (foldl_steps _ _
    (fun t r _ ht => handleReportEntry_steps cfg ht p now r) (hdb.inv hi))

/-! ## The sweep and force mode -/

theorem checkDirectProbe_steps (hi : TableInv s) (now : Int) {row : PeerId × PeerId}
    (hne : row.1 ≠ row.2) : ReflTransGen (TableStep C D F) s (checkDirectProbe now s row) := by
  unfold checkDirectProbe
  simp only []
  cases hg : s.pairHealthMap.get? (pairKey row.1 row.2) with
  | none => exact .refl
  | some health =>
    simp only
    split
    · exact .refl
    · rename_i hhas
      split
      · exact .refl
      · rename_i hconn
        split
        · exact .refl
        · split
          · exact .refl
          · simp only [Bool.or_eq_true, Bool.not_eq_true', not_or, Bool.not_eq_false] at hconn
            have hfree := (OMap.has_eq_false_iff _ _).mp (by simpa using hhas)
            exact initiateDirectProbe_steps hi hfree hconn.1 hconn.2 hne hg now

theorem ne_of_mem_relayPairs (cfg : Config) {db : Db} {row : PeerId × PeerId}
    (h : row ∈ cfg.plan.rowOrder db.relayPairs) : row.1 ≠ row.2 := by
  have hmem := (cfg.plan.rowOrder_perm db.relayPairs).mem_iff.mp h
  exact ne_of_jsLt ((db.mem_relayPairs).mp (show (row.1, row.2) ∈ db.relayPairs from hmem)).1

theorem abortIfStale_steps (now : Int) (e : PairKey × NegotiationState) :
    ReflTransGen (TableStep C D F) s (abortIfStale now s e) := by
  unfold abortIfStale
  split
  · cases hg : s.activeNegotiations.get? e.1 with
    | none =>
      unfold abortNegotiation
      rw [hg]
    | some neg =>
      rw [abortNegotiation_eq s hg]
      exact .single (.concluded _ neg none _ hg (fun _ _ h => by cases h) (Or.inl rfl))
  · exact .refl

theorem staleSweep_steps (cfg : Config) (hi : TableInv s) (now : Int) :
    ReflTransGen (TableStep C D F) s (s.staleSweep cfg now) := by
  unfold staleSweep
  have habort := foldl_steps (C := C) (D := D) (F := F) (abortIfStale now) s.activeNegotiations.entries
    (fun t e _ _ => abortIfStale_steps now e) hi
  refine habort.trans ?_
  exact foldl_steps _ _ (fun t row hrow ht =>
    checkDirectProbe_steps ht now (ne_of_mem_relayPairs cfg hrow)) (steps_inv habort hi)

/-- A force command up to its two messages. -/
theorem handleForceMode_spec (cfg : Config) (peerA peerB : PeerId) (mode : ForceCommand) :
    ∃ t, ReflTransGen (TableStep C D F) s t ∧ t.connections = s.connections ∧
      t.activeNegotiations.get? (pairKey peerA peerB) = none ∧
      s.handleForceMode cfg peerA peerB mode =
        (t.sendMsg none peerA (.forceMode peerB mode)).sendMsg none peerB (.forceMode peerA mode) := by
  unfold handleForceMode
  simp only []
  generalize pairKey peerA peerB = key
  have habort : ReflTransGen (TableStep C D F) s (s.abortForForce key) ∧
      (s.abortForForce key).connections = s.connections ∧
      (s.abortForForce key).activeNegotiations.get? key = none := by
    cases hg : s.activeNegotiations.get? key with
    | none =>
      unfold abortForForce
      rw [hg]
      exact ⟨.refl, rfl, hg⟩
    | some neg =>
      rw [abortForForce_eq s hg]
      exact ⟨.single (.concluded _ neg none _ hg (fun _ _ h => by cases h) (Or.inr rfl)), rfl,
        OMap.get?_delete_self ..⟩
  obtain ⟨habort, hconn, hfree⟩ := habort
  obtain ⟨hget, hcreate⟩ :=
    getOrCreateHealth_spec (C := C) (D := D) (F := F) cfg (s.abortForForce key) key
  have hframe : (getOrCreateHealth cfg (s.abortForForce key) key).2.connections = s.connections ∧
      (getOrCreateHealth cfg (s.abortForForce key) key).2.activeNegotiations.get? key = none := by
    unfold getOrCreateHealth
    split <;> exact ⟨hconn, hfree⟩
  generalize getOrCreateHealth cfg (s.abortForForce key) key = created at hget hcreate hframe ⊢
  obtain ⟨health, s1⟩ := created
  simp only at hget hcreate hframe ⊢
  have hdb := (habort.tail hcreate).tail
    (db_step (C := C) (D := D) (F := F) (s1.db.setForcedMode peerA peerB mode.column))
  have hself : SelfOk key (forceHealth cfg health mode) := fun _ _ _ => by cases mode <;> rfl
  have hput := hdb.tail (putHealth_step (C := C) (D := D) (F := F)
    (h := forceHealth cfg health mode) hget (by cases mode <;> rfl) hself)
  exact ⟨_, hput.tail (note_step rfl rfl), hframe.1, hframe.2, rfl⟩

theorem handleForceMode_steps (cfg : Config) (peerA peerB : PeerId) (mode : ForceCommand)
    (hF : ∀ ws, F (.sent peerA ws (.forceMode peerB mode) none) ∧
      F (.sent peerB ws (.forceMode peerA mode) none)) :
    ReflTransGen (TableStep C D F) s (s.handleForceMode cfg peerA peerB mode) := by
  obtain ⟨t, hsteps, -, -, he⟩ := handleForceMode_spec (C := C) (D := D) (F := F) (s := s) cfg peerA
    peerB mode
  rw [he]
  exact (hsteps.tail (send_step (Or.inr fun ws => (hF ws).1))).tail
    (send_step (Or.inr fun ws => (hF ws).2))

/-! ## Disconnects and removals -/

/-- A negotiation of `p`. -/
def NegotiationState.Involves (neg : NegotiationState) (p : PeerId) : Prop :=
  neg.peerA = p ∨ neg.peerB = p

/-- The loop over entries of the table that ends the negotiations of `p` among them. -/
theorem abortPeerEntries_steps {p : PeerId} {reason : AbortReason}
    (l : List (PairKey × NegotiationState)) (hl : (l.map Prod.fst).Nodup)
    (hmem : ∀ e ∈ l, s.activeNegotiations.get? e.1 = some e.2)
    (hD : ∀ e ∈ l, e.2.Involves p → D e.2.nid p reason) :
    ReflTransGen (TableStep C D F) s (l.foldl (abortPeerEntry p reason) s) ∧
      (l.foldl (abortPeerEntry p reason) s).pairHealthMap = s.pairHealthMap ∧
      (l.foldl (abortPeerEntry p reason) s).connections = s.connections ∧
      (l.foldl (abortPeerEntry p reason) s).db = s.db ∧
      ∀ k n, (l.foldl (abortPeerEntry p reason) s).activeNegotiations.get? k = some n →
        s.activeNegotiations.get? k = some n ∧ ((k, n) ∈ l → ¬ n.Involves p) := by
  induction l generalizing s with
  | nil => exact ⟨.refl, rfl, rfl, rfl, fun k n h => ⟨h, by simp⟩⟩
  | cons e rest ih =>
    obtain ⟨key, neg⟩ := e
    simp only [List.map_cons, List.nodup_cons] at hl
    have hhead : s.activeNegotiations.get? key = some neg := hmem (key, neg) (by simp)
    rw [List.foldl_cons]
    by_cases hp : neg.Involves p
    · rw [abortPeerEntry_eq s hhead hp]
      have hend : TableStep C D F s (conclude s key neg none (.abortOther p reason)) :=
        .concluded _ neg none _ hhead (fun _ _ h => by cases h)
          ⟨rfl, hp, hD (key, neg) (by simp) hp⟩
      -- the rest of the entries are still in the table
      have hrest : ∀ e ∈ rest, (conclude s key neg none
          (.abortOther p reason)).activeNegotiations.get? e.1 = some e.2 := by
        intro e he
        have hne : key ≠ e.1 := fun h => hl.1 (h ▸ List.mem_map_of_mem he)
        show (s.activeNegotiations.delete key).get? e.1 = some e.2
        rw [OMap.get?_delete_ne _ hne]
        exact hmem e (List.mem_cons_of_mem _ he)
      obtain ⟨h1, h2, h3, h4, h5⟩ := ih hl.2 hrest
        (fun e he => hD e (List.mem_cons_of_mem _ he))
      refine ⟨(ReflTransGen.single hend).trans h1, h2, h3, h4, fun k n hn => ?_⟩
      obtain ⟨hk, hnot⟩ := h5 k n hn
      obtain ⟨hne, hold⟩ := OMap.get?_of_get?_delete hk
      refine ⟨hold, fun hin => ?_⟩
      rcases List.mem_cons.mp hin with heq | hin
      · cases heq; exact absurd rfl hne
      · exact hnot hin
    · rw [abortPeerEntry_of_not s reason hp]
      obtain ⟨h1, h2, h3, h4, h5⟩ := ih hl.2 (fun e he => hmem e (List.mem_cons_of_mem _ he))
        (fun e he => hD e (List.mem_cons_of_mem _ he))
      refine ⟨h1, h2, h3, h4, fun k n hn => ?_⟩
      obtain ⟨hold, hnot⟩ := h5 k n hn
      refine ⟨hold, fun hin => ?_⟩
      rcases List.mem_cons.mp hin with heq | hin
      · cases heq; exact hp
      · exact hnot hin

theorem abortPeerNegotiations_steps {p : PeerId} {reason : AbortReason}
    (hD : ∀ k n, s.activeNegotiations.get? k = some n → n.Involves p → D n.nid p reason) :
    ReflTransGen (TableStep C D F) s (s.abortPeerNegotiations p reason) ∧
      (s.abortPeerNegotiations p reason).pairHealthMap = s.pairHealthMap ∧
      (s.abortPeerNegotiations p reason).connections = s.connections ∧
      (s.abortPeerNegotiations p reason).db = s.db ∧
      ∀ k n, (s.abortPeerNegotiations p reason).activeNegotiations.get? k = some n →
        s.activeNegotiations.get? k = some n ∧ ¬ n.Involves p := by
  have hentries := fun (e : PairKey × NegotiationState) (he : e ∈ s.activeNegotiations.entries) =>
    (s.activeNegotiations.mem_entries e.1 e.2).mp he
  obtain ⟨h1, h2, h3, h4, h5⟩ := abortPeerEntries_steps (C := C) (D := D) (F := F) (p := p)
    s.activeNegotiations.entries s.activeNegotiations.nodup hentries
    (fun e he => hD e.1 e.2 (hentries e he))
  refine ⟨h1, h2, h3, h4, fun k n hn => ?_⟩
  obtain ⟨hold, hnot⟩ := h5 k n hn
  exact ⟨hold, hnot ((s.activeNegotiations.mem_entries k n).mpr hold)⟩

/-- Ending a negotiation of `p` reaches only the other peer, so `p` may be off the table of
connections already. -/
theorem abortPeerEntry_disconnected {p : PeerId} (reason : AbortReason)
    {e : PairKey × NegotiationState} (hne : e.2.peerA ≠ e.2.peerB) :
    abortPeerEntry p reason { s with connections := s.connections.delete p } e =
      { abortPeerEntry p reason s e with connections := s.connections.delete p } := by
  obtain ⟨key, neg⟩ := e
  by_cases hp : neg.peerA = p ∨ neg.peerB = p
  · have hother : (if neg.peerA = p then neg.peerB else neg.peerA) ≠ p := by
      rcases hp with rfl | rfl
      · simp [hne.symm]
      · simp [hne]
    unfold abortPeerEntry
    simp only [if_pos hp, sendIfConnected_eq]
    generalize (if neg.peerA = p then neg.peerB else neg.peerA) = other at hother ⊢
    have hsent : ∀ msg, sentItems (s.connections.delete p) (some neg.nid) other msg =
        sentItems s.connections (some neg.nid) other msg := by
      intro msg
      simp [sentItems, sendTextToPeer, OMap.get?_delete_ne _ hother.symm]
    simp only [hsent, finishNegotiation]
    cases s.activeNegotiations.get? key with
    | none => rfl
    | some n => simp only [clearTimeout_eq]
  · rw [abortPeerEntry_of_not _ reason hp, abortPeerEntry_of_not _ reason hp]

theorem abortPeerEntry_connections (p : PeerId) (reason : AbortReason)
    (e : PairKey × NegotiationState) :
    (abortPeerEntry p reason s e).connections = s.connections := by
  obtain ⟨key, neg⟩ := e
  unfold abortPeerEntry
  simp only [sendIfConnected_eq]
  split
  · unfold finishNegotiation
    simp only [clearTimeout_eq]
    split <;> rfl
  · rfl

theorem abortPeerEntries_disconnected {p : PeerId} (reason : AbortReason)
    (l : List (PairKey × NegotiationState)) (hne : ∀ e ∈ l, e.2.peerA ≠ e.2.peerB) :
    l.foldl (abortPeerEntry p reason) { s with connections := s.connections.delete p } =
      { l.foldl (abortPeerEntry p reason) s with connections := s.connections.delete p } := by
  induction l generalizing s with
  | nil => rfl
  | cons e rest ih =>
    rw [List.foldl_cons, List.foldl_cons, abortPeerEntry_disconnected reason (hne e (by simp))]
    have h := ih (s := abortPeerEntry p reason s e) fun e' he => hne e' (List.mem_cons_of_mem _ he)
    rw [abortPeerEntry_connections] at h
    exact h

theorem handleClose_steps (hi : TableInv s) (ws : Ws)
    (hD : ∀ k n, s.activeNegotiations.get? k = some n → n.Involves ws.peerId →
      D n.nid ws.peerId .wsReset) :
    ReflTransGen (TableStep C D F) s (s.handleClose ws) := by
  obtain ⟨h1, h2, h3, -, h5⟩ := abortPeerNegotiations_steps (C := C) (D := D) (F := F) hD
  have hne : ∀ e ∈ s.activeNegotiations.entries, e.2.peerA ≠ e.2.peerB := fun e he =>
    (hi.keyed e.1 e.2 ((s.activeNegotiations.mem_entries _ _).mp he)).ne
  have hcomm : s.handleClose ws = { s.abortPeerNegotiations ws.peerId .wsReset with
      connections := s.connections.delete ws.peerId } :=
    abortPeerEntries_disconnected .wsReset s.activeNegotiations.entries hne
  rw [hcomm]
  refine h1.tail (.quiet [] (by simp) rfl rfl (Nat.le_refl _) rfl ?_ ?_ (.rfl' rfl))
  · rw [h3]
    intro hc p w hw
    exact hc p w (OMap.get?_of_get?_delete hw).2
  · intro k n hn p hp hconn
    have hnot := (h5 k n hn).2
    have hpne : ws.peerId ≠ p := by
      rintro rfl
      exact hnot (hp.imp Eq.symm Eq.symm)
    simp only [isConnected, isPeerConnected, OMap.has, h3] at hconn ⊢
    rw [OMap.get?_delete_ne _ hpne]
    exact hconn

/-- Dropping the health records of `p` once it has no negotiation. -/
theorem cleanupPeerHealth_step (hi : TableInv s) {p : PeerId}
    (hnone : ∀ k n, s.activeNegotiations.get? k = some n → ¬ n.Involves p) :
    TableStep C D F s (s.cleanupPeerHealth p) := by
  refine quiet_step [] (by simp) rfl rfl (Nat.le_refl _) rfl rfl ⟨?_, ?_⟩
  · intro hs q h hq hg
    rw [cleanupPeerHealth, OMap.get?_filter] at hg
    exact hs q h hq (Option.filter_eq_some_iff.mp hg).1
  · intro k n i hn hg
    have hkeyed := hi.keyed k n hn
    have hnot := hnone k n hn
    simp only [NegotiationState.Involves, not_or] at hnot
    rw [cleanupPeerHealth, OMap.get?_filter]
    cases hk : s.pairHealthMap.get? k with
    | none => rw [hk] at hg; cases hg
    | some h =>
      rw [hk] at hg
      rw [Option.filter_some, if_pos (by simp [hkeyed.parse, hnot])]
      exact hg

/-- The loop of the reaper before the delete. -/
theorem forgetPeers_steps (l : List (PeerId × NetworkId)) (hi : TableInv s)
    (hD : ∀ e ∈ l, ∀ k n, s.activeNegotiations.get? k = some n → n.Involves e.1 →
      D n.nid e.1 .peerRemoved) :
    ReflTransGen (TableStep C D F) s (l.foldl forgetPeer s) := by
  induction l generalizing s with
  | nil => exact .refl
  | cons e rest ih =>
    obtain ⟨h1, -, -, -, h5⟩ := abortPeerNegotiations_steps (C := C) (D := D) (F := F) (p := e.1)
      (hD e (by simp))
    have hforget : ReflTransGen (TableStep C D F) s (forgetPeer s e) :=
      h1.tail (cleanupPeerHealth_step (steps_inv h1 hi) fun k n hn => (h5 k n hn).2)
    refine hforget.trans (ih (steps_inv hforget hi) fun e' he' k n hn hp => ?_)
    exact hD e' (List.mem_cons_of_mem _ he') k n (h5 k n hn).1 hp

theorem notifyRemoved_steps (hi : TableInv s) (e : NetworkId × List PeerId) :
    ReflTransGen (TableStep C D F) s (notifyRemoved s e) := by
  unfold notifyRemoved
  exact foldl_steps _ _ (fun t deletedId _ ht =>
    foldl_steps _ _ (fun u peer _ _ => .single (send_step (Or.inl rfl))) ht) hi

theorem reap_steps (hi : TableInv s) (now : Int) (deleteFails : Bool)
    (hD : ∀ e ∈ expiredPeers s.db now, ∀ k n, s.activeNegotiations.get? k = some n →
      n.Involves e.1 → D n.nid e.1 .peerRemoved) :
    ReflTransGen (TableStep C D F) s (s.reap now deleteFails) := by
  have hforget := forgetPeers_steps (C := C) (D := D) (F := F) _ hi hD
  unfold reap
  simp only []
  split
  · exact hforget
  · have hdelete := hforget.tail (db_step (C := C) (D := D) (F := F)
      ((expiredPeers s.db now).foldl (fun db e => db.deletePeer e.1)
        ((expiredPeers s.db now).foldl forgetPeer s).db))
    exact hdelete.trans (foldl_steps _ _ (fun t e _ ht => notifyRemoved_steps ht e)
      (steps_inv hdelete hi))

end

/-! ## Every event -/

/-- The negotiation `n` is active. -/
def Active (s : ServerState) (n : Nat) : Prop :=
  ∃ k neg, s.activeNegotiations.get? k = some neg ∧ neg.nid = n

/-- The event is a disconnect or the removal of `p`. -/
def Event.Drops (s : ServerState) : Event → PeerId → AbortReason → Prop
  | .close ws, p, r => p = ws.peerId ∧ r = .wsReset
  | .reap now _, p, r => r = .peerRemoved ∧ ∃ network, (p, network) ∈ expiredPeers s.db now
  | _, _, _ => False

/-- The force commands of the event. -/
def Event.Forces (e : Event) (it : TraceItem) : Prop :=
  ∃ peerA peerB mode ws, e = .forceMode peerA peerB mode ∧
    (it = .sent peerA ws (.forceMode peerB mode) none ∨
      it = .sent peerB ws (.forceMode peerA mode) none)

/-- What is known of the message of an event, if it is one. -/
def Event.Known (C : ServerState → PeerId → AgentMsg → Prop) (s : ServerState) : Event → Prop
  | .message ws _ msg => C s ws.peerId msg
  | _ => True

instance (C : ServerState → PeerId → AgentMsg → Prop) [∀ s p msg, Decidable (C s p msg)]
    (s : ServerState) : (e : Event) → Decidable (e.Known C s)
  | .message ws _ msg => inferInstanceAs (Decidable (C s ws.peerId msg))
  | .open _ => isTrue trivial
  | .close _ => isTrue trivial
  | .timer _ => isTrue trivial
  | .sweep _ => isTrue trivial
  | .reap _ _ => isTrue trivial
  | .forceMode _ _ _ => isTrue trivial
  | .api _ => isTrue trivial
  | .restart => isTrue trivial

theorem message_steps (cfg : Config) {C : ServerState → PeerId → AgentMsg → Prop}
    {D : Nat → PeerId → AbortReason → Prop} {F : TraceItem → Prop} {s : ServerState}
    (hi : TableInv s) (ws : Ws) (now : Int) (msg : AgentMsg) (hC : C s ws.peerId msg) :
    ReflTransGen (TableStep C D F) s (s.handleMessage cfg ws now msg) := by
  cases msg with
  | healthReport reports => exact handleHealthReport_steps cfg hi ws.peerId reports now
  | probeRelayReady q meshIpv4 tcpPort nonce => exact probeRelayReady_steps hi hC
  | probeRelayResult q success => exact probeRelayResult_steps hi hC
  | probeDirectReady q udpPort nonce => exact probeDirectReady_steps hC
  | probeDirectResult q success => exact probeDirectResult_steps cfg hi hC
  | probeError q error => exact probeError_steps hi hC

/-- **Every event but a restart is a sequence of table steps.** -/
theorem steps_of_step (cfg : Config) {C : ServerState → PeerId → AgentMsg → Prop}
    {s : ServerState} (hi : TableInv s) (e : Event) (hids : e.idsOk) (hC : e.Known C s)
    (hrestart : e ≠ .restart) :
    ReflTransGen (TableStep C (fun n p r => Active s n ∧ e.Drops s p r) e.Forces) s (step cfg s e) := by
  cases e with
  | «open» ws =>
    refine .single (.quiet [] (by simp) rfl rfl (Nat.le_refl _) rfl ?_ ?_ (.rfl' rfl))
    · intro hc p w hw
      rcases OMap.get?_set_cases hw with ⟨rfl, rfl⟩ | ⟨-, hw⟩
      · exact ⟨rfl, hids⟩
      · exact hc p w hw
    · intro k n hn p _ hp
      simp only [isConnected, isPeerConnected, OMap.has_iff] at hp ⊢
      obtain ⟨w, hw⟩ := hp
      rw [step, handleOpen, wsOpen, OMap.get?_set]
      split
      · exact ⟨ws, rfl⟩
      · exact ⟨w, hw⟩
  | close ws => exact handleClose_steps hi ws fun k n hn _ => ⟨⟨k, n, hn, rfl⟩, rfl, rfl⟩
  | message ws now msg => exact message_steps cfg hi ws now msg hC
  | timer id => exact fireTimer_steps hi id
  | sweep now => exact staleSweep_steps cfg hi now
  | reap now deleteFails =>
    exact reap_steps hi now deleteFails fun e he k n hn _ => ⟨⟨k, n, hn, rfl⟩, rfl, e.2, he⟩
  | forceMode peerA peerB mode =>
    simp only [step, postForceMode]
    split
    · split
      · exact handleForceMode_steps cfg peerA peerB mode fun ws =>
          ⟨⟨_, _, _, ws, rfl, Or.inl rfl⟩, _, _, _, ws, rfl, Or.inr rfl⟩
      · exact .refl
    · exact .refl
  | api write => exact .single (db_step _)
  | restart => exact absurd rfl hrestart

/-- A restart keeps the invariant: the tables are empty. -/
theorem tableInv_restart {cfg : Config} {s : ServerState} (hi : TableInv s) :
    TableInv (step cfg s .restart) := by
  refine ⟨?_, ?_, ?_, ?_, ?_, ?_, ?_, ?_, ?_, ?_, hi.tagLt⟩ <;>
    simp [step, ConnIds, SelfStreaks, OMap.get?_empty]

/-- **One step.** -/
theorem tableInv_step (cfg : Config) {s : ServerState} (hi : TableInv s) {e : Event}
    (hids : e.idsOk) : TableInv (step cfg s e) := by
  by_cases hr : e = .restart
  · subst hr; exact tableInv_restart hi
  · exact steps_inv (steps_of_step cfg (C := fun _ _ _ => True) hi e hids
      (by cases e <;> trivial) hr) hi

/-- **Every run.** -/
theorem tableInv_exec (cfg : Config) (db : Db) {es : List Event} (hids : IdsOk es) :
    TableInv (exec cfg db es) :=
  run_invariant_along (step cfg) (P := fun _ e => e.idsOk) (I := TableInv)
    (fun _ _ hi hid => tableInv_step cfg hi hid) (TableInv.init db) (along_idsOk hids)

end Meshezia
