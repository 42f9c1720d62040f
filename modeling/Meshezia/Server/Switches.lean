import Meshezia.Server.Force
import Meshezia.Server.Handlers

/-!
# The switches the server sends to a pair

A switch is a verdict to switch or a force command.  The two peers of a pair are told to
switch in one step, and to the same mode (`Tells`): a verdict ends a negotiation, whose
peers are both connected, and a force command reaches those that are connected.
While the pair is forced no negotiation of it is active, and no other switch is sent to it
(`command_step`, `other_step`).
-/

namespace Meshezia

open ServerState Relation

/-! ## Switches in a history -/

/-- The mode of a switch about `q` sent to `p`. -/
def switchTo (p q : PeerId) (it : TraceItem) : Option Mode :=
  match it.switch? with
  | some (p', q', mode) => if p' = p ∧ q' = q then some mode else none
  | none => none

def lastSwitch (p q : PeerId) (items : List TraceItem) : Option Mode := items.findSome? (switchTo p q)

section
variable {p q a b : PeerId} {items : List TraceItem}

theorem lastSwitch_append (items' : List TraceItem) :
    lastSwitch p q (items ++ items') = (lastSwitch p q items).or (lastSwitch p q items') :=
  List.findSome?_append

theorem lastSwitch_eq_none (h : ∀ it ∈ items, switchTo p q it = none) :
    lastSwitch p q items = none :=
  List.findSome?_eq_none_iff.mpr h

theorem switchTo_of_none {it : TraceItem} (h : it.switch? = none) : switchTo p q it = none := by
  unfold switchTo
  rw [h]

theorem switchTo_sent (ws : Ws) {msg : ServerMsg} {x : PeerId} {mode : Option Mode}
    (h : msg.switch? = mode.map fun m => (x, m)) (neg : Option Nat) (y : PeerId) :
    switchTo p q (.sent y ws msg neg) = if y = p ∧ x = q then mode else none := by
  simp only [switchTo, TraceItem.switch?, h]
  cases mode <;> simp

theorem lastSwitch_sentItems {c : Connections} {x y : PeerId} {msg : ServerMsg} {mode : Option Mode}
    (hmsg : msg.switch? = mode.map fun m => (x, m)) (neg : Option Nat) :
    lastSwitch p q (sentItems c neg y msg) =
      if (y = p ∧ x = q) ∧ isPeerConnected c p = true then mode else none := by
  unfold sentItems sendTextToPeer isPeerConnected
  cases hget : c.get? y with
  | none =>
    refine (if_neg fun h => ?_).symm
    rw [← h.1.1, OMap.has_eq_false_iff _ _ |>.mpr hget] at h
    cases h.2
  | some ws =>
    simp only [lastSwitch, List.findSome?_cons, List.findSome?_nil, switchTo_sent _ hmsg]
    by_cases h : y = p ∧ x = q
    · obtain ⟨rfl, rfl⟩ := h
      cases mode <;> simp [OMap.has_of_get? hget]
    · simp [h]

/-- The two messages to a pair: each peer that is connected is told of the other. -/
theorem lastSwitch_both {c : Connections} {x y : PeerId} (hxy : x ≠ y) {msg : PeerId → ServerMsg}
    {mode : Option Mode} (hmsg : ∀ z, (msg z).switch? = mode.map fun m => (z, m))
    (neg : Option Nat) :
    lastSwitch p q (sentItems c neg y (msg x) ++ sentItems c neg x (msg y)) =
      if ((p = x ∧ q = y) ∨ (p = y ∧ q = x)) ∧ isPeerConnected c p = true then mode else none := by
  rw [lastSwitch_append, lastSwitch_sentItems (hmsg _), lastSwitch_sentItems (hmsg _)]
  by_cases h1 : p = x ∧ q = y
  · obtain ⟨rfl, rfl⟩ := h1
    simp [hxy.symm]
  · by_cases h2 : p = y ∧ q = x
    · obtain ⟨rfl, rfl⟩ := h2
      simp [hxy]
    · have h1' : ¬ (x = p ∧ y = q) := fun e => h1 ⟨e.1.symm, e.2.symm⟩
      have h2' : ¬ (y = p ∧ x = q) := fun e => h2 ⟨e.1.symm, e.2.symm⟩
      simp [h1, h2, h1', h2']

end

/-! ## What a step tells the pair -/

/-- From `s` to `s'` the items `items` were added: the two peers of the pair are told the same,
and nothing when no negotiation of the pair is active and none starts. -/
structure Tells (a b : PeerId) (s s' : ServerState) (items : List TraceItem) : Prop where
  trace : s'.trace = items ++ s.trace
  same : lastSwitch a b items = lastSwitch b a items
  quiet : s.activeNegotiations.get? (pairKey a b) = none →
    items.countP (TraceItem.starts (pairKey a b)) = 0 →
    lastSwitch a b items = none ∧ s'.activeNegotiations.get? (pairKey a b) = none

section
variable {C : ServerState → PeerId → AgentMsg → Prop} {D : Nat → PeerId → AbortReason → Prop}
  {F : TraceItem → Prop} {s s' s'' : ServerState} {a b : PeerId} {items items' : List TraceItem}

theorem Tells.refl (a b : PeerId) (s : ServerState) : Tells a b s s [] :=
  ⟨rfl, rfl, fun h _ => ⟨rfl, h⟩⟩

theorem Tells.trans (h : Tells a b s s' items) (h' : Tells a b s' s'' items') :
    Tells a b s s'' (items' ++ items) := by
  refine ⟨by rw [h'.trace, h.trace, List.append_assoc], ?_, fun hfree hcount => ?_⟩
  · rw [lastSwitch_append, lastSwitch_append, h.same, h'.same]
  · rw [List.countP_append] at hcount
    obtain ⟨h1, hfree'⟩ := h.quiet hfree (by omega)
    obtain ⟨h2, hfree''⟩ := h'.quiet hfree' (by omega)
    exact ⟨by rw [lastSwitch_append, h1, h2]; rfl, hfree''⟩

/-- Items that are no switches for the pair, in a step that makes no negotiation of it active. -/
theorem Tells.of_silent (trace : s'.trace = items ++ s.trace)
    (h : ∀ it ∈ items, switchTo a b it = none ∧ switchTo b a it = none)
    (hfree : s.activeNegotiations.get? (pairKey a b) = none →
      s'.activeNegotiations.get? (pairKey a b) = none) : Tells a b s s' items := by
  have hab := lastSwitch_eq_none fun it hit => (h it hit).1
  refine ⟨trace, ?_, fun hf _ => ⟨hab, hfree hf⟩⟩
  rw [hab, lastSwitch_eq_none fun it hit => (h it hit).2]

/-- A negotiation ends: a verdict tells both peers the same, and frees the key of its pair. -/
theorem tells_concluded (hi : TableInv s) {key : PairKey} {neg : NegotiationState}
    (active : s.activeNegotiations.get? key = some neg) (receipt : Option (PeerId × AgentMsg))
    (ending : Ending) : ∃ items, Tells a b s (conclude s key neg receipt ending) items := by
  obtain ⟨hA, hB⟩ := hi.connected key neg active
  have hkeyed := hi.keyed key neg active
  have hfree : s.activeNegotiations.get? (pairKey a b) = none → key ≠ pairKey a b ∧
      (s.activeNegotiations.delete key).get? (pairKey a b) = none := by
    intro hf
    have hne : key ≠ pairKey a b := fun e => by
      rw [← e, active] at hf
      cases hf
    exact ⟨hne, (OMap.get?_delete_ne _ hne).trans hf⟩
  have hreceipt : ∀ it ∈ receiptItems neg receipt, it.switch? = none := by
    intro it hit
    cases receipt with
    | none => cases hit
    | some r => rw [List.mem_singleton.mp hit]; rfl
  have hsilent : (∀ it ∈ ending.items s.connections neg, it.switch? = none) →
      ∃ items, Tells a b s (conclude s key neg receipt ending) items := by
    intro h
    refine ⟨ending.items s.connections neg ++ receiptItems neg receipt,
      .of_silent (by simp [conclude]) (fun it hit => ?_)
      fun hf => (hfree hf).2⟩
    rcases List.mem_append.mp hit with hit | hit
    · exact ⟨switchTo_of_none (h it hit), switchTo_of_none (h it hit)⟩
    · exact ⟨switchTo_of_none (hreceipt it hit), switchTo_of_none (hreceipt it hit)⟩
  cases ending with
  | abort reason =>
    refine hsilent fun it hit => ?_
    rcases List.mem_append.mp hit with hit | hit <;> exact switch?_of_mem_sentItems rfl hit
  | abortOther p reason => exact hsilent fun it hit => switch?_of_mem_sentItems rfl hit
  | verdict action =>
    -- both peers are told, under the key of the negotiation
    obtain ⟨mode, hmode⟩ : ∃ mode : Option Mode, ∀ z,
        (ServerMsg.probeVerdict z action).switch? = mode.map fun m => (z, m) := by
      cases action with
      | switchRelay => exact ⟨some .relay, fun _ => rfl⟩
      | switchDirect => exact ⟨some .direct, fun _ => rfl⟩
      | stay => exact ⟨none, fun _ => rfl⟩
    have hlast : ∀ p q, lastSwitch p q (Ending.items s.connections neg (.verdict action) ++
        receiptItems neg receipt) =
        if (p = neg.peerA ∧ q = neg.peerB) ∨ (p = neg.peerB ∧ q = neg.peerA) then mode
        else none := by
      intro p q
      rw [lastSwitch_append, lastSwitch_eq_none fun it hit => switchTo_of_none (hreceipt it hit),
        Option.or_none]
      refine (lastSwitch_both hkeyed.ne hmode _).trans (if_congr ?_ rfl rfl)
      refine and_iff_left_of_imp ?_
      rintro (⟨rfl, -⟩ | ⟨rfl, -⟩)
      · exact hA
      · exact hB
    refine ⟨Ending.items s.connections neg (.verdict action) ++ receiptItems neg receipt,
      by simp [conclude], ?_, fun hf _ => ⟨?_, (hfree hf).2⟩⟩
    · rw [hlast, hlast]
      simp only [or_comm, and_comm]
    · rw [hlast, if_neg]
      intro hpair
      refine (hfree hf).1 ?_
      rw [← hkeyed.pair]
      rcases hpair with ⟨rfl, rfl⟩ | ⟨rfl, rfl⟩
      · rfl
      · exact pairKey_comm _ _

/-- **One step** that sends no force command to the pair. -/
theorem TableStep.tells (h : TableStep C D F s s') (hi : TableInv s)
    (hF : ∀ it, F it → switchTo a b it = none ∧ switchTo b a it = none) :
    ∃ items, Tells a b s s' items := by
  have hnone : ∀ {it : TraceItem}, it.switch? = none →
      switchTo a b it = none ∧ switchTo b a it = none :=
    fun h => ⟨switchTo_of_none h, switchTo_of_none h⟩
  cases h with
  | quiet items untagged active timers ref trace connIds connected health =>
    refine ⟨items, .of_silent trace (fun it hit => ?_) (by rw [active]; exact id)⟩
    rcases (untagged it hit).2 with h | h
    · exact hnone h
    · exact hF it h
  | ignored p msg idle =>
    refine ⟨[.recv p msg (s.negotiationMet p msg)], .of_silent rfl (fun it hit => ?_) id⟩
    rw [List.mem_singleton.mp hit]
    exact hnone rfl
  | stored p q msg neg neg' counts direct store pending =>
    refine ⟨[.recv p msg (some neg.nid)], .of_silent rfl (fun it hit => ?_) fun hfree => ?_⟩
    · rw [List.mem_singleton.mp hit]
      exact hnone rfl
    · have hne : pairKey p q ≠ pairKey a b := fun e => by
        rw [← e, counts.active] at hfree
        cases hfree
      exact (OMap.get?_set_ne _ _ hne).trans hfree
  | checked p q neg client meshIpv4 tcpPort nonce clientPubkey serverPubkey counts role =>
    refine ⟨sentItems s.connections (some neg.nid) client
        (.probeRelayCheck p meshIpv4 tcpPort nonce clientPubkey serverPubkey) ++
      [.recv p (.probeRelayReady q meshIpv4 tcpPort nonce) (some neg.nid)],
      .of_silent (by simp) (fun it hit => ?_) id⟩
    rcases List.mem_append.mp hit with hit | hit
    · exact hnone (switch?_of_mem_sentItems rfl hit)
    · rw [List.mem_singleton.mp hit]
      exact hnone rfl
  | went p q udpPort nonce neg neg' infoA infoB readyA readyB counts store ready =>
    refine ⟨goItems s.connections neg' infoA infoB readyA readyB ++
      [.recv p (.probeDirectReady q udpPort nonce) (some neg'.nid)],
      .of_silent (by simp [go]) (fun it hit => ?_) fun hfree => ?_⟩
    · rcases List.mem_append.mp hit with hit | hit
      · rcases List.mem_append.mp hit with hit | hit <;>
          exact hnone (switch?_of_mem_sentItems rfl hit)
      · rw [List.mem_singleton.mp hit]
        exact hnone rfl
    · have hne : pairKey p q ≠ pairKey a b := fun e => by
        rw [← e, counts.active] at hfree
        cases hfree
      exact (OMap.get?_set_ne _ _ hne).trans hfree
  | started key neg callback delay now backoff items may =>
    have hitems : ∀ it ∈ items, it.switch? = none := by
      intro it hit
      rcases may.items with ⟨q, client, -, -, -, he⟩ | ⟨-, he⟩ <;> rw [he] at hit
      · exact switch?_of_mem_sentItems rfl hit
      · rcases List.mem_append.mp hit with hit | hit <;> exact switch?_of_mem_sentItems rfl hit
    have hsilent : ∀ it ∈ items ++ [.started key s.nextRef neg.type now backoff],
        switchTo a b it = none ∧ switchTo b a it = none := by
      intro it hit
      rcases List.mem_append.mp hit with hit | hit
      · exact hnone (hitems it hit)
      · rw [List.mem_singleton.mp hit]
        exact hnone rfl
    have hab := lastSwitch_eq_none fun it hit => (hsilent it hit).1
    refine ⟨items ++ [.started key s.nextRef neg.type now backoff], by simp [begin], ?_,
      fun hfree hcount => ⟨hab, ?_⟩⟩
    · rw [hab, lastSwitch_eq_none fun it hit => (hsilent it hit).2]
    · -- a negotiation of the pair would have been counted
      have hne : key ≠ pairKey a b := by
        rintro rfl
        rw [List.countP_append, List.countP_singleton] at hcount
        simp [TraceItem.starts] at hcount
      exact (OMap.get?_set_ne _ _ hne).trans hfree
  | concluded key neg receipt ending active counts allowed =>
    exact tells_concluded hi active receipt ending

theorem tells_of_steps (h : ReflTransGen (TableStep C D F) s s') (hi : TableInv s)
    (hF : ∀ it, F it → switchTo a b it = none ∧ switchTo b a it = none) :
    ∃ items, Tells a b s s' items := by
  induction h with
  | refl => exact ⟨[], .refl a b s⟩
  | tail hpre hstep ih =>
    obtain ⟨items, h1⟩ := ih
    obtain ⟨items', h2⟩ := hstep.tells (steps_inv hpre hi) hF
    exact ⟨items' ++ items, h1.trans h2⟩

end

/-! ## Force commands -/

/-- The force command for the pair that the event carries, if it is accepted. -/
def Event.commandOf (s : ServerState) (key : PairKey) : Event → Option ForceCommand
  | .forceMode p q mode =>
    if pairKey p q = key ∧ s.db.sameNetwork p q = true then some mode else none
  | _ => none

def TraceItem.commandOf (key : PairKey) : TraceItem → Option ForceCommand
  | .forced k mode => if k = key then some mode else none
  | _ => none

/-- The last force command for the pair. -/
def lastCommand (key : PairKey) (log : List TraceItem) : Option ForceCommand :=
  log.findSome? (TraceItem.commandOf key)

/-- The mode that the pair is forced to. -/
def forcedTo (key : PairKey) (log : List TraceItem) : Option ForcedMode :=
  (lastCommand key log).bind ForceCommand.column

theorem forcedTo_eq_some {key : PairKey} {log : List TraceItem} {m : ForcedMode} :
    forcedTo key log = some m ↔ lastCommand key log = some (.force m) := by
  unfold forcedTo
  cases lastCommand key log with
  | none => simp
  | some command => cases command <;> simp [ForceCommand.column]

section
variable {cfg : Config} {s : ServerState} {e : Event} {a b : PeerId}

theorem lastCommand_cons_none {key : PairKey} {it : TraceItem} (h : it.commandOf key = none)
    (log : List TraceItem) : lastCommand key (it :: log) = lastCommand key log := by
  simp [lastCommand, h]

/-- A record step of an event that is no force command for the pair. -/
theorem RecordStep.lastCommand {r r' : Records} (h : RecordStep cfg e r r') {key : PairKey}
    (he : ∀ p q mode, e = .forceMode p q mode → pairKey p q ≠ key) :
    Meshezia.lastCommand key r'.log = Meshezia.lastCommand key r.log := by
  cases h with
  | forced p q mode h found event =>
    exact lastCommand_cons_none (by simp [TraceItem.commandOf, he p q mode event]) _
  | created => exact lastCommand_cons_none rfl _
  | entered => exact lastCommand_cons_none rfl _
  | relayStarted => exact lastCommand_cons_none rfl _
  | directStarted => exact lastCommand_cons_none rfl _
  | answered => exact lastCommand_cons_none rfl _
  | _ => rfl

/-- A step changes the last force command of the pair by the one it carries. -/
theorem lastCommand_step (cfg : Config) (s : ServerState) (e : Event) (key : PairKey) :
    lastCommand key (step cfg s e).log = (e.commandOf s key).or (lastCommand key s.log) := by
  have hchain : e ≠ .restart → (∀ p q mode, e = .forceMode p q mode → pairKey p q ≠ key) →
      lastCommand key (step cfg s e).records.log = lastCommand key s.records.log := by
    intro hrestart he
    have hsteps : ReflTransGen (RecordStep cfg e) s.records (step cfg s e).records :=
      recordSteps_of_step hrestart
    generalize (step cfg s e).records = r' at hsteps ⊢
    induction hsteps with
    | refl => rfl
    | tail _ hlast ih => exact (hlast.lastCommand he).trans ih
  cases e with
  | restart => rfl
  | forceMode p q mode =>
    simp only [Event.commandOf]
    by_cases hkey : pairKey p q = key
    · subst hkey
      by_cases hacc : s.db.sameNetwork p q = true
      · rw [if_pos ⟨rfl, hacc⟩, step, postForceMode_eq, if_pos hacc,
          show (s.handleForceMode cfg p q mode).log = _ from
            congrArg Records.log (handleForceMode_records_eq (s := s) cfg p q mode)]
        simp [lastCommand, TraceItem.commandOf]
      · rw [if_neg fun h => hacc h.2, step, postForceMode_eq, if_neg hacc]
        rfl
    · rw [if_neg fun h => hkey h.1]
      exact hchain (by simp) fun x y m h => by cases h; exact hkey
  | _ => exact hchain (by simp) (by simp)

theorem Kept.symm {health : OMap PairKey PairHealth} {db : Db} (h : Kept a b health db) :
    Kept b a health db := by
  unfold Kept at h ⊢
  rw [pairKey_comm b a]
  exact h.imp And.symm (And.imp_left Or.symm)

/-- While the pair is forced, the force is stored and no negotiation of the pair is active. -/
def ForcedInv (a b : PeerId) (s : ServerState) : Prop :=
  ∀ m, lastCommand (pairKey a b) s.log = some (.force m) →
    Kept a b s.pairHealthMap s.db ∧ s.activeNegotiations.get? (pairKey a b) = none

/-- What an event without an accepted force to the pair tells it. -/
theorem tells_of_event (cfg : Config) (hi : TableInv s) (hids : e.idsOk)
    (hcommand : ∀ m, e.commandOf s (pairKey a b) ≠ some (.force m)) :
    ∃ items, Tells a b s (step cfg s e) items := by
  by_cases hrestart : e = .restart
  · subst hrestart
    exact ⟨[], rfl, rfl, fun _ _ => ⟨rfl, OMap.get?_empty _⟩⟩
  have hsteps := steps_of_step cfg (C := fun _ _ _ => True) hi e hids (by cases e <;> trivial) hrestart
  cases e with
  | forceMode p q mode =>
    by_cases hacc : s.db.sameNetwork p q = true
    · refine tells_of_steps hsteps hi ?_
      rintro it ⟨p', q', mode', ws, he, hit⟩
      cases he
      cases mode with
      | auto => rcases hit with rfl | rfl <;> exact ⟨rfl, rfl⟩
      | force m =>
        -- the command is for another pair
        have hkey : pairKey p q ≠ pairKey a b := fun e =>
          hcommand m (by simp [Event.commandOf, e, hacc])
        have h1 : ¬ (p = a ∧ q = b) := fun e => hkey (by rw [e.1, e.2])
        have h2 : ¬ (p = b ∧ q = a) := fun e => hkey (by rw [e.1, e.2, pairKey_comm])
        have h1' : ¬ (q = b ∧ p = a) := fun e => h1 e.symm
        have h2' : ¬ (q = a ∧ p = b) := fun e => h2 e.symm
        have hmsg : ∀ z, (ServerMsg.forceMode z (.force m)).switch? =
            (some m.mode).map fun x => (z, x) := fun _ => rfl
        rcases hit with rfl | rfl <;> simp only [switchTo_sent _ (hmsg _)] <;> simp_all
    · rw [step, postForceMode_eq, if_neg hacc]
      exact ⟨[], .refl a b s⟩
  | _ =>
    refine tells_of_steps hsteps hi ?_
    rintro it ⟨p', q', mode', ws, he, hit⟩
    cases he

theorem probeStarts_log (s : ServerState) (key : PairKey) :
    probeStarts key s.log = s.trace.countP (TraceItem.starts key) := by
  unfold probeStarts log
  rw [List.countP_filter]
  refine List.countP_congr fun it _ => ?_
  cases it <;> simp [TraceItem.starts, TraceItem.isLog]

/-- A force command starts no probe. -/
theorem probeStarts_handleForceMode (cfg : Config) (s : ServerState) (p q : PeerId)
    (mode : ForceCommand) (key : PairKey) :
    probeStarts key (s.handleForceMode cfg p q mode).log = probeStarts key s.log := by
  have habort := congrArg Records.log (records_abortForForce s (pairKey p q))
  have hcreate : probeStarts key
      (getOrCreateHealth cfg (s.abortForForce (pairKey p q)) (pairKey p q)).2.log =
        probeStarts key (s.abortForForce (pairKey p q)).log := by
    unfold getOrCreateHealth
    split
    · rfl
    · exact List.countP_cons_of_neg (by simp [TraceItem.starts])
  rw [show (s.handleForceMode cfg p q mode).log = _ from
    congrArg Records.log (handleForceMode_records_eq (s := s) cfg p q mode)]
  refine (List.countP_cons_of_neg (by simp [TraceItem.starts])).trans (hcreate.trans ?_)
  exact congrArg (probeStarts key) habort

/-- An accepted force command reaches the peers of its pair that are connected. -/
theorem told_of_command (cfg : Config) (ha : ColonFree a) (hb : ColonFree b) (hne : a ≠ b) {p q : PeerId} {m : ForcedMode}
    (hpair : (a = p ∧ b = q) ∨ (a = q ∧ b = p)) (hacc : s.db.sameNetwork p q = true)
    (hi : TableInv s) :
    (step cfg s (.forceMode p q (.force m))).activeNegotiations.get? (pairKey a b) = none ∧
      ∃ items, (step cfg s (.forceMode p q (.force m))).trace = items ++ s.trace ∧
        lastSwitch a b items = (if s.isConnected a = true then some m.mode else none) ∧
        lastSwitch b a items = if s.isConnected b = true then some m.mode else none := by
  have hkey : pairKey p q = pairKey a b := by
    rcases hpair with ⟨rfl, rfl⟩ | ⟨rfl, rfl⟩
    · rfl
    · exact pairKey_comm _ _
  have hpq : p ≠ q := by
    rcases hpair with ⟨rfl, rfl⟩ | ⟨rfl, rfl⟩
    · exact hne
    · exact hne.symm
  obtain ⟨t, hsteps, hconn, hfree, he⟩ :=
    handleForceMode_spec (C := fun _ _ _ => True) (D := fun _ _ _ => True) (F := fun _ => False)
      (s := s) cfg p q (.force m)
  obtain ⟨items, htells⟩ := tells_of_steps (a := a) (b := b) hsteps hi fun it h => h.elim
  have hstarts := probeStarts_handleForceMode cfg s p q (.force m) (pairKey a b)
  rw [step, postForceMode_eq, if_pos hacc]
  rw [probeStarts_log, probeStarts_log] at hstarts
  rw [he] at hstarts ⊢
  simp only [sendMsg_eq] at hstarts ⊢
  have hmsg : ∀ z, (ServerMsg.forceMode z (.force m)).switch? =
      (some m.mode).map fun x => (z, x) := fun _ => rfl
  have hboth := fun x y => lastSwitch_both (p := x) (q := y) (c := t.connections) hpq hmsg none
  have hsends : sentItems t.connections none q (.forceMode p (.force m)) ++
      (sentItems t.connections none p (.forceMode q (.force m)) ++ t.trace) =
      (sentItems t.connections none q (.forceMode p (.force m)) ++
        sentItems t.connections none p (.forceMode q (.force m))) ++ items ++ s.trace := by
    rw [htells.trace]
    simp only [List.append_assoc]
  rw [hsends] at hstarts ⊢
  generalize sentItems t.connections none q _ ++ sentItems t.connections none p _ = sends
    at hboth hstarts ⊢
  -- the last switch is one of the two sends, unless the peer is not connected
  have hrest : s.isConnected a = false ∨ s.isConnected b = false →
      lastSwitch a b items = none ∧ lastSwitch b a items = none := by
    intro hoff
    have hidle : s.activeNegotiations.get? (pairKey a b) = none := by
      -- the peers of an active negotiation are connected
      cases hactive : s.activeNegotiations.get? (pairKey a b) with
      | none => rfl
      | some n =>
        obtain ⟨hA, hB⟩ := hi.connected _ n hactive
        rcases pair_of_key ha hb (hi.keyed _ n hactive).pair with ⟨rfl, rfl⟩ | ⟨rfl, rfl⟩ <;>
          simp [hA, hB] at hoff
    have hquiet := (htells.quiet hidle ?_).1
    · exact ⟨hquiet, htells.same ▸ hquiet⟩
    · rw [List.countP_append, List.countP_append] at hstarts
      omega
  have hconnected : ∀ x, isPeerConnected t.connections x = s.isConnected x := by
    intro x
    rw [hconn]
    rfl
  have hswap := hpair.symm.imp And.symm And.symm
  refine ⟨hkey ▸ hfree, sends ++ items, rfl, ?_, ?_⟩ <;>
    rw [lastSwitch_append, hboth, hconnected]
  · cases hon : s.isConnected a with
    | true => simp [hpair]
    | false => simp [(hrest (Or.inl hon)).1]
  · cases hon : s.isConnected b with
    | true => simp [hswap]
    | false => simp [(hrest (Or.inr hon)).2]

/-- **A force command** for the pair that is stored: the force holds, and the peers that are
connected are told. -/
theorem command_step (cfg : Config) (ha : ColonFree a) (hb : ColonFree b) (hne : a ≠ b)
    (hi : TableInv s) {m : ForcedMode} (hm : e.commandOf s (pairKey a b) = some (.force m))
    (hstored : PairForceStored a b s e) :
    ForcedInv a b (step cfg s e) ∧ ∃ items, (step cfg s e).trace = items ++ s.trace ∧
      lastSwitch a b items = (if s.isConnected a = true then some m.mode else none) ∧
      lastSwitch b a items = if s.isConnected b = true then some m.mode else none := by
  obtain ⟨p, q, rfl, hkey, hacc⟩ : ∃ p q, e = .forceMode p q (.force m) ∧
      pairKey p q = pairKey a b ∧ s.db.sameNetwork p q = true := by
    cases e with
    | forceMode p q mode =>
      simp only [Event.commandOf, Option.ite_none_right_eq_some, Option.some.injEq] at hm
      exact ⟨p, q, by rw [hm.2], hm.1⟩
    | _ => cases hm
  have hpair := pair_of_key ha hb hkey
  obtain ⟨hfree, htold⟩ := told_of_command (m := m) cfg ha hb hne hpair hacc hi
  refine ⟨fun _ _ => ⟨?_, hfree⟩, htold⟩
  have hkept := kept_command (m := m) cfg s hacc (hstored hkey hacc)
  rcases hpair with ⟨rfl, rfl⟩ | ⟨rfl, rfl⟩
  · exact hkept
  · exact hkept.symm

/-- **Any other event**: the two peers of the pair are told the same, and nothing while the pair
is forced. -/
theorem other_step (cfg : Config) (ha : ColonFree a) (hb : ColonFree b) (hi : TableInv s)
    (hforced : ForcedInv a b s) (hids : e.idsOk)
    (hnone : ∀ m, e.commandOf s (pairKey a b) ≠ some (.force m))
    (hlasts : ∀ m, lastCommand (pairKey a b) (step cfg s e).log = some (.force m) →
      PairForceStored a b s e ∧ (step cfg s e).db.peers.has a = true ∧
        (step cfg s e).db.peers.has b = true) :
    ForcedInv a b (step cfg s e) ∧ ∃ items, (step cfg s e).trace = items ++ s.trace ∧
      lastSwitch a b items = lastSwitch b a items ∧
      ∀ m, lastCommand (pairKey a b) (step cfg s e).log = some (.force m) →
        lastSwitch a b items = none ∧ lastCommand (pairKey a b) s.log = some (.force m) := by
  have hlast := lastCommand_step cfg s e (pairKey a b)
  obtain ⟨items, htells⟩ := tells_of_event cfg hi hids hnone
  -- a pair that is forced after the event was so before it, and no probe of it has started
  have hstill : ∀ m, lastCommand (pairKey a b) (step cfg s e).log = some (.force m) →
      lastCommand (pairKey a b) s.log = some (.force m) ∧
        Kept a b (step cfg s e).pairHealthMap (step cfg s e).db ∧ lastSwitch a b items = none ∧
        (step cfg s e).activeNegotiations.get? (pairKey a b) = none := by
    intro m hm
    have hbefore := hm
    rw [hlast] at hbefore
    cases hc : e.commandOf s (pairKey a b) with
    | some command =>
      rw [hc, Option.some_or, Option.some.injEq] at hbefore
      exact absurd (hc.trans (by rw [hbefore])) (hnone m)
    | none =>
      rw [hc, Option.none_or] at hbefore
      obtain ⟨hkept, hfree⟩ := hforced m hbefore
      refine ⟨hbefore, ?_⟩
      by_cases hauto : e.isAutoOf (pairKey a b) = true
      · -- a command that is not accepted does nothing
        have hsame : step cfg s e = s := by
          cases e with
          | forceMode p q mode =>
            cases mode with
            | force m => cases hauto
            | auto =>
              simp only [Event.isAutoOf, decide_eq_true_eq] at hauto
              simp only [Event.commandOf, hauto, true_and, ite_eq_right_iff, reduceCtorEq,
                imp_false] at hc
              rw [step, postForceMode_eq, if_neg hc]
          | _ => cases hauto
        have htrace := htells.trace
        rw [hsame] at htrace ⊢
        rw [List.self_eq_append_left.mp htrace]
        exact ⟨hkept, rfl, hfree⟩
      · obtain ⟨hkept', hstarts⟩ := kept_step ha hb hkept
          ⟨by simpa using hauto, (hlasts m hm).2⟩ (hlasts m hm).1
        rw [probeStarts_log, probeStarts_log, htells.trace, List.countP_append] at hstarts
        exact ⟨hkept', htells.quiet hfree (by omega)⟩
  exact ⟨fun m hm => ⟨(hstill m hm).2.1, (hstill m hm).2.2.2⟩, items, htells.trace, htells.same,
    fun m hm => ⟨(hstill m hm).2.2.1, (hstill m hm).1⟩⟩

end

end Meshezia
