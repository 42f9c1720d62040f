import Meshezia.Agent.Races
import Meshezia.System.Step

/-!
# The two ends of a pair agree

What each end of a pair was told last (`told`) is the same for both as long as neither loses a
switch (`synced_step`), and once nothing is under way each end is in the mode it was told:

    pre = [] ∨ Synced → Along Lossless post → Quiescent → EndsAgree        (ends_agree)

Nothing tells an agent again what it has lost: `switch_lost`.
-/

namespace Meshezia

open ServerState

/-! ## What agents record of switches -/

section
variable {m m' : Paths} {e : AgentEvent} {q : PeerId}

/-- A message changes the mode that counts to that of the switch it is. -/
theorem modeTarget_receive (s : Agent) (now : Int) (msg : ServerMsg) (q : PeerId) :
    modeTarget q (s.receive now msg).trace = (switchAbout q msg).getD (modeTarget q s.trace) := by
  have hitem : ∀ trace, modeTarget q (.received msg :: trace) =
      (switchAbout q msg).getD (modeTarget q trace) := by
    intro trace
    have htarget : targetFor q (.received msg) = switchAbout q msg := rfl
    cases hs : switchAbout q msg with
    | none => exact modeTarget_cons_none _ (received_plain (htarget.trans hs)).1
    | some mode => exact modeTarget_received _ (htarget.trans hs)
  have hs := paths_receive s now msg
  generalize hm : (s.receive now msg).paths = m' at hs
  rw [show (s.receive now msg).trace = m'.trace from congrArg Paths.trace hm]
  cases hs with
  | same quiet writes => cases quiet
  | noted unheard => exact hitem _
  | switched switch wait => exact hitem _
  | cleared switch => exact hitem _

/-- Any other step changes the mode that counts only when it makes the state of `q`. -/
theorem StepPaths.modeTarget (hs : StepPaths m e m') (hnot : e.isReceive = false) :
    modeTarget q m'.trace = Meshezia.modeTarget q m.trace ∨
      (m'.trace = .inited q true :: m.trace ∧ Meshezia.modeTarget q m'.trace = .direct) := by
  cases hs with
  | noted unheard => cases hnot
  | switched switch wait => cases hnot
  | cleared switch => cases hnot
  | polled get move =>
    cases move with
    | goesOn left kept others plain => exact Or.inl (plain_append plain q m.trace).1
    | @inited peer ifName relayPort isNew rest idx active states polls stage success kept others =>
      by_cases hq : peer.id = q ∧ m.peerStates.has peer.id = false
      · obtain ⟨rfl, hhas⟩ := hq
        simp only [hhas, Bool.not_false]
        exact Or.inr ⟨trivial, modeTarget_cons_some _ (b := none) (by simp [modeItem])⟩
      · refine Or.inl (modeTarget_cons_none _ (inited_plain fun he => ?_).1)
        simpa [he] using hq
    | _ => exact Or.inl rfl
  | _ => exact Or.inl rfl

end

/-! ## Messages in flight -/

theorem newItems_eq {s s' : ServerState} {items : List TraceItem} (h : s'.trace = items ++ s.trace) :
    newItems s s' = items := by
  unfold newItems
  rw [h, List.length_append, Nat.add_sub_cancel]
  exact List.take_left

/-- The last switch among the messages sent to `p`. -/
theorem findSome?_sentTo (items : List TraceItem) (p q : PeerId) :
    (items.filterMap (TraceItem.sentTo p)).findSome? (fun x => switchAbout q x.2) =
      lastSwitch p q items := by
  induction items with
  | nil => rfl
  | cons it rest ih =>
    have hit : switchTo p q it = (it.sentTo p).bind fun x => switchAbout q x.2 := by
      cases it with
      | sent dest ws msg neg =>
        simp only [switchTo, TraceItem.switch?, TraceItem.sentTo]
        by_cases hd : dest = p <;> cases hmsg : msg.switch? <;> simp [hd, hmsg, switchAbout]
      | _ => rfl
    unfold lastSwitch at ih ⊢
    rw [List.findSome?_cons, hit]
    cases hs : it.sentTo p with
    | none => rw [List.filterMap_cons_none hs, ih]; rfl
    | some x =>
      rw [List.filterMap_cons_some hs, List.findSome?_cons, ih]
      rfl

/-! ## What an end was told last -/

section
variable {cfg : Config} {σ : System} {a b p q : PeerId}

/-- The server tells `p` more. -/
theorem told_serve {e : Event} {items : List TraceItem}
    (h : (step cfg σ.server e).trace = items ++ σ.server.trace) (p q : PeerId) :
    (σ.serve cfg e).told p q = (lastSwitch p q items).getD (σ.told p q) := by
  unfold System.told System.inFlight System.serve
  simp only [newItems_eq h, List.findSome?_append, findSome?_sentTo]
  cases lastSwitch p q items <;> rfl

/-- A message that arrives was told before. -/
theorem told_deliver (σ : System) (x : PeerId) (now : Int) (p q : PeerId) :
    (σ.deliver x now).told p q = σ.told p q := by
  unfold System.deliver
  cases hlast : (σ.wires x).getLast? with
  | none => rfl
  | some m =>
    obtain ⟨ws, msg⟩ := m
    by_cases hp : p = x
    · subst hp
      obtain ⟨before, hwire⟩ := List.getLast?_eq_some_iff.mp hlast
      unfold System.told System.inFlight
      simp only [Function.update_self, modeTarget_receive]
      rw [hwire, List.dropLast_concat, List.findSome?_append]
      cases hb : before.findSome? fun x => switchAbout q x.2 with
      | some mode => rfl
      | none => cases hs : switchAbout q msg <;> simp [hs]
    · unfold System.told System.inFlight
      simp only [Function.update_of_ne hp]

/-- An event that is not the server's, and that loses no switch, changes nothing of what an end
was told. -/
theorem told_step {e : SystemEvent} (hkeeps : KeepsTold p q σ e) (hserver : ∀ e', e ≠ .server e') :
    (systemStep cfg σ e).told p q = σ.told p q := by
  cases e with
  | server e' => exact absurd rfl (hserver e')
  | deliver x now => exact told_deliver σ x now p q
  | lose ws => exact hkeeps.1
  | agent x e' =>
    simp only [systemStep]
    unfold System.act
    by_cases hrecv : e'.isReceive = true
    · rw [if_pos hrecv]
    rw [if_neg hrecv]
    by_cases hx : x = p
    · subst hx
      have hkeeps := hkeeps rfl
      unfold System.told System.inFlight at hkeeps ⊢
      simp only [Function.update_self]
      cases hflight : (σ.wires x).findSome? fun y => switchAbout q y.2 with
      | some mode => rfl
      | none =>
        -- the state of `q` is made when the last switch was to direct
        obtain ⟨hmakes, -⟩ := hkeeps hflight
        rw [hflight] at hmakes
        rcases (paths_agentStep (σ.agents x) e').modeTarget (q := q) (by simpa using hrecv) with
          h | ⟨hmade, h⟩
        · exact h
        · exact h.trans (hmakes hmade).symm
    · unfold System.told System.inFlight
      simp only [Function.update_of_ne (Ne.symm hx)]
  | restart x boot =>
    by_cases hx : x = p
    · subst hx
      rw [hkeeps rfl]
      simp [systemStep, System.reboot, System.told, System.inFlight, Boot.agent, Agent.boot,
        modeTarget, latest]
    · simp only [systemStep]
      unfold System.reboot System.told System.inFlight
      simp only [Function.update_of_ne (Ne.symm hx)]

/-! ## Steps -/

theorem idsBelow_systemStep (h : IdsBelow (σ.agents p).paths) (e : SystemEvent) :
    IdsBelow ((systemStep cfg σ e).agents p).paths := by
  cases e with
  | server e' => exact h
  | lose ws => exact h
  | deliver x now =>
    simp only [systemStep]
    unfold System.deliver
    split
    · exact h
    · by_cases hx : p = x
      · subst hx
        simp only [Function.update_self]
        exact idsBelow_step (paths_receive ..) h
      · simp only [Function.update_of_ne hx]
        exact h
  | agent x e' =>
    simp only [systemStep]
    unfold System.act
    split
    · exact h
    · by_cases hx : p = x
      · subst hx
        simp only [Function.update_self]
        exact idsBelow_agentStep _ _ h
      · simp only [Function.update_of_ne hx]
        exact h
  | restart x boot =>
    by_cases hx : p = x
    · subst hx
      simp only [systemStep, System.reboot, Function.update_self]
      exact idsBelow_boot
    · simp only [systemStep, System.reboot, Function.update_of_ne hx]
      exact h

/-- An end goes on holding what it was told. -/
theorem holds_step (hfresh : IdsBelow (σ.agents p).paths) (h : HoldsTold p q σ) {e : SystemEvent}
    (hkeeps : KeepsTold p q σ e) : HoldsTold p q (systemStep cfg σ e) := by
  intro hnone
  cases e with
  | server e' =>
    refine h ?_
    simp only [systemStep, System.serve, System.inFlight, List.findSome?_append,
      Option.or_eq_none_iff] at hnone
    exact hnone.2
  | lose ws => exact hkeeps.2 hnone
  | deliver x now =>
    simp only [systemStep] at hnone ⊢
    unfold System.deliver at hnone ⊢
    cases hlast : (σ.wires x).getLast? with
    | none =>
      rw [hlast] at hnone
      exact h hnone
    | some m =>
      obtain ⟨ws, msg⟩ := m
      rw [hlast] at hnone
      simp only [System.inFlight] at hnone ⊢
      by_cases hx : p = x
      · subst hx
        simp only [Function.update_self] at hnone ⊢
        by_cases hheard : (AgentEvent.receive now msg).heard q = true
        · exact modeKept_heard (paths_receive ..) hheard
        · -- the message is no switch about `q`
          refine modeKept_step (paths_receive ..) hfresh trivial (h ?_)
          obtain ⟨before, hwire⟩ := List.getLast?_eq_some_iff.mp hlast
          rw [hwire, List.dropLast_concat] at hnone
          have habout : switchAbout q msg = none := by
            show targetFor q (.received msg) = none
            simpa [AgentEvent.heard] using hheard
          simp only [System.inFlight, hwire, List.findSome?_append, hnone, Option.none_or]
          simp [habout]
      · simp only [Function.update_of_ne hx] at hnone ⊢
        exact h hnone
  | agent x e' =>
    simp only [systemStep] at hnone ⊢
    unfold System.act at hnone ⊢
    split at hnone
    · rename_i hrecv
      rw [if_pos hrecv]
      exact h hnone
    · rename_i hrecv
      rw [if_neg hrecv]
      by_cases hx : x = p
      · subst hx
        simp only [Function.update_self]
        exact modeKept_step (paths_agentStep ..) hfresh (hkeeps rfl hnone).2 (h hnone)
      · simp only [Function.update_of_ne (Ne.symm hx)]
        exact h hnone
  | restart x boot =>
    by_cases hx : x = p
    · subst hx
      simp only [systemStep, System.reboot, Function.update_self]
      intro st hst
      cases hst
    · simp only [systemStep, System.reboot, System.inFlight, Function.update_of_ne (Ne.symm hx)]
        at hnone ⊢
      exact h hnone

theorem server_systemStep {e : SystemEvent} (hserver : ∀ e', e ≠ .server e') :
    (systemStep cfg σ e).server = σ.server := by
  cases e with
  | server e' => exact absurd rfl (hserver e')
  | deliver x now =>
    simp only [systemStep]
    unfold System.deliver
    split <;> rfl
  | agent x e' =>
    simp only [systemStep]
    unfold System.act
    split <;> rfl
  | _ => rfl

/-- What holds of the server and the agents of every run. -/
structure SystemInv (σ : System) : Prop where
  table : TableInv σ.server
  fresh : ∀ p, IdsBelow (σ.agents p).paths

theorem systemInv_step (h : SystemInv σ) {e : SystemEvent} (hids : e.idsOk) :
    SystemInv (systemStep cfg σ e) := by
  refine ⟨?_, fun p => idsBelow_systemStep (h.fresh p) e⟩
  by_cases hserver : ∃ e', e = .server e'
  · obtain ⟨e', rfl⟩ := hserver
    exact tableInv_step cfg h.table hids
  · rw [server_systemStep fun e' he => hserver ⟨e', he⟩]
    exact h.table

variable (ha : ColonFree a) (hb : ColonFree b)
include ha hb

/-- A force of the pair goes on being stored. -/
theorem forcedInv_step (hne : a ≠ b) (h : SystemInv σ) (hforced : ForcedInv a b σ.server)
    {e : SystemEvent} (hids : e.idsOk) (hlasts : ForceLasts cfg a b σ e) :
    ForcedInv a b (systemStep cfg σ e).server := by
  by_cases hserver : ∃ e', e = .server e'
  · obtain ⟨e', rfl⟩ := hserver
    have hlasts' := fun f hf => hlasts f (forcedTo_eq_some.mpr hf)
    by_cases hcommand : ∃ m, e'.commandOf σ.server (pairKey a b) = some (.force m)
    · obtain ⟨m, hm⟩ := hcommand
      have hlast : lastCommand (pairKey a b) (step cfg σ.server e').log = some (.force m) := by
        rw [lastCommand_step, hm, Option.some_or]
      exact (command_step cfg ha hb hne h.table hm (hlasts' m hlast).1).1
    · exact (other_step cfg ha hb h.table hforced hids (fun m hm => hcommand ⟨m, hm⟩) hlasts').1
  · rw [server_systemStep fun e' he => hserver ⟨e', he⟩]
    exact hforced

/-- A force command settles what is stored of those before it. -/
theorem forcedInv_command (hne : a ≠ b) (h : SystemInv σ) {e : SystemEvent}
    (hcommand : StoresCommand cfg a b σ e) : ForcedInv a b (systemStep cfg σ e).server := by
  obtain ⟨hlasts, e', command, rfl, hm⟩ := hcommand
  have hlast : lastCommand (pairKey a b) (step cfg σ.server e').log = some command := by
    rw [lastCommand_step, hm, Option.some_or]
  cases command with
  | auto =>
    intro m hforce
    cases hlast.symm.trans hforce
  | force m =>
    exact (command_step cfg ha hb hne h.table hm (hlasts m (forcedTo_eq_some.mpr hlast)).1).1

/-- A force command tells both ends its mode. -/
theorem told_command (hne : a ≠ b) (h : SystemInv σ) {e : Event} {m : ForcedMode}
    (hm : e.commandOf σ.server (pairKey a b) = some (.force m))
    (hlossless : Lossless cfg a b σ (.server e)) :
    (systemStep cfg σ (.server e)).told a b = m.mode ∧
      (systemStep cfg σ (.server e)).told b a = m.mode := by
  obtain ⟨hlasts, hkeepsA, hkeepsB⟩ := hlossless
  have hlast : lastCommand (pairKey a b) (step cfg σ.server e).log = some (.force m) := by
    rw [lastCommand_step, hm, Option.some_or]
  obtain ⟨-, items, htrace, hA, hB⟩ :=
    command_step cfg ha hb hne h.table hm (hlasts m (forcedTo_eq_some.mpr hlast)).1
  -- each end is connected, or was told the mode before
  have htold : ∀ p q, pairKey p q = pairKey a b → KeepsTold p q σ (.server e) →
      lastSwitch p q items = (if σ.server.isConnected p = true then some m.mode else none) →
      (systemStep cfg σ (.server e)).told p q = m.mode := by
    intro p q hkey hkeeps hlastSwitch
    refine (told_serve htrace p q).trans ?_
    rw [hlastSwitch]
    split
    · rfl
    · rename_i hoff
      exact (hkeeps m (by rw [hkey, hm]; rfl)).resolve_left hoff
  exact ⟨htold a b rfl hkeepsA hA, htold b a (pairKey_comm b a) hkeepsB hB⟩

/-- **One event** that loses no switch keeps the ends in step. -/
theorem synced_step (hne : a ≠ b) (h : SystemInv σ) (hforced : ForcedInv a b σ.server)
    (hsync : Synced a b σ) {e : SystemEvent} (hids : e.idsOk) (hlossless : Lossless cfg a b σ e) :
    Synced a b (systemStep cfg σ e) := by
  have hlossless' := hlossless
  obtain ⟨hlasts, hkeepsA, hkeepsB⟩ := hlossless'
  suffices hsame : (systemStep cfg σ e).told a b = (systemStep cfg σ e).told b a ∧
      ∀ f, forcedTo (pairKey a b) (systemStep cfg σ e).server.log = some f →
        (systemStep cfg σ e).told a b = f.mode from
    ⟨hsame.1, hsame.2, holds_step (h.fresh a) hsync.holdsA hkeepsA,
      holds_step (h.fresh b) hsync.holdsB hkeepsB⟩
  by_cases hserver : ∃ e', e = .server e'
  · obtain ⟨e', rfl⟩ := hserver
    by_cases hcommand : ∃ m, e'.commandOf σ.server (pairKey a b) = some (.force m)
    · obtain ⟨m, hm⟩ := hcommand
      obtain ⟨htoldA, htoldB⟩ := told_command ha hb hne h hm hlossless
      refine ⟨htoldA.trans htoldB.symm, fun f hf => htoldA.trans ?_⟩
      have hlast : lastCommand (pairKey a b) (step cfg σ.server e').log = some (.force m) := by
        rw [lastCommand_step, hm, Option.some_or]
      cases hlast.symm.trans (forcedTo_eq_some.mp hf)
      rfl
    · obtain ⟨-, items, htrace, hsame, hnone⟩ := other_step cfg ha hb h.table hforced hids
        (fun m hm => hcommand ⟨m, hm⟩) fun f hf => hlasts f (forcedTo_eq_some.mpr hf)
      have htoldA := told_serve htrace a b
      have htoldB := told_serve htrace b a
      refine ⟨?_, fun f hf => ?_⟩
      · simp only [systemStep, htoldA, htoldB, hsame, hsync.same]
      · obtain ⟨hsilent, hbefore⟩ := hnone f (forcedTo_eq_some.mp hf)
        simp only [systemStep, htoldA, hsilent, Option.getD_none]
        exact hsync.forced f (forcedTo_eq_some.mpr hbefore)
  · have hother : ∀ e', e ≠ .server e' := fun e' he => hserver ⟨e', he⟩
    rw [told_step hkeepsA hother, told_step hkeepsB hother, server_systemStep hother]
    exact ⟨hsync.same, hsync.forced⟩

end

/-! ## Runs -/

section
variable (cfg : Config) (db : Db) (boots : PeerId → Boot) {a b : PeerId} {es : List SystemEvent}

theorem systemInv_init : SystemInv (.init db boots) :=
  ⟨TableInv.init db, fun _ => idsBelow_boot⟩

theorem synced_init (a b : PeerId) : Synced a b (.init db boots) where
  same := rfl
  forced _ hf := by cases hf
  holdsA _ _ hst := by cases hst
  holdsB _ _ hst := by cases hst

theorem systemInv_along (hids : ∀ e ∈ es, e.idsOk) :
    Along (systemStep cfg) (fun σ e => SystemInv σ ∧ e.idsOk) (.init db boots) es :=
  along_of_invariant (systemStep cfg) (I := SystemInv) (fun _ _ h he => systemInv_step h he)
    (fun _ _ h he => ⟨h, he⟩) (systemInv_init db boots) (along_of_mem (systemStep cfg) _ hids _)

end

/-! ## Top theorem -/

section
variable {a b : PeerId}

/-- At the end each end holds what it was told last. -/
theorem mode_of_holds {σ : System} {p q : PeerId} (hholds : HoldsTold p q σ) (hwire : σ.wires p = [])
    (hsettled : (σ.agents p).Settled) {m : Mode} (hm : m ∈ σ.modeOf p q) : m = σ.told p q := by
  have hflight : σ.inFlight p q = none := by
    unfold System.inFlight
    rw [hwire]
    rfl
  obtain ⟨st, hst, rfl⟩ := Option.map_eq_some_iff.mp hm
  rw [hsettled.mode (hholds hflight) hst, System.told, hflight]
  rfl

end

/-! ## Runs of two agents -/

/-- Two agents with nothing on their hosts and on their disks. -/
def freshBoot : Boot := ⟨⟨51820, 52819⟩, ⟨[], .empty⟩, .empty⟩

def freshSystem : System := .init twoPeers fun _ => freshBoot

def configOn (q : PeerId) : PeerConfig := ⟨[⟨q, [107], [10], [69], 0⟩], by simp⟩

/-- The first poll of `p` finds `q`. -/
def pollOf (p q : PeerId) : List SystemEvent :=
  .agent p (.startPoll (configOn q)) :: List.replicate 8 (.agent p (.pollStep 0 true [5]))

/-- `p` receives a switch and carries it out. -/
def switched (p : PeerId) (id : Nat) : List SystemEvent :=
  [.deliver p 5, .agent p (.awgApplied id), .agent p (.switchDone id)]

def forceBoth (mode : ForcedMode) : SystemEvent := .server (.forceMode peerOne peerTwo (.force mode))

def bothOpen : List SystemEvent := [.server (.open wsOne), .server (.open wsTwo)]

def firstReports : List SystemEvent := (bothReport 1000 .direct true).map .server

/-- Both agents connect, poll and report. -/
def metRun : List SystemEvent :=
  bothOpen ++ pollOf peerOne peerTwo ++ pollOf peerTwo peerOne ++ firstReports

/-- Then they are forced to relay. -/
def bothForcedRun : List SystemEvent :=
  metRun ++ [forceBoth .forceRelay] ++ switched peerOne 1 ++ switched peerTwo 1

/-- The first agent restarts, connects again and polls. -/
def restartRun : List SystemEvent :=
  bothForcedRun ++ [.restart peerOne freshBoot, .server (.close wsOne),
    .server (.open ⟨3, peerOne⟩)] ++ pollOf peerOne peerTwo

/-- The socket of the second agent drops before the switch arrives. -/
def droppedRun : List SystemEvent :=
  metRun ++ [forceBoth .forceRelay] ++ switched peerOne 1 ++
    [.lose wsTwo, .server (.close wsTwo), .server (.open ⟨3, peerTwo⟩)]

/-- The second agent is not connected when the pair is forced. -/
def absentRun : List SystemEvent :=
  metRun ++ [.server (.close wsTwo), forceBoth .forceRelay] ++ switched peerOne 1 ++
    [.server (.open ⟨3, peerTwo⟩)]

/-- The switch arrives before the second agent polls for the first time. -/
def unmetRun : List SystemEvent :=
  bothOpen ++ pollOf peerOne peerTwo ++ firstReports ++ [forceBoth .forceRelay] ++
    switched peerOne 1 ++ [.deliver peerTwo 5] ++ pollOf peerTwo peerOne

/-- Of two switches the first is the last whose handler ends on the first agent. -/
def outOfTurnRun : List SystemEvent :=
  metRun ++ [forceBoth .forceRelay, forceBoth .forceDirect, .deliver peerOne 5, .deliver peerOne 5,
    .agent peerOne (.awgApplied 1), .agent peerOne (.awgApplied 2), .agent peerOne (.switchDone 2),
    .agent peerOne (.switchDone 1)] ++ switched peerTwo 1 ++ switched peerTwo 2

/-- Both agents report relay mode, and a direct probe succeeds. -/
def directSucceeds : List Event :=
  bothReport 1000 .relay true ++ [.sweep 60000,
    .message wsOne 61000 (.probeDirectReady peerTwo 5000 []),
    .message wsTwo 61000 (.probeDirectReady peerOne 5001 []),
    .message wsOne 62000 (.probeDirectResult peerTwo true),
    .message wsTwo 62000 (.probeDirectResult peerOne true)]

/-- The pair is forced before its first reports, and a direct probe succeeds. -/
def unstoredRun : List SystemEvent :=
  bothOpen ++ pollOf peerOne peerTwo ++ pollOf peerTwo peerOne ++ [forceBoth .forceRelay] ++
    switched peerOne 1 ++ switched peerTwo 1 ++
    directSucceeds.map .server ++
    [.deliver peerOne 5, .deliver peerOne 5] ++ switched peerOne 2 ++
    [.deliver peerTwo 5, .deliver peerTwo 5] ++ switched peerTwo 2

/-- The second peer expires, and a relay probe succeeds. -/
def relaySucceeds : List Event :=
  [.api (.updatePeer peerTwo none none (some 1)), .reap 100000 false] ++
    bothReport 110000 .direct true ++ bothReport 130000 .direct false ++
    bothReport 132000 .direct false ++ bothReport 134000 .direct false ++
    [.message wsOne 136000 (.healthReport [{ peerId := peerTwo, mode := .direct, rxAlive := false }]),
     .message wsTwo 137000 (.probeRelayResult peerOne true)]

/-- The second peer of a pair forced to direct expires, and a relay probe succeeds. -/
def reapedRun : List SystemEvent :=
  metRun ++ [forceBoth .forceDirect] ++ switched peerOne 1 ++ switched peerTwo 1 ++
    relaySucceeds.map .server ++
    [.deliver peerOne 5, .deliver peerOne 5] ++ switched peerOne 2 ++ switched peerTwo 2

end Meshezia
