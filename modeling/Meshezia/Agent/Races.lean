import Meshezia.Agent.Paths

/-!
# Modes and endpoints where handlers and polls meet

What is kept of the mode and the endpoint of one peer is kept by every step of any agent that
does the peer no harm, and the next switch for the peer, or poll that decides about it, puts
right what was lost before it; so in every state with no handler and no `reconcile` in flight
the mode and the endpoint are recorded as far as no harm was done since:

    Settled → ModeRecorded                                           (modes_recorded)

A meeting that does harm leaves the mode or the endpoint wrong: `last_command_lost`.
-/

namespace Meshezia

open Paths

/-! ## What is recorded -/

/-- Every step since the last switch for `p` has the property. -/
def SinceHeard (p : PeerId) (P : Paths → AgentEvent → Prop) : Agent → List AgentEvent → Prop :=
  Since agentStep (fun _ e => e.heard p = true) fun s e => P s.paths e

/-- The step is a switch received for `p`, or a poll that decides to set its endpoint. -/
def Aims (p : PeerId) (s : Agent) (e : AgentEvent) : Prop :=
  e.heard p = true ∨ ∃ t, (agentStep s e).trace = .decided t :: s.trace ∧ t.peer.id = p ∧
    t.skipEndpoint = false

/-- Every step since the last switch for `p`, or poll that decided to set its endpoint, has the
property. -/
def SinceAimed (p : PeerId) (P : Paths → AgentEvent → Prop) : Agent → List AgentEvent → Prop :=
  Since agentStep (Aims p) fun s e => P s.paths e

/-- What is recorded of `p` at the end of a run from `s`: the mode, and the endpoint in either
mode when it is what was last to be set. -/
def ModeRecorded (p : PeerId) (s : Agent) (es : List AgentEvent) : Prop :=
  let s' := run agentStep s es
  ∀ st, s'.peerStates.get? p = some st →
    (SinceHeard p (InTurn p) s es → st.mode = modeTarget p s'.trace) ∧
    (SinceHeard p (Spares false p) s es →
      st.mode = .relay → aimed false p s'.trace = some st.relayAim →
      s'.host.endpoint st.ifName st.pubkey = loopback st.relayPort) ∧
    (SinceAimed p (Spares true p) s es →
      st.mode = .direct → st.directEndpoint ≠ [] → aimed true p s'.trace = some st.directAim →
      s'.host.endpoint st.ifName st.pubkey = st.directEndpoint)

/-! ## Items that do not matter -/

section
variable {m m' : Paths} {e : AgentEvent} {polls : Bool} {p : PeerId}

theorem plain_append {l : List AgentItem} (h : ∀ it ∈ l, ∀ p, it.Plain p) (p : PeerId)
    (trace : List AgentItem) :
    modeTarget p (l ++ trace) = modeTarget p trace ∧
      ∀ polls, aimed polls p (l ++ trace) = aimed polls p trace := by
  induction l with
  | nil => exact ⟨rfl, fun _ => rfl⟩
  | cons it rest ih =>
    obtain ⟨h1, h2⟩ := ih fun x hx => h x (List.mem_cons_of_mem _ hx)
    obtain ⟨hmode, haimed⟩ := h it List.mem_cons_self p
    exact ⟨(modeTarget_cons_none _ hmode).trans h1, fun polls => (haimed polls _).trans (h2 polls)⟩

theorem isReceive_of_heard (h : e.heard p = true) : e.isReceive = true := by
  cases e with
  | receive now msg => rfl
  | _ => cases h

theorem not_heard {now : Int} {msg : ServerMsg}
    (h : ¬ (AgentEvent.receive now msg).heard p = true) : (AgentItem.received msg).Plain p :=
  received_plain (by simpa [AgentEvent.heard] using h)

theorem heard_iff {now : Int} {msg : ServerMsg} {q : PeerId} {target : Mode}
    (h : msg.switch? = some (q, target)) :
    (AgentEvent.receive now msg).heard p = true ↔ q = p := by
  simp [AgentEvent.heard, targetFor, AgentItem.switch?, h]

theorem targetFor_self {msg : ServerMsg} {target : Mode} (h : msg.switch? = some (p, target)) :
    targetFor p (.received msg) = some target := by
  simp [targetFor, AgentItem.switch?, h]

/-- A message sets no endpoint. -/
theorem aimed_received {msg : ServerMsg} {trace : List AgentItem} {a : Aim}
    (h : aimed polls p (.received msg :: trace) = some a) : aimed polls p trace = some a := by
  simp only [aimed] at h
  split at h
  · cases h
  · exact h

theorem awaits_iff {a : Aim} :
    m.awaits a = true ↔
      (∃ id t, m.switches.get? id = some t ∧ t.applied = false ∧ t.aim = a) ∨
        ∃ id poll, m.polls.get? id = some poll ∧ poll.stage.aim? = some a := by
  simp only [awaits, Bool.or_eq_true, List.any_eq_true, Bool.and_eq_true, Bool.not_eq_true',
    decide_eq_true_eq, Prod.exists, OMap.mem_entries]

theorem Stage.aim_of_turn {stage : Stage} (h : stage.turn? = none) : stage.aim? = none := by
  simp [Stage.aim?, h]

theorem Stage.aim?_eq_some {stage : Stage} {a : Aim} :
    stage.aim? = some a ↔ ∃ t, stage.turn? = some t ∧ t.skipEndpoint = false ∧ t.aim = a := by
  simp [Stage.aim?, Option.filter_eq_some_iff, and_assoc]

/-! ## Fresh ids -/

/-- The ids of switches and polls are below the next one. -/
structure IdsBelow (m : Paths) : Prop where
  polls : ∀ id poll, m.polls.get? id = some poll → id < m.nextId
  switches : ∀ id t, m.switches.get? id = some t → id < m.nextId

theorem IdsBelow.of_others (h : IdsBelow m) {id : Nat} {poll : Poll} (hget : m.polls.get? id = some poll)
    {polls : OMap Nat Poll} (others : Others m.polls id polls) (i : Nat) (poll' : Poll)
    (hi : polls.get? i = some poll') : i < m.nextId := by
  by_cases he : id = i
  · exact he ▸ h.polls id poll hget
  · exact h.polls i poll' ((others i he).symm.trans hi)

theorem idsBelow_step (hs : StepPaths m e m') (h : IdsBelow m) : IdsBelow m' := by
  cases hs with
  | same quiet writes => exact h
  | noted unheard => exact ⟨h.polls, h.switches⟩
  | switched switch wait =>
    refine ⟨fun i x hi => Nat.lt_succ_of_lt (h.polls i x hi), fun i t' hi => ?_⟩
    rcases OMap.get?_set_cases hi with ⟨rfl, -⟩ | ⟨-, hi⟩
    · exact Nat.lt_succ_self _
    · exact Nat.lt_succ_of_lt (h.switches i t' hi)
  | cleared switch => exact ⟨h.polls, h.switches⟩
  | applied get wait =>
    refine ⟨h.polls, fun i t' hi => ?_⟩
    rcases OMap.get?_set_cases hi with ⟨rfl, -⟩ | ⟨-, hi⟩
    · exact h.switches _ _ get
    · exact h.switches i t' hi
  | done get applied => exact ⟨h.polls, fun i t' hi => h.switches i t' (OMap.get?_of_get?_delete hi).2⟩
  | started =>
    refine ⟨fun i x hi => ?_, fun i t' hi => Nat.lt_succ_of_lt (h.switches i t' hi)⟩
    rcases OMap.get?_set_cases hi with ⟨rfl, -⟩ | ⟨-, hi⟩
    · exact Nat.lt_succ_self _
    · exact Nat.lt_succ_of_lt (h.polls i x hi)
  | polled get move =>
    cases move with
    | goesOn left kept others plain => exact ⟨h.of_others get others, h.switches⟩
    | decided left turn => exact ⟨h.of_others get (others_set _ _ _), h.switches⟩
    | created stage success => exact ⟨h.of_others get (others_set _ _ _), h.switches⟩
    | configured stage success => exact ⟨h.of_others get (others_set _ _ _), h.switches⟩
    | unlinked stage => exact ⟨h.of_others get (others_set _ _ _), h.switches⟩
    | inited stage success kept others => exact ⟨h.of_others get others, h.switches⟩

theorem IdsBelow.switch_ne (h : IdsBelow m) {id : Nat} {t : Switch} (hid : m.switches.get? id = some t) :
    m.nextId ≠ id := fun he => absurd (h.switches id t hid) (by omega)

theorem IdsBelow.poll_ne (h : IdsBelow m) {id : Nat} {poll : Poll} (hid : m.polls.get? id = some poll) :
    m.nextId ≠ id := fun he => absurd (h.polls id poll hid) (by omega)

/-! ## The mode -/

/-- The state of `p` is made or renewed in `initPeerState`, or that of another peer. -/
theorem inited_mode {peer : PeerEndpoint} {ifName : IfName} {relayPort : Nat} {st : PeerState}
    (hst : (initPeerState m.peerStates peer ifName relayPort).get? p = some st) :
    (st.mode = .direct ∧ modeTarget p (.inited peer.id (!m.peerStates.has peer.id) :: m.trace) =
        .direct) ∨
      ∃ old, m.peerStates.get? p = some old ∧ st.mode = old.mode ∧
        modeTarget p (.inited peer.id (!m.peerStates.has peer.id) :: m.trace) =
          modeTarget p m.trace := by
  rcases of_get?_initPeerState _ hst with ⟨rfl, -, -, -, -, hmode⟩ | ⟨hne, hold⟩
  · cases hget : m.peerStates.get? peer.id with
    | none =>
      rw [hget] at hmode
      refine Or.inl ⟨hmode, ?_⟩
      have hhas : m.peerStates.has peer.id = false := (OMap.has_eq_false_iff _ _).mpr hget
      exact modeTarget_cons_some _ (b := none) (by simp [modeItem, hhas])
    | some old =>
      rw [hget] at hmode
      refine Or.inr ⟨old, rfl, hmode, modeTarget_cons_none _ (inited_plain fun _ => ?_).1⟩
      simp [OMap.has_of_get? hget]
  · exact Or.inr ⟨st, hold, rfl, modeTarget_cons_none _ (inited_plain fun he => absurd he hne).1⟩

/-- A switch sets the mode, or starts a handler that is to. -/
theorem modeKept_heard (hs : StepPaths m e m') (hheard : e.heard p = true) : m'.ModeKept p := by
  cases hs with
  | same quiet writes => cases quiet.symm.trans (isReceive_of_heard hheard)
  | noted unheard =>
    intro st hst
    cases (unheard p hheard).symm.trans hst
  | switched switch wait =>
    obtain rfl := (heard_iff switch).mp hheard
    exact fun st hst => Or.inr ⟨_, _, OMap.get?_set_self .., rfl,
      (modeTarget_received m.trace (targetFor_self switch)).symm⟩
  | cleared switch =>
    obtain rfl := (heard_iff switch).mp hheard
    intro st hst
    obtain ⟨-, -, -, -, -, -, hself, -⟩ := of_get?_setPeerMode _ hst
    exact Or.inl ((hself rfl).trans (modeTarget_received m.trace (targetFor_self switch)).symm)
  | _ => cases hheard

/-- **One step** keeps the mode, when no handler ends out of turn. -/
theorem modeKept_step (hs : StepPaths m e m') (hfresh : IdsBelow m) (hin : m.InTurn p e)
    (h : m.ModeKept p) : m'.ModeKept p := by
  by_cases hheard : e.heard p = true
  · exact modeKept_heard hs hheard
  cases hs with
  | same quiet writes => exact h
  | noted unheard =>
    intro st hst
    simp only [modeTarget_cons_none _ (not_heard hheard).1]
    exact h st hst
  | switched switch wait =>
    intro st hst
    have hmode : modeTarget p _ = modeTarget p m.trace :=
      modeTarget_cons_none m.trace (not_heard hheard).1
    refine (h st hst).imp (fun h => h.trans hmode.symm) fun ⟨id, t', hget, hpeer, htarget⟩ => ?_
    exact ⟨id, t', (OMap.get?_set_ne _ _ (hfresh.switch_ne hget)).trans hget, hpeer,
      htarget.trans hmode.symm⟩
  | cleared switch =>
    intro st hst
    rw [get?_setPeerMode_ne _ _ fun hp => hheard ((heard_iff switch).mpr hp)] at hst
    simp only [modeTarget_cons_none _ (not_heard hheard).1]
    exact h st hst
  | @applied id t get wait =>
    intro st hst
    refine (h st hst).imp (fun h => h) fun ⟨i, t', hget, hrest⟩ => ?_
    by_cases hi : id = i
    · subst hi
      cases get.symm.trans hget
      exact ⟨id, _, OMap.get?_set_self .., hrest⟩
    · exact ⟨i, t', (OMap.get?_set_ne _ _ hi).trans hget, hrest⟩
  | @done id t get applied =>
    intro st hst
    obtain ⟨old, hold, -, -, -, -, hself, hother⟩ := of_get?_setPeerMode _ hst
    by_cases hp : t.peerId = p
    · subst hp
      -- the handler has the target that counts, or another one that has it is still to end
      rcases hin t get applied rfl (OMap.has_of_get? hold) with htarget | ⟨x, hx, hne, hrest⟩
      · exact Or.inl ((hself rfl).trans htarget)
      · exact Or.inr ⟨x.1, x.2, (OMap.get?_delete_ne _ (Ne.symm hne)).trans
          ((OMap.mem_entries _ _ _).mp hx), hrest⟩
    · rw [hother (Ne.symm hp)]
      refine (h old hold).imp (fun h => h) fun ⟨i, t', hget, hpeer, htarget⟩ => ?_
      have hi : id ≠ i := by
        rintro rfl
        cases get.symm.trans hget
        exact hp hpeer
      exact ⟨i, t', (OMap.get?_delete_ne _ hi).trans hget, hpeer, htarget⟩
  | started => exact h
  | polled get move =>
    cases move with
    | goesOn left kept others plain =>
      intro st hst
      simp only [(plain_append plain p m.trace).1]
      exact h st (kept p st hst)
    | decided left turn => exact h
    | created stage success => exact h
    | configured stage success => exact h
    | unlinked stage => exact h
    | inited stage success kept others =>
      intro st hst
      rcases inited_mode (kept p st hst) with ⟨hmode, htarget⟩ | ⟨old, hold, hmode, htarget⟩
      · exact Or.inl (hmode.trans htarget.symm)
      · simp only [htarget, hmode]
        exact h old hold

/-! ## The endpoint -/

/-- A switch starts a handler that is to set the endpoint, or leaves it. -/
theorem aimKept_heard (hs : StepPaths m e m') (hheard : e.heard p = true) :
    m'.AimKept polls p := by
  have hnone : ∀ (msg : ServerMsg) (trace : List AgentItem),
      (targetFor p (.received msg)).isSome = true → aimed polls p (.received msg :: trace) = none := by
    intro msg trace h
    simp [aimed, h]
  intro a haimed _
  cases hs with
  | same quiet writes => cases quiet.symm.trans (isReceive_of_heard hheard)
  | noted unheard => cases (hnone _ _ hheard).symm.trans haimed
  | @switched now msg t switch wait =>
    obtain rfl := (heard_iff switch).mp hheard
    have ha : t.aim = a := by simpa [aimed] using haimed
    exact Or.inr (awaits_iff.mpr (Or.inl ⟨_, t, OMap.get?_set_self .., wait, ha⟩))
  | cleared switch => cases (hnone _ _ hheard).symm.trans haimed
  | _ => cases hheard

theorem Stage.rewrites_of_turn {stage : Stage} (h : stage.turn? = none) (n : IfName)
    (k : JsString) : stage.rewrites n k = none := by
  cases stage <;> first | rfl | cases h

/-- The endpoint is what the step gives, or stays, unless the interface is taken down. -/
theorem StepPaths.endpoint (hs : StepPaths m e m') (n : IfName) (k : JsString) :
    m'.trace = .unlinked n :: m.trace ∨
      m'.host.endpoint n k = (m.rewrites n k e).getD (m.host.endpoint n k) := by
  cases hs with
  | same quiet writes => exact Or.inr (by rw [writes n k]; rfl)
  | applied get wait =>
    right
    simp only [rewrites, get, Option.bind_some, wait, true_and, Host.endpoint_awgSet]
    split <;> rfl
  | @polled id poll ok draws m' get move =>
    have hrewrites : ∀ ok, m.rewrites n k (.pollStep id ok draws) =
        if ok = true then poll.stage.rewrites n k else none := by
      intro ok
      cases ok <;> simp [rewrites, get]
    rw [hrewrites]
    cases move with
    | created stage success =>
      simp only [success, stage, Stage.rewrites, if_true]
      right
      rw [Host.linkAdd, Host.endpoint_filter]
      split <;> rfl
    | @configured t rest stage success =>
      simp only [success, stage, Stage.rewrites, if_true, Host.endpoint_awgSet]
      right
      cases t.skipEndpoint with
      | true => simp
      | false =>
        simp only [true_and, Bool.false_eq_true, if_false]
        split <;> rfl
    | @unlinked q ifName stage =>
      by_cases hn : ifName = n
      · exact Or.inl (by rw [hn])
      · right
        simp only [stage, Stage.rewrites, ite_self, Option.getD_none]
        exact Host.endpoint_filter_ne _ (Ne.symm hn) _ _
    | inited stage success kept others => simp [stage, Stage.rewrites]
    | goesOn left kept others plain =>
      right
      split
      · rename_i hok
        rw [Stage.rewrites_of_turn (left hok)]
        rfl
      · rfl
    | decided left turn =>
      right
      split
      · rename_i hok
        rw [Stage.rewrites_of_turn (left hok)]
        rfl
      · rfl
  | _ => exact Or.inr rfl

/-- What was last to be set after a step was so before it, or is about to be set. -/
theorem aimed_before (hs : StepPaths m e m') {a : Aim} (haimed : aimed polls p m'.trace = some a) :
    (aimed polls p m.trace = some a ∧ m'.trace ≠ .unlinked a.ifName :: m.trace) ∨
      m'.awaits a = true := by
  have hself : ∀ it : AgentItem, m.trace ≠ it :: m.trace := fun it h => List.cons_ne_self _ _ h.symm
  cases hs with
  | noted unheard => exact Or.inl ⟨aimed_received haimed, by simp⟩
  | @switched now msg t switch wait =>
    by_cases hp : t.peerId = p
    · have ha : t.aim = a := by simpa [aimed, hp] using haimed
      exact Or.inr (awaits_iff.mpr (Or.inl ⟨_, t, OMap.get?_set_self .., wait, ha⟩))
    · exact Or.inl ⟨aimed_received (((switching_plain hp).2 polls _).symm.trans haimed), by simp⟩
  | cleared switch => exact Or.inl ⟨aimed_received haimed, by simp⟩
  | started => exact Or.inl ⟨haimed, by simp⟩
  | polled get move =>
    cases move with
    | @goesOn states polls' l left kept others plain =>
      refine Or.inl ⟨((plain_append plain p m.trace).2 polls).symm.trans haimed, fun h => ?_⟩
      -- an item that takes an interface down is not plain
      have hl : l = [.unlinked a.ifName] := List.append_cancel_right h
      have hplain := (plain (.unlinked a.ifName) (by simp [hl]) p).2 true
        [.decided ⟨⟨p, [], [], [], 0⟩, a.ifName, 0, false⟩]
      simp [aimed, Target.aim, Option.filter] at hplain
    | @decided poll' t left turn =>
      rw [aimed_decided] at haimed
      split at haimed
      · rename_i ht
        refine Or.inr (awaits_iff.mpr (Or.inr ⟨_, poll', OMap.get?_set_self .., ?_⟩))
        exact Stage.aim?_eq_some.mpr ⟨t, turn, ht.2.2, Option.some.inj haimed⟩
      · exact Or.inl ⟨haimed, by simp⟩
    | unlinked stage =>
      obtain ⟨hbefore, hne⟩ := aimed_unlinked _ haimed
      exact Or.inl ⟨hbefore, by simpa using Ne.symm hne⟩
    | inited stage success kept others => exact Or.inl ⟨haimed, by simp⟩
    | created stage success => exact Or.inl ⟨haimed, hself _⟩
    | configured stage success => exact Or.inl ⟨haimed, hself _⟩
  | _ => exact Or.inl ⟨haimed, hself _⟩

/-- A handler that is about to set an endpoint still is after a step, unless the step sets it. -/
theorem StepPaths.switch_waits (hs : StepPaths m e m') (hfresh : IdsBelow m) {i : Nat} {t : Switch}
    (hget : m.switches.get? i = some t) (hwait : t.applied = false) (hne : t.endpoint ≠ []) :
    m.rewrites t.ifName t.pubkey e = some t.endpoint ∨ m'.switches.get? i = some t := by
  cases hs with
  | switched switch wait =>
    exact Or.inr ((OMap.get?_set_ne _ _ (hfresh.switch_ne hget)).trans hget)
  | @applied id t' get wait =>
    by_cases hi : id = i
    · subst hi
      exact Or.inl (by simp [rewrites, hget, hwait, hne])
    · exact Or.inr ((OMap.get?_set_ne _ _ hi).trans hget)
  | @done id t' get applied =>
    have hi : id ≠ i := by
      rintro rfl
      cases get.symm.trans hget
      rw [hwait] at applied
      cases applied
    exact Or.inr ((OMap.get?_delete_ne _ hi).trans hget)
  | polled get move => cases move <;> exact Or.inr hget
  | _ => exact Or.inr hget

/-- So does a poll, unless it fails to. -/
theorem StepPaths.poll_waits (hs : StepPaths m e m') (hfresh : IdsBelow m) {i : Nat} {poll : Poll}
    {t : Target} (hget : m.polls.get? i = some poll) (hturn : poll.stage.turn? = some t)
    (hskip : t.skipEndpoint = false) (hne : t.peer.endpoint ≠ []) (hmiss : m.misses e ≠ some t.aim) :
    m.rewrites t.ifName t.peer.pubkey e = some t.peer.endpoint ∨
      ∃ id poll, m'.polls.get? id = some poll ∧ poll.stage.turn? = some t := by
  cases hs with
  | started =>
    exact Or.inr ⟨i, poll, (OMap.get?_set_ne _ _ (hfresh.poll_ne hget)).trans hget, hturn⟩
  | @polled id poll0 ok draws m' get move =>
    by_cases hi : id = i
    · subst hi
      cases get.symm.trans hget
      have hleft : ¬ (ok = true → poll.stage.turn? = none) := by
        cases ok with
        | true => simp [hturn]
        | false =>
          refine fun _ => hmiss ?_
          simp only [misses, get, Option.bind_some]
          exact Stage.aim?_eq_some.mpr ⟨t, hturn, hskip, rfl⟩
      cases move with
      | goesOn left kept others plain => exact absurd left hleft
      | decided left turn => exact absurd left hleft
      | created stage success =>
        rw [stage, Stage.turn?, Option.some.injEq] at hturn
        exact Or.inr ⟨id, _, OMap.get?_set_self .., by rw [← hturn]; rfl⟩
      | configured stage success =>
        rw [stage, Stage.turn?, Option.some.injEq] at hturn
        subst hturn success
        exact Or.inl (by simp [rewrites, get, stage, Stage.rewrites, hskip, hne])
      | unlinked stage =>
        rw [stage] at hturn
        cases hturn
      | inited stage success kept others =>
        rw [stage] at hturn
        cases hturn
    · right
      refine ⟨i, poll, ?_, hturn⟩
      cases move with
      | goesOn left kept others plain => exact (others i hi).trans hget
      | inited stage success kept others => exact (others i hi).trans hget
      | _ => exact (OMap.get?_set_ne _ _ hi).trans hget
  | _ => exact Or.inr ⟨i, poll, hget, hturn⟩

/-- What is about to be set is set by a step, or still is about to be. -/
theorem StepPaths.awaits (hs : StepPaths m e m') (hfresh : IdsBelow m) {a : Aim}
    (hawaits : m.awaits a = true) (hne : a.endpoint ≠ []) (hmiss : m.misses e ≠ some a) :
    m.rewrites a.ifName a.key e = some a.endpoint ∨ m'.awaits a = true := by
  rcases awaits_iff.mp hawaits with ⟨id, t, hget, hwait, rfl⟩ | ⟨id, poll, hget, haim⟩
  · exact (hs.switch_waits hfresh hget hwait hne).imp (fun h => h) fun h =>
      awaits_iff.mpr (Or.inl ⟨id, t, h, hwait, rfl⟩)
  · obtain ⟨t, hturn, hskip, rfl⟩ := Stage.aim?_eq_some.mp haim
    refine (hs.poll_waits hfresh hget hturn hskip hne hmiss).imp (fun h => h) ?_
    rintro ⟨id', poll', hget', hturn'⟩
    exact awaits_iff.mpr (Or.inr ⟨id', poll', hget',
      Stage.aim?_eq_some.mpr ⟨t, hturn', hskip, rfl⟩⟩)

/-- **One step** keeps the endpoint that was last to be set, when it does it no harm. -/
theorem aimKept_step (hs : StepPaths m e m') (hfresh : IdsBelow m) (hspares : m.Spares polls p e)
    (h : m.AimKept polls p) : m'.AimKept polls p := by
  intro a haimed hne
  rcases aimed_before hs haimed with ⟨hbefore, hlinked⟩ | hawaits
  swap
  · exact Or.inr hawaits
  obtain ⟨hwrite, hmiss⟩ := hspares a hbefore hne
  have hend := (hs.endpoint a.ifName a.key).resolve_left hlinked
  cases hawaits : m.awaits a with
  | true =>
    refine (hs.awaits hfresh hawaits hne hmiss).imp (fun hset => ?_) fun h => h
    rw [hend, hset]
    rfl
  | false =>
    left
    rw [hend]
    cases hwrites : m.rewrites a.ifName a.key e with
    | none => exact (h a hbefore hne).resolve_right (by simp [hawaits])
    | some x => exact hwrite hawaits x hwrites

/-- A poll that has decided to set an endpoint is about to. -/
theorem decided_awaits (hs : StepPaths m e m') {t : Target} (hskip : t.skipEndpoint = false)
    (htrace : m'.trace = .decided t :: m.trace) : m'.awaits t.aim = true := by
  have hself : ∀ it : AgentItem, m.trace ≠ it :: m.trace := fun it h => List.cons_ne_self _ _ h.symm
  cases hs with
  | same quiet writes => exact absurd htrace (hself _)
  | applied get wait => exact absurd htrace (hself _)
  | done get applied => exact absurd htrace (hself _)
  | polled get move =>
    cases move with
    | @goesOn states polls l left kept others plain =>
      have hl : l = [.decided t] := List.append_cancel_right htrace
      have hplain := (plain (.decided t) (by simp [hl]) t.peer.id).2 true []
      simp [aimed, hskip] at hplain
    | decided left turn =>
      simp only [List.cons.injEq, AgentItem.decided.injEq, and_true] at htrace
      subst htrace
      exact awaits_iff.mpr (Or.inr ⟨_, _, OMap.get?_set_self ..,
        Stage.aim?_eq_some.mpr ⟨_, turn, hskip, rfl⟩⟩)
    | created stage success => exact absurd htrace (hself _)
    | configured stage success => exact absurd htrace (hself _)
    | unlinked stage => simp at htrace
    | inited stage success kept others => simp at htrace
  | _ => simp at htrace

theorem aimKept_aims {s : Agent} (h : Aims p s e) : (agentStep s e).paths.AimKept true p := by
  rcases h with hheard | ⟨t, htrace, hid, hskip⟩
  · exact aimKept_heard (paths_agentStep s e) hheard
  · intro a haimed _
    have ht : aimed true p (.decided t :: s.trace) = some t.aim := by
      rw [aimed_decided, if_pos ⟨rfl, hid, hskip⟩]
    cases (ht.symm.trans (htrace ▸ haimed) : some t.aim = some a)
    exact Or.inr (decided_awaits (paths_agentStep s e) hskip htrace)

end

/-! ## Runs -/

theorem idsBelow_agentStep (s : Agent) (e : AgentEvent) (h : IdsBelow s.paths) :
    IdsBelow (agentStep s e).paths := idsBelow_step (paths_agentStep s e) h

section
variable {range : PortRange} {host : Host} {file : MappingFile} {es : List AgentEvent} {p : PeerId}

theorem idsBelow_boot : IdsBelow (Agent.boot range host file).paths where
  polls _ _ h := by cases h
  switches _ _ h := by cases h

/-- Ids are fresh along every run. -/
theorem idsBelow_along :
    Along agentStep (fun s _ => IdsBelow s.paths) (.boot range host file) es :=
  along_of_invariant agentStep (fun s e h _ => idsBelow_agentStep s e h) (fun _ _ h _ => h)
    idsBelow_boot (along_of_forall agentStep (fun _ _ => True) (fun _ _ => trivial) _ es)

theorem modeKept_run (h : SinceHeard p (InTurn p) (.boot range host file) es) :
    (run agentStep (.boot range host file) es).paths.ModeKept p :=
  run_invariant_since agentStep (I := fun s => s.paths.ModeKept p)
    (fun s e _ he => modeKept_heard (paths_agentStep s e) he)
    (fun s e hfresh hs he => modeKept_step (paths_agentStep s e) hfresh he hs) idsBelow_along
    (fun _ h => by cases h) h

theorem relayAim_run (h : SinceHeard p (Spares false p) (.boot range host file) es) :
    (run agentStep (.boot range host file) es).paths.AimKept false p :=
  run_invariant_since agentStep (I := fun s => s.paths.AimKept false p)
    (fun s e _ he => aimKept_heard (paths_agentStep s e) he)
    (fun s e hfresh hs he => aimKept_step (paths_agentStep s e) hfresh he hs) idsBelow_along
    (fun _ h => by cases h) h

theorem directAim_run (h : SinceAimed p (Spares true p) (.boot range host file) es) :
    (run agentStep (.boot range host file) es).paths.AimKept true p :=
  run_invariant_since agentStep (I := fun s => s.paths.AimKept true p)
    (fun _ _ _ he => aimKept_aims he)
    (fun s e hfresh hs he => aimKept_step (paths_agentStep s e) hfresh he hs) idsBelow_along
    (fun _ h => by cases h) h

end

section
variable {s : Agent} (h : s.Settled)
include h

theorem Agent.Settled.no_switch (id : Nat) : s.switches.get? id = none := by
  cases hget : s.switches.get? id with
  | none => rfl
  | some t =>
    have hmem := (OMap.mem_entries s.switches id t).mpr hget
    rw [h.1] at hmem
    cases hmem

theorem Agent.Settled.not_awaits (a : Aim) : s.paths.awaits a = false := by
  rw [Bool.eq_false_iff, Ne, awaits_iff]
  rintro (⟨id, t, hget, -⟩ | ⟨id, poll, hget, haim⟩)
  · cases (h.no_switch id).symm.trans hget
  · have hstage := h.2 _ ((OMap.mem_entries s.polls id poll).mpr hget)
    have hturn : poll.stage.turn? = none := by
      cases hs : poll.stage with
      | reporting => rfl
      | binding => rfl
      | _ =>
        rw [hs] at hstage
        cases hstage
    cases (Stage.aim_of_turn hturn).symm.trans haim

theorem Agent.Settled.mode {p : PeerId} (hkept : s.paths.ModeKept p) {st : PeerState}
    (hst : s.peerStates.get? p = some st) : st.mode = modeTarget p s.trace := by
  refine (hkept st hst).resolve_right ?_
  rintro ⟨id, t, hget, -⟩
  cases (h.no_switch id).symm.trans hget

theorem Agent.Settled.endpoint {polls : Bool} {p : PeerId} (hkept : s.paths.AimKept polls p) {a : Aim}
    (haimed : aimed polls p s.trace = some a) (hne : a.endpoint ≠ []) :
    s.host.endpoint a.ifName a.key = a.endpoint :=
  (hkept a haimed hne).resolve_right (by simp [h.not_awaits a])

end

/-! ## Top theorem -/

def forceTo (mode : ForcedMode) : AgentEvent := .receive 5 (.forceMode [98] (.force mode))

def pollSteps (id n : Nat) : List AgentEvent := List.replicate n (.pollStep id true [5])

/-- The peer is forced to relay after the first poll. -/
def forceRun : List AgentEvent := firstPoll ++ [forceTo .forceRelay, .awgApplied 1, .switchDone 1]

/-- The peer is forced to relay while a poll is about to set its direct endpoint, and the poll's
`awg set` takes effect first. -/
def meetingRun : List AgentEvent :=
  firstPoll ++ [.startPoll onePeer, .pollStep 1 true [], forceTo .forceRelay, .pollStep 1 true [],
    .awgApplied 2, .switchDone 2] ++ pollSteps 1 3

/-- The peer is forced to relay before the first poll, when it has no state. -/
def earlyRun : List AgentEvent := forceTo .forceRelay :: firstPoll

/-- The switch comes and goes between a poll's decision and its `awg set`. -/
def racingRun : List AgentEvent :=
  firstPoll ++ [.startPoll onePeer, .pollStep 1 true [], forceTo .forceRelay, .awgApplied 2,
    .switchDone 2] ++ pollSteps 1 4

/-- Of two switches the first is the last whose handler ends. -/
def swappedRun : List AgentEvent :=
  firstPoll ++ [forceTo .forceRelay, forceTo .forceDirect, .awgApplied 1, .awgApplied 2,
    .switchDone 2, .switchDone 1]

/-- Of two switches the first is the last whose `awg set` takes effect. -/
def overtakenRun : List AgentEvent :=
  firstPoll ++ [forceTo .forceDirect, forceTo .forceRelay, .awgApplied 2, .awgApplied 1,
    .switchDone 1, .switchDone 2]

/-- A peer on relay gets a new key. -/
def newKeyRun : List AgentEvent :=
  forceRun ++ .startPoll ⟨[⟨[98], [108], [10], [69], 0⟩], by decide⟩ :: pollSteps 2 5

/-- A peer on relay is removed, and the poll has not come to its end. -/
def removedRun : List AgentEvent := forceRun ++ .startPoll noPeer :: pollSteps 2 5

/-- The one peer has moved to another endpoint. -/
def movedPeer : PeerConfig := ⟨[⟨[98], [107], [10], [70], 0⟩], by decide⟩

/-- A frozen peer moves. -/
def frozenRun : List AgentEvent :=
  firstPoll ++ [.receive 5 (.probeRelayServe [98]), .startPoll movedPeer] ++ pollSteps 1 5

/-- A peer moves, and the poll has not come to its end. -/
def movedRun : List AgentEvent := firstPoll ++ .startPoll movedPeer :: pollSteps 1 3

/-- Of two polls the first is the last to set the endpoint, and the second is the last to end. -/
def crossedRun : List AgentEvent :=
  firstPoll ++ [.startPoll onePeer, .startPoll movedPeer] ++ pollSteps 1 1 ++ pollSteps 2 2 ++
    pollSteps 1 4 ++ pollSteps 2 3

/-- The interface cannot be made. -/
def noLinkRun : List AgentEvent :=
  [.startPoll onePeer, .pollStep 0 true [5], .pollStep 0 false [5]] ++ pollSteps 0 5

end Meshezia
