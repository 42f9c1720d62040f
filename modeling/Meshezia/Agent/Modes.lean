import Meshezia.Lib.History
import Meshezia.Agent.Step

/-!
# The recorded mode and the endpoint on the host

`ModesAgree` is what one would like of an agent with nothing in flight: each peer is in the
mode of the last switch received for it, and its interface has the endpoint of that mode.
`ModeKept` and `AimKept` are what the code keeps of one peer while other steps are under way:
the one as long as no handler ends out of turn (`InTurn`), the other as long as no command
overwrites the endpoint that was last to be set (`Spares`).
-/

namespace Meshezia

/-! ## What is claimed -/

def AgentItem.switch? : AgentItem → Option (PeerId × Mode)
  | .received msg => msg.switch?
  | _ => none

/-- The target of a switch of `p`. -/
def targetFor (p : PeerId) (it : AgentItem) : Option Mode :=
  match it.switch? with
  | some (q, target) => if q = p then some target else none
  | none => none

/-- The mode of the last switch received for `p`, direct if there was none. -/
def lastTarget (p : PeerId) (trace : List AgentItem) : Mode :=
  match latest (targetFor p) trace with
  | some (target, _) => target
  | none => .direct

/-- A reconcile has started and ended since the last switch for `p`. -/
def reconciledSince (p : PeerId) (trace : List AgentItem) : Bool :=
  let since := trace.takeWhile fun it => (targetFor p it).isNone
  since.any fun
    | .reconciled id => since.contains (.reconcileStarted id)
    | _ => false

/-- `reconcile` is under way. -/
def Stage.reconciling : Stage → Bool
  | .reporting => false
  | .binding _ _ _ _ _ _ _ => false
  | _ => true

/-- No handler and no `reconcile` is in flight. -/
def Agent.Settled (s : Agent) : Prop :=
  s.switches.entries = [] ∧ ∀ e ∈ s.polls.entries, e.2.stage.reconciling = false

instance (s : Agent) : Decidable s.Settled :=
  inferInstanceAs (Decidable (_ ∧ ∀ e ∈ s.polls.entries, _))

def ModeAgrees (s : Agent) (p : PeerId) (st : PeerState) : Prop :=
  st.mode = lastTarget p s.trace ∧
  (st.mode = .relay → s.host.endpoint st.ifName st.pubkey = loopback st.relayPort) ∧
  (st.mode = .direct → st.directEndpoint ≠ [] → reconciledSince p s.trace = true →
    s.host.endpoint st.ifName st.pubkey = st.directEndpoint)

instance (s : Agent) (p : PeerId) (st : PeerState) : Decidable (ModeAgrees s p st) :=
  inferInstanceAs (Decidable (_ ∧ (_ → _) ∧ (_ → _ → _ → _)))

def ModesAgree (s : Agent) : Prop :=
  ∀ p st, s.peerStates.get? p = some st → ModeAgrees s p st

instance (s : Agent) : Decidable (ModesAgree s) :=
  decidable_of_iff (∀ e ∈ s.peerStates.entries, ModeAgrees s e.1 e.2)
    ⟨fun h p st hp => h (p, st) ((OMap.mem_entries _ _ _).mpr hp),
      fun h e he => h e.1 e.2 ((OMap.mem_entries _ _ _).mp he)⟩

/-! ## What the history says of a peer -/

/-- A switch of `p`, or the creation of its state (`none`). -/
def modeItem (p : PeerId) : AgentItem → Option (Option Mode)
  | .inited q true => if q = p then some none else none
  | it => (targetFor p it).map some

/-- The mode of the last switch received for `p` since its state was made. -/
def modeTarget (p : PeerId) (trace : List AgentItem) : Mode :=
  match latest (modeItem p) trace with
  | some (some target, _) => target
  | _ => .direct

/-- An endpoint to set: the interface, the key of its peer, and the endpoint. -/
structure Aim where
  ifName : IfName
  key : JsString
  endpoint : JsString
deriving DecidableEq, Repr

def Switch.aim (t : Switch) : Aim := ⟨t.ifName, t.pubkey, t.endpoint⟩

def Target.aim (t : Target) : Aim := ⟨t.ifName, t.peer.pubkey, t.peer.endpoint⟩

/-- The endpoint that a peer in relay mode is to have. -/
def PeerState.relayAim (st : PeerState) : Aim := ⟨st.ifName, st.pubkey, loopback st.relayPort⟩

/-- The endpoint that a peer in direct mode is to have. -/
def PeerState.directAim (st : PeerState) : Aim := ⟨st.ifName, st.pubkey, st.directEndpoint⟩

/-- What the last switch of `p`, or poll that decided to set its endpoint (with `polls`), was to
set, unless the interface has been taken down since. -/
def aimed (polls : Bool) (p : PeerId) : List AgentItem → Option Aim
  | [] => none
  | .switching t :: trace => if t.peerId = p then some t.aim else aimed polls p trace
  | .decided t :: trace =>
    if polls = true ∧ t.peer.id = p ∧ t.skipEndpoint = false then some t.aim
    else aimed polls p trace
  | .unlinked n :: trace => (aimed polls p trace).filter fun a => decide (a.ifName ≠ n)
  | it :: trace => if (targetFor p it).isSome then none else aimed polls p trace

/-! ## Writes of endpoints -/

/-- What the poll is about to configure. -/
def Stage.turn? : Stage → Option Target
  | .creating t _ => some t
  | .setting t _ => some t
  | _ => none

/-- The endpoint that the poll is about to set. -/
def Stage.aim? (stage : Stage) : Option Aim :=
  (stage.turn?.filter fun t => !t.skipEndpoint).map Target.aim

/-- The endpoint that the peer `key` of the interface gets when what the poll awaits takes
effect, if that bears on it; an interface that is made has none. -/
def Stage.rewrites (ifName : IfName) (key : JsString) : Stage → Option JsString
  | .creating t _ => if t.ifName = ifName then some [] else none
  | .setting t _ =>
    if t.ifName = ifName ∧ t.peer.pubkey = key ∧ t.skipEndpoint = false ∧ t.peer.endpoint ≠ [] then
      some t.peer.endpoint
    else none
  | _ => none

def AgentEvent.isReceive : AgentEvent → Bool
  | .receive _ _ => true
  | _ => false

/-- The event is a switch received for `p`. -/
def AgentEvent.heard (p : PeerId) : AgentEvent → Bool
  | .receive _ msg => (targetFor p (.received msg)).isSome
  | _ => false

/-- What of an agent modes and endpoints depend on. -/
structure Paths where
  host : Host
  peerStates : PeerStates
  switches : OMap Nat Switch
  polls : OMap Nat Poll
  nextId : Nat
  trace : List AgentItem

def Agent.paths (s : Agent) : Paths :=
  ⟨s.host, s.peerStates, s.switches, s.polls, s.nextId, s.trace⟩

namespace Paths

/-- The endpoint that a step gives to the peer `key` of the interface. -/
def rewrites (m : Paths) (ifName : IfName) (key : JsString) : AgentEvent → Option JsString
  | .awgApplied id => (m.switches.get? id).bind fun t =>
      if t.applied = false ∧ t.ifName = ifName ∧ t.pubkey = key ∧ t.endpoint ≠ [] then
        some t.endpoint
      else none
  | .pollStep id true _ => (m.polls.get? id).bind fun poll => poll.stage.rewrites ifName key
  | _ => none

/-- The endpoint that the poll was about to set that fails in the step. -/
def misses (m : Paths) : AgentEvent → Option Aim
  | .pollStep id false _ => (m.polls.get? id).bind fun poll => poll.stage.aim?
  | _ => none

/-- A handler or a poll under way is about to set the endpoint. -/
def awaits (m : Paths) (a : Aim) : Bool :=
  (m.switches.entries.any fun e => !e.2.applied && decide (e.2.aim = a)) ||
    m.polls.entries.any fun e => decide (e.2.stage.aim? = some a)

/-! ## Steps that do a peer no harm -/

/-- The handler of a switch of `p` that ends has the target of the last one received, or one
that has it is still to end. -/
def InTurn (p : PeerId) (m : Paths) : AgentEvent → Prop
  | .switchDone id => ∀ t ∈ m.switches.get? id, t.applied = true → t.peerId = p →
      m.peerStates.has p = true → t.target = modeTarget p m.trace ∨
        ∃ e ∈ m.switches.entries, e.1 ≠ id ∧ e.2.peerId = p ∧ e.2.target = modeTarget p m.trace
  | _ => True

/-- The endpoint that was last to be set for `p` is not overwritten once it is set, and the
commands by which a poll sets it succeed. -/
def Spares (polls : Bool) (p : PeerId) (m : Paths) (e : AgentEvent) : Prop :=
  ∀ a ∈ aimed polls p m.trace, a.endpoint ≠ [] →
    (m.awaits a = false → ∀ x ∈ m.rewrites a.ifName a.key e, x = a.endpoint) ∧
      m.misses e ≠ some a

instance (p : PeerId) (m : Paths) : (e : AgentEvent) → Decidable (m.InTurn p e)
  | .switchDone _ => inferInstanceAs (Decidable (∀ t ∈ _, _ → _ → _ → _ ∨ _))
  | .receive _ _ | .awgApplied _ | .startPoll _ | .pollStep _ _ _ | .probeFailed _ | .tick _
  | .wsClose => isTrue trivial

instance (polls : Bool) (p : PeerId) (m : Paths) (e : AgentEvent) :
    Decidable (m.Spares polls p e) :=
  inferInstanceAs (Decidable (∀ a ∈ aimed polls p m.trace, _ →
    (_ → ∀ x ∈ m.rewrites a.ifName a.key e, _) ∧ _))

/-! ## What is kept -/

/-- The mode is that of the last switch, or a handler is to set it. -/
def ModeKept (p : PeerId) (m : Paths) : Prop :=
  ∀ st, m.peerStates.get? p = some st → st.mode = modeTarget p m.trace ∨
    ∃ id t, m.switches.get? id = some t ∧ t.peerId = p ∧ t.target = modeTarget p m.trace

instance (p : PeerId) (m : Paths) : Decidable (m.ModeKept p) :=
  decidable_of_iff (∀ st ∈ m.peerStates.get? p, st.mode = modeTarget p m.trace ∨
      ∃ e ∈ m.switches.entries, e.2.peerId = p ∧ e.2.target = modeTarget p m.trace)
    (by simp only [ModeKept, Option.mem_def, Prod.exists, OMap.mem_entries])

/-- The endpoint that was last to be set for `p` is set, or is about to be. -/
def AimKept (polls : Bool) (p : PeerId) (m : Paths) : Prop :=
  ∀ a, aimed polls p m.trace = some a → a.endpoint ≠ [] →
    m.host.endpoint a.ifName a.key = a.endpoint ∨ m.awaits a = true

end Paths

/-! ## History items -/

/-- An item that bears on no mode and no endpoint of `p`. -/
def AgentItem.Plain (p : PeerId) (it : AgentItem) : Prop :=
  modeItem p it = none ∧ ∀ polls trace, aimed polls p (it :: trace) = aimed polls p trace

section
variable {polls : Bool} {p q : PeerId} {it : AgentItem} (trace : List AgentItem)

theorem modeTarget_cons_none (h : modeItem p it = none) :
    modeTarget p (it :: trace) = modeTarget p trace := by
  unfold modeTarget
  rw [latest_cons_none h]

theorem modeTarget_cons_some {b : Option Mode} (h : modeItem p it = some b) :
    modeTarget p (it :: trace) = b.getD .direct := by
  unfold modeTarget
  rw [latest_cons_some h]
  cases b <;> rfl

/-- The creation of the state of another peer, and the renewal of a state, bear on nothing. -/
theorem inited_plain {created : Bool} (h : q = p → created = false) :
    (AgentItem.inited q created).Plain p := by
  refine ⟨?_, fun polls trace => rfl⟩
  cases created with
  | false => rfl
  | true =>
    simp only [modeItem, ite_eq_right_iff]
    intro hq
    cases h hq

theorem received_plain {msg : ServerMsg} (h : targetFor p (.received msg) = none) :
    (AgentItem.received msg).Plain p :=
  ⟨by simp [modeItem, h], fun polls trace => by simp [aimed, h]⟩

theorem modeTarget_received {msg : ServerMsg} {target : Mode}
    (h : targetFor p (.received msg) = some target) :
    modeTarget p (.received msg :: trace) = target := by
  rw [modeTarget_cons_some trace (b := some target) (by simp [modeItem, h])]
  rfl

theorem switching_plain {t : Switch} (h : t.peerId ≠ p) : (AgentItem.switching t).Plain p :=
  ⟨rfl, fun polls trace => by simp [aimed, h]⟩

theorem aimed_decided (t : Target) :
    aimed polls p (.decided t :: trace) =
      if polls = true ∧ t.peer.id = p ∧ t.skipEndpoint = false then some t.aim
      else aimed polls p trace := rfl

/-- What was last to be set after an interface is taken down is on another one. -/
theorem aimed_unlinked {n : IfName} {a : Aim} (h : aimed polls p (.unlinked n :: trace) = some a) :
    aimed polls p trace = some a ∧ a.ifName ≠ n := by
  simpa [aimed, Option.filter_eq_some_iff] using h

end

end Meshezia
