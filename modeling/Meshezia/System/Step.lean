import Meshezia.Agent.Modes
import Meshezia.Server.Switches

/-!
# The server and its agents

The messages of the server are in flight until an agent receives them, in the order in
which they were sent; a socket that drops loses what is in flight on it.  An agent that
restarts starts anew from what is on its disk.  What agents send is not tied to their
states: the server may receive any message at any time.

* `EndsAgree`: the two ends of a pair are in the same mode, the forced one while it is forced.
* `Quiescent`: nothing is under way for the pair.
* `Synced`: the two ends were told the same last; `Lossless`: neither end loses a switch.
-/

namespace Meshezia

/-! ## Data -/

/-- What an agent starts from. -/
structure Boot where
  range : PortRange
  host : Host
  file : MappingFile

def Boot.agent (boot : Boot) : Agent := .boot boot.range boot.host boot.file

/-- `wires p` is what is in flight to `p`, newest first. -/
structure System where
  server : ServerState
  agents : PeerId → Agent
  wires : PeerId → List (Ws × ServerMsg)

inductive SystemEvent where
  | server (e : Event)
  | deliver (p : PeerId) (now : Int)
  | lose (ws : Ws)
  | agent (p : PeerId) (e : AgentEvent)
  | restart (p : PeerId) (boot : Boot)

/-! ## Algorithm -/

/-- The message of the item, if it is sent to `p`. -/
def TraceItem.sentTo (p : PeerId) : TraceItem → Option (Ws × ServerMsg)
  | .sent dest ws msg _ => if dest = p then some (ws, msg) else none
  | _ => none

/-- The items that a step has added. -/
def newItems (s s' : ServerState) : List TraceItem :=
  s'.trace.take (s'.trace.length - s.trace.length)

namespace System

def init (db : Db) (boots : PeerId → Boot) : System where
  server := .init db
  agents p := (boots p).agent
  wires _ := []

def serve (cfg : Config) (σ : System) (e : Event) : System where
  server := step cfg σ.server e
  agents := σ.agents
  wires p := (newItems σ.server (step cfg σ.server e)).filterMap (TraceItem.sentTo p) ++ σ.wires p

/-- `p` receives the oldest message in flight to it. -/
def deliver (σ : System) (p : PeerId) (now : Int) : System :=
  match (σ.wires p).getLast? with
  | none => σ
  | some (_, msg) =>
    { σ with agents := Function.update σ.agents p ((σ.agents p).receive now msg)
             wires := Function.update σ.wires p (σ.wires p).dropLast }

def lose (σ : System) (ws : Ws) : System :=
  { σ with wires :=
      Function.update σ.wires ws.peerId ((σ.wires ws.peerId).filter fun x => x.1 ≠ ws) }

/-- `p` takes a step of its own; it receives messages by `deliver` only. -/
def act (σ : System) (p : PeerId) (e : AgentEvent) : System :=
  if e.isReceive then σ
  else { σ with agents := Function.update σ.agents p (agentStep (σ.agents p) e) }

def reboot (σ : System) (p : PeerId) (boot : Boot) : System :=
  { σ with agents := Function.update σ.agents p boot.agent, wires := Function.update σ.wires p [] }

end System

def systemStep (cfg : Config) (σ : System) : SystemEvent → System
  | .server e => σ.serve cfg e
  | .deliver p now => σ.deliver p now
  | .lose ws => σ.lose ws
  | .agent p e => σ.act p e
  | .restart p boot => σ.reboot p boot

/-! ## What is claimed -/

/-- Nothing is under way for the pair. -/
def Quiescent (σ : System) (a b : PeerId) : Prop :=
  σ.server.isConnected a = true ∧ σ.server.isConnected b = true ∧ σ.wires a = [] ∧ σ.wires b = [] ∧
    σ.server.activeNegotiations.has (pairKey a b) = false ∧
    (σ.agents a).Settled ∧ (σ.agents b).Settled

instance (σ : System) (a b : PeerId) : Decidable (Quiescent σ a b) :=
  inferInstanceAs (Decidable (_ ∧ _ ∧ _ ∧ _ ∧ _ ∧ _ ∧ _))

/-- The mode `p` holds for `q`. -/
def System.modeOf (σ : System) (p q : PeerId) : Option Mode :=
  ((σ.agents p).peerStates.get? q).map PeerState.mode

def EndsAgree (σ : System) (a b : PeerId) : Prop :=
  (∀ m ∈ σ.modeOf a b, ∀ m' ∈ σ.modeOf b a, m = m') ∧
    ∀ f ∈ forcedTo (pairKey a b) σ.server.log,
      (∀ m ∈ σ.modeOf a b, m = f.mode) ∧ ∀ m ∈ σ.modeOf b a, m = f.mode

instance (σ : System) (a b : PeerId) : Decidable (EndsAgree σ a b) :=
  inferInstanceAs (Decidable ((∀ m ∈ σ.modeOf a b, ∀ m' ∈ σ.modeOf b a, _) ∧
    ∀ f ∈ forcedTo (pairKey a b) σ.server.log, _ ∧ ∀ m ∈ σ.modeOf b a, _))

/-! ## Conditions -/

/-- The mode of a switch about `q`. -/
def switchAbout (q : PeerId) (msg : ServerMsg) : Option Mode :=
  match msg.switch? with
  | some (x, mode) => if x = q then some mode else none
  | none => none

/-- The newest switch about `q` in flight to `p`. -/
def System.inFlight (σ : System) (p q : PeerId) : Option Mode :=
  (σ.wires p).findSome? fun x => switchAbout q x.2

/-- The mode of the last switch about `q` that `p` has received or is going to receive, direct
if there is none since it made its state of `q`. -/
def System.told (σ : System) (p q : PeerId) : Mode :=
  (σ.inFlight p q).getD (modeTarget q (σ.agents p).trace)

/-- The agent makes its state of `q` in the step. -/
def Agent.Makes (s : Agent) (e : AgentEvent) (q : PeerId) : Prop :=
  (agentStep s e).trace = .inited q true :: s.trace

instance (s : Agent) (e : AgentEvent) (q : PeerId) : Decidable (s.Makes e q) :=
  inferInstanceAs (Decidable (_ = _))

def SystemEvent.idsOk : SystemEvent → Prop
  | .server e => e.idsOk
  | _ => True

instance : (e : SystemEvent) → Decidable e.idsOk
  | .server e => inferInstanceAs (Decidable e.idsOk)
  | .deliver _ _ | .lose _ | .agent _ _ | .restart _ _ => isTrue trivial

/-- While the pair is forced, its force is stored and the server removes neither of its peers. -/
def ForceLasts (cfg : Config) (a b : PeerId) (σ : System) : SystemEvent → Prop
  | .server e => ∀ f ∈ forcedTo (pairKey a b) (step cfg σ.server e).log,
      PairForceStored a b σ.server e ∧ (step cfg σ.server e).db.peers.has a = true ∧
        (step cfg σ.server e).db.peers.has b = true
  | _ => True

/-- A force command for the pair, stored if it is not `auto`. -/
def StoresCommand (cfg : Config) (a b : PeerId) (σ : System) (e : SystemEvent) : Prop :=
  ForceLasts cfg a b σ e ∧
    ∃ e' command, e = .server e' ∧ e'.commandOf σ.server (pairKey a b) = some command

/-- A switch about `q` is in flight to `p`, or `p` is in the mode of the last one, or is to be. -/
def HoldsTold (p q : PeerId) (σ : System) : Prop :=
  σ.inFlight p q = none → (σ.agents p).paths.ModeKept q

instance (p q : PeerId) (σ : System) : Decidable (HoldsTold p q σ) :=
  inferInstanceAs (Decidable (_ → _))

/-- What `p` was told last about `q` is not lost: a force command reaches it unless it was told so
before, a socket that drops loses nothing that `p` does not hold, `p` does not start anew or make
its state of `q` when it was told to relay, and its handlers end in turn.  While a switch is in
flight to `p`, its steps do not matter. -/
def KeepsTold (p q : PeerId) (σ : System) : SystemEvent → Prop
  | .server e => ∀ f ∈ (e.commandOf σ.server (pairKey p q)).bind ForceCommand.column,
      σ.server.isConnected p = true ∨ σ.told p q = f.mode
  | .deliver _ _ => True
  | .lose ws => (σ.lose ws).told p q = σ.told p q ∧ HoldsTold p q (σ.lose ws)
  | .agent x e => x = p → σ.inFlight p q = none →
      ((σ.agents p).Makes e q → σ.told p q = .direct) ∧ (σ.agents p).paths.InTurn q e
  | .restart x _ => x = p → σ.told p q = .direct

/-- A step by which neither end of the pair loses a switch. -/
def Lossless (cfg : Config) (a b : PeerId) (σ : System) (e : SystemEvent) : Prop :=
  ForceLasts cfg a b σ e ∧ KeepsTold a b σ e ∧ KeepsTold b a σ e

/-- The two ends of the pair were told the same last, the forced mode while it is forced. -/
structure Synced (a b : PeerId) (σ : System) : Prop where
  same : σ.told a b = σ.told b a
  forced : ∀ f ∈ forcedTo (pairKey a b) σ.server.log, σ.told a b = f.mode
  holdsA : HoldsTold a b σ
  holdsB : HoldsTold b a σ

instance (cfg : Config) (a b : PeerId) (σ : System) : (e : SystemEvent) →
    Decidable (ForceLasts cfg a b σ e)
  | .server e => inferInstanceAs (Decidable (∀ f ∈ forcedTo _ (step cfg σ.server e).log, _))
  | .deliver _ _ | .lose _ | .agent _ _ | .restart _ _ => isTrue trivial

instance (p q : PeerId) (σ : System) : (e : SystemEvent) → Decidable (KeepsTold p q σ e)
  | .server e => inferInstanceAs (Decidable (∀ f ∈ (e.commandOf σ.server _).bind _, _ ∨ _))
  | .deliver _ _ => isTrue trivial
  | .lose _ => inferInstanceAs (Decidable (_ ∧ _))
  | .agent _ _ => inferInstanceAs (Decidable (_ → _ → (_ → _) ∧ _))
  | .restart _ _ => inferInstanceAs (Decidable (_ → _))

instance (cfg : Config) (a b : PeerId) (σ : System) (e : SystemEvent) :
    Decidable (Lossless cfg a b σ e) :=
  inferInstanceAs (Decidable (_ ∧ _ ∧ _))

end Meshezia
