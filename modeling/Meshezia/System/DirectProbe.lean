import Mathlib.Logic.Function.Basic
import Meshezia.Agent.Probes

/-!
# A direct probe between two agents (`handleProbeDirectGo`)

Both agents have bound their probe sockets, and the server has answered with a
`probe-direct-go` to each.  From then on anything may come in any order: the two messages, the
timers of the two handlers, the datagrams, and a message or a disconnect that closes a socket.
Every event has the time at which it is handled.

What one agent makes of it is a machine of four phases (`Listener`), which the agent refines
(`represents_run`).  A datagram that comes in before the agent's own go has been handled is
lost on it, because its `onData` does nothing yet, and one that comes in after the last look
at `entry.resolved` comes too late.  A path that works may so be found not to:

    both agents send success ↔ each of them gets a datagram after its own go, and looks once
      more before its three seconds are over                       (direct_probe_passes_iff)
-/

namespace Meshezia

/-! ## Two agents and the datagrams between them -/

inductive Party where
  | a
  | b
deriving DecidableEq, Repr

def Party.other : Party → Party
  | .a => .b
  | .b => .a

/-- What the `probe-direct-go` to an agent says. -/
structure DirectGo where
  peer : PeerId
  peerIpv4 : JsString
  peerUdpPort : Int
  peerNonce : JsString

def DirectGo.msg (go : DirectGo) : ServerMsg :=
  .probeDirectGo go.peer go.peerIpv4 go.peerUdpPort go.peerNonce

/-- An agent with the probe socket of the negotiation, the handler of its go once that has
come, and the `deadline` of this handler. -/
structure ProbeEnd where
  prober : Prober
  entry : Nat
  handler : Option Nat := none
  deadline : Option Int := none

namespace ProbeEnd

/-- Where the handler is. -/
def stage (x : ProbeEnd) : Option ProbeHandler :=
  x.handler.bind fun id => x.prober.handlers.get? id

def isOpen (x : ProbeEnd) : Bool := (x.prober.entries.get? x.entry).any ProbeEntry.isOpen

/-- The next datagram is the third one. -/
def sendsLast (x : ProbeEnd) : Bool :=
  match x.stage with
  | some (.sending _ _ _ _ sent) => decide (¬ sent + 1 < 3)
  | _ => false

/-- The go comes in. -/
def handleGo (x : ProbeEnd) (go : DirectGo) (now : Int) : ProbeEnd where
  prober := probeStep x.prober (.receive now go.msg [] (.ok 0))
  entry := x.entry
  handler := match x.prober.udpProbeSockets.get? go.peer with
    | none => x.handler
    | some _ => some x.prober.nextId
  deadline := x.deadline

/-- The timer of the handler fires.  After the third datagram `deadline = Date.now() + 3000`. -/
def fireTimer (x : ProbeEnd) (now : Int) : ProbeEnd :=
  match x.handler with
  | none => x
  | some id =>
    { x with
      prober := probeStep x.prober (.goStep id (x.deadline.any fun d => decide (d ≤ now)))
      deadline := if x.sendsLast then some (now + 3000) else x.deadline }

end ProbeEnd

/-- What ends the negotiation for an agent. -/
inductive Stop where
  | verdict (action : VerdictAction)
  | abort (reason : AbortReason)
  | force (mode : ForceCommand)
  | wsClose

def Stop.event (peer : PeerId) (now : Int) : Stop → ProbeEvent
  | .verdict action => .receive now (.probeVerdict peer action) [] (.ok 0)
  | .abort reason => .receive now (.negotiateAbort peer reason) [] (.ok 0)
  | .force mode => .receive now (.forceMode peer mode) [] (.ok 0)
  | .wsClose => .wsClose

/-- `flight p` are the datagrams on their way to `p`. -/
structure ProbePair where
  ends : Party → ProbeEnd
  flight : Party → List JsString

/-- `arrive p i`: the datagram `i` on its way to `p` gets there. -/
inductive PairEvent where
  | go (p : Party)
  | timer (p : Party)
  | arrive (p : Party) (i : Nat)
  | stop (p : Party) (how : Stop)

def ProbeOutput.text? : ProbeOutput → Option JsString
  | .datagram _ _ text => some text
  | .toServer _ => none

/-- The `success` of a `probe-direct-result` about `peer`. -/
def ProbeOutput.result? (peer : PeerId) : ProbeOutput → Option Bool
  | .toServer (.probeDirectResult q success) => if q = peer then some success else none
  | _ => none

/-- What `s'` has sent since `s`. -/
def newOutputs (s s' : Prober) : List ProbeOutput := s'.outputs.drop s.outputs.length

namespace ProbePair

/-- `p` takes a step; the datagrams it sends are on their way to the other one. -/
def act (σ : ProbePair) (p : Party) (x : ProbeEnd) : ProbePair where
  ends := Function.update σ.ends p x
  flight := Function.update σ.flight p.other
    (σ.flight p.other ++ (newOutputs (σ.ends p).prober x.prober).filterMap ProbeOutput.text?)

def arrive (σ : ProbePair) (p : Party) (i : Nat) : ProbePair :=
  match (σ.flight p)[i]? with
  | none => σ
  | some text =>
    { ends := Function.update σ.ends p { σ.ends p with
        prober := probeStep (σ.ends p).prober (.datagram (σ.ends p).entry text) }
      flight := Function.update σ.flight p ((σ.flight p).eraseIdx i) }

end ProbePair

/-- An event at its time; a go comes in once. -/
def pairStep (go : Party → DirectGo) (σ : ProbePair) : Int × PairEvent → ProbePair
  | (now, .go p) =>
    if (σ.ends p).handler.isNone then σ.act p ((σ.ends p).handleGo (go p) now) else σ
  | (now, .timer p) => σ.act p ((σ.ends p).fireTimer now)
  | (_, .arrive p i) => σ.arrive p i
  | (now, .stop p how) =>
    σ.act p { σ.ends p with prober := probeStep (σ.ends p).prober (how.event (go p).peer now) }

/-! ## What is claimed -/

/-- The socket of `p` is bound and its go has not come; the go to the other one names the
port and the nonce of this socket. -/
structure Bound (go : Party → DirectGo) (σ : ProbePair) (p : Party) : Prop where
  registered : (σ.ends p).prober.udpProbeSockets.get? (go p).peer = some (σ.ends p).entry
  socket : (σ.ends p).prober.entries.get? (σ.ends p).entry =
    some { peerId := (go p).peer, port := (go p.other).peerUdpPort,
           nonce := (go p.other).peerNonce }
  waiting : (σ.ends p).handler = none ∧ (σ.ends p).deadline = none
  quiet : σ.flight p = []

/-- The results `p` has sent since the start. -/
def ProbePair.results (go : Party → DirectGo) (σ start : ProbePair) (p : Party) : List Bool :=
  (newOutputs (start.ends p).prober (σ.ends p).prober).filterMap
    (ProbeOutput.result? (go p).peer)

/-- Every datagram gets there while the socket is open and before the receiver's deadline. -/
def ProbePair.OnTime (σ : ProbePair) : Int × PairEvent → Prop
  | (now, .arrive p _) => (σ.ends p).isOpen = true ∧ ∀ d ∈ (σ.ends p).deadline, now < d
  | _ => True

/-- A run over a path that works: both go messages are handled, every datagram gets there on
time, and both agents have come to their results. -/
structure WorkingPath (go : Party → DirectGo) (start : ProbePair) (es : List (Int × PairEvent)) :
    Prop where
  clock : (es.map Prod.fst).Pairwise (fun t u => t ≤ u)
  onTime : Along (pairStep go) ProbePair.OnTime start es
  delivered : ∀ p, (run (pairStep go) start es).flight p = []
  ended : ∀ p, ((run (pairStep go) start es).results go start p).length = 1

/-- The event brings a datagram to the open socket of `p`, after its own go. -/
def ProbePair.Hears (σ : ProbePair) (p : Party) : Int × PairEvent → Prop
  | (_, .arrive q i) => q = p ∧ i < (σ.flight p).length ∧ (σ.ends p).handler.isSome = true ∧
      (σ.ends p).isOpen = true
  | _ => False

/-- The handler looks at `entry.resolved` at this time: it has sent the third datagram, and its
three seconds are not over. -/
def ProbeEnd.LooksAt (x : ProbeEnd) (now : Int) : Prop :=
  match x.stage with
  | some (.sending _ _ _ _ sent) => ¬ sent + 1 < 3
  | some (.polling _ _) => ∀ d ∈ x.deadline, now < d
  | _ => False

def ProbePair.Looks (σ : ProbePair) (p : Party) : Int × PairEvent → Prop
  | (now, .timer q) => q = p ∧ (σ.ends p).LooksAt now
  | _ => False

/-- A datagram has come to `p` after its own go. -/
def Heard (go : Party → DirectGo) (start : ProbePair) (p : Party) : List (Int × PairEvent) → Prop :=
  Occurs fun pre e => (run (pairStep go) start pre).Hears p e

/-- And after it `p` has looked once more before its three seconds were over. -/
def HeardInTime (go : Party → DirectGo) (start : ProbePair) (p : Party) :
    List (Int × PairEvent) → Prop :=
  Occurs fun pre e => Heard go start p pre ∧ (run (pairStep go) start pre).Looks p e

/-! ## What one agent makes of it -/

/-- Before the go, between two datagrams, looking until a deadline, or done. -/
inductive Phase where
  | waiting
  | sending (sent : Nat)
  | polling (deadline : Int)
  | done (success : Bool)

structure Listener where
  phase : Phase
  isOpen : Bool
  heard : Bool

namespace Listener

def results (l : Listener) : List Bool :=
  match l.phase with
  | .done success => [success]
  | _ => []

/-- The agent has handled its go. -/
def started (l : Listener) : Bool :=
  match l.phase with
  | .waiting => false
  | _ => true

def go (l : Listener) : Listener :=
  match l.phase with
  | .waiting => if l.isOpen then { l with phase := .sending 1 } else l
  | _ => l

def finish (l : Listener) (success : Bool) : Listener :=
  { l with phase := .done success, isOpen := false }

/-- One look, with the deadline that holds if it finds nothing. -/
def look (l : Listener) (deadline : Int) : Listener :=
  if l.heard then l.finish true else { l with phase := .polling deadline }

def timer (l : Listener) (now : Int) : Listener :=
  match l.phase with
  | .sending sent =>
    if sent + 1 < 3 then { l with phase := .sending (sent + 1) } else l.look (now + 3000)
  | .polling deadline => if deadline ≤ now then l.finish false else l.look deadline
  | _ => l

def hear (l : Listener) : Listener :=
  if l.isOpen && l.started then { l with heard := true } else l

def stop (l : Listener) : Listener := { l with isOpen := false }

def LooksAt (l : Listener) (now : Int) : Prop :=
  match l.phase with
  | .sending sent => ¬ sent + 1 < 3
  | .polling deadline => now < deadline
  | _ => False

@[simp] theorem heard_timer (l : Listener) (now : Int) : (l.timer now).heard = l.heard := by
  unfold timer look finish
  repeat' split
  all_goals rfl

theorem heard_hear (l : Listener) :
    l.hear.heard = true ↔ l.heard = true ∨ (l.isOpen = true ∧ l.started = true) := by
  unfold hear
  by_cases hc : (l.isOpen && l.started) = true
  · rw [if_pos hc]
    exact ⟨fun _ => Or.inr (Bool.and_eq_true_iff.mp hc), fun _ => rfl⟩
  · rw [if_neg hc]
    exact ⟨Or.inl, fun h => h.elim id fun hboth => absurd (Bool.and_eq_true_iff.mpr hboth) hc⟩

theorem phase_hear (l : Listener) : l.hear.phase = l.phase := by
  unfold hear
  split <;> rfl

/-- Success comes from a look that finds what has been heard. -/
theorem timer_done_iff (l : Listener) (now : Int) :
    (l.timer now).phase = .done true ↔
      l.phase = .done true ∨ (l.heard = true ∧ l.LooksAt now) := by
  obtain ⟨phase, isOpen, heard⟩ := l
  cases phase with
  | waiting => simp [timer, LooksAt]
  | sending sent =>
    by_cases hmore : sent + 1 < 3
    · simp [timer, LooksAt, hmore]
    · cases heard <;> simp [timer, LooksAt, look, finish, hmore]
  | polling deadline =>
    by_cases hlate : deadline ≤ now
    · simp [timer, LooksAt, finish, hlate]
    · have hnow : now < deadline := by omega
      cases heard <;> simp [timer, LooksAt, look, finish, hlate, hnow]
  | done success => simp [timer, LooksAt]

/-- Done, or looking until `d`. -/
def Ending (l : Listener) (d : Int) : Prop :=
  (∃ success, l.phase = .done success) ∨ l.phase = .polling d

theorem ending_look (l : Listener) (d : Int) : (l.look d).Ending d := by
  unfold look
  split
  · exact Or.inl ⟨true, rfl⟩
  · exact Or.inr rfl

theorem Ending.timer {l : Listener} {d : Int} (h : l.Ending d) (now : Int) :
    (l.timer now).Ending d := by
  unfold Listener.timer
  rcases h with ⟨success, hphase⟩ | hphase
  · rw [hphase]
    exact Or.inl ⟨success, hphase⟩
  · rw [hphase]
    dsimp only
    split
    · exact Or.inl ⟨false, rfl⟩
    · exact l.ending_look d

theorem Ending.ended {l : Listener} {d now : Int} (h : l.Ending d) (hlate : d ≤ now) :
    (l.timer now).results.length = 1 := by
  unfold Listener.timer
  rcases h with ⟨success, hphase⟩ | hphase
  · rw [hphase]
    dsimp only
    rw [results, hphase]
    rfl
  · rw [hphase]
    dsimp only
    rw [if_pos hlate]
    rfl

end Listener

/-! ## The agent refines it -/

/-- Between `s` and `s'` datagrams with this nonce have been sent, and these results. -/
def Emits (peer : PeerId) (nonce : JsString) (s s' : Prober) (results : List Bool) : Prop :=
  ∃ new, s'.outputs = s.outputs ++ new ∧
    (∀ text ∈ new.filterMap ProbeOutput.text?, text = nonce) ∧
    new.filterMap (ProbeOutput.result? peer) = results

section
variable {peer : PeerId} {nonce : JsString} {s s' s'' : Prober} {results results' : List Bool}

theorem emits_of_same (h : s'.outputs = s.outputs) : Emits peer nonce s s' [] :=
  ⟨[], by rw [h, List.append_nil], by simp, rfl⟩

theorem emits_trans (h : Emits peer nonce s s' results) (h' : Emits peer nonce s' s'' results') :
    Emits peer nonce s s'' (results ++ results') := by
  obtain ⟨new, he, htexts, hres⟩ := h
  obtain ⟨new', he', htexts', hres'⟩ := h'
  refine ⟨new ++ new', by rw [he', he, List.append_assoc], ?_, ?_⟩
  · intro text ht
    rw [List.filterMap_append, List.mem_append] at ht
    rcases ht with ht | ht
    · exact htexts text ht
    · exact htexts' text ht
  · rw [List.filterMap_append, hres, hres']

theorem newOutputs_eq {new : List ProbeOutput} (h : s'.outputs = s.outputs ++ new) :
    newOutputs s s' = new := by
  rw [newOutputs, h, List.drop_left]

theorem results_of_emits (h : Emits peer nonce s s' results) :
    (newOutputs s s').filterMap (ProbeOutput.result? peer) = results := by
  obtain ⟨new, he, -, hres⟩ := h
  rw [newOutputs_eq he, hres]

theorem texts_of_emits (h : Emits peer nonce s s' results) :
    ∀ text ∈ (newOutputs s s').filterMap ProbeOutput.text?, text = nonce := by
  obtain ⟨new, he, htexts, -⟩ := h
  rw [newOutputs_eq he]
  exact htexts

end

/-- The handler is where the phase says. -/
def AtPhase (go : DirectGo) (x : ProbeEnd) : Phase → Prop
  | .waiting => x.handler = none ∧ x.deadline = none
  | .sending sent => x.stage = some (.sending go.peer x.entry go.peerIpv4 go.peerUdpPort sent) ∧
      x.deadline = none ∧ 0 < sent
  | .polling deadline => x.stage = some (.polling go.peer x.entry) ∧ x.deadline = some deadline
  | .done _ => x.handler.isSome = true ∧ x.stage = none

/-- The socket, which sends this nonce, is as `l` says. -/
structure SocketIs (go : DirectGo) (nonce : JsString) (entry : Nat) (s : Prober) (l : Listener) :
    Prop where
  found : ∃ e, s.entries.get? entry = some e ∧ e.nonce = nonce ∧ e.isOpen = l.isOpen ∧
    e.resolved = l.heard ∧ e.expected = if l.started then some go.peerNonce else none
  registered : s.udpProbeSockets.get? go.peer = if l.isOpen then some entry else none

/-- The agent is in the state `l`. -/
structure Represents (go : DirectGo) (nonce : JsString) (x : ProbeEnd) (l : Listener) : Prop where
  socket : SocketIs go nonce x.entry x.prober l
  handler : AtPhase go x l.phase

section
variable {go : DirectGo} {nonce : JsString} {x : ProbeEnd} {l : Listener}

theorem Represents.isOpen (h : Represents go nonce x l) : x.isOpen = l.isOpen := by
  obtain ⟨e, he, -, hopen, -⟩ := h.socket.found
  rw [ProbeEnd.isOpen, he]
  exact hopen

theorem Represents.started (h : Represents go nonce x l) : x.handler.isSome = l.started := by
  have hhandler := h.handler
  have hstage : ∀ stage, x.stage = some stage → x.handler.isSome = true := by
    intro stage hs
    unfold ProbeEnd.stage at hs
    cases hid : x.handler with
    | none => rw [hid] at hs; cases hs
    | some id => rfl
  unfold Listener.started
  cases hphase : l.phase with
  | waiting =>
    rw [hphase] at hhandler
    rw [hhandler.1]
    rfl
  | sending sent =>
    rw [hphase] at hhandler
    exact hstage _ hhandler.1
  | polling deadline =>
    rw [hphase] at hhandler
    exact hstage _ hhandler.1
  | done success =>
    rw [hphase] at hhandler
    exact hhandler.1

theorem Represents.looksAt (h : Represents go nonce x l) (now : Int) :
    x.LooksAt now ↔ l.LooksAt now := by
  have hhandler := h.handler
  unfold ProbeEnd.LooksAt Listener.LooksAt
  cases hphase : l.phase with
  | waiting =>
    rw [hphase] at hhandler
    rw [ProbeEnd.stage, hhandler.1]
    exact Iff.rfl
  | sending sent =>
    rw [hphase] at hhandler
    rw [hhandler.1]
  | polling deadline =>
    rw [hphase] at hhandler
    rw [hhandler.1, hhandler.2]
    simp
  | done success =>
    rw [hphase] at hhandler
    rw [hhandler.2]

end

/-! ### The steps of its functions -/

section
variable {go : DirectGo} {nonce : JsString} {entry : Nat} {s : Prober} {l : Listener}

/-- A datagram with the nonce, or nothing when the socket is closed. -/
theorem sendNonce_eq (h : SocketIs go nonce entry s l) (ip : JsString) (port : Int) :
    ∃ outputs, s.sendNonce entry ip port = { s with outputs } ∧
      Emits go.peer nonce s (s.sendNonce entry ip port) [] := by
  obtain ⟨e, he, hnonce, -⟩ := h.found
  unfold Prober.sendNonce
  rw [he]
  dsimp only
  split
  · exact ⟨_, rfl, [.datagram ip port e.nonce], rfl, by simp [ProbeOutput.text?, hnonce], rfl⟩
  · exact ⟨_, rfl, emits_of_same rfl⟩

theorem SocketIs.sendNonce (h : SocketIs go nonce entry s l) (ip : JsString) (port : Int) :
    SocketIs go nonce entry (s.sendNonce entry ip port) l := by
  obtain ⟨outputs, he, -⟩ := sendNonce_eq h ip port
  rw [he]
  exact ⟨h.found, h.registered⟩

theorem get?_closeAll (l : List (PeerId × Nat)) (es : OMap Nat ProbeEntry) (entry : Nat) :
    (l.foldl (fun es e => Prober.closeEntry es e.2) es).get? entry =
      (es.get? entry).map fun e =>
        if entry ∈ l.map Prod.snd then { e with isOpen := false } else e := by
  induction l generalizing es with
  | nil => simp
  | cons x rest ih =>
    rw [List.foldl_cons, ih, Prober.closeEntry, OMap.get?_mapVals, Option.map_map]
    congr 1
    funext e
    by_cases hx : entry = x.2
    · simp [hx]
    · rw [Function.comp_apply, if_neg hx, List.map_cons]
      simp only [List.mem_cons, hx, false_or]

/-- Closing the socket of the peer closes this one, if it is open still. -/
theorem SocketIs.close (h : SocketIs go nonce entry s l) (l' : Listener)
    (hopen : l'.isOpen = false) (hheard : l'.heard = l.heard) (hstarted : l'.started = l.started) :
    SocketIs go nonce entry (s.closeUdpProbeSocket go.peer) l' := by
  obtain ⟨e, he, hnonce, hwas, hresolved, hexpected⟩ := h.found
  unfold Prober.closeUdpProbeSocket
  rw [h.registered]
  cases ho : l.isOpen with
  | true =>
    refine ⟨⟨{ e with isOpen := false }, ?_, hnonce, hopen.symm, hresolved.trans hheard.symm, ?_⟩,
      ?_⟩
    · rw [if_pos rfl]
      show (Prober.closeEntry s.entries entry).get? entry = _
      rw [Prober.closeEntry, OMap.get?_mapVals, he, Option.map_some, if_pos rfl]
    · rw [hstarted]
      exact hexpected
    · rw [if_pos rfl, hopen]
      exact OMap.get?_delete_self ..
  | false =>
    refine ⟨⟨e, he, hnonce, by rw [hwas, ho, hopen], hresolved.trans hheard.symm, ?_⟩, ?_⟩
    · rw [hstarted]
      exact hexpected
    · rw [hopen]
      exact h.registered.trans (by rw [ho])

theorem frame_closeUdpProbeSocket (s : Prober) (p : PeerId) :
    (s.closeUdpProbeSocket p).outputs = s.outputs ∧
      (s.closeUdpProbeSocket p).handlers = s.handlers := by
  unfold Prober.closeUdpProbeSocket
  split <;> exact ⟨rfl, rfl⟩

/-- The end of the handler. -/
theorem SocketIs.finish (h : SocketIs go nonce entry s l) (hstarted : l.started = true) (id : Nat)
    (success : Bool) :
    SocketIs go nonce entry (s.finishDirectGo id go.peer success) (l.finish success) ∧
      Emits go.peer nonce s (s.finishDirectGo id go.peer success) [success] ∧
      (s.finishDirectGo id go.peer success).handlers.get? id = none := by
  have hsocket : SocketIs go nonce entry { s with handlers := s.handlers.delete id } l :=
    ⟨h.found, h.registered⟩
  have hclosed := hsocket.close (l.finish success) rfl rfl hstarted.symm
  unfold Prober.finishDirectGo
  obtain ⟨houtputs, hhandlers⟩ :=
    frame_closeUdpProbeSocket { s with handlers := s.handlers.delete id } go.peer
  refine ⟨⟨hclosed.found, hclosed.registered⟩, ?_, ?_⟩
  · refine ⟨[.toServer (.probeDirectResult go.peer success)], ?_, by simp [ProbeOutput.text?],
      by simp [ProbeOutput.result?]⟩
    rw [Prober.sendMsg, houtputs]
  · rw [Prober.sendMsg, hhandlers]
    exact OMap.get?_delete_self ..

/-- One look: a result, or a later look. -/
theorem SocketIs.look (h : SocketIs go nonce entry s l) (hstarted : l.started = true) (id : Nat)
    (deadline : Int) :
    SocketIs go nonce entry (s.lookResolved id go.peer entry) (l.look deadline) ∧
      Emits go.peer nonce s (s.lookResolved id go.peer entry) (l.look deadline).results ∧
      (s.lookResolved id go.peer entry).handlers.get? id =
        if l.heard then none else some (.polling go.peer entry) := by
  obtain ⟨e, he, hnonce, hopen, hresolved, hexpected⟩ := h.found
  unfold Prober.lookResolved Listener.look
  rw [he, Option.map_some, hresolved]
  cases hheard : l.heard with
  | true =>
    rw [if_pos rfl, if_pos rfl, if_pos rfl]
    exact h.finish hstarted id true
  | false =>
    rw [if_neg (by decide), if_neg (by decide), if_neg (by decide)]
    refine ⟨⟨⟨e, he, hnonce, hopen, ?_, ?_⟩, h.registered⟩, emits_of_same rfl,
      OMap.get?_set_self ..⟩
    · rw [hresolved, hheard]
    · rw [hexpected, hstarted]
      rfl

end

/-! ### The events -/

/-- A step of the agent is the step of the machine. -/
structure Refines (go : DirectGo) (nonce : JsString) (x x' : ProbeEnd) (l l' : Listener) :
    Prop where
  represents : Represents go nonce x' l'
  emits : ∃ results, Emits go.peer nonce x.prober x'.prober results ∧
    l'.results = l.results ++ results

section
variable {go : DirectGo} {nonce : JsString} {x : ProbeEnd} {l : Listener}

theorem phase_of_not_started (h : l.started = false) : l.phase = .waiting := by
  unfold Listener.started at h
  cases hphase : l.phase with
  | waiting => rfl
  | sending sent => rw [hphase] at h; cases h
  | polling deadline => rw [hphase] at h; cases h
  | done success => rw [hphase] at h; cases h

theorem refines_handleGo (h : Represents go nonce x l) (hhandler : x.handler = none) (now : Int) :
    Refines go nonce x (x.handleGo go now) l l.go := by
  have hstarted : l.started = false := by rw [← h.started, hhandler]; rfl
  have hphase := phase_of_not_started hstarted
  have hwaiting := h.handler
  rw [hphase] at hwaiting
  have hregistered := h.socket.registered
  obtain ⟨e, he, hnonce, hopen, hresolved, -⟩ := h.socket.found
  have hprober : (x.handleGo go now).prober = Prober.handleProbeDirectGo { x.prober with
      agent := x.prober.agent.receive now go.msg, log := .received go.msg :: x.prober.log }
        go.peer go.peerIpv4 go.peerUdpPort go.peerNonce := rfl
  unfold Prober.handleProbeDirectGo at hprober
  dsimp only at hprober
  have hhandler' : (x.handleGo go now).handler = match x.prober.udpProbeSockets.get? go.peer with
    | none => x.handler
    | some _ => some x.prober.nextId := rfl
  have hdeadline : (x.handleGo go now).deadline = none := hwaiting.2
  cases ho : l.isOpen with
  | false =>
    have hgo : l.go = l := by simp [Listener.go, hphase, ho]
    rw [ho, if_neg (by decide)] at hregistered
    rw [hregistered] at hprober hhandler'
    rw [hgo]
    refine ⟨⟨⟨?_, ?_⟩, ?_⟩, [], emits_of_same (by rw [hprober]), by simp⟩
    · rw [hprober]
      exact h.socket.found
    · rw [hprober]
      exact h.socket.registered
    · rw [hphase]
      exact ⟨by rw [hhandler', hhandler], hdeadline⟩
  | true =>
    rw [ho, if_pos rfl] at hregistered
    rw [hregistered] at hprober hhandler'
    rw [show l.go = { l with phase := .sending 1 } by simp [Listener.go, hphase, ho]]
    dsimp only at hprober
    -- the prober once its `onData` waits for the nonce
    generalize hs1 : ({ x.prober with
        agent := x.prober.agent.receive now go.msg
        log := .received go.msg :: x.prober.log
        entries := x.prober.entries.mapVals fun k e =>
          if k = x.entry then { e with expected := some go.peerNonce } else e } : Prober) = s1
      at hprober
    have hsocket : SocketIs go nonce x.entry s1 { l with phase := .sending 1 } := by
      rw [← hs1]
      refine ⟨⟨{ e with expected := some go.peerNonce }, ?_, hnonce, hopen, hresolved, rfl⟩, ?_⟩
      · show (x.prober.entries.mapVals _).get? x.entry = _
        rw [OMap.get?_mapVals, he, Option.map_some, if_pos rfl]
      · rw [ho]
        exact hregistered
    obtain ⟨outputs, hsend, hemits⟩ := sendNonce_eq hsocket go.peerIpv4 go.peerUdpPort
    have hkeeps := hsocket.sendNonce go.peerIpv4 go.peerUdpPort
    have hid : (s1.sendNonce x.entry go.peerIpv4 go.peerUdpPort).nextId = x.prober.nextId := by
      rw [hsend, ← hs1]
    refine ⟨⟨?_, ?_, hdeadline, Nat.one_pos⟩, [], ?_, by simp [Listener.results, hphase]⟩
    · rw [hprober]
      exact ⟨hkeeps.found, hkeeps.registered⟩
    · rw [ProbeEnd.stage, hhandler', hprober]
      show (OMap.set _ _ _).get? _ = _
      rw [hid]
      exact OMap.get?_set_self ..
    · have hsame : s1.outputs = x.prober.outputs := by rw [← hs1]
      obtain ⟨new, hnew, htexts, hresults⟩ := hemits
      refine ⟨new, ?_, htexts, hresults⟩
      rw [hprober, ← hsame]
      exact hnew

/-- The socket does not depend on the phase, once the go has been handled. -/
theorem SocketIs.phase {entry : Nat} {s : Prober} (h : SocketIs go nonce entry s l)
    (phase : Phase) (hstarted : l.started = true)
    (hphase : phase ≠ .waiting) : SocketIs go nonce entry s { l with phase } := by
  have hsame : ({ l with phase } : Listener).started = l.started := by
    rw [hstarted]
    cases phase with
    | waiting => exact absurd rfl hphase
    | sending sent => rfl
    | polling deadline => rfl
    | done success => rfl
  obtain ⟨e, he, hnonce, hopen, hresolved, hexpected⟩ := h.found
  exact ⟨⟨e, he, hnonce, hopen, hresolved, by rw [hsame, hexpected]⟩, h.registered⟩

/-- A look of the handler `id`, after nothing but datagrams. -/
theorem refines_look {s : Prober} (h : SocketIs go nonce x.entry s l) (hstarted : l.started = true)
    (hresults : l.results = []) (hemits : Emits go.peer nonce x.prober s []) (id : Nat)
    (deadline : Int) :
    Refines go nonce x ⟨s.lookResolved id go.peer x.entry, x.entry, some id, some deadline⟩ l
      (l.look deadline) := by
  obtain ⟨hsocket, hlooks, hget⟩ := h.look hstarted id deadline
  refine ⟨⟨hsocket, ?_⟩, (l.look deadline).results, emits_trans hemits hlooks, ?_⟩
  · unfold Listener.look
    cases hheard : l.heard with
    | true =>
      rw [hheard] at hget
      exact ⟨rfl, hget⟩
    | false =>
      rw [hheard] at hget
      exact ⟨hget, rfl⟩
  · rw [hresults, List.nil_append]

theorem refines_fireTimer (h : Represents go nonce x l) (now : Int) :
    Refines go nonce x (x.fireTimer now) l (l.timer now) := by
  have hhandler := h.handler
  have hstarted := h.started
  have hgoStep : ∀ id timeUp, probeStep x.prober (.goStep id timeUp) = x.prober.goStep id timeUp :=
    fun _ _ => rfl
  unfold ProbeEnd.fireTimer Listener.timer
  cases hphase : l.phase with
  | waiting =>
    rw [hphase] at hhandler
    rw [hhandler.1]
    exact ⟨h, [], emits_of_same rfl, by simp⟩
  | sending sent =>
    rw [hphase] at hhandler
    obtain ⟨hstage, hdeadline, -⟩ := hhandler
    obtain ⟨id, hid, hget⟩ : ∃ id, x.handler = some id ∧ x.prober.handlers.get? id =
        some (.sending go.peer x.entry go.peerIpv4 go.peerUdpPort sent) :=
      Option.bind_eq_some_iff.mp hstage
    have hl : l.started = true := by rw [← hstarted, hid]; rfl
    have hresults : l.results = [] := by rw [Listener.results, hphase]
    have hlast : x.sendsLast = decide (¬ sent + 1 < 3) := by rw [ProbeEnd.sendsLast, hstage]
    obtain ⟨outputs, hsend, hemits⟩ := sendNonce_eq h.socket go.peerIpv4 go.peerUdpPort
    have hkeeps := h.socket.sendNonce go.peerIpv4 go.peerUdpPort
    rw [hid]
    dsimp only
    rw [hgoStep, Prober.goStep, hget, hlast]
    dsimp only
    by_cases hmore : sent + 1 < 3
    · have hsocket := hkeeps.phase (.sending (sent + 1)) hl (by simp)
      have hnot : ¬ decide (¬ sent + 1 < 3) = true := by simpa only [decide_eq_true_eq, not_not]
      rw [if_pos hmore, if_pos hmore, if_neg hnot]
      refine ⟨⟨⟨hsocket.found, hsocket.registered⟩, ?_, hdeadline, Nat.succ_pos sent⟩, [], hemits,
        ?_⟩
      · exact OMap.get?_set_self ..
      · rw [hresults]
        rfl
    · rw [if_neg hmore, if_neg hmore, if_pos (by simpa using hmore)]
      exact refines_look hkeeps hl hresults hemits id (now + 3000)
  | polling deadline =>
    rw [hphase] at hhandler
    obtain ⟨hstage, hdeadline⟩ := hhandler
    obtain ⟨id, hid, hget⟩ : ∃ id, x.handler = some id ∧
        x.prober.handlers.get? id = some (.polling go.peer x.entry) :=
      Option.bind_eq_some_iff.mp hstage
    have hl : l.started = true := by rw [← hstarted, hid]; rfl
    have hresults : l.results = [] := by rw [Listener.results, hphase]
    have hlast : x.sendsLast = false := by rw [ProbeEnd.sendsLast, hstage]
    rw [hid]
    dsimp only
    rw [hgoStep, Prober.goStep, hget, hlast, hdeadline]
    dsimp only [Option.any_some]
    by_cases hlate : deadline ≤ now
    · rw [if_pos hlate, if_pos (decide_eq_true hlate)]
      obtain ⟨hsocket, hemits, hnone⟩ := h.socket.finish hl id false
      refine ⟨⟨hsocket, rfl, hnone⟩, [false], hemits, ?_⟩
      rw [hresults]
      rfl
    · rw [if_neg hlate, if_neg (by simpa using hlate), if_neg (by decide)]
      exact refines_look h.socket hl hresults (emits_of_same rfl) id deadline
  | done success =>
    rw [hphase] at hhandler
    obtain ⟨hsome, hstage⟩ := hhandler
    obtain ⟨id, hid⟩ := Option.isSome_iff_exists.mp hsome
    have hget : x.prober.handlers.get? id = none := by
      rw [ProbeEnd.stage, hid] at hstage
      exact hstage
    have hlast : x.sendsLast = false := by rw [ProbeEnd.sendsLast, hstage]
    rw [hid]
    dsimp only
    rw [hgoStep, Prober.goStep, hget, hlast]
    dsimp only
    refine ⟨⟨h.socket, ?_⟩, [], emits_of_same rfl, by simp⟩
    rw [hphase]
    exact ⟨rfl, hget⟩

theorem refines_datagram (h : Represents go nonce x l) :
    Refines go nonce x { x with prober := probeStep x.prober (.datagram x.entry go.peerNonce) } l
      l.hear := by
  obtain ⟨e, he, hnonce, hopen, hresolved, hexpected⟩ := h.socket.found
  have hget : (x.prober.datagram x.entry go.peerNonce).entries.get? x.entry = some
      (if e.isOpen = true ∧ e.expected = some go.peerNonce then { e with resolved := true } else e)
      := by
    unfold Prober.datagram
    rw [OMap.get?_mapVals, he]
    simp
  have hhears : (e.isOpen = true ∧ e.expected = some go.peerNonce) ↔
      (l.isOpen && l.started) = true := by
    rw [hopen, hexpected]
    cases l.isOpen <;> cases l.started <;> simp
  by_cases hc : (l.isOpen && l.started) = true
  · rw [if_pos (hhears.mpr hc)] at hget
    rw [Listener.hear, if_pos hc]
    exact ⟨⟨⟨⟨_, hget, hnonce, hopen, rfl, hexpected⟩, h.socket.registered⟩, h.handler⟩, [],
      emits_of_same rfl, (List.append_nil _).symm⟩
  · rw [if_neg fun hboth => hc (hhears.mp hboth)] at hget
    rw [Listener.hear, if_neg hc]
    exact ⟨⟨⟨⟨_, hget, hnonce, hopen, hresolved, hexpected⟩, h.socket.registered⟩, h.handler⟩, [],
      emits_of_same rfl, (List.append_nil _).symm⟩

theorem atPhase_congr {s : Prober} (hhandlers : s.handlers = x.prober.handlers) {phase : Phase}
    (h : AtPhase go x phase) : AtPhase go { x with prober := s } phase := by
  have hstage : ({ x with prober := s } : ProbeEnd).stage = x.stage := by
    unfold ProbeEnd.stage
    rw [hhandlers]
  cases phase with
  | waiting => exact h
  | sending sent => exact ⟨hstage.trans h.1, h.2⟩
  | polling deadline => exact ⟨hstage.trans h.1, h.2⟩
  | done success => exact ⟨h.1, hstage.trans h.2⟩

theorem frame_closeTcpProbeServer (s : Prober) (p : PeerId) :
    (s.closeTcpProbeServer p).entries = s.entries ∧
      (s.closeTcpProbeServer p).udpProbeSockets = s.udpProbeSockets ∧
      (s.closeTcpProbeServer p).handlers = s.handlers ∧
      (s.closeTcpProbeServer p).outputs = s.outputs := by
  unfold Prober.closeTcpProbeServer
  split
  · exact ⟨rfl, rfl, rfl, rfl⟩
  · split <;> exact ⟨rfl, rfl, rfl, rfl⟩

/-- A message about the peer that ends the negotiation. -/
theorem refines_cleanUp (h : Represents go nonce x l) {s : Prober}
    (hentries : s.entries = x.prober.entries)
    (hsockets : s.udpProbeSockets = x.prober.udpProbeSockets)
    (hhandlers : s.handlers = x.prober.handlers) (houtputs : s.outputs = x.prober.outputs) :
    Refines go nonce x { x with prober := s.cleanUp go.peer } l l.stop := by
  obtain ⟨hentries', hsockets', hhandlers', houtputs'⟩ := frame_closeTcpProbeServer s go.peer
  have hsocket : SocketIs go nonce x.entry (s.closeTcpProbeServer go.peer) l := by
    constructor
    · rw [hentries', hentries]
      exact h.socket.found
    · rw [hsockets', hsockets]
      exact h.socket.registered
  obtain ⟨hout, hhand⟩ := frame_closeUdpProbeSocket (s.closeTcpProbeServer go.peer) go.peer
  have hphase := atPhase_congr (hhand.trans (hhandlers'.trans hhandlers)) h.handler
  exact ⟨⟨hsocket.close l.stop rfl rfl rfl, hphase⟩, [],
    emits_of_same (hout.trans (houtputs'.trans houtputs)), (List.append_nil _).symm⟩

/-- A disconnect closes every socket. -/
theorem refines_wsClose (h : Represents go nonce x l) :
    Refines go nonce x { x with prober := probeStep x.prober .wsClose } l l.stop := by
  obtain ⟨e, he, hnonce, hopen, hresolved, hexpected⟩ := h.socket.found
  have hget : (probeStep x.prober .wsClose).entries.get? x.entry =
      some { e with isOpen := false } := by
    show (x.prober.udpProbeSockets.entries.foldl _ x.prober.entries).get? x.entry = _
    rw [get?_closeAll, he, Option.map_some]
    have hreg := h.socket.registered
    cases ho : l.isOpen with
    | true =>
      rw [ho, if_pos rfl] at hreg
      rw [if_pos (List.mem_map.mpr ⟨_, (OMap.mem_entries _ _ _).mpr hreg, rfl⟩)]
    | false =>
      rw [ho] at hopen
      split
      · rfl
      · rw [← hopen]
  exact ⟨⟨⟨⟨_, hget, hnonce, rfl, hresolved, hexpected⟩, rfl⟩, h.handler⟩, [],
    emits_of_same rfl, (List.append_nil _).symm⟩

theorem refines_stop (h : Represents go nonce x l) (now : Int) (how : Stop) :
    Refines go nonce x { x with prober := probeStep x.prober (how.event go.peer now) } l
      l.stop := by
  cases how with
  | verdict action => exact refines_cleanUp h rfl rfl rfl rfl
  | abort reason => exact refines_cleanUp h rfl rfl rfl rfl
  | force mode => exact refines_cleanUp h rfl rfl rfl rfl
  | wsClose => exact refines_wsClose h

end

/-! ## Runs -/

section
variable {go : Party → DirectGo} {σ : ProbePair} {p : Party} {l : Listener}

theorem refines_refl {go : DirectGo} {nonce : JsString} {x : ProbeEnd}
    (h : Represents go nonce x l) : Refines go nonce x x l l :=
  ⟨h, [], emits_of_same rfl, (List.append_nil _).symm⟩

theorem act_ends_self (σ : ProbePair) (p : Party) (x : ProbeEnd) : (σ.act p x).ends p = x :=
  Function.update_self ..

theorem act_ends_ne (σ : ProbePair) {p q : Party} (x : ProbeEnd) (h : q ≠ p) :
    (σ.act q x).ends p = σ.ends p :=
  Function.update_of_ne (Ne.symm h) ..

/-- The agent an event happens to. -/
def PairEvent.party : PairEvent → Party
  | .go q | .timer q | .arrive q _ | .stop q _ => q

/-- What happens to the other agent is not noticed. -/
theorem pairStep_ends_ne (σ : ProbePair) (now : Int) {e : PairEvent} (h : e.party ≠ p) :
    (pairStep go σ (now, e)).ends p = σ.ends p := by
  cases e with
  | go q =>
    unfold pairStep
    dsimp only
    split
    · exact act_ends_ne σ _ h
    · rfl
  | timer q => exact act_ends_ne σ _ h
  | arrive q i =>
    unfold pairStep ProbePair.arrive
    dsimp only
    split
    · rfl
    · exact Function.update_of_ne (Ne.symm h) ..
  | stop q how => exact act_ends_ne σ _ h

/-- **One event.**  It is a step of the machine of each agent, which hears and succeeds as the
event says. -/
theorem listener_step (h : Represents (go p) (go p.other).peerNonce (σ.ends p) l)
    (hflight : ∀ text ∈ σ.flight p, text = (go p).peerNonce) (e : Int × PairEvent) :
    ∃ l', Refines (go p) (go p.other).peerNonce (σ.ends p) ((pairStep go σ e).ends p) l l' ∧
      (l'.heard = true ↔ l.heard = true ∨ σ.Hears p e) ∧
      (l'.phase = .done true ↔ l.phase = .done true ∨ (l.heard = true ∧ σ.Looks p e)) := by
  obtain ⟨now, e⟩ := e
  by_cases hp : e.party = p
  · cases e with
    | go q =>
      obtain rfl : q = p := hp
      have hnot : ¬ σ.Hears q (now, .go q) ∧ ¬ σ.Looks q (now, .go q) := ⟨id, id⟩
      simp only [hnot.1, hnot.2, and_false, or_false]
      unfold pairStep
      dsimp only
      split
      · rename_i hnone
        refine ⟨l.go, ?_, ?_, ?_⟩
        · rw [act_ends_self]
          exact refines_handleGo h (Option.isNone_iff_eq_none.mp hnone) now
        · unfold Listener.go
          split
          · split <;> rfl
          · rfl
        · unfold Listener.go
          split
          · rename_i hphase
            split <;> simp [hphase]
          · rfl
      · exact ⟨l, refines_refl h, Iff.rfl, Iff.rfl⟩
    | timer q =>
      obtain rfl : q = p := hp
      have hlooks : σ.Looks q (now, .timer q) ↔ l.LooksAt now := by
        rw [← h.looksAt now]
        exact ⟨fun hl => hl.2, fun hl => ⟨rfl, hl⟩⟩
      have hnot : ¬ σ.Hears q (now, .timer q) := id
      refine ⟨l.timer now, ?_, ?_, ?_⟩
      · unfold pairStep
        dsimp only
        rw [act_ends_self]
        exact refines_fireTimer h now
      · simp only [hnot, or_false]
        rw [Listener.heard_timer]
      · rw [hlooks]
        exact l.timer_done_iff now
    | arrive q i =>
      obtain rfl : q = p := hp
      have hnot : ¬ σ.Looks q (now, .arrive q i) := id
      have hhears : σ.Hears q (now, .arrive q i) ↔
          i < (σ.flight q).length ∧ l.started = true ∧ l.isOpen = true := by
        rw [← h.started, ← h.isOpen]
        exact ⟨fun hh => hh.2, fun hh => ⟨rfl, hh⟩⟩
      simp only [hnot, and_false, or_false]
      unfold pairStep ProbePair.arrive
      dsimp only
      split
      · rename_i hgone
        refine ⟨l, refines_refl h, ?_, Iff.rfl⟩
        rw [hhears, or_iff_left]
        rintro ⟨hi, -⟩
        exact absurd hi (Nat.not_lt.mpr (List.getElem?_eq_none_iff.mp hgone))
      · rename_i text hget
        obtain ⟨hi, -⟩ := List.getElem?_eq_some_iff.mp hget
        obtain rfl := hflight text (List.mem_of_getElem? hget)
        refine ⟨l.hear, ?_, ?_, ?_⟩
        · dsimp only
          rw [Function.update_self]
          exact refines_datagram h
        · rw [hhears, l.heard_hear]
          exact or_congr Iff.rfl ⟨fun hh => ⟨hi, hh.2, hh.1⟩, fun hh => ⟨hh.2.2, hh.2.1⟩⟩
        · rw [l.phase_hear]
    | stop q how =>
      obtain rfl : q = p := hp
      have hnot : ¬ σ.Hears q (now, .stop q how) ∧ ¬ σ.Looks q (now, .stop q how) := ⟨id, id⟩
      simp only [hnot.1, hnot.2, and_false, or_false]
      refine ⟨l.stop, ?_, Iff.rfl, Iff.rfl⟩
      unfold pairStep
      dsimp only
      rw [act_ends_self]
      exact refines_stop h now how
  · have hnot : ¬ σ.Hears p (now, e) ∧ ¬ σ.Looks p (now, e) := by
      cases e with
      | go q => exact ⟨id, id⟩
      | timer q => exact ⟨id, fun hl => hp hl.1⟩
      | arrive q i => exact ⟨fun hh => hp hh.1, id⟩
      | stop q how => exact ⟨id, id⟩
    simp only [hnot.1, hnot.2, and_false, or_false]
    rw [pairStep_ends_ne σ now hp]
    exact ⟨l, refines_refl h, Iff.rfl, Iff.rfl⟩

/-- What is on its way to an agent is the nonce that it waits for. -/
def OwnNonces (go : Party → DirectGo) (σ : ProbePair) : Prop :=
  ∀ p, ∀ text ∈ σ.flight p, text = (go p).peerNonce

/-- An agent sends its nonce and no other. -/
theorem ownNonces_act {x : ProbeEnd} {results : List Bool} (hσ : OwnNonces go σ)
    (h : Emits (go p).peer (go p.other).peerNonce (σ.ends p).prober x.prober results) :
    OwnNonces go (σ.act p x) := by
  intro q text htext
  by_cases hq : p.other = q
  · subst hq
    unfold ProbePair.act at htext
    dsimp only at htext
    rw [Function.update_self, List.mem_append] at htext
    rcases htext with htext | htext
    · exact hσ _ text htext
    · exact texts_of_emits h text htext
  · refine hσ q text ?_
    unfold ProbePair.act at htext
    dsimp only at htext
    rw [Function.update_of_ne (Ne.symm hq)] at htext
    exact htext

theorem ownNonces_step (hσ : OwnNonces go σ)
    (h : ∀ p, ∃ l, Represents (go p) (go p.other).peerNonce (σ.ends p) l) (e : Int × PairEvent) :
    OwnNonces go (pairStep go σ e) := by
  -- the agent of the event does what it refines
  have hemits : ∀ p, ∃ results, Emits (go p).peer (go p.other).peerNonce (σ.ends p).prober
      ((pairStep go σ e).ends p).prober results := by
    intro p
    obtain ⟨l, hl⟩ := h p
    obtain ⟨l', hrefines, -⟩ := listener_step hl (hσ p) e
    obtain ⟨results, hemits, -⟩ := hrefines.emits
    exact ⟨results, hemits⟩
  obtain ⟨now, e⟩ := e
  have hact : ∀ (p : Party) (x : ProbeEnd), pairStep go σ (now, e) = σ.act p x →
      OwnNonces go (pairStep go σ (now, e)) := by
    intro p x hstep
    obtain ⟨results, hp⟩ := hemits p
    rw [hstep] at hp ⊢
    rw [act_ends_self] at hp
    exact ownNonces_act hσ hp
  cases e with
  | go q =>
    by_cases hnone : (σ.ends q).handler.isNone = true
    · exact hact q _ (if_pos hnone)
    · have hstep : pairStep go σ (now, .go q) = σ := if_neg hnone
      rw [hstep]
      exact hσ
  | timer q => exact hact q _ rfl
  | arrive q i =>
    unfold pairStep ProbePair.arrive
    dsimp only
    split
    · exact hσ
    · intro p text htext
      by_cases hp : q = p
      · subst hp
        dsimp only at htext
        rw [Function.update_self] at htext
        exact hσ _ text (List.mem_of_mem_eraseIdx htext)
      · dsimp only at htext
        rw [Function.update_of_ne (Ne.symm hp)] at htext
        exact hσ p text htext
  | stop q how => exact hact q _ rfl

end

/-- After the events `es` the agent `p` is in the state `l`. -/
structure Mirrors (go : Party → DirectGo) (start : ProbePair) (es : List (Int × PairEvent))
    (p : Party) (l : Listener) : Prop where
  represents : Represents (go p) (go p.other).peerNonce ((run (pairStep go) start es).ends p) l
  emits : Emits (go p).peer (go p.other).peerNonce (start.ends p).prober
    ((run (pairStep go) start es).ends p).prober l.results
  heard : l.heard = true ↔ Heard go start p es
  passed : l.phase = .done true ↔ HeardInTime go start p es

/-- **Runs.**  The agent refines its machine, which has heard and has succeeded exactly when
the run says so. -/
theorem represents_run (go : Party → DirectGo) (start : ProbePair)
    (hbound : ∀ p, Bound go start p) (es : List (Int × PairEvent)) :
    (∀ p, ∃ l, Mirrors go start es p l) ∧ OwnNonces go (run (pairStep go) start es) := by
  induction es using List.reverseRecOn with
  | nil =>
    constructor
    · intro p
      have hb := hbound p
      refine ⟨⟨.waiting, true, false⟩, ⟨⟨⟨_, hb.socket, rfl, rfl, rfl, rfl⟩, ?_⟩, hb.waiting⟩,
        emits_of_same rfl, ?_, ?_⟩
      · exact hb.registered
      · exact ⟨fun h => (by cases h), fun h => absurd h (not_occurs_nil _)⟩
      · exact ⟨fun h => (by cases h), fun h => absurd h (not_occurs_nil _)⟩
    · intro p text htext
      rw [run_nil, (hbound p).quiet] at htext
      cases htext
  | append_singleton es e ih =>
    obtain ⟨hall, hown⟩ := ih
    constructor
    · intro p
      obtain ⟨l, hl⟩ := hall p
      obtain ⟨l', hrefines, hheard, hpassed⟩ := listener_step hl.represents (hown p) e
      obtain ⟨results, hemits, hresults⟩ := hrefines.emits
      refine ⟨l', ?_, ?_, ?_, ?_⟩
      · rw [run_concat]
        exact hrefines.represents
      · rw [run_concat, hresults]
        exact emits_trans hl.emits hemits
      · rw [Heard, occurs_concat, hheard, hl.heard, Heard]
      · rw [HeardInTime, occurs_concat, hpassed, hl.passed, hl.heard, HeardInTime]
    · rw [run_concat]
      exact ownNonces_step hown (fun p => (hall p).imp fun l hl => hl.represents) e

section
variable {go : Party → DirectGo} {start : ProbePair} {es : List (Int × PairEvent)} {p : Party}
  {l : Listener}

theorem Mirrors.results_eq (h : Mirrors go start es p l) :
    (run (pairStep go) start es).results go start p = l.results :=
  results_of_emits h.emits

theorem results_eq_iff (l : Listener) : l.results = [true] ↔ l.phase = .done true := by
  unfold Listener.results
  cases l.phase with
  | done success => simp
  | _ => simp

/-- Two timers send what is left, and one after three seconds more ends the handler. -/
theorem ended_of_timers {go : DirectGo} {nonce : JsString} {x : ProbeEnd} {t1 t2 t3 : Int}
    (h : Represents go nonce x l) (hstarted : l.started = true) (h12 : t1 ≤ t2)
    (h23 : t2 + 3000 ≤ t3) (hdeadline : ∀ d ∈ x.deadline, d ≤ t3) :
    (((l.timer t1).timer t2).timer t3).results.length = 1 := by
  have hhandler := h.handler
  have hended : ∀ d, l.Ending d → d ≤ t3 →
      (((l.timer t1).timer t2).timer t3).results.length = 1 := fun d hd hlate =>
    ((hd.timer t1).timer t2).ended hlate
  cases hphase : l.phase with
  | waiting =>
    rw [Listener.started, hphase] at hstarted
    cases hstarted
  | sending sent =>
    rw [hphase] at hhandler
    obtain ⟨-, -, hpos⟩ := hhandler
    have hfirst : l.timer t1 = if sent + 1 < 3 then { l with phase := .sending (sent + 1) }
        else l.look (t1 + 3000) := by rw [Listener.timer, hphase]
    by_cases hmore : sent + 1 < 3
    · rw [if_pos hmore] at hfirst
      have hsecond : (l.timer t1).timer t2 = (l.timer t1).look (t2 + 3000) := by
        have hlast : ¬ sent + 1 + 1 < 3 := by omega
        rw [hfirst]
        exact if_neg hlast
      rw [hsecond]
      exact (Listener.ending_look _ _).ended h23
    · rw [if_neg hmore] at hfirst
      rw [hfirst]
      exact ((l.ending_look (t1 + 3000)).timer t2).ended (by omega)
  | polling d =>
    rw [hphase] at hhandler
    exact hended d (Or.inr hphase) (hdeadline d hhandler.2)
  | done success => exact hended t3 (Or.inl ⟨success, hphase⟩) (Int.le_refl t3)

/-- A timer of the agent is a timer of its machine. -/
theorem timer_step {s : Prober} {σ : ProbePair}
    (h : Represents (go p) (go p.other).peerNonce (σ.ends p) l)
    (hemits : Emits (go p).peer (go p.other).peerNonce s (σ.ends p).prober l.results) (t : Int) :
    Represents (go p) (go p.other).peerNonce ((pairStep go σ (t, .timer p)).ends p) (l.timer t) ∧
      Emits (go p).peer (go p.other).peerNonce s ((pairStep go σ (t, .timer p)).ends p).prober
        (l.timer t).results := by
  have hstep : (pairStep go σ (t, .timer p)).ends p = (σ.ends p).fireTimer t := act_ends_self ..
  obtain ⟨hrepresents, results, hsent, hresults⟩ := refines_fireTimer h t
  rw [hstep, hresults]
  exact ⟨hrepresents, emits_trans hemits hsent⟩

end

/-- **The probe ends.**  Once its go has been handled, the agent sends its result when its
timers have fired twice and then once after its deadline. -/
theorem direct_probe_ends (go : Party → DirectGo) (start : ProbePair)
    (hbound : ∀ p, Bound go start p) (es : List (Int × PairEvent)) (p : Party) {t1 t2 t3 : Int}
    (hgo : ((run (pairStep go) start es).ends p).handler.isSome = true)
    (h12 : t1 ≤ t2) (h23 : t2 + 3000 ≤ t3)
    (hdeadline : ∀ d ∈ ((run (pairStep go) start es).ends p).deadline, d ≤ t3) :
    ((run (pairStep go) start (es ++ [(t1, .timer p), (t2, .timer p), (t3, .timer p)])).results
      go start p).length = 1 := by
  obtain ⟨l, hl⟩ := (represents_run go start hbound es).1 p
  have hstarted : l.started = true := by rw [← hl.represents.started, hgo]
  have hlength := ended_of_timers hl.represents hstarted h12 h23 hdeadline
  obtain ⟨h1, e1⟩ := timer_step hl.represents hl.emits t1
  obtain ⟨h2, e2⟩ := timer_step h1 e1 t2
  obtain ⟨-, e3⟩ := timer_step h2 e2 t3
  rw [run_append, ProbePair.results]
  simp only [run_cons, run_nil]
  rw [results_of_emits e3]
  exact hlength

/-- **A direct probe.**  Both agents send success exactly when each of them gets a datagram of
the other one after its own go, and looks once more before its three seconds are over. -/
theorem direct_probe_passes_iff (go : Party → DirectGo) (start : ProbePair)
    (hbound : ∀ p, Bound go start p) (es : List (Int × PairEvent)) :
    (∀ p, (run (pairStep go) start es).results go start p = [true]) ↔
      ∀ p, HeardInTime go start p es := by
  refine forall_congr' fun p => ?_
  obtain ⟨l, hl⟩ := (represents_run go start hbound es).1 p
  rw [hl.results_eq, results_eq_iff, hl.passed]

/-! ## Two runs -/

/-- An agent that has bound its socket for `peer` and has said so. -/
def boundEnd (peer : PeerId) (nonce : JsString) (port : Int) : ProbeEnd where
  prober := run probeStep (.boot ⟨51820, 52819⟩ ⟨[], .empty⟩ .empty [])
    [.receive 0 (.probeDirectStart peer) nonce (.ok 0), .udpBound 0 (.ok port), .udpResume 0]
  entry := 1

/-- Two agents whose sockets are bound. -/
def bothBound : ProbePair where
  ends
    | .a => boundEnd [98] [110] 40000
    | .b => boundEnd [97] [111] 40001
  flight _ := []

/-- What the server says to them. -/
def bothGo : Party → DirectGo
  | .a => ⟨[98], [49], 40001, [111]⟩
  | .b => ⟨[97], [50], 40000, [110]⟩

theorem bound_bothBound (p : Party) : Bound bothGo bothBound p := by
  cases p with
  | a => exact ⟨by decide, by decide, ⟨rfl, rfl⟩, rfl⟩
  | b => exact ⟨by decide, by decide, ⟨rfl, rfl⟩, rfl⟩

/-- Both handle their go before the first datagram comes. -/
def promptRun : List (Int × PairEvent) :=
  [(0, .go .a), (1, .go .b), (10, .arrive .a 0), (11, .arrive .b 0), (100, .timer .a),
    (101, .timer .b), (200, .timer .a), (201, .timer .b)]

/-- The probe passes, so each of them has heard the other in time. -/
theorem direct_probe_passes_iff_promptRun :
    (∀ p, (run (pairStep bothGo) bothBound promptRun).results bothGo bothBound p = [true]) ∧
      ∀ p, HeardInTime bothGo bothBound p promptRun := by
  have hpass : ∀ p, (run (pairStep bothGo) bothBound promptRun).results bothGo bothBound p =
      [true] := by
    intro p
    cases p <;> decide
  exact ⟨hpass, (direct_probe_passes_iff bothGo bothBound bound_bothBound promptRun).mp hpass⟩

/-- The go of `b` comes 300 ms after that of `a`, when all the datagrams of `a` have come. -/
def lateGoRun : List (Int × PairEvent) :=
  [(0, .go .a), (1, .arrive .b 0), (100, .timer .a), (101, .arrive .b 0), (200, .timer .a),
    (201, .arrive .b 0), (250, .timer .a), (300, .timer .a), (300, .go .b), (350, .timer .a),
    (400, .timer .a), (400, .timer .b), (450, .timer .a), (500, .timer .a), (500, .timer .b),
    (510, .arrive .a 0), (511, .arrive .a 0), (512, .arrive .a 0), (550, .timer .a)] ++
  (List.range 60).map fun k : Nat => (550 + 50 * (k : Int), .timer .b)

instance (σ : ProbePair) (e : Int × PairEvent) : Decidable (σ.OnTime e) :=
  match e with
  | (now, .arrive p _) =>
    inferInstanceAs (Decidable ((σ.ends p).isOpen = true ∧ ∀ d ∈ (σ.ends p).deadline, now < d))
  | (_, .go _) | (_, .timer _) | (_, .stop _ _) => isTrue trivial

theorem direct_probe_fails : WorkingPath bothGo bothBound lateGoRun ∧
    (∀ p, Bound bothGo bothBound p) ∧
    ¬ ∀ p, (run (pairStep bothGo) bothBound lateGoRun).results bothGo bothBound p = [true] := by
  refine ⟨⟨by decide, by decide, ?_, ?_⟩, bound_bothBound, fun h => ?_⟩
  · intro p
    cases p <;> decide
  · intro p
    cases p <;> decide
  · exact absurd (h .b) (by decide)

end Meshezia
