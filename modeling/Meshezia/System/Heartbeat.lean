import Meshezia.Agent.Session
import Meshezia.Server.Connections

/-!
# The heartbeat (`startHeartbeat` of `relay.ts`, `wsStaleTimer` of `relay-proxy.ts`)

Every 20 s the server sends a ping to each peer of `connections`.  An agent closes a socket that
nothing has come on for 30 s.  `selfPeerId` is one agent, whose sockets the server takes and loses
like those of other peers; `flight` is what the server has sent and has not arrived.

In a timely run timers fire at most `slack` late, and what is sent to a socket that is open takes
at most `delay`.  There the agent keeps its open socket as long as the table names it
(`heartbeat_keeps`), and is rid of one that the table does not name within 40 s and what is late
(`forgotten_closed`).
-/

namespace Meshezia

open WsSession

def HEARTBEAT_MS : Int := 20000

/-- The sockets that `startHeartbeat` writes to. -/
def heartbeat (connections : Connections) : List Ws :=
  connections.keys.filterMap (sendTextToPeer connections)

/-- An agent and the server.  `held` has the agent's sockets that the server has taken, `true`
until it has lost them. -/
structure WsLink where
  now : Int
  client : WsSession
  connections : Connections
  held : OMap Nat Bool
  heartbeatDue : Int
  flight : List (Ws × Int)

/-- `client` is what happens to the agent but a message; `push` is another message of the server,
`deliver` the arrival of one that was sent at `sent`, `restart` a new process of the server. -/
inductive LinkEvent where
  | client (e : WsEvent)
  | accept (id : Nat)
  | lose (id : Nat)
  | other (ws : Ws) (opens : Bool)
  | beat
  | push (peerId : PeerId)
  | deliver (ws : Ws) (sent : Int)
  | restart
deriving DecidableEq, Repr

section
variable (selfPeerId : PeerId)

namespace WsLink

/-- The agent calls `connectWs`. -/
def start (now heartbeatDue : Int) (connections : Connections) : WsLink :=
  ⟨now, connectWs, connections, .empty, heartbeatDue, []⟩

/-- The server's socket of one of the agent's. -/
def wsOf (id : Nat) : Ws := ⟨id, selfPeerId⟩

/-- The table names the socket for the agent. -/
def Names (s : WsLink) (id : Nat) : Prop :=
  sendTextToPeer s.connections selfPeerId = some (wsOf selfPeerId id)

/-- The socket is open for the agent. -/
def HasOpen (s : WsLink) (id : Nat) : Prop := s.client.sockets.get? id = some .open

/-- A socket is opened for the agent after the server has taken it. -/
def admits (s : WsLink) : WsEvent → Bool
  | .opened id => s.held.has id
  | .message _ => false
  | _ => true

/-- When the messages on the way to the socket were sent. -/
def onTheWay (s : WsLink) (id : Nat) : List Int :=
  (s.flight.filter fun m => m.1 = wsOf selfPeerId id).map Prod.snd

instance (s : WsLink) (id : Nat) : Decidable (s.Names selfPeerId id) :=
  inferInstanceAs (Decidable (_ = _))

instance (s : WsLink) (id : Nat) : Decidable (s.HasOpen id) := inferInstanceAs (Decidable (_ = _))

end WsLink

open WsLink

def linkEvent (s : WsLink) (now : Int) : LinkEvent → WsLink
  | .client e => if s.admits e then { s with client := wsStep s.client ⟨now, e⟩ } else s
  | .accept id =>
    if id < s.client.made ∧ s.held.has id = false then
      { s with
        connections := wsOpen s.connections (wsOf selfPeerId id)
        held := s.held.set id true }
    else s
  | .lose id =>
    if s.held.get? id = some true then
      { s with
        connections := wsClose s.connections (wsOf selfPeerId id)
        held := s.held.set id false }
    else s
  | .other ws opens =>
    if ws.peerId = selfPeerId then s
    else
      { s with connections := if opens then wsOpen s.connections ws else wsClose s.connections ws }
  | .beat =>
    { s with
      flight := s.flight ++ (heartbeat s.connections).map fun ws => (ws, now)
      heartbeatDue := now + HEARTBEAT_MS }
  | .push peerId =>
    match sendTextToPeer s.connections peerId with
    | none => s
    | some ws => { s with flight := s.flight ++ [(ws, now)] }
  | .deliver ws sent =>
    if (ws, sent) ∈ s.flight then
      { s with
        flight := s.flight.erase (ws, sent)
        client :=
          if ws.peerId = selfPeerId then wsStep s.client ⟨now, .message ws.id⟩ else s.client }
    else s
  | .restart =>
    { s with
      connections := .empty
      held := s.held.mapVals fun _ _ => false
      heartbeatDue := now + HEARTBEAT_MS }

def linkStep (s : WsLink) (x : At LinkEvent) : WsLink :=
  { linkEvent selfPeerId s x.now x.event with now := x.now }

/-- Time goes on, no timer is more than `slack` late, and nothing that was sent to an open socket
is on the way for more than `delay`. -/
structure Timely (slack delay : Int) (s : WsLink) (x : At LinkEvent) : Prop where
  clock : s.now ≤ x.now
  beat : x.now ≤ s.heartbeatDue + slack
  check : ∀ due ∈ s.client.wsStaleTimer, x.now ≤ due + slack
  arrive : ∀ m ∈ s.flight, m.1.peerId = selfPeerId → s.HasOpen m.1.id → x.now ≤ m.2 + delay

instance (slack delay : Int) (s : WsLink) (x : At LinkEvent) :
    Decidable (Timely selfPeerId slack delay s x) :=
  decidable_of_iff
    (s.now ≤ x.now ∧ x.now ≤ s.heartbeatDue + slack ∧
      (∀ due ∈ s.client.wsStaleTimer, x.now ≤ due + slack) ∧
      ∀ m ∈ s.flight, m.1.peerId = selfPeerId → s.HasOpen m.1.id → x.now ≤ m.2 + delay)
    ⟨fun h => ⟨h.1, h.2.1, h.2.2.1, h.2.2.2⟩, fun h => ⟨h.clock, h.beat, h.check, h.arrive⟩⟩

/-! ## One step -/

variable {selfPeerId}
variable {s : WsLink} {slack delay : Int}

/-- What an event does. -/
inductive LinkCase (selfPeerId : PeerId) (s : WsLink) (now : Int) : LinkEvent → WsLink → Prop where
  | client (e : WsEvent) (admitted : s.admits e = true) :
      LinkCase selfPeerId s now (.client e) { s with client := wsStep s.client ⟨now, e⟩ }
  | accept (id : Nat) (made : id < s.client.made) (new : s.held.has id = false) :
      LinkCase selfPeerId s now (.accept id)
        { s with
          connections := wsOpen s.connections (wsOf selfPeerId id)
          held := s.held.set id true }
  | lose (id : Nat) (held : s.held.has id = true) :
      LinkCase selfPeerId s now (.lose id)
        { s with
          connections := wsClose s.connections (wsOf selfPeerId id)
          held := s.held.set id false }
  | other (ws : Ws) (opens : Bool) (ne : ws.peerId ≠ selfPeerId) :
      LinkCase selfPeerId s now (.other ws opens)
        { s with
          connections := if opens then wsOpen s.connections ws else wsClose s.connections ws }
  | beat :
      LinkCase selfPeerId s now .beat
        { s with
          flight := s.flight ++ (heartbeat s.connections).map fun ws => (ws, now)
          heartbeatDue := now + HEARTBEAT_MS }
  | push (peerId : PeerId) (ws : Ws) (named : sendTextToPeer s.connections peerId = some ws) :
      LinkCase selfPeerId s now (.push peerId) { s with flight := s.flight ++ [(ws, now)] }
  | arrive (id : Nat) (sent : Int) (mem : (wsOf selfPeerId id, sent) ∈ s.flight) :
      LinkCase selfPeerId s now (.deliver (wsOf selfPeerId id) sent)
        { s with
          flight := s.flight.erase (wsOf selfPeerId id, sent)
          client := wsStep s.client ⟨now, .message id⟩ }
  | stray (ws : Ws) (sent : Int) (ne : ws.peerId ≠ selfPeerId) :
      LinkCase selfPeerId s now (.deliver ws sent) { s with flight := s.flight.erase (ws, sent) }
  | restart :
      LinkCase selfPeerId s now .restart
        { s with
          connections := .empty
          held := s.held.mapVals fun _ _ => false
          heartbeatDue := now + HEARTBEAT_MS }
  | idle (e : LinkEvent) : LinkCase selfPeerId s now e s

theorem linkCase_linkEvent (selfPeerId : PeerId) (s : WsLink) (now : Int) (e : LinkEvent) :
    LinkCase selfPeerId s now e (linkEvent selfPeerId s now e) := by
  unfold linkEvent
  cases e with
  | client e =>
    dsimp only
    split
    · exact .client e ‹_›
    · exact .idle _
  | accept id =>
    dsimp only
    split
    · rename_i h
      exact .accept id h.1 h.2
    · exact .idle _
  | lose id =>
    dsimp only
    split
    · exact .lose id (OMap.has_of_get? ‹_›)
    · exact .idle _
  | other ws opens =>
    dsimp only
    split
    · exact .idle _
    · exact .other ws opens ‹_›
  | beat => exact .beat
  | push peerId =>
    dsimp only
    split
    · exact .idle _
    · exact .push peerId _ ‹_›
  | deliver ws sent =>
    dsimp only
    split
    · rename_i hmem
      by_cases hself : ws.peerId = selfPeerId
      · subst hself
        rw [if_pos rfl]
        exact .arrive ws.id sent hmem
      · rw [if_neg hself]
        exact .stray ws sent hself
    · exact .idle _
  | restart => exact .restart

/-! ## The table and the flight -/

theorem mem_heartbeat {c : Connections} {ws : Ws} :
    ws ∈ heartbeat c ↔ ∃ p, sendTextToPeer c p = some ws := by
  unfold heartbeat
  rw [List.mem_filterMap]
  constructor
  · rintro ⟨p, -, hp⟩
    exact ⟨p, hp⟩
  · rintro ⟨p, hp⟩
    exact ⟨p, (OMap.mem_keys _ _).mpr (OMap.has_of_get? hp), hp⟩

theorem mem_onTheWay {id : Nat} {sent : Int} :
    sent ∈ s.onTheWay selfPeerId id ↔ (wsOf selfPeerId id, sent) ∈ s.flight := by
  unfold onTheWay
  rw [List.mem_map]
  constructor
  · rintro ⟨⟨ws, t⟩, hmem, rfl⟩
    rw [List.mem_filter, decide_eq_true_eq] at hmem
    obtain ⟨hmem, rfl⟩ := hmem
    exact hmem
  · exact fun h => ⟨(wsOf selfPeerId id, sent), List.mem_filter.mpr ⟨h, by simp⟩, rfl⟩

/-- Each socket of the table is one of the peer it is named for. -/
def OwnSockets (c : Connections) : Prop := ∀ p ws, sendTextToPeer c p = some ws → ws.peerId = p

theorem OwnSockets.names {c : Connections} (h : OwnSockets c) {p : PeerId} {id : Nat}
    (hp : sendTextToPeer c p = some (wsOf selfPeerId id)) :
    sendTextToPeer c selfPeerId = some (wsOf selfPeerId id) := by
  rw [← (h p _ hp : selfPeerId = p)] at hp
  exact hp

theorem ownSockets_linkEvent (h : OwnSockets s.connections) (now : Int) (e : LinkEvent) :
    OwnSockets (linkEvent selfPeerId s now e).connections := by
  have hset : ∀ ws : Ws, OwnSockets (wsOpen s.connections ws) := by
    intro ws p w hw
    rcases OMap.get?_set_cases hw with ⟨rfl, rfl⟩ | ⟨-, hw⟩
    · rfl
    · exact h p w hw
  have hdelete : ∀ ws : Ws, OwnSockets (wsClose s.connections ws) := fun ws p w hw =>
    h p w (OMap.get?_of_get?_delete hw).2
  have hcase := linkCase_linkEvent selfPeerId s now e
  generalize linkEvent selfPeerId s now e = s' at hcase
  cases hcase with
  | accept id made new => exact hset _
  | lose id held => exact hdelete _
  | other ws opens ne =>
    cases opens with
    | true => exact hset ws
    | false => exact hdelete ws
  | restart => nofun
  | _ => exact h

/-- The table names the socket that has been taken last, until one is lost. -/
theorem eq_of_names_wsOpen {c : Connections} {k id : Nat}
    (h : sendTextToPeer (wsOpen c (wsOf selfPeerId k)) selfPeerId = some (wsOf selfPeerId id)) :
    k = id :=
  congrArg Ws.id (Option.some.inj ((OMap.get?_set_self ..).symm.trans h))

theorem names_wsClose (c : Connections) (k : Nat) :
    sendTextToPeer (wsClose c (wsOf selfPeerId k)) selfPeerId = none := OMap.get?_delete_self ..

/-- What happens to other peers' sockets does not matter. -/
theorem names_other {ws : Ws} (hne : ws.peerId ≠ selfPeerId) (opens : Bool) :
    sendTextToPeer (if opens then wsOpen s.connections ws else wsClose s.connections ws)
      selfPeerId = sendTextToPeer s.connections selfPeerId := by
  split
  · exact OMap.get?_set_ne _ _ hne
  · exact OMap.get?_delete_ne _ hne

/-! ## The invariant -/

/-- What holds in a timely run: of a socket that is open, the interval is due in time, and if the
table names it, so is the heartbeat. -/
structure LinkInv (selfPeerId : PeerId) (slack : Int) (s : WsLink) : Prop where
  phase : WsPhase s.client
  attended : Attended s.now s.client
  heard : ∀ id, s.HasOpen id →
    s.now - s.client.lastWsDataAt ≤ WS_STALE_MS + WS_STALE_CHECK_MS + slack
  due : s.heartbeatDue ≤ s.now + HEARTBEAT_MS
  sent : ∀ m ∈ s.flight, m.2 ≤ s.now
  own : OwnSockets s.connections
  numbered : ∀ id, s.held.has id = true → id < s.client.made
  held : ∀ id, s.HasOpen id → s.held.has id = true
  beaten : ∀ id, s.HasOpen id → s.Names selfPeerId id →
    Beaten HEARTBEAT_MS slack s.client.lastWsDataAt s.heartbeatDue (s.onTheWay selfPeerId id)

/-- The next heartbeat is never more than a period away. -/
theorem Timely.due_le {x : At LinkEvent} (hx : Timely selfPeerId slack delay s x)
    (hi : LinkInv selfPeerId slack s) : s.heartbeatDue ≤ x.now + HEARTBEAT_MS := by
  have := hi.due
  have := hx.clock
  omega

/-- An open socket has been heard of within the limit, its period and what is late. -/
theorem Timely.silence_le {x : At LinkEvent} (hx : Timely selfPeerId slack delay s x)
    (hi : LinkInv selfPeerId slack s) {id : Nat} (hopen : s.HasOpen id) :
    x.now - s.client.lastWsDataAt ≤ WS_STALE_MS + WS_STALE_CHECK_MS + slack := by
  obtain ⟨due, hdue, hwatched⟩ := hi.attended.watched (hi.phase.isWsAlive hopen)
  exact hwatched.silence_le (hx.check due hdue)

/-- One that the table names, within the period of the heart and what is late. -/
theorem Timely.beat_le {x : At LinkEvent} (hx : Timely selfPeerId slack delay s x)
    (hi : LinkInv selfPeerId slack s) (hdelay : 0 ≤ delay) {id : Nat} (hopen : s.HasOpen id)
    (hnames : s.Names selfPeerId id) :
    x.now - s.client.lastWsDataAt ≤ HEARTBEAT_MS + slack + delay :=
  (hi.beaten id hopen hnames).silence_le hdelay hx.beat fun _ ht =>
    hx.arrive _ (mem_onTheWay.mp ht) rfl hopen

/-- The agent does not move, or takes a step of its own. -/
theorem client_linkEvent (s : WsLink) (now : Int) (e : LinkEvent) :
    (linkEvent selfPeerId s now e).client = s.client ∨
      ∃ e', (linkEvent selfPeerId s now e).client = wsStep s.client ⟨now, e'⟩ := by
  have hcase := linkCase_linkEvent selfPeerId s now e
  generalize linkEvent selfPeerId s now e = s' at hcase
  cases hcase with
  | client e => exact Or.inr ⟨e, rfl⟩
  | arrive id => exact Or.inr ⟨.message id, rfl⟩
  | _ => exact Or.inl rfl

section
variable {x : At LinkEvent} (hi : LinkInv selfPeerId slack s)
  (hx : Timely selfPeerId slack delay s x)
include hi hx

theorem attended_linkStep :
    WsPhase (linkStep selfPeerId s x).client ∧ Attended x.now (linkStep selfPeerId s x).client := by
  show WsPhase (linkEvent selfPeerId s x.now x.event).client ∧
    Attended x.now (linkEvent selfPeerId s x.now x.event).client
  rcases client_linkEvent s x.now x.event with h | ⟨e, h⟩
  · rw [h]
    exact ⟨hi.phase, hi.attended.mono hx.clock⟩
  · rw [h]
    exact ⟨wsPhase_wsStep hi.phase _, hi.attended.wsStep (x := ⟨x.now, e⟩) hi.phase hx.clock⟩

theorem heard_linkStep (hslack : 0 ≤ slack) {id : Nat}
    (hopen : (linkStep selfPeerId s x).HasOpen id) :
    x.now - (linkStep selfPeerId s x).client.lastWsDataAt ≤
      WS_STALE_MS + WS_STALE_CHECK_MS + slack := by
  -- right after something has come
  have hnow : x.now - x.now ≤ WS_STALE_MS + WS_STALE_CHECK_MS + slack := by
    unfold WS_STALE_MS WS_STALE_CHECK_MS
    omega
  change (linkEvent selfPeerId s x.now x.event).client.sockets.get? id = some .open at hopen
  show x.now - (linkEvent selfPeerId s x.now x.event).client.lastWsDataAt ≤ _
  rcases client_linkEvent s x.now x.event with h | ⟨e, h⟩
  · rw [h] at hopen ⊢
    exact hx.silence_le hi hopen
  · rw [h] at hopen ⊢
    rcases hi.phase.open_wsStep hopen with ⟨-, -, hlast⟩ | ⟨hbefore, hlast | ⟨-, hlast⟩⟩
    · rw [hlast]
      exact hnow
    · rw [hlast]
      exact hx.silence_le hi hbefore
    · rw [hlast]
      exact hnow

/-- A socket that the server has taken is one that the agent has made, and one that is open the
server has taken. -/
theorem held_linkStep :
    (∀ id, (linkStep selfPeerId s x).held.has id = true →
      id < (linkStep selfPeerId s x).client.made) ∧
    ∀ id, (linkStep selfPeerId s x).HasOpen id → (linkStep selfPeerId s x).held.has id = true := by
  obtain ⟨now, e⟩ := x
  unfold linkStep HasOpen
  have hcase := linkCase_linkEvent selfPeerId s now e
  generalize linkEvent selfPeerId s now e = s' at hcase
  cases hcase with
  | client e admitted =>
    refine ⟨fun id hid => Nat.lt_of_lt_of_le (hi.numbered id hid) (made_le_wsStep _ _), ?_⟩
    intro id hopen
    rcases hi.phase.open_wsStep hopen with ⟨rfl, -⟩ | ⟨hopen, -⟩
    · exact admitted
    · exact hi.held id hopen
  | accept id made new =>
    refine ⟨fun k hk => ?_, fun k hopen => ?_⟩
    · rw [OMap.has_set, Bool.or_eq_true, decide_eq_true_eq] at hk
      rcases hk with rfl | hk
      · exact made
      · exact hi.numbered k hk
    · rw [OMap.has_set, hi.held k hopen, Bool.or_true]
  | lose id held =>
    refine ⟨fun k hk => ?_, fun k hopen => ?_⟩
    · rw [OMap.has_set, Bool.or_eq_true, decide_eq_true_eq] at hk
      rcases hk with rfl | hk
      · exact hi.numbered _ held
      · exact hi.numbered k hk
    · rw [OMap.has_set, hi.held k hopen, Bool.or_true]
  | arrive id sent mem =>
    refine ⟨fun k hk => Nat.lt_of_lt_of_le (hi.numbered k hk) (made_le_wsStep _ _), ?_⟩
    intro k hopen
    rcases hi.phase.open_wsStep hopen with ⟨h, -⟩ | ⟨hopen, -⟩
    · cases h
    · exact hi.held k hopen
  | restart =>
    refine ⟨fun k hk => ?_, fun k hopen => ?_⟩
    · rw [OMap.has_mapVals] at hk
      exact hi.numbered k hk
    · rw [OMap.has_mapVals]
      exact hi.held k hopen
  | _ => exact ⟨hi.numbered, hi.held⟩

theorem sent_linkStep :
    (linkStep selfPeerId s x).heartbeatDue ≤ x.now + HEARTBEAT_MS ∧
      ∀ m ∈ (linkStep selfPeerId s x).flight, m.2 ≤ x.now := by
  have hdue := hx.due_le hi
  have hsent : ∀ m ∈ s.flight, m.2 ≤ x.now := fun m hm => (hi.sent m hm).trans hx.clock
  obtain ⟨now, e⟩ := x
  unfold linkStep
  have hcase := linkCase_linkEvent selfPeerId s now e
  generalize linkEvent selfPeerId s now e = s' at hcase
  cases hcase with
  | beat =>
    refine ⟨Int.le_refl _, fun m hm => ?_⟩
    rcases List.mem_append.mp hm with hm | hm
    · exact hsent m hm
    · obtain ⟨ws, -, rfl⟩ := List.mem_map.mp hm
      exact Int.le_refl _
  | push peerId ws named =>
    refine ⟨hdue, fun m hm => ?_⟩
    rcases List.mem_append.mp hm with hm | hm
    · exact hsent m hm
    · rw [List.mem_singleton.mp hm]
  | arrive id sent mem => exact ⟨hdue, fun m hm => hsent m (List.mem_of_mem_erase hm)⟩
  | stray ws sent ne => exact ⟨hdue, fun m hm => hsent m (List.mem_of_mem_erase hm)⟩
  | restart => exact ⟨Int.le_refl _, hsent⟩
  | _ => exact ⟨hdue, hsent⟩

theorem beaten_linkStep {id : Nat} (hopen : (linkStep selfPeerId s x).HasOpen id)
    (hnames : (linkStep selfPeerId s x).Names selfPeerId id) :
    Beaten HEARTBEAT_MS slack (linkStep selfPeerId s x).client.lastWsDataAt
      (linkStep selfPeerId s x).heartbeatDue
      ((linkStep selfPeerId s x).onTheWay selfPeerId id) := by
  have hdue := hx.due_le hi
  -- what has not arrived is still on the way
  have herase : ∀ m : Ws × Int, m.1 ≠ wsOf selfPeerId id → ∀ t ∈ s.onTheWay selfPeerId id,
      (wsOf selfPeerId id, t) ∈ s.flight.erase m := by
    intro m hm t ht
    rw [mem_onTheWay] at ht
    exact (List.mem_erase_of_ne fun h => hm (by rw [← h])).mpr ht
  obtain ⟨now, e⟩ := x
  unfold linkStep at hopen hnames ⊢
  have hcase := linkCase_linkEvent selfPeerId s now e
  generalize linkEvent selfPeerId s now e = s' at hcase hopen hnames
  cases hcase with
  | client e admitted =>
    rcases hi.phase.open_wsStep hopen with ⟨-, -, hlast⟩ | ⟨hbefore, hlast | ⟨rfl, -⟩⟩
    · dsimp only
      rw [hlast]
      exact Or.inl hdue
    · dsimp only
      rw [hlast]
      exact hi.beaten id hbefore hnames
    · cases admitted
  | accept k made new =>
    obtain rfl := eq_of_names_wsOpen hnames
    rw [hi.held k hopen] at new
    cases new
  | lose k held =>
    cases (names_wsClose _ k).symm.trans hnames
  | other ws opens ne =>
    exact hi.beaten id hopen ((names_other ne opens).symm.trans hnames)
  | beat =>
    refine (hi.beaten id hopen hnames).beat hx.beat (fun t ht => ?_) ?_ _
    · rw [mem_onTheWay] at ht ⊢
      exact List.mem_append_left _ ht
    · rw [mem_onTheWay]
      exact List.mem_append_right _
        (List.mem_map.mpr ⟨wsOf selfPeerId id, mem_heartbeat.mpr ⟨selfPeerId, hnames⟩, rfl⟩)
  | push peerId ws named =>
    refine (hi.beaten id hopen hnames).subset fun t ht => ?_
    rw [mem_onTheWay] at ht ⊢
    exact List.mem_append_left _ ht
  | arrive k sent mem =>
    by_cases hk : k = id
    · subst hk
      rcases hi.phase.open_wsStep hopen with ⟨h, -⟩ | ⟨hbefore, -⟩
      · cases h
      · have hlast : (wsStep s.client ⟨now, .message k⟩).lastWsDataAt = now := by
          unfold wsStep
          dsimp only
          rw [if_pos hbefore]
          rfl
        dsimp only
        rw [hlast]
        exact Or.inl hdue
    · rcases hi.phase.open_wsStep hopen with ⟨h, -⟩ | ⟨hbefore, hlast | ⟨h, -⟩⟩
      · cases h
      · dsimp only
        rw [hlast]
        refine (hi.beaten id hbefore hnames).subset fun t ht => mem_onTheWay.mpr ?_
        exact herase _ (fun h => hk (congrArg Ws.id h)) t ht
      · cases h
        exact absurd rfl hk
  | stray ws sent ne =>
    refine (hi.beaten id hopen hnames).subset fun t ht => mem_onTheWay.mpr ?_
    exact herase _ (fun h => ne (congrArg Ws.peerId h)) t ht
  | restart => cases hnames
  | idle => exact hi.beaten id hopen hnames

end

theorem linkInv_linkStep (hslack : 0 ≤ slack) (hi : LinkInv selfPeerId slack s) {x : At LinkEvent}
    (hx : Timely selfPeerId slack delay s x) :
    LinkInv selfPeerId slack (linkStep selfPeerId s x) where
  phase := (attended_linkStep hi hx).1
  attended := (attended_linkStep hi hx).2
  heard := fun _ hopen => heard_linkStep hi hx hslack hopen
  due := (sent_linkStep hi hx).1
  sent := (sent_linkStep hi hx).2
  own := ownSockets_linkEvent hi.own x.now x.event
  numbered := (held_linkStep hi hx).1
  held := (held_linkStep hi hx).2
  beaten := fun _ hopen hnames => beaten_linkStep hi hx hopen hnames

theorem linkInv_start {now due : Int} {connections : Connections} (hdue : due ≤ now + HEARTBEAT_MS)
    (hown : OwnSockets connections) :
    LinkInv selfPeerId slack (start now due connections) := by
  have hnone : ∀ id, connectWs.sockets.get? id ≠ some .open := by
    intro id hopen
    rcases OMap.get?_set_cases hopen with ⟨-, h⟩ | ⟨-, h⟩
    · cases h
    · cases h
  exact ⟨wsPhase_connectWs, attended_of_not_open hnone, fun id hopen => absurd hopen (hnone id),
    hdue, nofun, hown, nofun, fun id hopen => absurd hopen (hnone id),
    fun id hopen => absurd hopen (hnone id)⟩

/-! ## Forgotten sockets -/

/-- The table does not name the socket since `t₀`, or the agent is rid of it. -/
structure Forgotten (selfPeerId : PeerId) (delay t₀ : Int) (id : Nat) (s : WsLink) : Prop where
  taken : s.held.has id = true
  begun : s.client.sockets.get? id ≠ some .connecting
  unnamed : ¬ s.Names selfPeerId id
  abandoned : s.HasOpen id →
    Abandoned t₀ delay s.client.lastWsDataAt (s.onTheWay selfPeerId id)

theorem forgotten_linkStep (hi : LinkInv selfPeerId slack s) {x : At LinkEvent}
    (hx : Timely selfPeerId slack delay s x) {t₀ : Int} {id : Nat}
    (h : Forgotten selfPeerId delay t₀ id s) :
    Forgotten selfPeerId delay t₀ id (linkStep selfPeerId s x) := by
  -- nothing more is sent to it
  have hsame : ∀ (l : List (Ws × Int)), (∀ m ∈ l, ∃ p, sendTextToPeer s.connections p = some m.1) →
      ∀ t, (wsOf selfPeerId id, t) ∈ s.flight ++ l → (wsOf selfPeerId id, t) ∈ s.flight := by
    intro l hl t ht
    rcases List.mem_append.mp ht with ht | ht
    · exact ht
    · obtain ⟨p, hp⟩ := hl _ ht
      exact absurd (hi.own.names hp) h.unnamed
  have hconnecting : ∀ x' : At WsEvent,
      (wsStep s.client x').sockets.get? id ≠ some .connecting := fun x' hget =>
    h.begun (connecting_wsStep (hi.numbered id h.taken) hget)
  obtain ⟨now, e⟩ := x
  unfold linkStep
  have hcase := linkCase_linkEvent selfPeerId s now e
  generalize linkEvent selfPeerId s now e = s' at hcase
  cases hcase with
  | client e admitted =>
    refine ⟨h.taken, hconnecting _, h.unnamed, fun hopen => ?_⟩
    rcases hi.phase.open_wsStep hopen with ⟨-, hget, -⟩ | ⟨hbefore, hlast | ⟨rfl, -⟩⟩
    · exact absurd hget h.begun
    · dsimp only
      rw [hlast]
      exact h.abandoned hbefore
    · cases admitted
  | accept k made new =>
    refine ⟨by rw [OMap.has_set, h.taken, Bool.or_true], h.begun, fun hnames => ?_, h.abandoned⟩
    obtain rfl := eq_of_names_wsOpen hnames
    rw [h.taken] at new
    cases new
  | lose k held =>
    refine ⟨by rw [OMap.has_set, h.taken, Bool.or_true], h.begun, fun hnames => ?_, h.abandoned⟩
    cases (names_wsClose _ k).symm.trans hnames
  | other ws opens ne =>
    exact ⟨h.taken, h.begun, fun hnames => h.unnamed ((names_other ne opens).symm.trans hnames),
      h.abandoned⟩
  | beat =>
    refine ⟨h.taken, h.begun, h.unnamed, fun hopen => (h.abandoned hopen).subset fun t ht => ?_⟩
    rw [mem_onTheWay] at ht ⊢
    refine hsame _ (fun m hm => ?_) t ht
    obtain ⟨ws, hws, rfl⟩ := List.mem_map.mp hm
    exact mem_heartbeat.mp hws
  | push peerId ws named =>
    refine ⟨h.taken, h.begun, h.unnamed, fun hopen => (h.abandoned hopen).subset fun t ht => ?_⟩
    rw [mem_onTheWay] at ht ⊢
    refine hsame _ (fun m hm => ?_) t ht
    rw [List.mem_singleton.mp hm]
    exact ⟨peerId, named⟩
  | arrive k sent mem =>
    refine ⟨h.taken, hconnecting _, h.unnamed, fun hopen => ?_⟩
    have hsub : ∀ t, (wsOf selfPeerId id, t) ∈ s.flight.erase (wsOf selfPeerId k, sent) →
        t ∈ s.onTheWay selfPeerId id := fun t ht => mem_onTheWay.mpr (List.mem_of_mem_erase ht)
    rcases hi.phase.open_wsStep hopen with ⟨hk, -⟩ | ⟨hbefore, hlast | ⟨hk, hlast⟩⟩
    · cases hk
    · dsimp only
      rw [hlast]
      exact (h.abandoned hbefore).subset fun t ht => hsub t (mem_onTheWay.mp ht)
    · cases hk
      dsimp only
      rw [hlast]
      exact (h.abandoned hbefore).feed (mem_onTheWay.mpr mem)
        (hx.arrive _ mem rfl hbefore) fun t ht => hsub t (mem_onTheWay.mp ht)
  | stray ws sent ne =>
    refine ⟨h.taken, h.begun, h.unnamed, fun hopen => (h.abandoned hopen).subset fun t ht => ?_⟩
    rw [mem_onTheWay] at ht ⊢
    exact List.mem_of_mem_erase ht
  | restart =>
    refine ⟨?_, h.begun, nofun, h.abandoned⟩
    rw [OMap.has_mapVals]
    exact h.taken
  | idle => exact ⟨h.taken, h.begun, h.unnamed, h.abandoned⟩

theorem forgotten_of_unnamed (hi : LinkInv selfPeerId slack s) (hdelay : 0 ≤ delay) {id : Nat}
    (hopen : s.HasOpen id) (hunnamed : ¬ s.Names selfPeerId id) :
    Forgotten selfPeerId delay s.now id s where
  taken := hi.held id hopen
  begun := fun hget => by cases hopen.symm.trans hget
  unnamed := hunnamed
  abandoned := fun _ => by
    have hpast := hi.attended.past (hi.phase.isWsAlive hopen)
    exact ⟨by omega, fun t ht => hi.sent _ (mem_onTheWay.mp ht)⟩

/-! ## Top theorems -/

variable (selfPeerId slack delay)

/-- A timely run that starts with a call of `connectWs`, at any time between two heartbeats and
with any other peers connected. -/
structure TimelyRun (s₀ : WsLink) (es : List (At LinkEvent)) : Prop where
  slack_nonneg : 0 ≤ slack
  delay_nonneg : 0 ≤ delay
  start : s₀ = .start s₀.now s₀.heartbeatDue s₀.connections
  due : s₀.heartbeatDue ≤ s₀.now + HEARTBEAT_MS
  own : OwnSockets s₀.connections
  timely : Along (linkStep selfPeerId) (Timely selfPeerId slack delay) s₀ es

variable {selfPeerId slack delay}

theorem TimelyRun.linkInv {s₀ : WsLink} {es : List (At LinkEvent)}
    (h : TimelyRun selfPeerId slack delay s₀ es) :
    LinkInv selfPeerId slack (run (linkStep selfPeerId) s₀ es) := by
  refine run_invariant_along (linkStep selfPeerId) (I := LinkInv selfPeerId slack)
    (fun _ _ hi hx => linkInv_linkStep h.slack_nonneg hi hx) ?_ h.timely
  rw [h.start]
  exact linkInv_start h.due h.own

theorem TimelyRun.append {s₀ : WsLink} {es es' : List (At LinkEvent)}
    (h : TimelyRun selfPeerId slack delay s₀ (es ++ es')) :
    TimelyRun selfPeerId slack delay s₀ es ∧
      Along (linkStep selfPeerId) (Timely selfPeerId slack delay)
        (run (linkStep selfPeerId) s₀ es) es' := by
  obtain ⟨hes, hes'⟩ := (along_append _ _ _ _ _).mp h.timely
  exact ⟨⟨h.slack_nonneg, h.delay_nonneg, h.start, h.due, h.own, hes⟩, hes'⟩

/-- **The heartbeat keeps the socket.**  When what is late is not more than the limit leaves, the
agent closes no socket that the table names, but on an error. -/
theorem heartbeat_keeps (hlimit : HEARTBEAT_MS + slack + delay ≤ WS_STALE_MS) (s₀ : WsLink)
    (es : List (At LinkEvent)) (x : At LinkEvent) (id : Nat)
    (htimely : TimelyRun selfPeerId slack delay s₀ (es ++ [x]))
    (hopen : (run (linkStep selfPeerId) s₀ es).HasOpen id)
    (hnames : (run (linkStep selfPeerId) s₀ es).Names selfPeerId id) :
    (run (linkStep selfPeerId) s₀ (es ++ [x])).HasOpen id ∨
      x.event = .client (.closed id) ∨ ∃ k, x.event = .client (.errored k) := by
  obtain ⟨hes, hx, -⟩ := htimely.append
  have hi := hes.linkInv
  have hbeat := hx.beat_le hi hes.delay_nonneg hopen hnames
  rw [run_concat]
  generalize run (linkStep selfPeerId) s₀ es = s at *
  obtain ⟨t, e⟩ := x
  -- only a step of the agent's own can close it
  have hstep : ∀ e' : WsEvent, (wsStep s.client ⟨t, e'⟩).sockets.get? id = some .open ∨
      (∃ k, e' = .errored k) ∨ e' = .closed id := by
    intro e'
    rcases hi.phase.stays_open ⟨t, e'⟩ hopen with h | h | h | ⟨-, hsilent⟩
    · exact Or.inl h
    · exact Or.inr (Or.inl h)
    · exact Or.inr (Or.inr h)
    · dsimp only at hbeat hsilent
      omega
  unfold linkStep HasOpen
  have hcase := linkCase_linkEvent selfPeerId s t e
  generalize linkEvent selfPeerId s t e = s' at hcase
  cases hcase with
  | client e' admitted =>
    rcases hstep e' with h | ⟨k, rfl⟩ | rfl
    · exact Or.inl h
    · exact Or.inr (Or.inr ⟨k, rfl⟩)
    · exact Or.inr (Or.inl rfl)
  | arrive k sent mem =>
    rcases hstep (.message k) with h | ⟨k, h⟩ | h
    · exact Or.inl h
    · cases h
    · cases h
  | _ => exact Or.inl hopen

/-- Two heartbeats and the looks of the interval between them. -/
def beatenRun : List (At LinkEvent) :=
  [⟨10, .accept 0⟩, ⟨20, .client (.opened 0)⟩, ⟨10020, .client .staleCheck⟩, ⟨20000, .beat⟩,
    ⟨20030, .client .staleCheck⟩, ⟨20050, .deliver ⟨0, [97]⟩ 20000⟩, ⟨30030, .client .staleCheck⟩,
    ⟨40000, .beat⟩]

theorem heartbeat_keeps_beatenRun :
    (run (linkStep [97]) (start 0 20000 .empty)
        (beatenRun ++ [⟨40030, .client .staleCheck⟩])).HasOpen 0 ∨
      LinkEvent.client .staleCheck = .client (.closed 0) ∨
      ∃ k, LinkEvent.client .staleCheck = .client (.errored k) :=
  @heartbeat_keeps [97] 100 100 (by decide) (start 0 20000 .empty) beatenRun
    ⟨40030, .client .staleCheck⟩ 0 ⟨by decide, by decide, rfl, by decide, nofun, by decide⟩
    (by decide) (by decide)

/-- **A forgotten socket goes.**  The agent is rid of an open socket that the table does not name
once the interval has found it silent. -/
theorem forgotten_closed (s₀ : WsLink) (es es' : List (At LinkEvent)) (id : Nat)
    (htimely : TimelyRun selfPeerId slack delay s₀ (es ++ es'))
    (hopen : (run (linkStep selfPeerId) s₀ es).HasOpen id)
    (hunnamed : ¬ (run (linkStep selfPeerId) s₀ es).Names selfPeerId id)
    (hlate : (run (linkStep selfPeerId) s₀ es).now + delay +
        (WS_STALE_MS + WS_STALE_CHECK_MS + slack) <
      (run (linkStep selfPeerId) s₀ (es ++ es')).now) :
    ¬ (run (linkStep selfPeerId) s₀ (es ++ es')).HasOpen id := by
  obtain ⟨hes, hes'⟩ := htimely.append
  have hi := hes.linkInv
  have hforgotten := forgotten_of_unnamed hi hes.delay_nonneg hopen hunnamed
  rw [run_append] at hlate ⊢
  generalize run (linkStep selfPeerId) s₀ es = s at *
  have hrun : LinkInv selfPeerId slack (run (linkStep selfPeerId) s es') ∧
      Forgotten selfPeerId delay s.now id (run (linkStep selfPeerId) s es') :=
    run_invariant_along (linkStep selfPeerId) (I := fun s' => LinkInv selfPeerId slack s' ∧
        Forgotten selfPeerId delay s.now id s')
      (fun _ _ h hx => ⟨linkInv_linkStep hes.slack_nonneg h.1 hx, forgotten_linkStep h.1 hx h.2⟩)
      ⟨hi, hforgotten⟩ hes'
  intro hstill
  have hheard := hrun.1.heard id hstill
  have hfed := (hrun.2.abandoned hstill).fed_le
  omega

/-- The server loses the socket right after it has been opened. -/
def forgottenRun : List (At LinkEvent) :=
  [⟨10, .accept 0⟩, ⟨20, .client (.opened 0)⟩, ⟨30, .lose 0⟩]

def silentRun : List (At LinkEvent) :=
  [⟨10020, .client .staleCheck⟩, ⟨20000, .beat⟩, ⟨20020, .client .staleCheck⟩,
    ⟨30020, .client .staleCheck⟩, ⟨40000, .beat⟩, ⟨40020, .client .staleCheck⟩,
    ⟨40200, .client (.closed 0)⟩]

theorem forgotten_closed_silentRun :
    ¬ (run (linkStep [97]) (start 0 20000 .empty) (forgottenRun ++ silentRun)).HasOpen 0 :=
  @forgotten_closed [97] 100 0 (start 0 20000 .empty) forgottenRun silentRun 0
    ⟨by decide, by decide, rfl, by decide, nofun, by decide⟩ (by decide) (by decide) (by decide)

end

end Meshezia
