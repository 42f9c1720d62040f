import Meshezia.Lib.OMap
import Meshezia.Lib.Run
import Meshezia.Lib.Watchdog

/-!
# The session with the server (`connectWs` of `relay-proxy.ts`)

`connect` makes a socket and puts it into `ws`.  Its close arms a timeout that calls `connect`
again, and an interval that its open starts closes it when nothing has come for `WS_STALE_MS`.
The handlers use the variable `ws`, whichever socket they belong to.

Whatever happens in whatever order, there is one socket that is not closed, and it is `ws`, or
one timeout that will make one, and not both (`one_socket`).
-/

namespace Meshezia

def WS_STALE_MS : Int := 30000

/-- The period of `wsStaleTimer`. -/
def WS_STALE_CHECK_MS : Int := 10000

/-- The delay of `wsReconnectTimer`. -/
def WS_RECONNECT_MS : Int := 3000

/-- The `readyState` of a `WebSocket`. -/
inductive ReadyState where
  | connecting
  | open
  | closing
  | closed
deriving DecidableEq, Repr

/-- `close()`. -/
def ReadyState.close : ReadyState → ReadyState
  | .connecting => .closing
  | .open => .closing
  | st => st

/-- The variables of the module for its connection, all the sockets it has made, numbered in
order, and when the timeouts for `connect` that have not run are due.  `wsStaleTimer` is when the
interval is due next; `wsSend` tells that `negotiate.ts` has `sendFn` and not `() => {}`. -/
structure WsSession where
  sockets : OMap Nat ReadyState
  made : Nat
  ws : Option Nat
  reconnects : List Int
  wsStaleTimer : Option Int
  lastWsDataAt : Int
  wsSend : Bool

namespace WsSession

/-! ## Algorithm -/

def init : WsSession := ⟨.empty, 0, none, [], none, 0, false⟩

/-- `ws?.readyState`. -/
def readyState (s : WsSession) : Option ReadyState := s.ws.bind s.sockets.get?

def isWsAlive (s : WsSession) : Bool := s.readyState = some .open

/-- The socket that a health report is sent on, if any. -/
def sendWsText (s : WsSession) : Option Nat := if s.isWsAlive then s.ws else none

/-- The socket that a message of `negotiate.ts` is sent on, if any. -/
def negotiateSend (s : WsSession) : Option Nat :=
  if s.wsSend then if s.isWsAlive then s.ws else none else none

def connect (s : WsSession) : WsSession :=
  { s with
    sockets := s.sockets.set s.made .connecting
    made := s.made + 1
    ws := some s.made }

/-- `ws?.close()`. -/
def closeWs (s : WsSession) : WsSession :=
  match s.ws with
  | none => s
  | some id => { s with sockets := s.sockets.mapVals fun k st => if k = id then st.close else st }

def onopen (s : WsSession) (now : Int) : WsSession :=
  { s with
    lastWsDataAt := now
    wsSend := true
    wsStaleTimer := some (now + WS_STALE_CHECK_MS) }

def onmessage (s : WsSession) (now : Int) : WsSession := { s with lastWsDataAt := now }

def onclose (s : WsSession) (now : Int) : WsSession :=
  { s with
    wsSend := false
    wsStaleTimer := none
    reconnects := (now + WS_RECONNECT_MS) :: s.reconnects }

def onerror (s : WsSession) : WsSession := s.closeWs

/-- The body of the interval. -/
def staleCheck (s : WsSession) (now : Int) : WsSession :=
  if s.isWsAlive ∧ now - s.lastWsDataAt > WS_STALE_MS then s.closeWs else s

def connectWs : WsSession := init.connect

end WsSession

open WsSession

/-- `id` is the socket the event is dispatched on; `reconnect due` is the timeout due then. -/
inductive WsEvent where
  | opened (id : Nat)
  | message (id : Nat)
  | errored (id : Nat)
  | closed (id : Nat)
  | staleCheck
  | reconnect (due : Int)
deriving DecidableEq, Repr

/-- A socket is opened while it is connecting, gets messages while it is open, and is closed
once. -/
def wsStep (s : WsSession) (x : At WsEvent) : WsSession :=
  match x.event with
  | .opened id =>
    if s.sockets.get? id = some .connecting then
      { s with sockets := s.sockets.set id .open }.onopen x.now
    else s
  | .message id => if s.sockets.get? id = some .open then s.onmessage x.now else s
  | .errored id =>
    if s.sockets.has id ∧ s.sockets.get? id ≠ some .closed then s.onerror else s
  | .closed id =>
    if s.sockets.has id ∧ s.sockets.get? id ≠ some .closed then
      { s with sockets := s.sockets.set id .closed }.onclose x.now
    else s
  | .staleCheck =>
    if s.wsStaleTimer.isSome then
      { s.staleCheck x.now with wsStaleTimer := some (x.now + WS_STALE_CHECK_MS) }
    else s
  | .reconnect due =>
    if due ∈ s.reconnects then { s with reconnects := s.reconnects.erase due }.connect else s

/-! ## What is claimed -/

namespace WsSession

/-- The sockets that are not closed. -/
def live (s : WsSession) : List Nat :=
  s.sockets.keys.filter fun id => s.sockets.get? id ≠ some .closed

/-- There is one socket that is not closed, and it is `ws`, or one timeout for `connect`.  The
interval runs while the socket is open, and never while it connects or there is none.  What
`negotiate.ts` sends goes where a health report goes. -/
structure OneSocket (s : WsSession) : Prop where
  one : s.live.length + s.reconnects.length = 1
  current : ∀ id ∈ s.live, s.ws = some id
  checked : s.readyState = some .open → s.wsStaleTimer.isSome = true
  unchecked : s.readyState ≠ some .open → s.readyState ≠ some .closing → s.wsStaleTimer = none
  sender : s.negotiateSend = s.sendWsText

end WsSession

/-! ## The two phases -/

/-- The session has a socket, or waits to make one. -/
inductive WsPhase (s : WsSession) : Prop where
  | attached (id : Nat) (st : ReadyState) (ws : s.ws = some id) (get : s.sockets.get? id = some st)
      (live : st ≠ .closed)
      (others : ∀ k, k ≠ id → ∀ st', s.sockets.get? k = some st' → st' = .closed)
      (timers : s.reconnects = []) (timer : s.wsStaleTimer.isSome = s.wsSend)
      (opened : st = .open → s.wsSend = true) (connecting : st = .connecting → s.wsSend = false) :
      WsPhase s
  | waiting (due : Int) (closed : ∀ k st, s.sockets.get? k = some st → st = .closed)
      (ws : ∃ id, s.ws = some id) (timers : s.reconnects = [due]) (timer : s.wsStaleTimer = none)
      (sender : s.wsSend = false) : WsPhase s

section
variable {s : WsSession} {now : Int}

theorem ReadyState.close_eq_closed {st : ReadyState} : st.close = .closed ↔ st = .closed := by
  cases st <;> simp [ReadyState.close]

theorem ReadyState.close_ne (st : ReadyState) : st.close ≠ .open ∧ st.close ≠ .connecting := by
  cases st <;> simp [ReadyState.close]

/-- A socket that is not closed is the one the session has. -/
theorem WsPhase.ws_of_live (h : WsPhase s) {k : Nat} {st : ReadyState}
    (hk : s.sockets.get? k = some st) (hst : st ≠ .closed) : s.ws = some k := by
  cases h with
  | attached id st' ws get live others =>
    by_cases hid : k = id
    · rw [ws, hid]
    · exact absurd (others k hid st hk) hst
  | waiting due closed => exact absurd (closed k st hk) hst

theorem get?_closeWs (s : WsSession) (k : Nat) :
    s.closeWs.sockets.get? k =
      if s.ws = some k then (s.sockets.get? k).map ReadyState.close else s.sockets.get? k := by
  unfold closeWs
  cases hws : s.ws with
  | none => simp
  | some id =>
    simp only [OMap.get?_mapVals, Option.some.injEq]
    by_cases hk : k = id
    · subst hk
      simp
    · simp [hk, Ne.symm hk]

/-- Only the states of the sockets change. -/
theorem closeWs_eq (s : WsSession) : s.closeWs = { s with sockets := s.closeWs.sockets } := by
  unfold closeWs
  split <;> rfl

theorem WsPhase.closeWs (h : WsPhase s) : WsPhase s.closeWs := by
  have hget := get?_closeWs s
  rw [closeWs_eq]
  cases h with
  | attached id st ws get live others timers timer =>
    refine .attached id st.close ws ?_ (fun h => live (ReadyState.close_eq_closed.mp h)) ?_ timers
      timer (fun h => absurd h st.close_ne.1) (fun h => absurd h st.close_ne.2)
    · show s.closeWs.sockets.get? id = some st.close
      rw [hget, if_pos ws, get, Option.map_some]
    · intro k hk st' hst'
      refine others k hk st' ?_
      change s.closeWs.sockets.get? k = some st' at hst'
      rwa [hget, if_neg (fun h => hk (Option.some.inj (h.symm.trans ws)))] at hst'
  | waiting due closed ws timers timer sender =>
    refine .waiting due (fun k st hst => ?_) ws timers timer sender
    change s.closeWs.sockets.get? k = some st at hst
    rw [hget] at hst
    split at hst
    · obtain ⟨st', hst', rfl⟩ := Option.map_eq_some_iff.mp hst
      rw [closed k st' hst']
      rfl
    · exact closed k st hst

theorem wsPhase_connectWs : WsPhase connectWs := by
  refine .attached 0 .connecting rfl rfl (by decide) (fun k hk st hst => ?_) rfl rfl (by decide)
    (fun _ => rfl)
  change (OMap.empty.set 0 ReadyState.connecting).get? k = some st at hst
  rw [OMap.get?_set_ne _ _ hk.symm, OMap.get?_empty] at hst
  cases hst

/-- The open of a socket. -/
theorem WsPhase.opened (h : WsPhase s) {id : Nat} (hid : s.sockets.get? id = some .connecting) :
    WsPhase ({ s with sockets := s.sockets.set id .open }.onopen now) := by
  cases h with
  | attached k st ws get live others timers =>
    have hk : id = k := Classical.byContradiction fun hne => by
      cases others id hne _ hid
    subst hk
    refine .attached id .open ws (OMap.get?_set_self ..) (by decide) (fun k hk st' hst' => ?_)
      timers rfl (fun _ => rfl) nofun
    change (s.sockets.set id .open).get? k = some st' at hst'
    rw [OMap.get?_set_ne _ _ hk.symm] at hst'
    exact others k hk st' hst'
  | waiting due closed => cases closed id _ hid

/-- The close of a socket. -/
theorem WsPhase.closed (h : WsPhase s) {id : Nat} {st : ReadyState}
    (hid : s.sockets.get? id = some st) (hst : st ≠ .closed) :
    WsPhase ({ s with sockets := s.sockets.set id .closed }.onclose now) := by
  cases h with
  | attached k st' ws get live others timers =>
    have hk : id = k := Classical.byContradiction fun hne => hst (others id hne _ hid)
    subst hk
    refine .waiting (now + WS_RECONNECT_MS) (fun k st'' hk => ?_) ⟨id, ws⟩ ?_ rfl rfl
    · rcases OMap.get?_set_cases hk with ⟨-, hclosed⟩ | ⟨hne, hk⟩
      · exact hclosed
      · exact others k (Ne.symm hne) st'' hk
    · show (now + WS_RECONNECT_MS) :: s.reconnects = [now + WS_RECONNECT_MS]
      rw [timers]
  | waiting due closed => exact absurd (closed id st hid) hst

/-- The run of a timeout. -/
theorem WsPhase.reconnect (h : WsPhase s) {due : Int} (hdue : due ∈ s.reconnects) :
    WsPhase ({ s with reconnects := s.reconnects.erase due }.connect) := by
  cases h with
  | attached id st ws get live others timers =>
    rw [timers] at hdue
    cases hdue
  | waiting due' closed ws timers timer sender =>
    rw [timers, List.mem_singleton] at hdue
    subst hdue
    refine .attached s.made .connecting rfl (OMap.get?_set_self ..) (by decide)
      (fun k hk st hst => ?_) ?_ ?_ nofun fun _ => sender
    · change (s.sockets.set s.made .connecting).get? k = some st at hst
      rw [OMap.get?_set_ne _ _ hk.symm] at hst
      exact closed k st hst
    · show s.reconnects.erase due = []
      rw [timers]
      simp
    · show s.wsStaleTimer.isSome = s.wsSend
      rw [timer, sender]
      rfl

/-- The interval stays armed, for another time. -/
theorem WsPhase.rearm (h : WsPhase s) (hsome : s.wsStaleTimer.isSome = true) (due : Int) :
    WsPhase { s with wsStaleTimer := some due } := by
  cases h with
  | attached id st ws get live others timers timer opened connecting =>
    exact .attached id st ws get live others timers (hsome.symm.trans timer) opened connecting
  | waiting due' closed ws timers timer =>
    rw [timer] at hsome
    cases hsome

theorem WsPhase.onmessage (h : WsPhase s) : WsPhase (s.onmessage now) := by
  cases h with
  | attached id st ws get live others timers timer opened connecting =>
    exact .attached id st ws get live others timers timer opened connecting
  | waiting due closed ws timers timer sender => exact .waiting due closed ws timers timer sender

/-! ## One step -/

/-- What an event does. -/
inductive WsCase (s : WsSession) (now : Int) : WsEvent → WsSession → Prop where
  | opened (id : Nat) (get : s.sockets.get? id = some .connecting) :
      WsCase s now (.opened id) ({ s with sockets := s.sockets.set id .open }.onopen now)
  | message (id : Nat) (get : s.sockets.get? id = some .open) :
      WsCase s now (.message id) (s.onmessage now)
  | errored (id : Nat) : WsCase s now (.errored id) s.closeWs
  | closed (id : Nat) (st : ReadyState) (get : s.sockets.get? id = some st) (live : st ≠ .closed) :
      WsCase s now (.closed id) ({ s with sockets := s.sockets.set id .closed }.onclose now)
  | stale (armed : s.wsStaleTimer.isSome = true) (silent : now - s.lastWsDataAt > WS_STALE_MS) :
      WsCase s now .staleCheck
        { s.closeWs with wsStaleTimer := some (now + WS_STALE_CHECK_MS) }
  | fresh (armed : s.wsStaleTimer.isSome = true)
      (heard : s.isWsAlive = true → now - s.lastWsDataAt ≤ WS_STALE_MS) :
      WsCase s now .staleCheck { s with wsStaleTimer := some (now + WS_STALE_CHECK_MS) }
  | reconnect (due : Int) (mem : due ∈ s.reconnects) :
      WsCase s now (.reconnect due) ({ s with reconnects := s.reconnects.erase due }.connect)
  | idle (e : WsEvent) : WsCase s now e s

theorem wsCase_wsStep (s : WsSession) (x : At WsEvent) : WsCase s x.now x.event (wsStep s x) := by
  unfold wsStep
  cases x.event with
  | opened id =>
    dsimp only
    split
    · exact .opened id ‹_›
    · exact .idle _
  | message id =>
    dsimp only
    split
    · exact .message id ‹_›
    · exact .idle _
  | errored id =>
    dsimp only
    split
    · exact .errored id
    · exact .idle _
  | closed id =>
    dsimp only
    split
    · rename_i hid
      obtain ⟨st, hst⟩ := (OMap.has_iff _ _).mp hid.1
      exact .closed id st hst fun hclosed => hid.2 (by rw [hst, hclosed])
    · exact .idle _
  | staleCheck =>
    dsimp only
    split
    · unfold WsSession.staleCheck
      split
      · rename_i hsilent
        exact .stale ‹_› hsilent.2
      · rename_i hheard
        exact .fresh ‹_› fun halive => Int.not_lt.mp fun hsilent => hheard ⟨halive, hsilent⟩
    · exact .idle _
  | reconnect due =>
    dsimp only
    split
    · exact .reconnect due ‹_›
    · exact .idle _

theorem wsPhase_wsStep (h : WsPhase s) (x : At WsEvent) : WsPhase (wsStep s x) := by
  obtain ⟨now, e⟩ := x
  have hcase := wsCase_wsStep s ⟨now, e⟩
  generalize wsStep s ⟨now, e⟩ = s' at hcase
  cases hcase with
  | opened id get => exact h.opened get
  | message => exact h.onmessage
  | errored => exact h.closeWs
  | closed id st get live => exact h.closed get live
  | stale armed => exact h.closeWs.rearm (by rw [closeWs_eq]; exact armed) _
  | fresh armed => exact h.rearm armed _
  | reconnect due mem => exact h.reconnect mem
  | idle => exact h

theorem isWsAlive_iff (s : WsSession) :
    s.isWsAlive = true ↔ ∃ id, s.ws = some id ∧ s.sockets.get? id = some .open := by
  unfold isWsAlive readyState
  cases s.ws <;> simp

/-- The open socket of a session is `ws`. -/
theorem WsPhase.isWsAlive (h : WsPhase s) {id : Nat} (hopen : s.sockets.get? id = some .open) :
    s.isWsAlive = true :=
  (isWsAlive_iff s).mpr ⟨id, h.ws_of_live hopen (by decide), hopen⟩

/-- Closing `ws` leaves no socket of a session open. -/
theorem WsPhase.not_open_closeWs (h : WsPhase s) (k : Nat) :
    s.closeWs.sockets.get? k ≠ some .open := by
  rw [get?_closeWs]
  split
  · intro hopen
    obtain ⟨st, -, hst⟩ := Option.map_eq_some_iff.mp hopen
    exact st.close_ne.1 hst
  · rename_i hne
    exact fun hopen => hne (h.ws_of_live hopen (by decide))

/-- A session has one open socket at most. -/
theorem WsPhase.open_unique (h : WsPhase s) {i j : Nat} {st : ReadyState}
    (hi : s.sockets.get? i = some .open) (hj : s.sockets.get? j = some st) (hst : st ≠ .closed) :
    i = j :=
  Option.some.inj ((h.ws_of_live hi (by decide)).symm.trans (h.ws_of_live hj hst))

/-- A socket that is open after a step was open before it, or is opened by it. -/
theorem WsPhase.open_wsStep (h : WsPhase s) {x : At WsEvent} {id : Nat}
    (hopen : (wsStep s x).sockets.get? id = some .open) :
    (x.event = .opened id ∧ s.sockets.get? id = some .connecting ∧
        (wsStep s x).lastWsDataAt = x.now) ∨
      s.sockets.get? id = some .open ∧ ((wsStep s x).lastWsDataAt = s.lastWsDataAt ∨
        x.event = .message id ∧ (wsStep s x).lastWsDataAt = x.now) := by
  obtain ⟨now, e⟩ := x
  have hcase := wsCase_wsStep s ⟨now, e⟩
  generalize wsStep s ⟨now, e⟩ = s' at hcase hopen
  cases hcase with
  | opened k get =>
    rcases OMap.get?_set_cases hopen with ⟨rfl, -⟩ | ⟨hid, hopen⟩
    · exact Or.inl ⟨rfl, get, rfl⟩
    · exact absurd (h.open_unique hopen get (by decide)).symm hid
  | message k get =>
    rw [h.open_unique get hopen (by decide)]
    exact Or.inr ⟨hopen, Or.inr ⟨rfl, rfl⟩⟩
  | errored => exact absurd hopen (h.not_open_closeWs id)
  | closed k st get live =>
    rcases OMap.get?_set_cases hopen with ⟨-, hclosed⟩ | ⟨-, hopen⟩
    · cases hclosed
    · exact Or.inr ⟨hopen, Or.inl rfl⟩
  | stale => exact absurd hopen (h.not_open_closeWs id)
  | fresh => exact Or.inr ⟨hopen, Or.inl rfl⟩
  | reconnect due mem =>
    rcases OMap.get?_set_cases hopen with ⟨-, hconnecting⟩ | ⟨-, hopen⟩
    · cases hconnecting
    · exact Or.inr ⟨hopen, Or.inl rfl⟩
  | idle => exact Or.inr ⟨hopen, Or.inl rfl⟩

/-- An open socket stays open but for an error, its close, and a silence. -/
theorem WsPhase.stays_open (h : WsPhase s) (x : At WsEvent) {id : Nat}
    (hopen : s.sockets.get? id = some .open) :
    (wsStep s x).sockets.get? id = some .open ∨ (∃ k, x.event = .errored k) ∨
      x.event = .closed id ∨
      x.event = .staleCheck ∧ x.now - s.lastWsDataAt > WS_STALE_MS := by
  obtain ⟨now, e⟩ := x
  have hcase := wsCase_wsStep s ⟨now, e⟩
  generalize wsStep s ⟨now, e⟩ = s' at hcase
  cases hcase with
  | opened k get =>
    rw [h.open_unique hopen get (by decide)] at hopen
    cases hopen.symm.trans get
  | errored k => exact Or.inr (Or.inl ⟨k, rfl⟩)
  | closed k st get live =>
    rw [h.open_unique hopen get live]
    exact Or.inr (Or.inr (Or.inl rfl))
  | stale armed silent => exact Or.inr (Or.inr (Or.inr ⟨rfl, silent⟩))
  | reconnect due mem =>
    cases h with
    | attached k st ws get live others timers =>
      rw [timers] at mem
      cases mem
    | waiting due' closed => cases closed id _ hopen
  | message => exact Or.inl hopen
  | fresh => exact Or.inl hopen
  | idle => exact Or.inl hopen

/-- A socket that connects after a step was connecting before it, or is new. -/
theorem connecting_wsStep {x : At WsEvent} {id : Nat} (hid : id < s.made)
    (hget : (wsStep s x).sockets.get? id = some .connecting) :
    s.sockets.get? id = some .connecting := by
  have hclose : s.closeWs.sockets.get? id = some .connecting →
      s.sockets.get? id = some .connecting := by
    rw [get?_closeWs]
    split
    · intro h
      obtain ⟨st, -, hst⟩ := Option.map_eq_some_iff.mp h
      exact absurd hst st.close_ne.2
    · exact fun h => h
  obtain ⟨now, e⟩ := x
  have hcase := wsCase_wsStep s ⟨now, e⟩
  generalize wsStep s ⟨now, e⟩ = s' at hcase hget
  cases hcase with
  | opened k get =>
    rcases OMap.get?_set_cases hget with ⟨-, h⟩ | ⟨-, h⟩
    · cases h
    · exact h
  | closed k st get live =>
    rcases OMap.get?_set_cases hget with ⟨-, h⟩ | ⟨-, h⟩
    · cases h
    · exact h
  | reconnect due mem =>
    rcases OMap.get?_set_cases hget with ⟨h, -⟩ | ⟨-, h⟩
    · exact absurd h (Nat.ne_of_gt hid)
    · exact h
  | errored => exact hclose hget
  | stale => exact hclose hget
  | message => exact hget
  | fresh => exact hget
  | idle => exact hget

theorem made_le_wsStep (s : WsSession) (x : At WsEvent) : s.made ≤ (wsStep s x).made := by
  obtain ⟨now, e⟩ := x
  have hcase := wsCase_wsStep s ⟨now, e⟩
  generalize wsStep s ⟨now, e⟩ = s' at hcase
  cases hcase with
  | reconnect => exact Nat.le_succ _
  | errored => rw [closeWs_eq]
  | stale => rw [closeWs_eq]
  | _ => exact Nat.le_refl _

/-! ## The interval -/

/-- While the socket is open its interval is due in time. -/
structure Attended (clock : Int) (s : WsSession) : Prop where
  past : s.isWsAlive = true → s.lastWsDataAt ≤ clock
  watched : s.isWsAlive = true → ∃ due, s.wsStaleTimer = some due ∧
    Watched WS_STALE_MS WS_STALE_CHECK_MS s.lastWsDataAt due

theorem attended_of_not_open {clock : Int} (h : ∀ k, s.sockets.get? k ≠ some .open) :
    Attended clock s := by
  have hdead : s.isWsAlive ≠ true := by
    rw [Ne, isWsAlive_iff]
    rintro ⟨id, -, hopen⟩
    exact h id hopen
  exact ⟨fun ha => absurd ha hdead, fun ha => absurd ha hdead⟩

theorem Attended.wsStep {clock : Int} {x : At WsEvent} (h : Attended clock s) (hphase : WsPhase s)
    (hnow : clock ≤ x.now) : Attended x.now (wsStep s x) := by
  obtain ⟨now, e⟩ := x
  have hcase := wsCase_wsStep s ⟨now, e⟩
  generalize Meshezia.wsStep s ⟨now, e⟩ = s' at hcase
  cases hcase with
  | opened id get => exact ⟨fun _ => Int.le_refl now, fun _ => ⟨_, rfl, .start (by decide) now⟩⟩
  | message id get =>
    refine ⟨fun _ => Int.le_refl now, fun halive => ?_⟩
    obtain ⟨due, hdue, hwatched⟩ := h.watched halive
    exact ⟨due, hdue, hwatched.feed ((h.past halive).trans hnow)⟩
  | errored => exact attended_of_not_open hphase.not_open_closeWs
  | closed id st get live =>
    refine attended_of_not_open fun k hk => ?_
    rcases OMap.get?_set_cases hk with ⟨-, hclosed⟩ | ⟨hne, hk⟩
    · cases hclosed
    · exact hne (hphase.open_unique hk get live).symm
  | stale => exact attended_of_not_open hphase.not_open_closeWs
  | fresh armed heard =>
    exact ⟨fun halive => (h.past halive).trans hnow, fun halive => ⟨_, rfl, .look (heard halive)⟩⟩
  | reconnect due mem =>
    -- a session that waits has no open socket
    cases hphase with
    | attached id st ws get live others timers =>
      rw [timers] at mem
      cases mem
    | waiting due' closed =>
      refine attended_of_not_open fun k hk => ?_
      rcases OMap.get?_set_cases hk with ⟨-, hconnecting⟩ | ⟨-, hk⟩
      · cases hconnecting
      · cases closed k _ hk
  | idle => exact ⟨fun halive => (h.past halive).trans hnow, h.watched⟩

theorem Attended.mono {clock clock' : Int} (h : Attended clock s) (hle : clock ≤ clock') :
    Attended clock' s := ⟨fun halive => (h.past halive).trans hle, h.watched⟩

/-! ## Top theorem -/

theorem live_attached {id : Nat} {st : ReadyState} (get : s.sockets.get? id = some st)
    (hlive : st ≠ .closed)
    (others : ∀ k, k ≠ id → ∀ st', s.sockets.get? k = some st' → st' = .closed) :
    s.live = [id] := by
  have hmem : ∀ k, k ∈ s.live ↔ k = id := by
    intro k
    unfold live
    rw [List.mem_filter, OMap.mem_keys, OMap.has_iff, decide_eq_true_eq]
    constructor
    · rintro ⟨⟨st', hst'⟩, hne⟩
      exact Classical.byContradiction fun hk => hne (by rw [hst', others k hk st' hst'])
    · rintro rfl
      exact ⟨⟨st, get⟩, by rw [get]; simpa using hlive⟩
  have hnodup : s.live.Nodup := s.sockets.nodup.sublist List.filter_sublist
  exact (List.perm_singleton.mp ((List.perm_ext_iff_of_nodup hnodup (List.nodup_singleton id)).mpr
    fun k => by rw [hmem, List.mem_singleton]))

theorem live_waiting (closed : ∀ k st, s.sockets.get? k = some st → st = .closed) :
    s.live = [] := by
  unfold live
  rw [List.filter_eq_nil_iff]
  intro k hk
  obtain ⟨st, hst⟩ := (OMap.has_iff _ _).mp ((OMap.mem_keys _ _).mp hk)
  simp [hst, closed k st hst]

theorem oneSocket_of_wsPhase (h : WsPhase s) : OneSocket s := by
  cases h with
  | attached id st ws get live others timers timer opened connecting =>
    have hready : s.readyState = some st := by rw [readyState, ws]; exact get
    have hone := live_attached get live others
    refine ⟨by rw [hone, timers]; rfl, fun k hk => ?_, ?_, ?_, ?_⟩
    · rw [hone, List.mem_singleton] at hk
      rw [ws, hk]
    · intro hopen
      rw [timer]
      exact opened (Option.some.inj (hready.symm.trans hopen))
    · intro hopen hclosing
      rw [hready] at hopen hclosing
      cases st with
      | connecting => simpa [connecting rfl] using timer
      | «open» => exact absurd rfl hopen
      | closing => exact absurd rfl hclosing
      | closed => exact absurd rfl live
    · unfold negotiateSend sendWsText isWsAlive
      rw [hready]
      by_cases hst : st = .open
      · rw [if_pos (opened hst)]
      · simp [hst]
  | waiting due closed ws timers timer sender =>
    have hone := live_waiting closed
    have hnone : s.isWsAlive = false := by
      obtain ⟨id, hid⟩ := ws
      unfold isWsAlive readyState
      rw [hid, Option.bind_some, decide_eq_false_iff_not]
      intro hopen
      cases closed id _ hopen
    refine ⟨by rw [hone, timers]; rfl, fun k hk => ?_, fun hopen => ?_, fun _ _ => timer, ?_⟩
    · rw [hone] at hk
      cases hk
    · rw [isWsAlive, hopen] at hnone
      cases hnone
    · unfold negotiateSend sendWsText
      rw [sender, hnone]
      rfl

/-- **One socket, or one timeout to make one.** -/
theorem one_socket (es : List (At WsEvent)) : OneSocket (run wsStep connectWs es) :=
  oneSocket_of_wsPhase
    (run_invariant wsStep (I := WsPhase) (fun _ x h => wsPhase_wsStep h x) wsPhase_connectWs es)

end

end Meshezia
