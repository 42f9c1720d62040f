import Meshezia.Lib.Run
import Meshezia.Server.Db

/-!
# The connection table (`relay.ts`)

`connections` maps a peer id to the WebSocket of that peer.  `wsHandler.open` sets
the entry of the socket's peer, `wsHandler.close` deletes it whichever socket is
being closed, and `sendTextToPeer` writes to the socket the table names.

The second half compares the table with the sockets themselves.  `liveSockets` are
the sockets opened and not yet closed, the one opened last first.  The table follows
them (`Follows`) through a whole sequence of opens and closes exactly when every
close is the close of its peer's only live socket:

    (∀ pre <+: es, Follows …) ↔ Along … ClosesOnlySocket [] es   (connections_follow_sockets_iff)
-/

namespace Meshezia

/-- A `ServerWebSocket` with its `data.peerId`; `id` is the identity of the object. -/
structure Ws where
  id : Nat
  peerId : PeerId
deriving DecidableEq, Repr

abbrev Connections := OMap PeerId Ws

/-! ## Algorithm -/

def isPeerConnected (c : Connections) (peerId : PeerId) : Bool := c.has peerId

/-- The socket a text message to `peerId` is written to, if any. -/
def sendTextToPeer (c : Connections) (peerId : PeerId) : Option Ws := c.get? peerId

def wsOpen (c : Connections) (ws : Ws) : Connections := c.set ws.peerId ws

def wsClose (c : Connections) (ws : Ws) : Connections := c.delete ws.peerId

inductive SocketEvent where
  | open (ws : Ws)
  | close (ws : Ws)
deriving DecidableEq, Repr

def connStep (c : Connections) : SocketEvent → Connections
  | .open ws => wsOpen c ws
  | .close ws => wsClose c ws

/-! ## The sockets themselves -/

/-- The live sockets after an event, the one opened last first. -/
def liveStep (live : List Ws) : SocketEvent → List Ws
  | .open ws => ws :: live
  | .close ws => live.filter fun w => w ≠ ws

/-- The live socket of `peerId` that was opened last. -/
def lastOpened (live : List Ws) (peerId : PeerId) : Option Ws :=
  live.find? fun w => w.peerId = peerId

/-- The table names, for every peer, its live socket that was opened last, so that a
peer counts as connected, and is reached, exactly when it has a live socket. -/
structure Follows (c : Connections) (live : List Ws) : Prop where
  table : ∀ p, c.get? p = lastOpened live p
  connected : ∀ p, isPeerConnected c p = true ↔ ∃ ws ∈ live, ws.peerId = p
  reached : ∀ p, sendTextToPeer c p = lastOpened live p

/-- A socket is opened once and closed at most once, after its open. -/
def SocketOk (live : List Ws) : SocketEvent → Prop
  | .open ws => ws ∉ live
  | .close ws => ws ∈ live

def WellFormed (es : List SocketEvent) : Prop := Along liveStep SocketOk [] es

/-- A close is the close of the only live socket of its peer. -/
def ClosesOnlySocket (live : List Ws) : SocketEvent → Prop
  | .open _ => True
  | .close ws => ∀ w ∈ live, w.peerId = ws.peerId → w = ws

/-! ## Lemmas -/

theorem lastOpened_isSome_iff (live : List Ws) (p : PeerId) :
    (lastOpened live p).isSome = true ↔ ∃ ws ∈ live, ws.peerId = p := by
  unfold lastOpened
  rw [List.find?_isSome]
  simp

theorem follows_iff (c : Connections) (live : List Ws) :
    Follows c live ↔ ∀ p, c.get? p = lastOpened live p := by
  constructor
  · exact fun h => h.table
  · intro h
    refine ⟨h, fun p => ?_, h⟩
    unfold isPeerConnected OMap.has
    rw [h p]
    exact lastOpened_isSome_iff live p

theorem follows_empty : Follows .empty [] := (follows_iff _ _).mpr fun _ => rfl

theorem follows_open {c : Connections} {live : List Ws} (h : Follows c live) (ws : Ws) :
    Follows (wsOpen c ws) (ws :: live) := by
  rw [follows_iff] at h ⊢
  intro p
  unfold wsOpen lastOpened
  rw [OMap.get?_set, List.find?_cons]
  by_cases hp : ws.peerId = p
  · simp [hp]
  · simpa [hp, lastOpened] using h p

/-- Closing a socket leaves the last opened socket of every other peer. -/
theorem lastOpened_close_ne (live : List Ws) {ws : Ws} {p : PeerId} (hp : ws.peerId ≠ p) :
    lastOpened (live.filter fun w => w ≠ ws) p = lastOpened live p := by
  unfold lastOpened
  rw [List.find?_filter]
  congr 1
  funext w
  by_cases hw : w = ws
  · subst hw; simp [hp]
  · simp [hw]

theorem follows_close_iff {c : Connections} {live : List Ws} (h : Follows c live) (ws : Ws) :
    Follows (wsClose c ws) (live.filter fun w => w ≠ ws) ↔
      ∀ w ∈ live, w.peerId = ws.peerId → w = ws := by
  rw [follows_iff] at h ⊢
  constructor
  · -- the table has lost the peer, so no live socket of it can be left
    intro hf w hw hp
    have hnone := (hf ws.peerId).symm
    unfold wsClose at hnone
    rw [OMap.get?_delete_self] at hnone
    apply Classical.byContradiction
    intro hne
    have hsome := (lastOpened_isSome_iff (live.filter fun w => w ≠ ws) ws.peerId).mpr
      ⟨w, List.mem_filter.mpr ⟨hw, by simpa using hne⟩, hp⟩
    rw [hnone] at hsome
    cases hsome
  · intro honly p
    unfold wsClose
    rw [OMap.get?_delete]
    by_cases hp : ws.peerId = p
    · rw [if_pos hp]
      cases hl : lastOpened (live.filter fun w => w ≠ ws) p with
      | none => rfl
      | some w =>
        obtain ⟨w', hw', hp'⟩ := (lastOpened_isSome_iff _ p).mp (by rw [hl]; rfl)
        obtain ⟨hmem, hne⟩ := List.mem_filter.mp hw'
        exact absurd (honly w' hmem (hp'.trans hp.symm)) (by simpa using hne)
    · rw [if_neg hp, lastOpened_close_ne live hp]
      exact h p

theorem follows_step_iff {c : Connections} {live : List Ws} (h : Follows c live)
    (e : SocketEvent) :
    Follows (connStep c e) (liveStep live e) ↔ ClosesOnlySocket live e := by
  cases e with
  | «open» ws => exact ⟨fun _ => trivial, fun _ => follows_open h ws⟩
  | close ws => exact follows_close_iff h ws

theorem follows_along_iff (es : List SocketEvent) (c : Connections) (live : List Ws)
    (h : Follows c live) :
    (∀ pre, pre <+: es → Follows (run connStep c pre) (run liveStep live pre)) ↔
      Along liveStep ClosesOnlySocket live es := by
  induction es generalizing c live with
  | nil =>
    refine ⟨fun _ => trivial, fun _ pre hpre => ?_⟩
    rw [List.prefix_nil.mp hpre]
    exact h
  | cons e es ih =>
    constructor
    · intro hf
      have he : Follows (connStep c e) (liveStep live e) :=
        hf [e] (List.cons_prefix_cons.mpr ⟨rfl, List.nil_prefix⟩)
      refine ⟨(follows_step_iff h e).mp he, (ih _ _ he).mp fun pre hpre => ?_⟩
      exact hf (e :: pre) (List.cons_prefix_cons.mpr ⟨rfl, hpre⟩)
    · rintro ⟨he, hes⟩ pre hpre
      have he' := (follows_step_iff h e).mpr he
      cases pre with
      | nil => exact h
      | cons e' pre =>
        obtain ⟨rfl, hpre'⟩ := List.cons_prefix_cons.mp hpre
        exact (ih _ _ he').mpr hes pre hpre'

/-! ## Top theorems -/

/-- **The table follows the sockets** after every event exactly when each close is the
close of its peer's only live socket. -/
theorem connections_follow_sockets_iff (es : List SocketEvent) :
    (∀ pre, pre <+: es → Follows (run connStep .empty pre) (run liveStep [] pre)) ↔
      Along liveStep ClosesOnlySocket [] es :=
  follows_along_iff es .empty [] follows_empty

/-- An agent reconnects over a half-open link: its second socket is opened before the
close of the first is reported.  The close takes the live socket out of the table. -/
theorem connections_lose_reconnected_peer :
    ¬ ∀ es, WellFormed es → ∀ pre, pre <+: es →
      Follows (run connStep .empty pre) (run liveStep [] pre) := by
  intro h
  have hf := (h [.open ⟨0, [97]⟩, .open ⟨1, [97]⟩, .close ⟨0, [97]⟩]
    (by simp [WellFormed, Along, SocketOk, liveStep]) _ List.prefix_rfl).table [97]
  revert hf
  decide

end Meshezia
