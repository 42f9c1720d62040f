import Meshezia.Server.Backoff
import Meshezia.Server.Commute
import Meshezia.Server.Networks

/-!
# Removing a peer

A peer goes by `DELETE /api/peers/:id`, with its network, or by the reaper.  `Removed` is
what the claim wants after that: no row, record or negotiation mentions it, the other
party of each of its negotiations and the remaining peers of its network were told.

The reaper does this unless it removes both parties of a negotiation, or splits the key of a
record of the peer wrongly; the delete endpoints do it only where there is nothing to do but
the rows (`CleanAt`).  Afterwards a health report that names the peer, or comes from it, makes
a record again (`Event.Avoids`).

    (Removed p s (step cfg s e) ↔ CleanAt p s e) ∧ (CleanAt p s e →
      ∀ es', (∀ e' ∈ es', e'.Avoids p) → Unmentioned p (exec cfg db (es ++ e :: es'))),
        where s = exec cfg db es                                       (removal_complete)
-/

namespace Meshezia

open ServerState Relation

/-! ## What is claimed -/

/-- The key is that of a pair of `p`. -/
def Mentions (p : PeerId) (key : PairKey) : Prop := ∃ q, key = pairKey p q

/-- `p` is one of the two parts that the server splits the key into. -/
def IsPart (p : PeerId) (key : PairKey) : Prop :=
  (parsePairKey key).1 = p ∨ (parsePairKey key).2 = p

instance (p : PeerId) (key : PairKey) : Decidable (IsPart p key) :=
  inferInstanceAs (Decidable (_ ∨ _))

/-- No health record and no negotiation mentions `p`. -/
structure Unmentioned (p : PeerId) (s : ServerState) : Prop where
  health : ∀ k h, s.pairHealthMap.get? k = some h → ¬ Mentions p k
  active : ∀ k n, s.activeNegotiations.get? k = some n → ¬ n.Involves p

/-- No row mentions `p`. -/
structure RowsGone (p : PeerId) (db : Db) : Prop where
  peers : db.peers.get? p = none
  ports : ∀ k, k.1 = p ∨ k.2 = p → db.peerPorts.get? k = none
  links : ∀ k, k.1 = p ∨ k.2 = p → db.peerLinks.get? k = none

/-- From `s` to `s'` the item was added to the history. -/
def Adds (s s' : ServerState) (it : TraceItem) : Prop :=
  ∃ items, s'.trace = items ++ s.trace ∧ it ∈ items

/-- From `s` to `s'` the peer `p` was removed completely. -/
structure Removed (p : PeerId) (s s' : ServerState) : Prop where
  rows : RowsGone p s'.db
  memory : Unmentioned p s'
  told : ∀ k n w, s.activeNegotiations.get? k = some n → n.Involves p →
    s.connections.get? (n.other p) = some w →
    ∃ reason, Adds s s' (.sent (n.other p) w (.negotiateAbort p reason) (some n.nid))
  notified : ∀ row q rowQ w, s.db.peers.get? p = some row → s'.db.peers.get? q = some rowQ →
    rowQ.networkId = row.networkId → s.connections.get? q = some w →
    Adds s s' (.sent q w (.peerRemoved p) none)

/-- The event removes `p`. -/
def Event.Removes (s : ServerState) (p : PeerId) : Event → Prop
  | .api (.deletePeer id) => id = p
  | .api (.deleteNetwork id) => ∃ row, s.db.peers.get? p = some row ∧ row.networkId = id
  | .reap now false => p ∈ (expiredPeers s.db now).map Prod.fst
  | _ => False

/-- The event leaves nothing of `p` behind.  A delete of the peer finds no record, no
negotiation and no other connected peer of its network, a delete of the network no record
and no negotiation.  The reaper does not remove a connected party of a negotiation before the
other one, and splits the key of each record of `p` into parts one of which it removes. -/
def CleanAt (p : PeerId) (s : ServerState) : Event → Prop
  | .api (.deletePeer _) => Unmentioned p s ∧ ∀ row q rowQ, s.db.peers.get? p = some row →
    s.db.peers.get? q = some rowQ → rowQ.networkId = row.networkId → q ≠ p →
    s.isConnected q = false
  | .api (.deleteNetwork _) => Unmentioned p s
  | .reap now _ =>
    (∀ k n before x after, s.activeNegotiations.get? k = some n → n.Involves p →
      s.isConnected (n.other p) = true → expiredPeers s.db now = before ++ x :: after → x.1 = p →
        n.other p ∉ before.map Prod.fst) ∧
    ∀ k h, s.pairHealthMap.get? k = some h → Mentions p k →
      ∃ x ∈ expiredPeers s.db now, IsPart x.1 k
  | _ => True

/-- The event neither reports on `p`, as its sender or by an entry, nor registers it anew. -/
def Event.Avoids (p : PeerId) : Event → Prop
  | .message ws _ (.healthReport reports) => ∀ r ∈ reports, ¬ Mentions p (pairKey ws.peerId r.peerId)
  | .api (.registerPeer id _) => id ≠ p
  | _ => True

/-! ## Keys that mention a peer -/

section
variable {p a b : PeerId} {s s' : ServerState}

theorem mentions_left (a b : PeerId) : Mentions a (pairKey a b) := ⟨b, rfl⟩

theorem mentions_right (a b : PeerId) : Mentions b (pairKey a b) := ⟨a, pairKey_comm a b⟩

theorem mentions_pairKey (ha : ColonFree a) (hb : ColonFree b) :
    Mentions p (pairKey a b) ↔ a = p ∨ b = p := by
  constructor
  · rintro ⟨q, hkey⟩
    obtain ⟨hp, hq⟩ := colonFree_of_pairKey_eq ha hb hkey.symm
    rcases pairKey_inj ha hb hp hq hkey with ⟨h, -⟩ | ⟨-, h⟩
    · exact Or.inl h
    · exact Or.inr h
  · rintro (rfl | rfl)
    · exact mentions_left a b
    · exact mentions_right a b

/-- The key of a colon-free pair is split into the pair. -/
theorem isPart_pairKey (ha : ColonFree a) (hb : ColonFree b) :
    IsPart p (pairKey a b) ↔ a = p ∨ b = p := by
  unfold IsPart
  rcases parsePairKey_pairKey ha hb with h | h <;> rw [h]
  exact or_comm

theorem NegKeyed.mentions_iff {key : PairKey} {n : NegotiationState} (h : NegKeyed key n) :
    Mentions p key ↔ n.Involves p := by
  rw [← h.pair]
  exact mentions_pairKey h.freeA h.freeB

theorem not_mentions_pairKey (ha : ColonFree a) (hb : ColonFree b) (hap : a ≠ p) (hbp : b ≠ p) :
    ¬ Mentions p (pairKey a b) := by
  rw [mentions_pairKey ha hb]
  exact not_or.mpr ⟨hap, hbp⟩

/-- No key that mentions `p` holds a record or a negotiation. -/
def NoKey (p : PeerId) (s : ServerState) : Prop :=
  ∀ k, Mentions p k → s.pairHealthMap.get? k = none ∧ s.activeNegotiations.get? k = none

theorem unmentioned_iff (hi : TableInv s) : Unmentioned p s ↔ NoKey p s := by
  constructor
  · intro h k hk
    constructor
    · cases hg : s.pairHealthMap.get? k with
      | none => rfl
      | some g => exact absurd hk (h.health k g hg)
    · cases hg : s.activeNegotiations.get? k with
      | none => rfl
      | some n => exact absurd ((hi.keyed k n hg).mentions_iff.mp hk) (h.active k n hg)
  · intro h
    constructor
    · intro k g hg hk
      rw [(h k hk).1] at hg
      cases hg
    · intro k n hn hp
      rw [(h k ((hi.keyed k n hn).mentions_iff.mpr hp)).2] at hn
      cases hn

/-- A step on a pair without `p`. -/
theorem NoKey.apart (h : NoKey p s) (hapart : Apart a b s s')
    (hpair : ¬ Mentions p (pairKey a b)) : NoKey p s' := by
  intro k hk
  have hne : k ≠ pairKey a b := fun e => hpair (e ▸ hk)
  rw [hapart.health k hne, hapart.active k hne]
  exact h k hk

/-- No record and no negotiation is new. -/
theorem NoKey.of_subset (h : NoKey p s)
    (hhealth : ∀ k g, s'.pairHealthMap.get? k = some g → s.pairHealthMap.get? k = some g)
    (hactive : ∀ k n, s'.activeNegotiations.get? k = some n →
      s.activeNegotiations.get? k = some n) : NoKey p s' := by
  intro k hk
  obtain ⟨h1, h2⟩ := h k hk
  constructor
  · cases hg : s'.pairHealthMap.get? k with
    | none => rfl
    | some g => rw [hhealth k g hg] at h1; cases h1
  · cases hg : s'.activeNegotiations.get? k with
    | none => rfl
    | some n => rw [hactive k n hg] at h2; cases h2

/-! ## Later steps -/

/-- `p` is not registered and no key mentions it. -/
structure Gone (p : PeerId) (s : ServerState) : Prop where
  peer : s.db.peers.get? p = none
  keys : NoKey p s

theorem get?_peers_apply {db : Db} (w : ApiWrite) (hw : (Event.api w).Avoids p)
    (h : db.peers.get? p = none) : (w.apply db).peers.get? p = none := by
  have hdelete : ∀ gone : PeerId → Bool, (db.deletePeersWhere gone).peers.get? p = none := by
    intro gone
    simp only [Db.deletePeersWhere, OMap.get?_filter, h, Option.filter_none]
  cases w with
  | createNetwork id row =>
    simp only [ApiWrite.apply, Db.insertNetwork]
    split <;> exact h
  | setRelayEnabled id enabled => exact h
  | deleteNetwork id => exact hdelete _
  | registerPeer id row =>
    simp only [ApiWrite.apply, Db.insertPeer]
    split
    · exact h
    · rw [OMap.get?_set_ne _ _ hw]
      exact h
  | updatePeer id pubkey publicIp ttlSeconds =>
    simp only [ApiWrite.apply, Db.updatePeer, OMap.get?_mapVals, h, Option.map_none]
  | touchLastSeen id now =>
    simp only [ApiWrite.apply, Db.updatePeer, OMap.get?_mapVals, h, Option.map_none]
  | deletePeer id => exact hdelete _
  | putPorts id ports =>
    obtain ⟨peerPorts, he⟩ := db.putPorts_eq id ports
    rw [ApiWrite.apply, he]
    exact h

theorem upsertReports_peers (db : Db) (q : PeerId) (reports : List HealthReport) (now : Int) :
    (upsertReports db q reports now).peers = db.peers := by
  refine upsertReports_rule (I := fun db' => db'.peers = db.peers) ?_ reports rfl
  intro db1 db2 x row h hupsert
  rw [Db.eq_of_upsertLink hupsert]
  exact h

/-- No step registers a peer but a registration. -/
theorem RecordStep.peer_none {cfg : Config} {e : Event} {r r' : Records} (he : e.Avoids p)
    (hstep : RecordStep cfg e r r') (h : r.db.peers.get? p = none) : r'.db.peers.get? p = none := by
  cases hstep with
  | created key hid free live => exact h
  | entered x y now mode rxAlive g found event => exact h
  | synced x y g row m found read forced => exact h
  | relayStarted x y g n now found cached read => exact h
  | directStarted x y g n now found row due => exact h
  | answered key => exact h
  | backedOff key g g' found event back => exact h
  | forced x y mode g found event => exact h
  | reported q reports now => rw [upsertReports_peers]; exact h
  | forgot q event => exact h
  | deleted now event =>
    refine foldl_invariant (I := fun db : Db => db.peers.get? p = none) _ _ ?_ h
    intro db x _ hdb
    exact get?_peers_apply (.deletePeer x.1) trivial hdb
  | wrote w event =>
    subst event
    exact get?_peers_apply w he h

theorem peer_none_steps {cfg : Config} {e : Event} {r r' : Records} (he : e.Avoids p)
    (hsteps : ReflTransGen (RecordStep cfg e) r r') (h : r.db.peers.get? p = none) :
    r'.db.peers.get? p = none := by
  induction hsteps with
  | refl => exact h
  | tail _ hstep ih => exact hstep.peer_none he ih

theorem noKey_message (cfg : Config) (hi : TableInv s) (h : NoKey p s) (ws : Ws) (now : Int)
    {msg : AgentMsg} (hmsg : (Event.message ws now msg).Avoids p) :
    NoKey p (s.handleMessage cfg ws now msg) := by
  cases hq : msg.peer? with
  | some q =>
    cases hg : s.activeNegotiations.get? (pairKey ws.peerId q) with
    | none =>
      rw [handleMessage_idle cfg ws now hq hg]
      exact h
    | some n =>
      refine h.apart (probe_apart cfg hi ws now hq).apart fun hk => ?_
      rw [(h _ hk).2] at hg
      cases hg
  | none =>
    cases msg with
    | healthReport reports =>
      exact handleHealthReport_rule cfg hi (I := NoKey p) h
        fun t r hr _ _ ht htwin => ht.apart htwin.apart (hmsg r hr)
    | _ => cases hq

theorem checkDirectProbe_idle (now : Int) (row : PeerId × PeerId)
    (h : s.pairHealthMap.get? (pairKey row.1 row.2) = none) : checkDirectProbe now s row = s := by
  unfold checkDirectProbe
  simp only [h]

theorem noKey_sweep (cfg : Config) (hi : TableInv s) (h : NoKey p s) (now : Int) :
    NoKey p (s.staleSweep cfg now) := by
  have hsteps := foldl_steps (C := fun _ _ _ => True) (D := fun _ _ _ => True)
    (F := fun _ => True) (abortIfStale now) s.activeNegotiations.entries
    (fun t e _ _ => abortIfStale_steps now e) hi
  have hrec := congrArg Records.health
    (records_foldl_abortIfStale s now s.activeNegotiations.entries)
  have hdb := congrArg Records.db (records_foldl_abortIfStale s now s.activeNegotiations.entries)
  simp only [records] at hrec hdb
  have hstale : NoKey p (s.activeNegotiations.entries.foldl (abortIfStale now) s) :=
    h.of_subset (fun k g hg => hrec ▸ hg) fun k n hn => (get?_abortStale now _ hn).1
  unfold staleSweep checkDirectProbes
  simp only []
  generalize s.activeNegotiations.entries.foldl (abortIfStale now) s = s1 at *
  refine (foldl_invariant (I := fun t => TableInv t ∧ NoKey p t) _ _ ?_
    ⟨steps_inv hsteps hi, hstale⟩).2
  rintro t row hrow ⟨hit, ht⟩
  refine ⟨steps_inv (checkDirectProbe_steps (C := fun _ _ _ => True) (D := fun _ _ _ => True)
    (F := fun _ => True) hit now (ne_of_mem_relayPairs cfg hrow)) hit, ?_⟩
  by_cases hk : Mentions p (pairKey row.1 row.2)
  · rw [checkDirectProbe_idle now row (ht _ hk).1]
    exact ht
  · exact ht.apart ((hit.pairInv row.1 row.2).twin.checkDirectProbe Function.injective_id
      hit.connIds now).apart hk

theorem noKey_forceMode (cfg : Config) (hi : TableInv s) (h : Gone p s) {mode : ForceCommand}
    (ha : ColonFree a) (hb : ColonFree b) : NoKey p (s.postForceMode cfg a b mode) := by
  by_cases hsame : s.db.sameNetwork a b = true
  · -- both peers are registered, so neither is `p`
    have hne : a ≠ p ∧ b ≠ p := by
      unfold Db.sameNetwork at hsame
      constructor <;> rintro rfl
      · rw [h.peer] at hsame
        cases hsame
      · rw [h.peer] at hsame
        cases hg : s.db.peers.get? a <;> rw [hg] at hsame <;> cases hsame
    exact h.keys.apart (apart_step cfg hi (e := .forceMode a b mode) (Or.inl ⟨rfl, rfl⟩)).apart
      (not_mentions_pairKey ha hb hne.1 hne.2)
  · rw [postForceMode_eq, if_neg hsame]
    exact h.keys

/-- **A later step** makes no record and no negotiation of `p`. -/
theorem gone_step (cfg : Config) (hi : TableInv s) (h : Gone p s) {e : Event} (hids : e.idsOk)
    (he : e.Avoids p) : Gone p (step cfg s e) := by
  constructor
  · by_cases hr : e = .restart
    · subst hr
      exact h.peer
    · have hsteps : ReflTransGen (RecordStep cfg e) s.records (step cfg s e).records :=
        recordSteps_of_step hr
      exact peer_none_steps he hsteps h.peer
  · cases e with
    | «open» ws => exact h.keys
    | close ws =>
      refine h.keys.of_subset (fun k g hg => ?_) fun k n hn => (abortPeerNegotiations_subset hn).1
      have hrec := congrArg Records.health (records_abortPeerNegotiations
        { s with connections := wsClose s.connections ws } ws.peerId .wsReset)
      simp only [records] at hrec
      simp only [step, handleClose] at hg
      rwa [hrec] at hg
    | message ws now msg => exact noKey_message cfg hi h.keys ws now he
    | timer id =>
      cases ht : s.timers.get? id with
      | none =>
        rw [step, fireTimer, ht]
        exact h.keys
      | some tm =>
        obtain ⟨n, hn, -⟩ := hi.owned id tm ht
        have hkey : tm.callback.key = pairKey n.peerA n.peerB := (hi.keyed _ n hn).pair.symm
        refine h.keys.apart (apart_step cfg hi (e := .timer id) ⟨tm, ht, hkey⟩).apart fun hk => ?_
        rw [hkey, (h.keys _ hk).2] at hn
        cases hn
    | sweep now => exact noKey_sweep cfg hi h.keys now
    | reap now fails =>
      exact h.keys.of_subset (fun k g hg => get?_reap_health hg) fun k n hn => reap_subset hn
    | forceMode x y mode => exact noKey_forceMode cfg hi h hids.1 hids.2
    | api w => exact h.keys
    | restart => exact fun k _ => ⟨rfl, rfl⟩

theorem gone_run (cfg : Config) (hi : TableInv s) (h : Gone p s) {es : List Event}
    (hids : IdsOk es) (havoids : ∀ e ∈ es, e.Avoids p) :
    TableInv (run (step cfg) s es) ∧ Gone p (run (step cfg) s es) := by
  induction es generalizing s with
  | nil => exact ⟨hi, h⟩
  | cons e rest ih =>
    have hid := hids e (by simp)
    exact ih (tableInv_step cfg hi hid) (gone_step cfg hi h hid (havoids e (by simp)))
      (fun e' he' => hids e' (List.mem_cons_of_mem _ he'))
      fun e' he' => havoids e' (List.mem_cons_of_mem _ he')

/-! ## The rows -/

theorem rowsGone_deletePeersWhere {db : Db} {gone : PeerId → Bool} (hp : gone p = true) :
    RowsGone p (db.deletePeersWhere gone) where
  peers := by
    simp only [Db.deletePeersWhere, OMap.get?_filter, hp, Bool.not_true]
    cases db.peers.get? p <;> rfl
  ports := by
    intro k hk
    simp only [Db.deletePeersWhere, OMap.get?_filter]
    rcases hk with rfl | rfl <;> cases db.peerPorts.get? k <;> simp [Option.filter, hp]
  links := by
    intro k hk
    rw [Db.get?_deletePeersWhere_links, if_neg]
    rcases hk with rfl | rfl <;> simp [hp]

theorem RowsGone.deletePeersWhere {db : Db} (h : RowsGone p db) (gone : PeerId → Bool) :
    RowsGone p (db.deletePeersWhere gone) where
  peers := by
    simp only [Db.deletePeersWhere, OMap.get?_filter, h.peers, Option.filter_none]
  ports := by
    intro k hk
    simp only [Db.deletePeersWhere, OMap.get?_filter, h.ports k hk, Option.filter_none]
  links := by
    intro k hk
    rw [Db.get?_deletePeersWhere_links, h.links k hk, ite_self]

theorem rowsGone_deletePeers {db : Db} {l : List (PeerId × NetworkId)} {x : PeerId × NetworkId}
    (hx : x ∈ l) : RowsGone x.1 (l.foldl (fun db y => db.deletePeer y.1) db) := by
  obtain ⟨before, after, rfl⟩ := List.append_of_mem hx
  rw [List.foldl_append, List.foldl_cons]
  refine foldl_invariant (I := RowsGone x.1) _ after (fun db y _ h => h.deletePeersWhere _) ?_
  exact rowsGone_deletePeersWhere (by simp)

/-! ## What is added to the history -/

/-- From `s` to `s'` the history only grows. -/
def Grows (s s' : ServerState) : Prop := ∃ items, s'.trace = items ++ s.trace

theorem Grows.refl (s : ServerState) : Grows s s := ⟨[], rfl⟩

theorem Grows.trans {s'' : ServerState} (h : Grows s s') (h' : Grows s' s'') : Grows s s'' := by
  obtain ⟨items, ht⟩ := h
  obtain ⟨items', ht'⟩ := h'
  exact ⟨items' ++ items, by rw [ht', ht, List.append_assoc]⟩

theorem Adds.before {s'' : ServerState} {it : TraceItem} (h : Grows s s') (h' : Adds s' s'' it) :
    Adds s s'' it := by
  obtain ⟨items, ht⟩ := h
  obtain ⟨items', ht', hit⟩ := h'
  exact ⟨items' ++ items, by rw [ht', ht, List.append_assoc], List.mem_append_left _ hit⟩

theorem Adds.after {s'' : ServerState} {it : TraceItem} (h : Adds s s' it) (h' : Grows s' s'') :
    Adds s s'' it := by
  obtain ⟨items, ht, hit⟩ := h
  obtain ⟨items', ht'⟩ := h'
  exact ⟨items' ++ items, by rw [ht', ht, List.append_assoc], List.mem_append_right _ hit⟩

/-- A loop whose body keeps `I` and only adds to the history. -/
theorem grows_foldl {α : Type} {I : ServerState → Prop} (f : ServerState → α → ServerState)
    (hf : ∀ t y, I t → I (f t y) ∧ Grows t (f t y)) (l : List α) {s : ServerState} (hs : I s) :
    I (l.foldl f s) ∧ Grows s (l.foldl f s) := by
  refine foldl_invariant (I := fun t => I t ∧ Grows s t) f l ?_ ⟨hs, Grows.refl s⟩
  rintro t y _ ⟨ht, hgrows⟩
  exact ⟨(hf t y ht).1, hgrows.trans (hf t y ht).2⟩

/-- What the body adds for one element is in what the loop adds. -/
theorem adds_foldl {α : Type} {I : ServerState → Prop} (f : ServerState → α → ServerState)
    (hf : ∀ t y, I t → I (f t y) ∧ Grows t (f t y)) {l : List α} {x : α} (hx : x ∈ l)
    {it : TraceItem} (hadds : ∀ t, I t → Adds t (f t x) it) {s : ServerState} (hs : I s) :
    Adds s (l.foldl f s) it := by
  obtain ⟨before, after, rfl⟩ := List.append_of_mem hx
  rw [List.foldl_append, List.foldl_cons]
  obtain ⟨hbefore, hgrows⟩ := grows_foldl f hf before hs
  exact ((hadds _ hbefore).before hgrows).after (grows_foldl f hf after (hf _ x hbefore).1).2

/-! ## The notifications of the reaper -/

/-- What the notifications read is as it was. -/
def Sending (db : Db) (c : Connections) (s : ServerState) : Prop := s.db = db ∧ s.connections = c

theorem sending_sendMsg {db : Db} {c : Connections} {t : ServerState} (h : Sending db c t)
    (q : PeerId) (msg : ServerMsg) :
    Sending db c (t.sendMsg none q msg) ∧ Grows t (t.sendMsg none q msg) := by
  rw [sendMsg_eq]
  exact ⟨h, _, rfl⟩

theorem sending_tell {db : Db} {c : Connections} (remaining : List PeerId) (deletedId : PeerId)
    {t : ServerState} (h : Sending db c t) :
    Sending db c (remaining.foldl (fun s peer => s.sendMsg none peer (.peerRemoved deletedId)) t) ∧
      Grows t (remaining.foldl (fun s peer => s.sendMsg none peer (.peerRemoved deletedId)) t) :=
  grows_foldl (I := Sending db c) _ (fun _ peer ht => sending_sendMsg ht peer _) remaining h

theorem sending_notifyRemoved {db : Db} {c : Connections} (e : NetworkId × List PeerId)
    {t : ServerState} (h : Sending db c t) :
    Sending db c (t.notifyRemoved e) ∧ Grows t (t.notifyRemoved e) :=
  grows_foldl (I := Sending db c) _ (fun _ deletedId ht => sending_tell _ deletedId ht) e.2 h

/-- A remaining connected peer of the network is told of each peer on the list. -/
theorem adds_notifyRemoved {db : Db} {c : Connections} {net : NetworkId} {ids : List PeerId}
    (hp : p ∈ ids) {q : PeerId} {row : PeerRow} {w : Ws} (hq : db.peers.get? q = some row)
    (hnet : row.networkId = net) (hw : c.get? q = some w) {t : ServerState} (h : Sending db c t) :
    Adds t (t.notifyRemoved (net, ids)) (.sent q w (.peerRemoved p) none) := by
  refine adds_foldl (I := Sending db c) _ (fun _ deletedId ht => sending_tell _ deletedId ht) hp ?_ h
  intro u hu
  have hmem : q ∈ (t.db.peers.entries.filter fun e => e.2.networkId = net).map Prod.fst := by
    rw [h.1]
    exact List.mem_map.mpr ⟨(q, row), List.mem_filter.mpr
      ⟨(db.peers.mem_entries _ _).mpr hq, by simpa using hnet⟩, rfl⟩
  refine adds_foldl (I := Sending db c) _ (fun _ peer ht => sending_sendMsg ht peer _) hmem ?_ hu
  intro v hv
  rw [sendMsg_eq]
  refine ⟨_, rfl, ?_⟩
  simp [sentItems, sendTextToPeer, hv.2, hw]

/-- Every expired peer is on the list of its network. -/
theorem mem_byNetwork {l : List (PeerId × NetworkId)} {net : NetworkId} (h : (p, net) ∈ l) :
    ∃ ids, (byNetwork l).get? net = some ids ∧ p ∈ ids := by
  have hkeep : ∀ (l : List (PeerId × NetworkId)) (m : OMap NetworkId (List PeerId)),
      (∃ ids, m.get? net = some ids ∧ p ∈ ids) →
      ∃ ids, (l.foldl (fun m e => m.set e.2 ((m.get? e.2).getD [] ++ [e.1])) m).get? net =
        some ids ∧ p ∈ ids := by
    intro l m hm
    refine foldl_invariant (I := fun m : OMap NetworkId (List PeerId) =>
      ∃ ids, m.get? net = some ids ∧ p ∈ ids) _ l ?_ hm
    rintro m e _ ⟨ids, hget, hmem⟩
    by_cases he : e.2 = net
    · subst he
      exact ⟨ids ++ [e.1], by simp [hget], List.mem_append_left _ hmem⟩
    · exact ⟨ids, by rw [OMap.get?_set_ne _ _ he, hget], hmem⟩
  obtain ⟨before, after, rfl⟩ := List.append_of_mem h
  unfold byNetwork
  rw [List.foldl_append, List.foldl_cons]
  exact hkeep after _ ⟨_, OMap.get?_set_self .., by simp⟩

/-! ## The reaper -/

/-- What an abort of the negotiations of `q` leaves, and whom it tells. -/
theorem abortPeerNegotiations_spec (s : ServerState) (q : PeerId) (reason : AbortReason) :
    (∀ k n, (s.abortPeerNegotiations q reason).activeNegotiations.get? k = some n ↔
      s.activeNegotiations.get? k = some n ∧ ¬ n.Involves q) ∧
    (s.abortPeerNegotiations q reason).connections = s.connections ∧
    Grows s (s.abortPeerNegotiations q reason) ∧
    ∀ k n, s.activeNegotiations.get? k = some n → n.Involves q →
      ∀ it ∈ sentItems s.connections (some n.nid) (n.other q) (.negotiateAbort q reason),
        Adds s (s.abortPeerNegotiations q reason) it := by
  have hentries : ∀ k n, (k, n) ∈ s.activeNegotiations.entries ↔
      s.activeNegotiations.get? k = some n := s.activeNegotiations.mem_entries
  obtain ⟨hactive, -, items, htrace, htold⟩ := foldl_abortPeerEntry q reason
    s.activeNegotiations.entries s.activeNegotiations.nodup
    (s := s) fun e he => (hentries e.1 e.2).mp he
  refine ⟨fun k n => ?_, ?_, ⟨items, htrace⟩, ?_⟩
  · rw [abortPeerNegotiations, hactive k n]
    exact and_congr_right fun hn => ⟨fun h => h ((hentries k n).mpr hn), fun h _ => h⟩
  · refine foldl_invariant (I := fun t : ServerState => t.connections = s.connections) _ _ ?_ rfl
    intro t e _ ht
    rw [abortPeerEntry_connections, ht]
  · intro k n hn hq it hit
    exact ⟨items, htrace, htold (k, n) ((hentries k n).mpr hn) hq it hit⟩

theorem forgetPeer_grows {c : Connections} (t : ServerState) (x : PeerId × NetworkId)
    (ht : t.connections = c) : (forgetPeer t x).connections = c ∧ Grows t (forgetPeer t x) := by
  obtain ⟨-, hconn, hgrows, -⟩ := abortPeerNegotiations_spec t x.1 .peerRemoved
  exact ⟨hconn.trans ht, hgrows⟩

theorem trace_finishNegotiation (s : ServerState) (key : PairKey) :
    (s.finishNegotiation key).trace = s.trace := by
  unfold finishNegotiation
  split
  · rfl
  · simp only [clearTimeout_eq]

/-- What the loop before the delete sends for one peer: aborts about it, each for a negotiation
that was active. -/
theorem forgetPeer_items (t : ServerState) (x : PeerId × NetworkId) :
    ∃ items, (forgetPeer t x).trace = items ++ t.trace ∧ ∀ it ∈ items, ∃ k n q w reason,
      t.activeNegotiations.get? k = some n ∧
        it = .sent q w (.negotiateAbort x.1 reason) (some n.nid) := by
  refine foldl_invariant (I := fun u : ServerState => ∃ items, u.trace = items ++ t.trace ∧
    ∀ it ∈ items, ∃ k n q w reason, t.activeNegotiations.get? k = some n ∧
      it = .sent q w (.negotiateAbort x.1 reason) (some n.nid))
    (abortPeerEntry x.1 .peerRemoved) t.activeNegotiations.entries ?_ ⟨[], rfl, by simp⟩
  rintro u ⟨key, neg⟩ he ⟨items, htrace, hitems⟩
  have hneg := (t.activeNegotiations.mem_entries _ _).mp he
  unfold abortPeerEntry
  dsimp only
  split
  · rw [trace_finishNegotiation, sendIfConnected_eq]
    refine ⟨sentItems u.connections (some neg.nid) (neg.other x.1)
        (.negotiateAbort x.1 .peerRemoved) ++ items,
      by rw [htrace]; exact (List.append_assoc _ _ _).symm, fun it hit => ?_⟩
    rcases List.mem_append.mp hit with hit | hit
    · unfold sentItems at hit
      split at hit
      · exact ⟨key, neg, _, _, _, hneg, List.mem_singleton.mp hit⟩
      · cases hit
    · exact hitems it hit
  · exact ⟨items, htrace, hitems⟩

/-- Negotiations of other peers stay. -/
theorem foldl_forgetPeer_active {l : List (PeerId × NetworkId)} {k : PairKey}
    {n : NegotiationState} (hl : ∀ x ∈ l, ¬ n.Involves x.1)
    (hn : s.activeNegotiations.get? k = some n) :
    (l.foldl forgetPeer s).activeNegotiations.get? k = some n := by
  refine foldl_invariant (I := fun t : ServerState => t.activeNegotiations.get? k = some n)
    forgetPeer l ?_ hn
  intro t x hx ht
  exact ((abortPeerNegotiations_spec t x.1 .peerRemoved).1 k n).mpr ⟨ht, hl x hx⟩

/-- What the loop before the delete leaves of the records: those whose key is split into other
peers. -/
theorem health_foldl_forgetPeer (s : ServerState) (l : List (PeerId × NetworkId)) (k : PairKey)
    (h : PairHealth) : (l.foldl forgetPeer s).pairHealthMap.get? k = some h ↔
      s.pairHealthMap.get? k = some h ∧ ∀ x ∈ l, ¬ IsPart x.1 k := by
  induction l generalizing s with
  | nil => simp
  | cons x rest ih =>
    have hrec := congrArg Records.health (forgetPeer_records (s := s) x)
    simp only [records] at hrec
    rw [List.foldl_cons, ih, hrec, OMap.get?_filter, Option.filter_eq_some_iff, and_assoc,
      List.forall_mem_cons]
    refine and_congr_right fun _ => and_congr_left fun _ => ?_
    simp only [Bool.not_eq_true', Bool.or_eq_false_iff, decide_eq_false_iff_not, IsPart, not_or]

/-- What it leaves of the negotiations. -/
theorem active_foldl_forgetPeer (s : ServerState) (l : List (PeerId × NetworkId)) (k : PairKey)
    (n : NegotiationState) : (l.foldl forgetPeer s).activeNegotiations.get? k = some n ↔
      s.activeNegotiations.get? k = some n ∧ ∀ x ∈ l, ¬ n.Involves x.1 := by
  induction l generalizing s with
  | nil => simp
  | cons x rest ih =>
    have hone := (abortPeerNegotiations_spec s x.1 .peerRemoved).1 k n
    have hone : (forgetPeer s x).activeNegotiations.get? k = some n ↔
      s.activeNegotiations.get? k = some n ∧ ¬ n.Involves x.1 := hone
    rw [List.foldl_cons, ih, hone, and_assoc, List.forall_mem_cons]

theorem mem_expiredPeers {db : Db} {now : Int} {x : PeerId × NetworkId}
    (hx : x ∈ expiredPeers db now) : ∃ row, db.peers.get? x.1 = some row ∧ row.networkId = x.2 := by
  unfold expiredPeers at hx
  obtain ⟨⟨id, row⟩, hmem, rfl⟩ := List.mem_map.mp hx
  exact ⟨row, (db.peers.mem_entries _ _).mp (List.mem_filter.mp hmem).1, rfl⟩

theorem NegotiationState.involves_other {n : NegotiationState} (hp : n.Involves p) {q : PeerId} :
    n.Involves q ↔ q = p ∨ q = n.other p := by
  unfold NegotiationState.Involves NegotiationState.other at *
  by_cases hA : n.peerA = p
  · rw [if_pos hA, hA]
    exact or_congr eq_comm eq_comm
  · rw [if_neg hA]
    have hB : n.peerB = p := hp.resolve_left hA
    rw [hB, or_comm]
    exact or_congr eq_comm eq_comm

theorem nodup_expiredIds (db : Db) (now : Int) : ((expiredPeers db now).map Prod.fst).Nodup := by
  unfold expiredPeers
  rw [List.map_map]
  exact db.peers.nodup.sublist (List.filter_sublist.map _)

/-- The run: every expired peer is forgotten, then deleted, and last the neighbours are told. -/
theorem reap_eq (s : ServerState) (now : Int) : s.reap now false = (byNetwork (expiredPeers s.db now)).entries.foldl notifyRemoved
    { (expiredPeers s.db now).foldl forgetPeer s with
      db := (expiredPeers s.db now).foldl (fun db y => db.deletePeer y.1) s.db } := by
  unfold reap
  simp only [Bool.false_eq_true, if_false, (foldl_forgetPeer_frame (expiredPeers s.db now) s).1]

theorem removed_reap {now : Int} (hp : p ∈ (expiredPeers s.db now).map Prod.fst)
    (hclean : CleanAt p s (.reap now false)) : Removed p s (s.reap now false) := by
  obtain ⟨x, hx, rfl⟩ := List.mem_map.mp hp
  obtain ⟨row, hrow, hnet⟩ := mem_expiredPeers hx
  obtain ⟨before, after, hsplit, hfirst⟩ := List.eq_append_cons_of_mem hx
  have hbefore : ∀ y ∈ before, y.1 ≠ x.1 := by
    intro y hy he
    obtain ⟨row', hrow', hnet'⟩ := mem_expiredPeers (x := y) (by rw [hsplit]; simp [hy])
    rw [he, hrow, Option.some.injEq] at hrow'
    subst hrow'
    exact hfirst (Prod.ext he (hnet'.symm.trans hnet) ▸ hy)
  -- up to `x`, `x` itself, the others, the deletes and the notifications
  obtain ⟨hconn1, hgrows1⟩ := grows_foldl (I := fun t => t.connections = s.connections) forgetPeer
    forgetPeer_grows before rfl
  generalize hs1 : before.foldl forgetPeer s = s1 at hconn1 hgrows1
  obtain ⟨hconn2, -⟩ := forgetPeer_grows s1 x hconn1
  obtain ⟨hconn3, hgrows3⟩ := grows_foldl (I := fun t => t.connections = s.connections) forgetPeer
    forgetPeer_grows after hconn2
  have hdb3 := (foldl_forgetPeer_frame (expiredPeers s.db now) s).1
  have hreap : s.reap now false = (byNetwork (expiredPeers s.db now)).entries.foldl notifyRemoved
      { after.foldl forgetPeer (forgetPeer s1 x) with
        db := (expiredPeers s.db now).foldl (fun db y => db.deletePeer y.1) s.db } := by
    unfold reap
    simp only [Bool.false_eq_true, if_false, hdb3]
    rw [← hs1, ← List.foldl_cons, ← List.foldl_append, ← hsplit]
  have hall : (expiredPeers s.db now).foldl forgetPeer s =
      after.foldl forgetPeer (forgetPeer s1 x) := by
    rw [hsplit, List.foldl_append, List.foldl_cons, hs1]
  have hhealth3 := health_foldl_forgetPeer s (expiredPeers s.db now)
  have hactive3 := active_foldl_forgetPeer s (expiredPeers s.db now)
  rw [hall] at hhealth3 hactive3
  generalize after.foldl forgetPeer (forgetPeer s1 x) = s3 at *
  generalize hdb : (expiredPeers s.db now).foldl (fun db y => db.deletePeer y.1) s.db = db' at hreap
  obtain ⟨⟨hdb5, -⟩, hgrows5⟩ := grows_foldl (I := Sending db' s.connections) notifyRemoved
    (fun t e ht => sending_notifyRemoved e ht) (byNetwork (expiredPeers s.db now)).entries
    (s := { s3 with db := db' }) ⟨rfl, hconn3⟩
  rw [← hreap] at hdb5 hgrows5
  have hgrows35 : Grows s3 (s.reap now false) := hgrows5
  refine ⟨?_, ⟨?_, ?_⟩, ?_, ?_⟩
  · rw [hdb5, ← hdb]
    exact rowsGone_deletePeers hx
  · intro k g hg
    have hrec := congrArg Records.health (reap_records_eq (s := s) now false)
    simp only [records, hall] at hrec
    rw [hrec] at hg
    -- a record of `x` is one of a part that is forgotten
    intro hmention
    obtain ⟨hg, hkept⟩ := (hhealth3 k g).mp hg
    obtain ⟨y, hy, hpart⟩ := hclean.2 k g hg hmention
    exact hkept y hy hpart
  · intro k n hn
    have hnotify : ((byNetwork (expiredPeers s.db now)).entries.foldl notifyRemoved
        { s3 with db := db' }).activeNegotiations = s3.activeNegotiations := by
      refine foldl_invariant (I := fun t : ServerState =>
        t.activeNegotiations = s3.activeNegotiations) _ _ ?_ rfl
      intro t e _ ht
      rw [notifyRemoved_active, ht]
    rw [hreap, hnotify] at hn
    exact ((hactive3 k n).mp hn).2 x hx
  · intro k n w hn hinv hw
    have hother := hclean.1 k n before x after hn hinv (OMap.has_of_get? hw) hsplit rfl
    have hstill : s1.activeNegotiations.get? k = some n := by
      rw [← hs1]
      refine foldl_forgetPeer_active (fun y hy hy' => ?_) hn
      rcases (NegotiationState.involves_other hinv).mp hy' with he | he
      · exact hbefore y hy he
      · exact hother (he ▸ List.mem_map_of_mem hy)
    have htold := (abortPeerNegotiations_spec s1 x.1 .peerRemoved).2.2.2 k n hstill hinv
      (.sent (n.other x.1) w (.negotiateAbort x.1 .peerRemoved) (some n.nid))
      (by simp [sentItems, sendTextToPeer, hconn1, hw])
    exact ⟨.peerRemoved, ((htold.before hgrows1).after hgrows3).after hgrows35⟩
  · intro row' q rowQ w hrow' hq hsame hw
    rw [hrow, Option.some.injEq] at hrow'
    subst hrow'
    obtain ⟨ids, hids, hmem⟩ := mem_byNetwork hx
    rw [hdb5] at hq
    have hadds := adds_foldl (I := Sending db' s.connections) notifyRemoved
      (fun t e ht => sending_notifyRemoved e ht)
      ((OMap.mem_entries _ _ _).mpr hids) (fun t ht =>
        adds_notifyRemoved hmem hq (hsame.trans hnet) hw ht)
      (s := { s3 with db := db' }) ⟨rfl, hconn3⟩
    rw [← hreap] at hadds
    have hfirst3 : Grows s s3 := by
      rw [← hall]
      exact (grows_foldl (I := fun t => t.connections = s.connections) forgetPeer
        forgetPeer_grows _ rfl).2
    exact hadds.before hfirst3

/-- The item is an abort about `p` for negotiation `n`. -/
def TraceItem.AbortAbout (p : PeerId) (n : Nat) : TraceItem → Prop
  | .sent _ _ (.negotiateAbort q _) (some m) => q = p ∧ m = n
  | _ => False

/-- From `s` on no abort about `p` was sent for negotiation `n`, and no negotiation is new. -/
def Spared (p : PeerId) (n : Nat) (s s' : ServerState) : Prop :=
  (∃ items, s'.trace = items ++ s.trace ∧ ∀ it ∈ items, ¬ it.AbortAbout p n) ∧
    ∀ k m, s'.activeNegotiations.get? k = some m → s.activeNegotiations.get? k = some m

/-- The turn of another peer, or one that finds negotiation `n` over. -/
theorem Spared.forgetPeer {n : Nat} (h : Spared p n s s') {x : PeerId × NetworkId}
    (hother : x.1 ≠ p ∨ ∀ k m, s'.activeNegotiations.get? k = some m → m.nid ≠ n) :
    Spared p n s (forgetPeer s' x) := by
  obtain ⟨⟨items, htrace, hitems⟩, hactive⟩ := h
  obtain ⟨new, hnew, hspec⟩ := forgetPeer_items s' x
  refine ⟨⟨new ++ items, by rw [hnew, htrace, List.append_assoc], fun it hit => ?_⟩, fun k m hm => ?_⟩
  · rcases List.mem_append.mp hit with hit | hit
    · obtain ⟨k, m, q, w, reason, hm, rfl⟩ := hspec it hit
      rintro ⟨hx, hn⟩
      rcases hother with hne | hover
      · exact hne hx
      · exact hover k m hm hn
    · exact hitems it hit
  · exact hactive k m (((abortPeerNegotiations_spec s' x.1 .peerRemoved).1 k m).mp hm).1

/-- No abort about `p` is sent for a negotiation whose other party the reaper removes first. -/
theorem spared_of_removed_first {n : NegotiationState} {k : PairKey} (hi : TableInv s)
    (hn : s.activeNegotiations.get? k = some n) {before after : List (PeerId × NetworkId)}
    (hbefore : ∀ y ∈ before, y.1 ≠ p) (hfirst : ∃ y ∈ before, n.Involves y.1) :
    Spared p n.nid s ((before ++ after).foldl forgetPeer s) := by
  have hstart : Spared p n.nid s s := ⟨⟨[], rfl, by simp⟩, fun _ _ h => h⟩
  have hleft : Spared p n.nid s (before.foldl forgetPeer s) :=
    foldl_invariant forgetPeer before (fun t y hy ht => ht.forgetPeer (Or.inl (hbefore y hy))) hstart
  have hover : ∀ k m, (before.foldl forgetPeer s).activeNegotiations.get? k = some m →
      m.nid ≠ n.nid := by
    intro k' m hm hnid
    obtain ⟨hold, hnot⟩ := (active_foldl_forgetPeer s before k' m).mp hm
    obtain rfl := hi.nidInj _ _ _ _ hold hn hnid
    obtain rfl := Option.some.inj (hold.symm.trans hn)
    obtain ⟨y, hy, hinv⟩ := hfirst
    exact hnot y hy hinv
  rw [List.foldl_append]
  refine (foldl_invariant (I := fun t => Spared p n.nid s t ∧
    ∀ k m, t.activeNegotiations.get? k = some m → m.nid ≠ n.nid) forgetPeer after ?_
    ⟨hleft, hover⟩).1
  rintro t y _ ⟨ht, hgone⟩
  exact ⟨ht.forgetPeer (Or.inr hgone), fun k m hm =>
    hgone k m (((abortPeerNegotiations_spec t y.1 .peerRemoved).1 k m).mp hm).1⟩

/-- The notifications are no aborts. -/
theorem notifyRemoved_items (t : ServerState) (e : NetworkId × List PeerId) (n : Nat) :
    ∃ items, (t.notifyRemoved e).trace = items ++ t.trace ∧ ∀ it ∈ items, ¬ it.AbortAbout p n := by
  have hone : ∀ (u : ServerState) (q d : PeerId), ∃ items,
      (u.sendMsg none q (.peerRemoved d)).trace = items ++ u.trace ∧
        ∀ it ∈ items, ¬ it.AbortAbout p n := by
    intro u q d
    rw [sendMsg_eq]
    refine ⟨_, rfl, fun it hit => ?_⟩
    unfold sentItems at hit
    split at hit
    · rw [List.mem_singleton.mp hit]
      exact not_false
    · cases hit
  have hloop : ∀ {α : Type} (f : ServerState → α → ServerState) (l : List α),
      (∀ u y, ∃ items, (f u y).trace = items ++ u.trace ∧ ∀ it ∈ items, ¬ it.AbortAbout p n) →
      ∀ u, ∃ items, (l.foldl f u).trace = items ++ u.trace ∧ ∀ it ∈ items, ¬ it.AbortAbout p n := by
    intro α f l hf u
    refine foldl_invariant (I := fun v : ServerState => ∃ items, v.trace = items ++ u.trace ∧
      ∀ it ∈ items, ¬ it.AbortAbout p n) f l ?_ ⟨[], rfl, by simp⟩
    rintro v y _ ⟨items, htrace, hitems⟩
    obtain ⟨new, hnew, hnone⟩ := hf v y
    refine ⟨new ++ items, by rw [hnew, htrace, List.append_assoc], fun it hit => ?_⟩
    exact (List.mem_append.mp hit).elim (hnone it) (hitems it)
  exact hloop _ e.2 (fun u d => hloop _ _ (fun v q => hone v q d) u) t

/-- **The reaper** removes a peer completely exactly where the pass is clean for it. -/
theorem removed_reap_iff (hi : TableInv s) {now : Int}
    (hp : p ∈ (expiredPeers s.db now).map Prod.fst) :
    Removed p s (s.reap now false) ↔ CleanAt p s (.reap now false) := by
  refine ⟨fun h => ⟨?_, fun k g hg hmention => ?_⟩, removed_reap hp⟩
  · rintro k n before x after hn hinv hconn hsplit rfl hfirst
    obtain ⟨w, hw⟩ := Option.isSome_iff_exists.mp hconn
    obtain ⟨reason, items, htrace, hmem⟩ := h.told k n w hn hinv hw
    obtain ⟨y, hy, hother⟩ := List.mem_map.mp hfirst
    have hbefore : ∀ z ∈ before, z.1 ≠ x.1 := by
      intro z hz he
      have hnodup := nodup_expiredIds s.db now
      rw [hsplit, List.map_append, List.map_cons] at hnodup
      exact (List.nodup_append.mp hnodup).2.2 z.1 (List.mem_map_of_mem hz) x.1 (by simp) he
    have hspared : Spared x.1 n.nid s ((before ++ x :: after).foldl forgetPeer s) :=
      spared_of_removed_first hi hn hbefore
        ⟨y, hy, (NegotiationState.involves_other hinv).mpr (Or.inr hother)⟩
    rw [← hsplit] at hspared
    obtain ⟨⟨sent, hsent, hnone⟩, -⟩ := hspared
    -- nor are the notifications after the loop aborts
    have hall : ∃ new, (s.reap now false).trace = new ++ s.trace ∧
        ∀ it ∈ new, ¬ it.AbortAbout x.1 n.nid := by
      rw [reap_eq]
      refine foldl_invariant (I := fun u : ServerState => ∃ new, u.trace = new ++ s.trace ∧
        ∀ it ∈ new, ¬ it.AbortAbout x.1 n.nid) notifyRemoved _ ?_ ⟨sent, hsent, hnone⟩
      rintro u e _ ⟨new, hnew, hno⟩
      obtain ⟨more, hmore, hnot⟩ := notifyRemoved_items (p := x.1) u e n.nid
      refine ⟨more ++ new, by rw [hmore, hnew, List.append_assoc], fun it hit => ?_⟩
      exact (List.mem_append.mp hit).elim (hnot it) (hno it)
    obtain ⟨new, hnew, hno⟩ := hall
    obtain rfl := List.append_cancel_right (htrace.symm.trans hnew)
    exact hno _ hmem ⟨rfl, rfl⟩
  · -- a record that the pass keeps would mention the peer
    by_contra hkept
    refine h.memory.health k g ?_ hmention
    have hrec := congrArg Records.health (reap_records_eq (s := s) now false)
    simp only [records] at hrec
    rw [hrec, health_foldl_forgetPeer]
    exact ⟨hg, fun x hx hpart => hkept ⟨x, hx, hpart⟩⟩

/-! ## The delete endpoints -/

theorem get?_deletePeersWhere_peers (db : Db) (gone : PeerId → Bool) (q : PeerId) :
    (db.deletePeersWhere gone).peers.get? q = if gone q then none else db.peers.get? q := by
  simp only [Db.deletePeersWhere, OMap.get?_filter]
  cases gone q <;> cases db.peers.get? q <;> simp [Option.filter]

theorem rowsGone_deleteNetwork {db : Db} {row : PeerRow} (hrow : db.peers.get? p = some row) :
    RowsGone p (db.deleteNetwork row.networkId) := by
  have hp : db.inNetwork row.networkId p = true := by simp [Db.inNetwork, hrow]
  have h := @rowsGone_deletePeersWhere p db _ hp
  rw [deleteNetwork_eq]
  exact ⟨h.peers, h.ports, h.links⟩

/-- Nothing is added to a history that stays as it is. -/
theorem not_adds_of_trace_eq {it : TraceItem} (h : s'.trace = s.trace) : ¬ Adds s s' it := by
  rintro ⟨items, ht, hit⟩
  rw [h] at ht
  have hnil : items = [] := by simpa using ht
  rw [hnil] at hit
  cases hit

/-- A delete of rows is a complete removal exactly where there is nothing else to do. -/
theorem removed_api_iff (cfg : Config) (w : ApiWrite) (hremoves : (Event.api w).Removes s p) :
    Removed p s (step cfg s (.api w)) ↔ CleanAt p s (.api w) := by
  have hsilent : ∀ it, ¬ Adds s (step cfg s (.api w)) it := fun it => not_adds_of_trace_eq rfl
  cases w with
  | deletePeer id =>
    obtain rfl : id = p := hremoves
    constructor
    · intro h
      refine ⟨⟨h.memory.health, h.memory.active⟩, fun row q rowQ hrow hq hsame hne => ?_⟩
      cases hw : s.connections.get? q with
      | none => exact (OMap.has_eq_false_iff _ _).mpr hw
      | some ws =>
        refine absurd (h.notified row q rowQ ws hrow ?_ hsame hw) (hsilent _)
        show (s.db.deletePeer id).peers.get? q = some rowQ
        rw [Db.deletePeer, get?_deletePeersWhere_peers, if_neg (by simpa using hne)]
        exact hq
    · rintro ⟨hmemory, hnone⟩
      refine ⟨rowsGone_deletePeersWhere (by simp), ⟨hmemory.health, hmemory.active⟩, ?_, ?_⟩
      · exact fun k n w hn hinv => absurd hinv (hmemory.active k n hn)
      · intro row q rowQ w hrow hq hsame hw
        have hq' : (s.db.deletePeer id).peers.get? q = some rowQ := hq
        rw [Db.deletePeer, get?_deletePeersWhere_peers] at hq'
        obtain ⟨hne, hstayed⟩ := Option.ite_none_left_eq_some.mp hq'
        have hoff := hnone row q rowQ hrow hstayed hsame (by simpa using hne)
        rw [ServerState.isConnected, isPeerConnected, OMap.has_eq_false_iff, hw] at hoff
        cases hoff
  | deleteNetwork id =>
    obtain ⟨row, hrow, rfl⟩ := hremoves
    constructor
    · exact fun h => ⟨h.memory.health, h.memory.active⟩
    · intro hmemory
      refine ⟨rowsGone_deleteNetwork hrow, ⟨hmemory.health, hmemory.active⟩, ?_, ?_⟩
      · exact fun k n w hn hinv => absurd hinv (hmemory.active k n hn)
      · intro row' q rowQ w hrow' hq hsame _
        -- every peer of the network is gone
        rw [hrow, Option.some.injEq] at hrow'
        subst hrow'
        have hq' : (s.db.deleteNetwork row.networkId).peers.get? q = some rowQ := hq
        simp only [deleteNetwork_eq, get?_deletePeersWhere_peers] at hq'
        obtain ⟨hstay, hstayed⟩ := Option.ite_none_left_eq_some.mp hq'
        simp [Db.inNetwork, hstayed, hsame] at hstay
  | createNetwork id row => exact hremoves.elim
  | setRelayEnabled id enabled => exact hremoves.elim
  | registerPeer id row => exact hremoves.elim
  | updatePeer id pubkey publicIp ttlSeconds => exact hremoves.elim
  | touchLastSeen id now => exact hremoves.elim
  | putPorts id ports => exact hremoves.elim

/-! ## A report makes a record -/

theorem handleReportEntry_health (cfg : Config) (t : ServerState) (q : PeerId) (now : Int)
    (r : HealthReport) :
    ∃ g, (handleReportEntry cfg q now t r).pairHealthMap.get? (pairKey q r.peerId) = some g := by
  rw [handleReportEntry_eq]
  simp only []
  split
  · exact ⟨_, OMap.get?_set_self ..⟩
  · generalize hput : putHealth _ (pairKey q r.peerId) _ = t1
    have hget : t1.pairHealthMap.get? (pairKey q r.peerId) = some (entryHealth cfg
        (getOrCreateHealth cfg t (pairKey q r.peerId)).1 (onSideA q r.peerId) now r.mode
        r.rxAlive) := by
      rw [← hput]
      exact OMap.get?_set_self ..
    have hsteps : ReflTransGen (RecordStep cfg (.message ⟨0, q⟩ now (.healthReport [r]))) t1.records
        (t1.checkStreaks cfg q r.peerId (pairKey q r.peerId) _ now).records :=
      checkStreaks_records hget now
    obtain ⟨g, hg, -⟩ := keeps_steps hsteps rfl (by simp) (by simp) hget
    exact ⟨g, hg⟩

/-- After a report that mentions `p` there is a record that does. -/
theorem report_mentions (cfg : Config) (s : ServerState) (q : PeerId) (now : Int)
    {reports : List HealthReport} {r : HealthReport} (hr : r ∈ reports)
    (hp : Mentions p (pairKey q r.peerId)) :
    ¬ Unmentioned p (s.handleHealthReport cfg q reports now) := by
  obtain ⟨pre, post, rfl⟩ := List.append_of_mem hr
  rw [handleHealthReport_split]
  obtain ⟨g, hg⟩ := foldl_invariant (I := fun t : ServerState =>
      ∃ g, t.pairHealthMap.get? (pairKey q r.peerId) = some g) (handleReportEntry cfg q now) post
    (fun t r' _ ⟨g, hg⟩ => by
      obtain ⟨g', hg', -⟩ := keeps_steps (@handleReportEntry_records cfg
        (.message ⟨0, q⟩ now (.healthReport [r'])) t ⟨0, q⟩ now [r'] rfl r') rfl (by simp)
          (by simp) hg
      exact ⟨g', hg'⟩)
    (handleReportEntry_health cfg _ q now r)
  exact fun h => h.health _ g hg hp

end

/-! ## Top theorems -/

/-- **Removal is complete** exactly where the event is clean, and stays so under events that avoid
the peer; a report that mentions the peer makes a record of it again. -/
theorem removal_complete (cfg : Config) (db : Db) (es : List Event) (hids : IdsOk es) (p : PeerId)
    (e : Event) (hremoves : e.Removes (exec cfg db es) p) :
    (Removed p (exec cfg db es) (step cfg (exec cfg db es) e) ↔ CleanAt p (exec cfg db es) e) ∧
    (CleanAt p (exec cfg db es) e → ∀ es', IdsOk es' → (∀ e' ∈ es', e'.Avoids p) →
      Unmentioned p (exec cfg db (es ++ e :: es'))) ∧
    ∀ s ws now reports, ¬ (Event.message ws now (.healthReport reports)).Avoids p →
      ¬ Unmentioned p (step cfg s (.message ws now (.healthReport reports))) := by
  have hi := tableInv_exec cfg db hids
  have hiff : Removed p (exec cfg db es) (step cfg (exec cfg db es) e) ↔
      CleanAt p (exec cfg db es) e := by
    cases e with
    | api w => exact removed_api_iff cfg w hremoves
    | reap now fails =>
      cases fails with
      | false => exact removed_reap_iff hi hremoves
      | true => exact hremoves.elim
    | _ => exact hremoves.elim
  refine ⟨hiff, fun hclean es' hids' havoids => ?_, ?_⟩
  · have hremoved := hiff.mpr hclean
    have hid : e.idsOk := by
      cases e with
      | api w => trivial
      | reap now fails => trivial
      | _ => exact hremoves.elim
    have hi' := tableInv_step cfg hi hid
    have hgone : Gone p (step cfg (exec cfg db es) e) :=
      ⟨hremoved.rows.peers, (unmentioned_iff hi').mp hremoved.memory⟩
    obtain ⟨hiend, hend⟩ := gone_run cfg hi' hgone hids' havoids
    unfold exec
    rw [run_append, run_cons]
    exact (unmentioned_iff hiend).mpr hend.keys
  · intro s ws now reports hnot
    simp only [Event.Avoids, not_forall, not_not] at hnot
    obtain ⟨r, hr, hp⟩ := hnot
    exact report_mentions cfg s ws.peerId now hr hp

/-- The second of two peers in the middle of a direct probe has expired at the time 100000. -/
def expiringRun : List Event :=
  directProbeRun ++ [.api (.updatePeer peerTwo none none (some 1))]

/-- The reaper finds a negotiation and a record of the peer, and tells the other party. -/
theorem removal_complete_expiringRun :
    let s := exec {} twoPeers expiringRun
    let s' := step {} s (.reap 100000 false)
    let aborted := .sent peerOne wsOne (.negotiateAbort peerTwo .peerRemoved) (some 1)
    (s.activeNegotiations.has (pairKey peerOne peerTwo) = true ∧
      s.pairHealthMap.has (pairKey peerOne peerTwo) = true) ∧
    Removed peerTwo s s' ∧ (aborted ∈ s'.trace ∧ aborted ∉ s.trace) ∧
    Unmentioned peerTwo (exec {} twoPeers (expiringRun ++ .reap 100000 false :: [.close wsTwo])) := by
  intro s s' aborted
  have hexpired : expiredPeers s.db 100000 = [(peerTwo, [110])] := by decide +kernel
  have hclean : CleanAt peerTwo s (.reap 100000 false) := by
    refine ⟨fun k n before x after _ _ _ hsplit _ hmem => ?_, fun k g hg _ => ?_⟩
    · rw [hexpired] at hsplit
      obtain rfl : before = [] := by
        have hlength := congrArg List.length hsplit
        simp only [List.length_append, List.length_cons, List.length_nil] at hlength
        exact List.length_eq_zero_iff.mp (by omega)
      cases hmem
    · have hall : ∀ e ∈ s.pairHealthMap.entries, IsPart peerTwo e.1 := by decide +kernel
      refine ⟨(peerTwo, [110]), by rw [hexpired]; exact List.mem_singleton_self _, ?_⟩
      exact hall (k, g) ((OMap.mem_entries _ _ _).mpr hg)
  obtain ⟨hiff, hlater, -⟩ := removal_complete {} twoPeers expiringRun (by decide) peerTwo
    (.reap 100000 false) (by
      show peerTwo ∈ (expiredPeers s.db 100000).map Prod.fst
      rw [hexpired]
      exact List.mem_singleton_self _)
  refine ⟨by decide +kernel, hiff.mpr hclean, by decide +kernel, ?_⟩
  refine hlater hclean [.close wsTwo] (by decide) fun e' he' => ?_
  rw [List.mem_singleton.mp he']
  trivial

/-- A delete of a peer whose neighbour is connected tells the neighbour nothing. -/
theorem removal_untold :
    ¬ ∀ (cfg : Config) (db : Db) (es : List Event) (p : PeerId) (e : Event), IdsOk es →
      e.Removes (exec cfg db es) p →
      Removed p (exec cfg db es) (step cfg (exec cfg db es) e) ∧
        ∀ es', IdsOk es' → Unmentioned p (exec cfg db (es ++ e :: es')) := by
  intro h
  have hremoved := (h {} twoPeers [.open wsOne, .open wsTwo] peerTwo (.api (.deletePeer peerTwo))
    (by decide) rfl).1
  have htold := hremoved.notified { networkId := [110], publicIp := [] } peerOne
    { networkId := [110], publicIp := [] } wsOne (by rfl) (by rfl) rfl rfl
  obtain ⟨items, hitems, hmem⟩ := htold
  have hnil : items = [] := by
    have hlen := congrArg List.length hitems
    rw [List.length_append] at hlen
    have htrace : (step {} (exec {} twoPeers [.open wsOne, .open wsTwo])
      (.api (.deletePeer peerTwo))).trace.length = 0 := rfl
    rw [htrace] at hlen
    exact List.length_eq_zero_iff.mp (by omega)
  rw [hnil] at hmem
  cases hmem

end Meshezia
