import Meshezia.Server.Removal

/-!
# A run of the reaper (`reap`)

Several peers of several networks may expire at once, and pairs lose both ends.  A run deletes
the rows of all of them and what mentions them, leaves everything else as it was, and tells
each connected peer that remains about the deleted peers of its own network, once each:

    s.reap now false = s' → the rows, records and negotiations of s' are those of s that mention
      no expired peer, and removals q d counts 1 if q is connected and remains, d was deleted
      and both are of one network, and else 0

This is so exactly when the keys of the records are split right (`reap_exact_iff`): a record
under a key with more than one colon, as a report on an id with a colon makes it, is split into
parts that are no peers of the pair.

When the delete transaction throws, the negotiations and records are gone already, but no row.
-/

namespace Meshezia

open ServerState

/-! ## Who has expired -/

def Expired (db : Db) (now : Int) (p : PeerId) : Prop :=
  ∃ row, db.peers.get? p = some row ∧ row.ttlSeconds > 0 ∧
    now - row.lastSeen > 1000 * row.ttlSeconds

theorem mem_expiredPeers_iff {db : Db} {now : Int} {p : PeerId} {net : NetworkId} :
    (p, net) ∈ expiredPeers db now ↔
      Expired db now p ∧ ∃ row, db.peers.get? p = some row ∧ row.networkId = net := by
  unfold expiredPeers
  constructor
  · intro h
    obtain ⟨⟨q, row⟩, hmem, he⟩ := List.mem_map.mp h
    cases he
    obtain ⟨hrow, hold⟩ := List.mem_filter.mp hmem
    have hrow := (db.peers.mem_entries _ _).mp hrow
    simp only [Bool.and_eq_true, decide_eq_true_eq] at hold
    exact ⟨⟨row, hrow, hold.1, by omega⟩, row, hrow, rfl⟩
  · rintro ⟨⟨row, hrow, httl, hold⟩, row', hrow', rfl⟩
    rw [hrow, Option.some.injEq] at hrow'
    subst hrow'
    refine List.mem_map.mpr ⟨(p, row), List.mem_filter.mpr
      ⟨(db.peers.mem_entries _ _).mpr hrow, ?_⟩, rfl⟩
    simp only [Bool.and_eq_true, decide_eq_true_eq]
    exact ⟨httl, by omega⟩

theorem mem_expiredIds {db : Db} {now : Int} {p : PeerId} :
    p ∈ (expiredPeers db now).map Prod.fst ↔ Expired db now p := by
  constructor
  · intro h
    obtain ⟨⟨q, net⟩, hmem, rfl⟩ := List.mem_map.mp h
    exact (mem_expiredPeers_iff.mp hmem).1
  · intro h
    obtain ⟨row, hrow, -⟩ := id h
    exact List.mem_map.mpr ⟨(p, row.networkId), mem_expiredPeers_iff.mpr ⟨h, row, hrow, rfl⟩, rfl⟩

/-! ## The rows -/

theorem get?_deletePeersWhere_ports (db : Db) (gone : PeerId → Bool) (k : PeerId × PeerId) :
    (db.deletePeersWhere gone).peerPorts.get? k =
      if gone k.1 = false ∧ gone k.2 = false then db.peerPorts.get? k else none := by
  show (db.peerPorts.filter _).get? k = _
  rw [OMap.get?_filter]
  cases db.peerPorts.get? k <;> cases gone k.1 <;> cases gone k.2 <;> simp [Option.filter]

/-- What the deletes of a list of peers leave. -/
structure DeletedRows (gone : PeerId → Prop) (db db' : Db) : Prop where
  peers : ∀ p row, db'.peers.get? p = some row ↔ db.peers.get? p = some row ∧ ¬ gone p
  ports : ∀ k port, db'.peerPorts.get? k = some port ↔
    db.peerPorts.get? k = some port ∧ ¬ gone k.1 ∧ ¬ gone k.2
  links : ∀ k row, db'.peerLinks.get? k = some row ↔
    db.peerLinks.get? k = some row ∧ ¬ gone k.1 ∧ ¬ gone k.2
  networks : db'.networks = db.networks

theorem deletedRows_deletePeer (db : Db) (p : PeerId) :
    DeletedRows (fun q => q = p) db (db.deletePeer p) where
  peers q row := by
    rw [Db.deletePeer, get?_deletePeersWhere_peers]
    by_cases hq : q = p <;> simp [hq]
  ports k port := by
    rw [Db.deletePeer, get?_deletePeersWhere_ports]
    by_cases h1 : k.1 = p <;> by_cases h2 : k.2 = p <;> simp [h1, h2]
  links k row := by
    rw [Db.deletePeer, Db.get?_deletePeersWhere_links]
    by_cases h1 : k.1 = p <;> by_cases h2 : k.2 = p <;> simp [h1, h2]
  networks := rfl

theorem DeletedRows.trans {gone gone' : PeerId → Prop} {db db' db'' : Db}
    (h : DeletedRows gone db db') (h' : DeletedRows gone' db' db'') :
    DeletedRows (fun p => gone p ∨ gone' p) db db'' where
  peers p row := by
    rw [h'.peers, h.peers, and_assoc, not_or]
  ports k port := by
    rw [h'.ports, h.ports, and_assoc, not_or, not_or]
    exact and_congr_right fun _ => by tauto
  links k row := by
    rw [h'.links, h.links, and_assoc, not_or, not_or]
    exact and_congr_right fun _ => by tauto
  networks := h'.networks.trans h.networks

theorem deletedRows_foldl (l : List (PeerId × NetworkId)) (db : Db) :
    DeletedRows (fun p => p ∈ l.map Prod.fst) db (l.foldl (fun db e => db.deletePeer e.1) db) := by
  induction l generalizing db with
  | nil => exact ⟨by simp, by simp, by simp, rfl⟩
  | cons e rest ih =>
    have h := (deletedRows_deletePeer db e.1).trans (ih (db.deletePeer e.1))
    simp only [List.map_cons, List.mem_cons]
    exact h

/-! ## The lists of the networks -/

/-- The list of a network are the expired peers of it, in the order of the query. -/
theorem get?_byNetwork (l : List (PeerId × NetworkId)) (net : NetworkId) :
    ((byNetwork l).get? net).getD [] = (l.filter fun e => e.2 = net).map Prod.fst := by
  unfold byNetwork
  induction l using List.reverseRecOn with
  | nil => rfl
  | append_singleton l e ih =>
    rw [List.foldl_append, List.foldl_cons, List.foldl_nil, OMap.get?_set, List.filter_append]
    by_cases he : e.2 = net
    · subst he
      simp [ih]
    · simp [he, ih]

theorem mem_byNetwork_iff {db : Db} {now : Int} {net : NetworkId} {d : PeerId} :
    d ∈ ((byNetwork (expiredPeers db now)).get? net).getD [] ↔
      (d, net) ∈ expiredPeers db now := by
  rw [get?_byNetwork, List.mem_map]
  constructor
  · rintro ⟨⟨q, n⟩, hmem, rfl⟩
    obtain ⟨hmem, hn⟩ := List.mem_filter.mp hmem
    simp only [decide_eq_true_eq] at hn
    exact hn ▸ hmem
  · exact fun h => ⟨(d, net), List.mem_filter.mpr ⟨h, by simp⟩, rfl⟩

theorem nodup_byNetwork {db : Db} {now : Int} {net : NetworkId} {ids : List PeerId}
    (h : (byNetwork (expiredPeers db now)).get? net = some ids) : ids.Nodup := by
  have hids := get?_byNetwork (expiredPeers db now) net
  rw [h, Option.getD_some] at hids
  rw [hids]
  exact (nodup_expiredIds db now).sublist (List.filter_sublist.map _)

/-! ## The messages -/

/-- `peer-removed` about `d`, sent to `q`. -/
def isRemoval (q d : PeerId) : TraceItem → Bool
  | .sent dest _ (.peerRemoved id) _ => decide (dest = q) && decide (id = d)
  | _ => false

def removals (q d : PeerId) (items : List TraceItem) : Nat := items.countP (isRemoval q d)

section
variable {q d : PeerId} {s : ServerState}

theorem removals_append (l l' : List TraceItem) :
    removals q d (l ++ l') = removals q d l + removals q d l' := List.countP_append

theorem removals_sentItems (c : Connections) (neg : Option Nat) (p : PeerId) (msg : ServerMsg) :
    removals q d (sentItems c neg p msg) =
      if msg = .peerRemoved d ∧ p = q ∧ c.has q = true then 1 else 0 := by
  unfold sentItems sendTextToPeer OMap.has
  by_cases hp : p = q
  · subst hp
    cases c.get? p with
    | none => simp [removals]
    | some w => cases msg <;> simp [removals, isRemoval]
  · cases c.get? p with
    | none => simp [removals, hp]
    | some w => cases msg <;> simp [removals, isRemoval, hp]

/-- A loop whose body sends one removal for some of the elements. -/
theorem removals_foldl {α : Type} {I : ServerState → Prop} {f : ServerState → α → ServerState}
    (P : α → Bool) {l : List α}
    (hf : ∀ t, ∀ y ∈ l, I t → I (f t y) ∧
      removals q d (f t y).trace = removals q d t.trace + if P y then 1 else 0)
    (hs : I s) : I (l.foldl f s) ∧
      removals q d (l.foldl f s).trace = removals q d s.trace + l.countP P := by
  induction l generalizing s with
  | nil => exact ⟨hs, rfl⟩
  | cons y rest ih =>
    obtain ⟨h1, h2⟩ := hf s y (by simp) hs
    obtain ⟨h3, h4⟩ := ih (fun t z hz => hf t z (by simp [hz])) h1
    refine ⟨h3, ?_⟩
    rw [List.foldl_cons, h4, h2, List.countP_cons]
    omega

theorem countP_of_nodup {l : List PeerId} (hl : l.Nodup) (p : PeerId) (b : Bool) :
    (l.countP fun x => decide (x = p) && b) = if p ∈ l ∧ b = true then 1 else 0 := by
  cases b with
  | false => simp
  | true =>
    have hcount : (l.countP fun x => decide (x = p) && true) = l.count p := by
      refine List.countP_congr fun x _ => ?_
      simp
    rw [hcount, hl.count]
    simp

/-! ## Nothing is sent before the delete -/

theorem removals_abortPeerEntry (p : PeerId) (reason : AbortReason)
    (e : PairKey × NegotiationState) :
    removals q d (abortPeerEntry p reason s e).trace = removals q d s.trace := by
  obtain ⟨key, neg⟩ := e
  unfold abortPeerEntry
  dsimp only
  split
  · have hnone : ∀ other, removals q d (sentItems s.connections (some neg.nid) other
        (.negotiateAbort p reason)) = 0 := by
      intro other
      rw [removals_sentItems, if_neg (by simp)]
    rw [trace_finishNegotiation, sendIfConnected_eq]
    show removals q d (sentItems _ _ _ _ ++ s.trace) = _
    rw [removals_append, hnone, Nat.zero_add]
  · rfl

theorem removals_forgetPeer (x : PeerId × NetworkId) :
    removals q d (forgetPeer s x).trace = removals q d s.trace := by
  refine foldl_invariant
    (I := fun t : ServerState => removals q d t.trace = removals q d s.trace) _ _ ?_ rfl
  exact fun t e _ ht => (removals_abortPeerEntry x.1 .peerRemoved e).trans ht

/-! ## After it -/

section
variable {db : Db} {c : Connections} {t : ServerState}

theorem removals_sendMsg (peer deletedId : PeerId) (h : Sending db c t) :
    removals q d (t.sendMsg none peer (.peerRemoved deletedId)).trace = removals q d t.trace +
      if (decide (peer = q) && decide (deletedId = d ∧ c.has q = true)) = true then 1 else 0 := by
  rw [sendMsg_eq]
  show removals q d (sentItems t.connections none peer (.peerRemoved deletedId) ++ t.trace) = _
  rw [removals_append, Nat.add_comm, removals_sentItems, h.2]
  congr 1
  simp only [ServerMsg.peerRemoved.injEq, Bool.and_eq_true, decide_eq_true_eq]
  exact if_congr (by tauto) rfl rfl

/-- `q` is told about one peer of its network once. -/
theorem removals_tell {remaining : List PeerId} (hl : remaining.Nodup) (deletedId : PeerId)
    (h : Sending db c t) :
    removals q d (remaining.foldl (fun s peer => s.sendMsg none peer (.peerRemoved deletedId))
      t).trace = removals q d t.trace +
        if (decide (deletedId = d) && decide (q ∈ remaining ∧ c.has q = true)) = true then 1
        else 0 := by
  have hloop := (removals_foldl (q := q) (d := d) (I := Sending db c)
    (fun peer => decide (peer = q) && decide (deletedId = d ∧ c.has q = true))
    (fun u peer _ hu => ⟨(sending_sendMsg hu peer (.peerRemoved deletedId)).1,
      removals_sendMsg peer deletedId hu⟩) (l := remaining) h).2
  rw [hloop, countP_of_nodup hl]
  congr 1
  simp only [Bool.and_eq_true, decide_eq_true_eq]
  exact if_congr (by tauto) rfl rfl

/-- The peers of a network. -/
def peersOf (db : Db) (net : NetworkId) : List PeerId :=
  (db.peers.entries.filter fun p => p.2.networkId = net).map Prod.fst

theorem mem_peersOf {net : NetworkId} {p : PeerId} :
    p ∈ peersOf db net ↔ ∃ row, db.peers.get? p = some row ∧ row.networkId = net := by
  unfold peersOf
  constructor
  · intro h
    obtain ⟨⟨p, row⟩, hmem, rfl⟩ := List.mem_map.mp h
    obtain ⟨hmem, hnet⟩ := List.mem_filter.mp hmem
    exact ⟨row, (db.peers.mem_entries _ _).mp hmem, by simpa using hnet⟩
  · rintro ⟨row, hrow, hnet⟩
    exact List.mem_map.mpr ⟨(p, row), List.mem_filter.mpr
      ⟨(db.peers.mem_entries _ _).mpr hrow, by simpa using hnet⟩, rfl⟩

theorem nodup_peersOf (db : Db) (net : NetworkId) : (peersOf db net).Nodup :=
  db.peers.nodup.sublist (List.filter_sublist.map _)

/-- `q` is told once about each peer on the list of its network. -/
theorem removals_notifyRemoved {e : NetworkId × List PeerId} (hids : e.2.Nodup)
    (h : Sending db c t) : removals q d (t.notifyRemoved e).trace = removals q d t.trace +
      if decide (d ∈ e.2 ∧ q ∈ peersOf db e.1 ∧ c.has q = true) = true then 1 else 0 := by
  have hremaining : (t.db.peers.entries.filter fun p => p.2.networkId = e.1).map Prod.fst =
      peersOf db e.1 := by
    rw [h.1]
    rfl
  have hloop := (removals_foldl (q := q) (d := d) (I := Sending db c)
    (fun deletedId => decide (deletedId = d) && decide (q ∈ peersOf db e.1 ∧ c.has q = true))
    (fun u deletedId _ hu => ⟨(sending_tell (peersOf db e.1) deletedId hu).1,
      removals_tell (nodup_peersOf db e.1) deletedId hu⟩) (l := e.2) h).2
  unfold notifyRemoved
  dsimp only
  rw [hremaining, hloop, countP_of_nodup hids]
  simp only [decide_eq_true_eq]

end

end

/-- `q` is connected and remains, `d` was deleted, and both are of one network. -/
def Due (s : ServerState) (now : Int) (q d : PeerId) : Prop :=
  s.isConnected q = true ∧ Expired s.db now d ∧ ¬ Expired s.db now q ∧
    ∃ rowQ rowD, s.db.peers.get? q = some rowQ ∧ s.db.peers.get? d = some rowD ∧
      rowQ.networkId = rowD.networkId

/-- From `s` to `s'` exactly the expired peers were removed, and each neighbour told once. -/
structure Reaped (now : Int) (s s' : ServerState) : Prop where
  rows : DeletedRows (Expired s.db now) s.db s'.db
  health : ∀ k h, s'.pairHealthMap.get? k = some h ↔
    s.pairHealthMap.get? k = some h ∧ ∀ p, Expired s.db now p → ¬ Mentions p k
  active : ∀ k n, s'.activeNegotiations.get? k = some n ↔
    s.activeNegotiations.get? k = some n ∧ ∀ p, Expired s.db now p → ¬ n.Involves p
  told : ∃ items, s'.trace = items ++ s.trace ∧ ∀ q d,
    (Due s now q d → removals q d items = 1) ∧ (¬ Due s now q d → removals q d items = 0)

/-- A run in which the delete fails leaves the rows as they are and tells no one. -/
def Unreaped (s s' : ServerState) : Prop :=
  s'.db = s.db ∧ ∃ items, s'.trace = items ++ s.trace ∧ ∀ q d, removals q d items = 0

/-- The keys of the records are split right, as far as expired peers go: one is a part of a key
if and only if one is a peer of its pair. -/
def KeysSplit (now : Int) (s : ServerState) : Prop :=
  ∀ k h, s.pairHealthMap.get? k = some h →
    ((∃ p, Expired s.db now p ∧ IsPart p k) ↔ ∃ p, Expired s.db now p ∧ Mentions p k)

/-- Keys of colon-free pairs are. -/
theorem keysSplit_of_colonFree {s : ServerState} (now : Int)
    (h : ∀ k g, s.pairHealthMap.get? k = some g → ∃ a b, ColonFree a ∧ ColonFree b ∧ k = pairKey a b) :
    KeysSplit now s := by
  intro k g hg
  obtain ⟨a, b, ha, hb, rfl⟩ := h k g hg
  simp only [isPart_pairKey ha hb, mentions_pairKey ha hb]

section
variable (s : ServerState) (now : Int)

/-- The loop before the delete adds to the history, but sends no removal. -/
theorem trace_foldl_forgetPeer (l : List (PeerId × NetworkId)) :
    (l.foldl forgetPeer s).connections = s.connections ∧
      ∃ items, (l.foldl forgetPeer s).trace = items ++ s.trace ∧ ∀ q d, removals q d items = 0 := by
  have hloop := grows_foldl (I := fun t => t.connections = s.connections ∧
    ∀ q d, removals q d t.trace = removals q d s.trace) forgetPeer (fun t x ht =>
      ⟨⟨(forgetPeer_grows t x ht.1).1, fun q d => (removals_forgetPeer x).trans (ht.2 q d)⟩,
        (forgetPeer_grows t x ht.1).2⟩) l (s := s) ⟨rfl, fun q d => rfl⟩
  obtain ⟨⟨hconn, hcount⟩, items, htrace⟩ := hloop
  refine ⟨hconn, items, htrace, fun q d => ?_⟩
  have h := hcount q d
  rw [htrace, removals_append] at h
  omega

theorem forall_expired {P : PeerId → Prop} :
    (∀ x ∈ expiredPeers s.db now, P x.1) ↔ ∀ p, Expired s.db now p → P p := by
  constructor
  · intro h p hp
    obtain ⟨x, hx, rfl⟩ := List.mem_map.mp (mem_expiredIds.mpr hp)
    exact h x hx
  · exact fun h x hx => h x.1 (mem_expiredIds.mp (List.mem_map_of_mem hx))

theorem health_reap : (s.reap now false).pairHealthMap =
    ((expiredPeers s.db now).foldl forgetPeer s).pairHealthMap := by
  have hrec := congrArg Records.health (reap_records_eq (s := s) now false)
  exact hrec

theorem active_reap : (s.reap now false).activeNegotiations =
    ((expiredPeers s.db now).foldl forgetPeer s).activeNegotiations := by
  rw [reap_eq]
  refine foldl_invariant (I := fun t : ServerState => t.activeNegotiations =
    ((expiredPeers s.db now).foldl forgetPeer s).activeNegotiations) _ _ ?_ rfl
  intro t e _ ht
  rw [notifyRemoved_active, ht]

/-- A neighbour remains in the network whose list `d` is on. -/
theorem due_iff {db : Db} (hrows : DeletedRows (Expired s.db now) s.db db) (q d : PeerId) :
    Due s now q d ↔ ∃ row, db.peers.get? q = some row ∧ s.connections.has q = true ∧
      ∃ ids, (byNetwork (expiredPeers s.db now)).get? row.networkId = some ids ∧ d ∈ ids := by
  have hlist : ∀ net, (∃ ids, (byNetwork (expiredPeers s.db now)).get? net = some ids ∧ d ∈ ids) ↔
      Expired s.db now d ∧ ∃ row, s.db.peers.get? d = some row ∧ row.networkId = net := by
    intro net
    rw [← mem_expiredPeers_iff, ← mem_byNetwork_iff]
    cases (byNetwork (expiredPeers s.db now)).get? net with
    | none => simp
    | some ids => simp
  constructor
  · rintro ⟨hconn, hd, hq, rowQ, rowD, hrowQ, hrowD, hnet⟩
    exact ⟨rowQ, (hrows.peers q rowQ).mpr ⟨hrowQ, hq⟩, hconn,
      (hlist _).mpr ⟨hd, rowD, hrowD, hnet.symm⟩⟩
  · rintro ⟨rowQ, hrowQ, hconn, hids⟩
    obtain ⟨hrowQ, hq⟩ := (hrows.peers q rowQ).mp hrowQ
    obtain ⟨hd, rowD, hrowD, hnet⟩ := (hlist _).mp hids
    exact ⟨hconn, hd, hq, rowQ, rowD, hrowQ, hrowD, hnet.symm⟩

theorem count_due {db : Db} (hrows : DeletedRows (Expired s.db now) s.db db) (q d : PeerId) :
    let count := (byNetwork (expiredPeers s.db now)).entries.countP fun e =>
      decide (d ∈ e.2 ∧ q ∈ peersOf db e.1 ∧ s.connections.has q = true)
    (Due s now q d → count = 1) ∧ (¬ Due s now q d → count = 0) := by
  intro count
  have hdue := due_iff s now hrows q d
  cases hrow : db.peers.get? q with
  | none =>
    -- no one is left to be told
    have hzero : count = 0 := by
      rw [List.countP_eq_zero]
      intro e _ he
      obtain ⟨row, hget, -⟩ := mem_peersOf.mp (of_decide_eq_true he).2.1
      rw [hrow] at hget
      cases hget
    refine ⟨fun h => ?_, fun _ => hzero⟩
    obtain ⟨row, hget, -⟩ := hdue.mp h
    rw [hrow] at hget
    cases hget
  | some row =>
    have hnet : ∀ e : NetworkId × List PeerId,
        decide (d ∈ e.2 ∧ q ∈ peersOf db e.1 ∧ s.connections.has q = true) = true →
          e.1 = row.networkId := by
      intro e he
      obtain ⟨row', hget, hnet⟩ := mem_peersOf.mp (of_decide_eq_true he).2.1
      rw [hrow, Option.some.injEq] at hget
      rw [hget, hnet]
    have hcount : count = if ((byNetwork (expiredPeers s.db now)).get? row.networkId).any fun ids =>
        decide (d ∈ ids ∧ q ∈ peersOf db row.networkId ∧ s.connections.has q = true) then 1
        else 0 := OMap.countP_assoc (byNetwork (expiredPeers s.db now)).nodup hnet
    have hany : (((byNetwork (expiredPeers s.db now)).get? row.networkId).any fun ids =>
        decide (d ∈ ids ∧ q ∈ peersOf db row.networkId ∧ s.connections.has q = true)) = true ↔
          Due s now q d := by
      rw [hdue, Option.any_eq_true]
      constructor
      · rintro ⟨ids, hids, hall⟩
        obtain ⟨hd, -, hconn⟩ := of_decide_eq_true hall
        exact ⟨row, hrow, hconn, ids, hids, hd⟩
      · rintro ⟨row', hget, hconn, ids, hids, hd⟩
        rw [hrow, Option.some.injEq] at hget
        subst hget
        exact ⟨ids, hids, decide_eq_true ⟨hd, mem_peersOf.mpr ⟨row, hrow, rfl⟩, hconn⟩⟩
    rw [hcount]
    exact ⟨fun h => if_pos (hany.mpr h), fun h => if_neg fun he => h (hany.mp he)⟩

end

/-- What a run leaves of the records, by the parts of their keys. -/
theorem health_reap_iff (s : ServerState) (now : Int) (k : PairKey) (h : PairHealth) :
    (s.reap now false).pairHealthMap.get? k = some h ↔
      s.pairHealthMap.get? k = some h ∧ ¬ ∃ p, Expired s.db now p ∧ IsPart p k := by
  rw [health_reap, health_foldl_forgetPeer, not_exists]
  simp only [not_and]
  exact and_congr_right fun _ => forall_expired s now (P := fun p => ¬ IsPart p k)

/-- Records of expired peers, and no others, are dropped exactly when the keys are split right. -/
theorem health_exact_iff (s : ServerState) (now : Int) :
    (∀ k h, (s.reap now false).pairHealthMap.get? k = some h ↔
      s.pairHealthMap.get? k = some h ∧ ∀ p, Expired s.db now p → ¬ Mentions p k) ↔
      KeysSplit now s := by
  have hmention : ∀ k, (∀ p, Expired s.db now p → ¬ Mentions p k) ↔
      ¬ ∃ p, Expired s.db now p ∧ Mentions p k := fun k => by
    rw [not_exists]
    simp only [not_and]
  simp only [health_reap_iff, hmention]
  constructor
  · intro h k g hg
    have hk := h k g
    simp only [hg, true_and] at hk
    exact not_iff_not.mp hk
  · exact fun h k g => and_congr_right fun hg => not_congr (h k g hg)

/-- **The reaper.**  One run removes what mentions an expired peer and nothing else, and tells
each connected neighbour of a deleted peer of it once, and no other peer, exactly when the keys
of the records are split right.  When the delete fails, no row changes and no one is told. -/
theorem reap_exact_iff (s : ServerState) (now : Int) :
    Reaped now s (s.reap now false) ∧ Unreaped s (s.reap now true) ↔ KeysSplit now s := by
  refine ⟨fun h => (health_exact_iff s now).mp h.1.health, fun hsplit => ?_⟩
  obtain ⟨hconn, items, htrace, hnone⟩ := trace_foldl_forgetPeer s (expiredPeers s.db now)
  have hdb := (foldl_forgetPeer_frame (expiredPeers s.db now) s).1
  refine ⟨?_, hdb, items, htrace, hnone⟩
  have hexpired : ∀ p, p ∈ (expiredPeers s.db now).map Prod.fst ↔ Expired s.db now p :=
    fun p => mem_expiredIds
  have hdeleted := deletedRows_foldl (expiredPeers s.db now) s.db
  simp only [hexpired] at hdeleted
  have hreap := reap_eq s now
  generalize (expiredPeers s.db now).foldl (fun db y => db.deletePeer y.1) s.db = db'
    at hreap hdeleted
  have hids : ∀ e ∈ (byNetwork (expiredPeers s.db now)).entries, e.2.Nodup := fun e he =>
    nodup_byNetwork ((OMap.mem_entries _ _ _).mp he)
  have hsending : Sending db' s.connections
      { (expiredPeers s.db now).foldl forgetPeer s with db := db' } := ⟨rfl, hconn⟩
  -- the notifications change the history only
  obtain ⟨⟨hrows, -⟩, sent, hsent⟩ := grows_foldl (I := Sending db' s.connections) notifyRemoved
    (fun t e ht => sending_notifyRemoved e ht) (byNetwork (expiredPeers s.db now)).entries hsending
  rw [← hreap] at hrows hsent
  refine ⟨hrows ▸ hdeleted, (health_exact_iff s now).mpr hsplit, fun k n => ?_, sent ++ items, ?_,
    fun q d => ?_⟩
  · rw [active_reap, active_foldl_forgetPeer]
    exact and_congr_right fun _ => forall_expired s now (P := fun p => ¬ n.Involves p)
  · rw [hsent, List.append_assoc]
    exact congrArg (sent ++ ·) htrace
  · have hcount := (removals_foldl (q := q) (d := d) (I := Sending db' s.connections)
      (fun e => decide (d ∈ e.2 ∧ q ∈ peersOf db' e.1 ∧ s.connections.has q = true))
      (fun t e he ht => ⟨(sending_notifyRemoved e ht).1, removals_notifyRemoved (hids e he) ht⟩)
      hsending).2
    rw [← hreap, hsent, removals_append, Nat.add_comm, Nat.add_left_cancel_iff] at hcount
    rw [removals_append, hnone q d, Nat.add_zero, hcount]
    exact count_due s now hdeleted q d

/-- The second of two peers has reported on the id `0:1`, and has expired at the time 100000. -/
def colonRun : List Event :=
  [.open wsTwo,
   .message wsTwo 1000 (.healthReport [{ peerId := [48, 58, 49], mode := .direct, rxAlive := true }]),
   .api (.updatePeer peerTwo none none (some 1))]

/-- Its record is under the key `0:1:b`, which is split into `0` and `1`, and stays. -/
theorem reap_leaves_record : ¬ ∀ (s : ServerState) (now : Int),
    Reaped now s (s.reap now false) ∧ Unreaped s (s.reap now true) := by
  intro h
  have hreaped := (h (exec {} twoPeers colonRun) 100000).1
  have hexpired : Expired (exec {} twoPeers colonRun).db 100000 peerTwo :=
    mem_expiredIds.mp (by decide +kernel)
  have hstays : ((exec {} twoPeers colonRun).reap 100000 false).pairHealthMap.has
      (pairKey peerTwo [48, 58, 49]) = true := by decide +kernel
  obtain ⟨g, hg⟩ := (OMap.has_iff _ _).mp hstays
  exact ((hreaped.health _ g).mp hg).2 peerTwo hexpired (mentions_left _ _)

end Meshezia
