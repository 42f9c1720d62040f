import Meshezia.Server.Removal

/-!
# The rows of a health report (`handleHealthReport`, `getUpsertStmt`)

A report is one list of entries, one for each peer that the sender sees.  The entries are
written in one transaction, the last one about a peer is the one that stays, and an
administrator's `forced_mode` is not touched:

    (p, q) ↦ the last entry about q, at the time of the report       q exists and is listed
    k      ↦ what was there                                          for every other key

An entry about a peer that is gone fails its foreign key and takes the whole list with it.
The error is caught and logged, and the loop after it still counts every entry.  So the table
above is right exactly when nobody in the list is gone, or when there was nothing to write:

    p exists → (Recorded db (s.handleHealthReport cfg p reports now).db p reports now ↔
      (∀ r ∈ reports, r.peerId exists) ∨ UpToDate db p reports now)      (recorded_iff)
-/

namespace Meshezia

open ServerState

/-! ## What a report should leave -/

/-- The last entry about `q`. -/
def lastEntry (q : PeerId) (reports : List HealthReport) : Option HealthReport :=
  reports.reverse.find? fun r => decide (r.peerId = q)

/-- What is recorded of the entry `r` of a report of `p` that finds the database `db`. -/
def recordedRow (db : Db) (p : PeerId) (now : Int) (r : HealthReport) : LinkRow :=
  { linkRowOf r now with forcedMode := db.forcedModeOf (p, r.peerId) }

/-- The row under `k` is to be written: it is about an existing peer in the list. -/
def InReport (db : Db) (p : PeerId) (reports : List HealthReport) (k : PeerId × PeerId) : Prop :=
  k.1 = p ∧ db.peers.has k.2 = true ∧ (lastEntry k.2 reports).isSome = true

/-- Every entry about an existing peer is in the rows, and nothing else has changed. -/
structure Recorded (db db' : Db) (p : PeerId) (reports : List HealthReport) (now : Int) : Prop where
  listed : ∀ q r, db.peers.has q = true → lastEntry q reports = some r →
    db'.peerLinks.get? (p, q) = some (recordedRow db p now r)
  others : ∀ k, ¬ InReport db p reports k → db'.peerLinks.get? k = db.peerLinks.get? k

/-- The rows of the existing peers in the list hold these entries and this time already. -/
def UpToDate (db : Db) (p : PeerId) (reports : List HealthReport) (now : Int) : Prop :=
  ∀ q r, db.peers.has q = true → lastEntry q reports = some r →
    db.peerLinks.get? (p, q) = some (recordedRow db p now r)

theorem lastEntry_peerId {q : PeerId} {reports : List HealthReport} {r : HealthReport}
    (h : lastEntry q reports = some r) : r.peerId = q := by
  unfold lastEntry at h
  have hfound := List.find?_some h
  exact of_decide_eq_true hfound

theorem lastEntry_cons (q : PeerId) (r : HealthReport) (rest : List HealthReport) :
    lastEntry q (r :: rest) =
      (lastEntry q rest).or (if r.peerId = q then some r else none) := by
  unfold lastEntry
  rw [List.reverse_cons, List.find?_append, List.find?_singleton]
  by_cases hq : r.peerId = q <;> simp [hq]

/-! ## The transaction -/

/-- The loop inside the transaction. -/
def upsertAll (db : Db) (p : PeerId) (reports : List HealthReport) (now : Int) : Option Db :=
  reports.foldlM (fun (db : Db) r => db.upsertLink p r.peerId (linkRowOf r now)) db

theorem upsertReports_eq (db : Db) (p : PeerId) (reports : List HealthReport) (now : Int) :
    upsertReports db p reports now = (upsertAll db p reports now).getD db := rfl

/-- One statement: refused unless both peers exist, and else the row of the entry. -/
theorem upsertEntry_eq (db : Db) (p : PeerId) (r : HealthReport) (now : Int) :
    db.upsertLink p r.peerId (linkRowOf r now) =
      if db.peers.has p && db.peers.has r.peerId then
        some { db with peerLinks := db.peerLinks.set (p, r.peerId) (recordedRow db p now r) }
      else none :=
  db.upsertLink_eq p r.peerId (linkRowOf r now)

/-- A written row keeps the `forced_mode` that it found. -/
theorem forcedModeOf_set (db : Db) (p : PeerId) (r : HealthReport) (now : Int)
    (k : PeerId × PeerId) :
    Db.forcedModeOf { db with
      peerLinks := db.peerLinks.set (p, r.peerId) (recordedRow db p now r) } k =
        db.forcedModeOf k := by
  by_cases hk : (p, r.peerId) = k
  · subst hk
    unfold Db.forcedModeOf
    rw [OMap.get?_set_self]
    rfl
  · unfold Db.forcedModeOf
    rw [OMap.get?_set_ne _ _ hk]

section
variable {db : Db} {p : PeerId} {reports : List HealthReport} {now : Int}

/-- The transaction commits when every peer it names exists: the last entry about each stays. -/
theorem upsertAll_of_exist (now : Int) (hp : db.peers.has p = true)
    (hall : ∀ r ∈ reports, db.peers.has r.peerId = true) :
    ∃ db', upsertAll db p reports now = some db' ∧ ∀ k, db'.peerLinks.get? k =
      (if k.1 = p then (lastEntry k.2 reports).map (recordedRow db p now) else none).or
        (db.peerLinks.get? k) := by
  induction reports generalizing db with
  | nil =>
    refine ⟨db, rfl, fun k => ?_⟩
    split <;> rfl
  | cons r rest ih =>
    have hr : db.peers.has r.peerId = true := hall r List.mem_cons_self
    obtain ⟨db1, hdb1⟩ : ∃ db1 : Db, db1 = { db with
        peerLinks := db.peerLinks.set (p, r.peerId) (recordedRow db p now r) } := ⟨_, rfl⟩
    have hpeers : db1.peers = db.peers := by rw [hdb1]
    have hrow : recordedRow db1 p now = recordedRow db p now := by
      funext x
      unfold recordedRow
      rw [hdb1, forcedModeOf_set]
    have hrest : ∀ x ∈ rest, db1.peers.has x.peerId = true := by
      rw [hpeers]
      exact fun x hx => hall x (List.mem_cons_of_mem r hx)
    obtain ⟨db', hdb', hlinks⟩ := @ih db1 (by rw [hpeers]; exact hp) hrest
    refine ⟨db', ?_, fun k => ?_⟩
    · unfold upsertAll at hdb' ⊢
      rw [List.foldlM_cons, upsertEntry_eq, hp, hr]
      simpa only [Bool.and_self, if_true, Option.bind_eq_bind, Option.bind_some, hdb1] using hdb'
    · have hget : db1.peerLinks.get? k =
          (if k.1 = p then (if r.peerId = k.2 then some (recordedRow db p now r) else none)
            else none).or (db.peerLinks.get? k) := by
        rw [hdb1, OMap.get?_set]
        by_cases h1 : k.1 = p <;> by_cases h2 : r.peerId = k.2 <;>
          simp [Prod.ext_iff, h1, h2, eq_comm]
      rw [hlinks k, hrow, lastEntry_cons, hget]
      by_cases hk : k.1 = p
      · rw [if_pos hk, if_pos hk, if_pos hk, ← Option.or_assoc]
        cases lastEntry k.2 rest <;> by_cases hq : r.peerId = k.2 <;> simp [hq]
      · rw [if_neg hk, if_neg hk, if_neg hk]
        rfl

/-- One entry about a peer that is gone, and the transaction is rolled back. -/
theorem upsertAll_of_gone {r : HealthReport} (hr : r ∈ reports)
    (hgone : db.peers.has r.peerId = false) : upsertAll db p reports now = none := by
  induction reports generalizing db with
  | nil => cases hr
  | cons x rest ih =>
    unfold upsertAll
    rw [List.foldlM_cons, upsertEntry_eq]
    by_cases hx : (db.peers.has p && db.peers.has x.peerId) = true
    · have hrest : r ∈ rest := by
        rcases List.mem_cons.mp hr with rfl | hrest
        · simp [hgone] at hx
        · exact hrest
      rw [if_pos hx]
      exact @ih { db with
        peerLinks := db.peerLinks.set (p, x.peerId) (recordedRow db p now x) } hrest hgone
    · rw [if_neg hx]
      rfl

theorem recorded_of_exist (hp : db.peers.has p = true)
    (hall : ∀ r ∈ reports, db.peers.has r.peerId = true) :
    Recorded db (upsertReports db p reports now) p reports now := by
  obtain ⟨db', hdb', hlinks⟩ := upsertAll_of_exist now hp hall
  rw [upsertReports_eq, hdb', Option.getD_some]
  constructor
  · intro q r _ hlast
    rw [hlinks (p, q), if_pos rfl, hlast]
    rfl
  · intro k hk
    rw [hlinks k]
    by_cases hkp : k.1 = p
    · have hnone : lastEntry k.2 reports = none := by
        cases hlast : lastEntry k.2 reports with
        | none => rfl
        | some r =>
          have hmem : r ∈ reports := List.mem_reverse.mp (List.mem_of_find?_eq_some hlast)
          have hex := hall r hmem
          rw [lastEntry_peerId hlast] at hex
          exact absurd ⟨hkp, hex, by rw [hlast]; rfl⟩ hk
      rw [hnone, if_pos hkp]
      rfl
    · rw [if_neg hkp]
      rfl

end

/-! ## The handler -/

theorem initiateRelayProbe_db (s : ServerState) (key : PairKey) (health : PairHealth) (now : Int) :
    (s.initiateRelayProbe key health now).db = s.db := by
  have hrecords : (s.initiateRelayProbe key health now).records.db = s.db := by
    unfold initiateRelayProbe
    simp only [records_sendMsg, records_armTimeout]
    rfl
  exact hrecords

theorem checkStreaks_db (cfg : Config) (s : ServerState) (p q : PeerId) (key : PairKey)
    (health : PairHealth) (now : Int) : (s.checkStreaks cfg p q key health now).db = s.db := by
  have hasked : (shouldInitiateRelayProbe cfg s p q key health).2.db = s.db := by
    unfold shouldInitiateRelayProbe
    simp only []
    repeat' split
    all_goals rfl
  unfold checkStreaks
  simp only []
  split
  · split
    · rw [initiateRelayProbe_db, hasked]
    · exact hasked
  · rfl

/-- Counting streaks writes no row. -/
theorem handleReportEntry_db (cfg : Config) (p : PeerId) (now : Int) (s : ServerState)
    (r : HealthReport) : (handleReportEntry cfg p now s r).db = s.db := by
  have hcreated : (getOrCreateHealth cfg s (pairKey p r.peerId)).2.db = s.db := by
    unfold getOrCreateHealth
    split <;> rfl
  unfold handleReportEntry
  simp only []
  split
  · exact hcreated
  · split
    · exact hcreated
    · rw [checkStreaks_db]
      exact hcreated

theorem handleHealthReport_db (cfg : Config) (s : ServerState) (p : PeerId)
    (reports : List HealthReport) (now : Int) :
    (s.handleHealthReport cfg p reports now).db = upsertReports s.db p reports now := by
  refine foldl_invariant (I := fun t : ServerState =>
    t.db = upsertReports s.db p reports now) _ _ ?_ rfl
  intro t r _ ht
  rw [handleReportEntry_db, ht]

/-- **A report is recorded whole or not at all.**  Its entries about existing peers are recorded
exactly when no peer in the list is gone, or when the rows say the same already. -/
theorem recorded_iff (cfg : Config) (s : ServerState) (p : PeerId) (reports : List HealthReport)
    (now : Int) (hp : s.db.peers.has p = true) :
    Recorded s.db (s.handleHealthReport cfg p reports now).db p reports now ↔
      (∀ r ∈ reports, s.db.peers.has r.peerId = true) ∨ UpToDate s.db p reports now := by
  rw [handleHealthReport_db]
  by_cases hall : ∀ r ∈ reports, s.db.peers.has r.peerId = true
  · exact ⟨fun _ => Or.inl hall, fun _ => recorded_of_exist hp hall⟩
  · obtain ⟨r, hr, hgone⟩ : ∃ r ∈ reports, s.db.peers.has r.peerId = false := by
      simpa using hall
    -- rolled back: the rows are those of before
    rw [upsertReports_eq, upsertAll_of_gone hr hgone, Option.getD_none]
    constructor
    · intro h
      exact Or.inr h.listed
    · rintro (h | h)
      · exact absurd h hall
      · exact ⟨h, fun _ _ => rfl⟩

/-- A report of the first peer about the second one and about one that has been removed. -/
def mixedReport : List HealthReport :=
  [{ peerId := peerTwo, mode := .relay, rxAlive := false },
   { peerId := [103, 111, 110, 101], mode := .direct, rxAlive := true }]

/-- A report of the first peer about the second one, twice, and about itself. -/
def repeatedReport : List HealthReport :=
  [{ peerId := peerTwo, mode := .relay, rxAlive := false },
   { peerId := peerOne, mode := .direct, rxAlive := true },
   { peerId := peerTwo, mode := .direct, rxAlive := true }]

/-- Of the entries about one peer the last is recorded. -/
theorem recorded_iff_twoPeers :
    let db := ((ServerState.init twoPeers).handleHealthReport {} peerOne repeatedReport 5000).db
    Recorded twoPeers db peerOne repeatedReport 5000 ∧
      db.peerLinks.get? (peerOne, peerTwo) =
        some (recordedRow twoPeers peerOne 5000
          { peerId := peerTwo, mode := .direct, rxAlive := true }) := by
  intro db
  have hrecorded : Recorded twoPeers db peerOne repeatedReport 5000 :=
    (recorded_iff {} (ServerState.init twoPeers) peerOne repeatedReport 5000 (by decide)).mpr
      (Or.inl (by decide))
  exact ⟨hrecorded, hrecorded.listed peerTwo _ (by decide) (by decide)⟩

/-- The entry about the peer that exists is lost with the other one. -/
theorem recorded_fails : twoPeers.peers.has peerOne = true ∧
    ¬ Recorded twoPeers ((ServerState.init twoPeers).handleHealthReport {} peerOne
      mixedReport 5000).db peerOne mixedReport 5000 := by
  refine ⟨by decide, fun h => ?_⟩
  have hrow := h.listed peerTwo { peerId := peerTwo, mode := .relay, rxAlive := false }
    (by decide) (by decide)
  rw [handleHealthReport_db] at hrow
  revert hrow
  decide

end Meshezia
