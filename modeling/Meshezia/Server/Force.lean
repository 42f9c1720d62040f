import Meshezia.Server.Records

/-!
# Force mode over whole runs

The force of a pair is in three places: the cached health record and the two rows of
`peer_links`.  The command writes the cache and the rows that exist; a row inserted
later carries no force, and a restart or a reap whose delete fails drops the cache.

* `ForceHolds`: from a command on, until `auto` or the deletion of a peer, no probe of
  the pair starts.
* `ForceStored`: the condition on the steps of a run under which it does.

    IdsOk es → Along ForceStored es → ForceHolds es          (force_holds_when_stored)

Without it: a pair forced before its first report is probed (`force_forgotten`).
-/

namespace Meshezia

open ServerState Relation

/-! ## What is claimed -/

def Event.isAutoOf (key : PairKey) : Event → Bool
  | .forceMode p q .auto => decide (pairKey p q = key)
  | _ => false

/-- The step leaves the force of the pair in effect. -/
def Lasts (cfg : Config) (a b : PeerId) (s : ServerState) (e : Event) : Prop :=
  e.isAutoOf (pairKey a b) = false ∧ (step cfg s e).db.peers.has a = true ∧
    (step cfg s e).db.peers.has b = true

instance (cfg : Config) (a b : PeerId) (s : ServerState) (e : Event) : Decidable (Lasts cfg a b s e) :=
  inferInstanceAs (Decidable (_ ∧ _ ∧ _))

/-- A relay probe or a direct probe of the pair starts. -/
def TraceItem.starts (key : PairKey) : TraceItem → Bool
  | .started k _ _ _ _ => decide (k = key)
  | _ => false

def probeStarts (key : PairKey) (log : List TraceItem) : Nat := log.countP (TraceItem.starts key)

/-- No probe of a forced pair starts: for every command of the run and every stretch after
it in which the force is in effect. -/
def ForceHolds (cfg : Config) (db : Db) (es : List Event) : Prop :=
  ∀ pre a b m mid post, es = pre ++ .forceMode a b (.force m) :: (mid ++ post) →
    (exec cfg db pre).db.sameNetwork a b = true →
    Along (step cfg) (Lasts cfg a b) (exec cfg db (pre ++ [.forceMode a b (.force m)])) mid →
    probeStarts (pairKey a b) (exec cfg db (pre ++ .forceMode a b (.force m) :: mid)).log =
      probeStarts (pairKey a b) (exec cfg db (pre ++ [.forceMode a b (.force m)])).log

/-- The row from `a` to `b` is there and forced. -/
def Db.rowForced (db : Db) (a b : PeerId) : Bool :=
  match db.peerLinks.get? (a, b) with
  | some row => row.forcedMode.isSome
  | none => false

def expired (db : Db) (now : Int) (p : PeerId) : Bool :=
  (expiredPeers db now).any fun x => decide (x.1 = p)

/-- A force command finds a row of the pair to write to; and where health records are
dropped, the force of a pair is in both of its rows. -/
def ForceStored (s : ServerState) : Event → Prop
  | .forceMode a b (.force _) => s.db.sameNetwork a b = true →
      s.db.peerLinks.has (a, b) = true ∨ s.db.peerLinks.has (b, a) = true
  | .restart => ∀ row ∈ s.db.peerLinks.entries, s.db.rowForced row.1.1 row.1.2 = true →
      s.db.rowForced row.1.2 row.1.1 = true
  | .reap now true => ∀ row ∈ s.db.peerLinks.entries,
      expired s.db now row.1.1 = true ∨ expired s.db now row.1.2 = true →
      s.db.rowForced row.1.1 row.1.2 = true → s.db.rowForced row.1.2 row.1.1 = true
  | _ => True

instance (s : ServerState) : (e : Event) → Decidable (ForceStored s e)
  | .forceMode _ _ (.force _) => inferInstanceAs (Decidable (_ → _))
  | .forceMode _ _ .auto => .isTrue trivial
  | .restart => inferInstanceAs (Decidable (∀ row ∈ s.db.peerLinks.entries, _ → _))
  | .reap _ true => inferInstanceAs (Decidable (∀ row ∈ s.db.peerLinks.entries, _ → _ → _))
  | .reap _ false => .isTrue trivial
  | .open _ => .isTrue trivial
  | .close _ => .isTrue trivial
  | .message _ _ _ => .isTrue trivial
  | .timer _ => .isTrue trivial
  | .sweep _ => .isTrue trivial
  | .api _ => .isTrue trivial

/-- The same for one pair: a force command for it finds a row, and where health records are
dropped its rows are forced both or neither. -/
def PairForceStored (a b : PeerId) (s : ServerState) : Event → Prop
  | .forceMode p q (.force _) => pairKey p q = pairKey a b → s.db.sameNetwork p q = true →
      s.db.peerLinks.has (p, q) = true ∨ s.db.peerLinks.has (q, p) = true
  | .restart => s.db.rowForced a b = s.db.rowForced b a
  | .reap now true => expired s.db now a = true ∨ expired s.db now b = true →
      s.db.rowForced a b = s.db.rowForced b a
  | _ => True

instance (a b : PeerId) (s : ServerState) : (e : Event) → Decidable (PairForceStored a b s e)
  | .forceMode _ _ (.force _) => inferInstanceAs (Decidable (_ → _ → _))
  | .forceMode _ _ .auto => .isTrue trivial
  | .restart => inferInstanceAs (Decidable (_ = _))
  | .reap _ true => inferInstanceAs (Decidable (_ → _))
  | .reap _ false => .isTrue trivial
  | .open _ | .close _ | .message _ _ _ | .timer _ | .sweep _ | .api _ => .isTrue trivial

/-! ## Where the force is -/

def Cached (health : OMap PairKey PairHealth) (key : PairKey) : Prop :=
  ∃ h, health.get? key = some h ∧ h.forcedMode ≠ none

/-- In both rows, or in one and in the cache. -/
def Kept (a b : PeerId) (health : OMap PairKey PairHealth) (db : Db) : Prop :=
  (db.rowForced a b = true ∧ db.rowForced b a = true) ∨
    ((db.rowForced a b = true ∨ db.rowForced b a = true) ∧ Cached health (pairKey a b))

section
variable {cfg : Config} {e : Event} {r r' : Records} {a b : PeerId}

theorem rowForced_iff {db : Db} :
    db.rowForced a b = true ↔
      ∃ row m, db.peerLinks.get? (a, b) = some row ∧ row.forcedMode = some m := by
  unfold Db.rowForced
  cases db.peerLinks.get? (a, b) with
  | none => simp
  | some row => cases hm : row.forcedMode <;> simp [hm]

theorem Kept.row {health : OMap PairKey PairHealth} {db : Db} (h : Kept a b health db) :
    db.rowForced a b = true ∨ db.rowForced b a = true := by
  rcases h with h | h
  · exact Or.inl h.1
  · exact h.1

theorem Kept.mono {health health' : OMap PairKey PairHealth} {db db' : Db} (h : Kept a b health db)
    (hab : db.rowForced a b = true → db'.rowForced a b = true)
    (hba : db.rowForced b a = true → db'.rowForced b a = true)
    (hcache : Cached health (pairKey a b) → Cached health' (pairKey a b)) : Kept a b health' db' := by
  rcases h with ⟨h1, h2⟩ | ⟨h1, h2⟩
  · exact Or.inl ⟨hab h1, hba h2⟩
  · exact Or.inr ⟨h1.imp hab hba, hcache h2⟩

/-- The rows stay, and one record is written. -/
theorem Kept.set {health : OMap PairKey PairHealth} {db : Db} (h : Kept a b health db) {key : PairKey}
    {h' : PairHealth}
    (hset : key = pairKey a b → ∀ h0, health.get? key = some h0 → h0.forcedMode ≠ none →
      h'.forcedMode ≠ none) : Kept a b (health.set key h') db := by
  refine h.mono id id fun ⟨h0, hg, hf⟩ => ?_
  by_cases hkey : key = pairKey a b
  · subst hkey
    exact ⟨h', by simp, hset rfl h0 hg hf⟩
  · exact ⟨h0, by rw [OMap.get?_set_ne _ _ hkey, hg], hf⟩

theorem Cached.of_filter {health : OMap PairKey PairHealth} {key : PairKey}
    (h : Cached health key) {p : PairKey → PairHealth → Bool} (hp : ∀ v, p key v = true) :
    Cached (health.filter p) key := by
  obtain ⟨h0, hg, hf⟩ := h
  exact ⟨h0, by rw [OMap.get?_filter, hg]; simp [hp], hf⟩

theorem upsertReports_rowForced {db : Db} (p : PeerId) (reports : List HealthReport) (now : Int)
    (h : db.rowForced a b = true) : (upsertReports db p reports now).rowForced a b = true := by
  refine upsertReports_rule (I := fun db => db.rowForced a b = true) ?_ reports h
  intro db db' q row h hupsert
  obtain ⟨row, m, hg, hm⟩ := rowForced_iff.mp h
  obtain ⟨row', hg', hm'⟩ := Db.upsertLink_forced (a, b) hupsert hg
  exact rowForced_iff.mpr ⟨row', m, hg', hm'.trans hm⟩

/-- A force command forces the rows of its pair that exist and touches no other. -/
theorem rowForced_setForcedMode {db : Db} (p q : PeerId) (mode : ForceCommand)
    (hmode : mode = .auto → ¬ ((a = p ∧ b = q) ∨ (a = q ∧ b = p))) (h : db.rowForced a b = true) :
    (db.setForcedMode p q mode.column).rowForced a b = true := by
  obtain ⟨row, m, hg, hm⟩ := rowForced_iff.mp h
  rw [rowForced_iff, Db.get?_setForcedMode, hg]
  simp only [Option.map_some, Option.some.injEq, exists_and_left, exists_eq_left']
  split
  · rename_i hpair
    simp only [Prod.mk.injEq] at hpair
    cases mode with
    | auto => exact absurd hpair (hmode rfl)
    | force m' => exact ⟨m', rfl⟩
  · exact ⟨m, hm⟩

/-- The pair of a key made of any two strings. -/
theorem pair_of_key (ha : ColonFree a) (hb : ColonFree b) {p q : PeerId}
    (h : pairKey p q = pairKey a b) : (a = p ∧ b = q) ∨ (a = q ∧ b = p) := by
  obtain ⟨hp, hq⟩ := colonFree_of_pairKey_eq ha hb h
  exact pairKey_inj ha hb hp hq h.symm

theorem mem_linksBetween_of_rowForced {db : Db} (h : db.rowForced a b = true) :
    db.linksBetween a b ≠ [] ∧ db.linksBetween b a ≠ [] := by
  obtain ⟨row, m, hg, hm⟩ := rowForced_iff.mp h
  have h1 : row ∈ db.linksBetween a b := (Db.mem_linksBetween db).mpr (Or.inl hg)
  have h2 : row ∈ db.linksBetween b a := (Db.mem_linksBetween db).mpr (Or.inr hg)
  exact ⟨List.ne_nil_of_mem h1, List.ne_nil_of_mem h2⟩

/-- The row read for a pair both of whose rows are forced is forced. -/
theorem limitOne_forced {db : Db} (hab : db.rowForced a b = true) (hba : db.rowForced b a = true)
    {p q : PeerId} (hpair : (a = p ∧ b = q) ∨ (a = q ∧ b = p)) :
    ∃ row m, cfg.plan.limitOne p q (db.linksBetween p q) = some row ∧ row.forcedMode = some m := by
  have hne : db.linksBetween p q ≠ [] := by
    rcases hpair with ⟨rfl, rfl⟩ | ⟨rfl, rfl⟩
    · exact (mem_linksBetween_of_rowForced hab).1
    · exact (mem_linksBetween_of_rowForced hab).2
  obtain ⟨row, hrow⟩ := Option.isSome_iff_exists.mp (cfg.plan.limitOne_isSome p q _ hne)
  obtain ⟨row1, m1, hg1, hm1⟩ := rowForced_iff.mp hab
  obtain ⟨row2, m2, hg2, hm2⟩ := rowForced_iff.mp hba
  have hmem := (Db.mem_linksBetween db).mp (cfg.plan.limitOne_mem p q _ row hrow)
  rcases hpair with ⟨rfl, rfl⟩ | ⟨rfl, rfl⟩ <;> rcases hmem with hg | hg <;>
    simp_all

/-! ## Steps -/

theorem probeStarts_cons_ne {key : PairKey} {it : TraceItem} (h : it.starts key = false)
    (log : List TraceItem) : probeStarts key (it :: log) = probeStarts key log :=
  List.countP_cons_of_neg (by simp [h])

/-- A record step starts no probe of a pair whose force is kept, and keeps it. -/
theorem RecordStep.kept (step : RecordStep cfg e r r') (ha : ColonFree a) (hb : ColonFree b)
    (h : Kept a b r.health r.db) (hauto : e.isAutoOf (pairKey a b) = false)
    (hreap : ∀ now fails, e ≠ .reap now fails) (hapi : ∀ w, e ≠ .api w) :
    Kept a b r'.health r'.db ∧
      probeStarts (pairKey a b) r'.log = probeStarts (pairKey a b) r.log := by
  cases step with
  | created key hid free live =>
    refine ⟨h.set fun _ h0 hg => ?_, probeStarts_cons_ne rfl _⟩
    rw [free] at hg
    cases hg
  | entered p q now mode rxAlive h0 found event =>
    refine ⟨h.set fun _ h1 hg hf => ?_, probeStarts_cons_ne rfl _⟩
    cases found.symm.trans hg
    rwa [entryHealth_forcedMode]
  | synced p q h0 row m found read forced => exact ⟨h.set fun _ _ _ _ => by simp, rfl⟩
  | relayStarted p q h0 n now found cached read =>
    refine ⟨h, probeStarts_cons_ne ?_ _⟩
    simp only [TraceItem.starts, decide_eq_false_iff_not]
    intro hkey
    rcases h with ⟨hab, hba⟩ | ⟨-, h1, hg, hf⟩
    · obtain ⟨row, m, hread, hm⟩ := limitOne_forced hab hba (pair_of_key ha hb hkey)
      rw [read row hread] at hm
      cases hm
    · rw [← hkey, found, Option.some.injEq] at hg
      exact hf (hg ▸ cached)
  | directStarted p q h0 n now found row due =>
    refine ⟨h.set fun _ h1 hg hf => ?_, probeStarts_cons_ne ?_ _⟩
    · cases found.symm.trans hg
      exact hf
    · simp only [TraceItem.starts, decide_eq_false_iff_not]
      intro hkey
      obtain ⟨-, row1, row2, hg1, hg2, -, -, hf1, hf2⟩ := (Db.mem_relayPairs _).mp row
      rcases pair_of_key ha hb hkey with ⟨rfl, rfl⟩ | ⟨rfl, rfl⟩ <;> rcases h.row with hr | hr <;>
        simp_all [Db.rowForced]
  | answered key =>
    refine ⟨?_, probeStarts_cons_ne rfl _⟩
    simp only []
    split
    · rename_i h0 hg0
      refine h.set fun _ h1 hg hf => ?_
      cases hg0.symm.trans hg
      exact hf
    · exact h
  | backedOff key h0 h' found event back =>
    refine ⟨h.set fun _ h1 hg hf => ?_, rfl⟩
    cases found.symm.trans hg
    rcases back with rfl | rfl <;> exact hf
  | forced p q mode h0 found event =>
    refine ⟨?_, probeStarts_cons_ne rfl _⟩
    have hmode : mode = .auto → pairKey p q ≠ pairKey a b := by
      rintro rfl hkey
      simp [event, Event.isAutoOf, hkey] at hauto
    have hrows : ∀ {x y : PeerId}, pairKey x y = pairKey a b → r.db.rowForced x y = true →
        (r.db.setForcedMode p q mode.column).rowForced x y = true := by
      intro x y hxy
      refine rowForced_setForcedMode p q mode fun hm hpair => hmode hm ?_
      rw [← hxy]
      rcases hpair with ⟨rfl, rfl⟩ | ⟨rfl, rfl⟩
      · rfl
      · exact pairKey_comm _ _
    have hcached : Kept a b (r.health.set (pairKey p q) (forceHealth cfg h0 mode)) r.db := ?_
    · exact hcached.mono (hrows rfl) (hrows (pairKey_comm b a)) id
    refine h.set fun hkey h1 hg hf => ?_
    cases mode with
    | auto => exact absurd hkey (hmode rfl)
    | force m => simp [forceHealth]
  | reported p reports now =>
    exact ⟨h.mono (upsertReports_rowForced p reports now) (upsertReports_rowForced p reports now) id,
      rfl⟩
  | forgot p event =>
    obtain ⟨now, fails, rfl⟩ := event
    exact absurd rfl (hreap now fails)
  | deleted now event => exact absurd event (hreap now false)
  | wrote w event => exact absurd event (hapi w)

/-- A delete that leaves both peers of a row leaves the row. -/
theorem rowForced_deletePeersWhere {db : Db} {gone : PeerId → Bool}
    (ha : (db.deletePeersWhere gone).peers.has a = true)
    (hb : (db.deletePeersWhere gone).peers.has b = true) :
    (gone a = false ∧ gone b = false) ∧
      (db.deletePeersWhere gone).rowForced a b = db.rowForced a b := by
  have hstays : ∀ p, (db.deletePeersWhere gone).peers.has p = true → gone p = false := by
    intro p hp
    obtain ⟨row, hg⟩ := (OMap.has_iff _ _).mp hp
    simp only [Db.deletePeersWhere, OMap.get?_filter] at hg
    simpa using (Option.filter_eq_some_iff.mp hg).2
  refine ⟨⟨hstays a ha, hstays b hb⟩, ?_⟩
  unfold Db.rowForced
  rw [Db.get?_deletePeersWhere_links, if_pos ⟨hstays a ha, hstays b hb⟩]

theorem rowForced_apply {db : Db} (w : ApiWrite) (ha : (w.apply db).peers.has a = true)
    (hb : (w.apply db).peers.has b = true) : (w.apply db).rowForced a b = db.rowForced a b := by
  cases w with
  | createNetwork id row =>
    simp only [ApiWrite.apply, Db.insertNetwork]
    split <;> rfl
  | setRelayEnabled id enabled => rfl
  | deleteNetwork id => exact (rowForced_deletePeersWhere ha hb).2
  | registerPeer id row =>
    simp only [ApiWrite.apply, Db.insertPeer]
    split <;> rfl
  | updatePeer id pubkey publicIp ttlSeconds => rfl
  | touchLastSeen id now => rfl
  | deletePeer id => exact (rowForced_deletePeersWhere ha hb).2
  | putPorts id ports =>
    obtain ⟨peerPorts, he⟩ := db.putPorts_eq id ports
    rw [ApiWrite.apply, he]
    rfl

theorem foldl_deletePeer {l : List (PeerId × NetworkId)} {db : Db}
    (ha : (l.foldl (fun db x => db.deletePeer x.1) db).peers.has a = true)
    (hb : (l.foldl (fun db x => db.deletePeer x.1) db).peers.has b = true) :
    (∀ x ∈ l, x.1 ≠ a ∧ x.1 ≠ b) ∧ db.peers.has a = true ∧ db.peers.has b = true ∧
      (l.foldl (fun db x => db.deletePeer x.1) db).rowForced a b = db.rowForced a b := by
  induction l generalizing db with
  | nil => exact ⟨by simp, ha, hb, rfl⟩
  | cons x rest ih =>
    obtain ⟨hrest, ha', hb', hrow⟩ := ih ha hb
    obtain ⟨⟨hxa, hxb⟩, hrow'⟩ := rowForced_deletePeersWhere ha' hb'
    have hback : ∀ p, (db.deletePeer x.1).peers.has p = true → db.peers.has p = true := by
      intro p hp
      obtain ⟨row, hg⟩ := (OMap.has_iff _ _).mp hp
      simp only [Db.deletePeer, Db.deletePeersWhere, OMap.get?_filter] at hg
      exact (OMap.has_iff _ _).mpr ⟨row, (Option.filter_eq_some_iff.mp hg).1⟩
    refine ⟨?_, hback a ha', hback b hb', hrow.trans hrow'⟩
    intro y hy
    rcases List.mem_cons.mp hy with rfl | hy
    · simp only [decide_eq_false_iff_not] at hxa hxb
      exact ⟨fun e => hxa e.symm, fun e => hxb e.symm⟩
    · exact hrest y hy

end

section
variable {cfg : Config} {s : ServerState} {a b : PeerId}

/-- The reaper drops no record of a pair neither peer of which is expired. -/
theorem cached_foldl_forgetPeer (ha : ColonFree a) (hb : ColonFree b)
    {l : List (PeerId × NetworkId)} (hl : ∀ x ∈ l, x.1 ≠ a ∧ x.1 ≠ b)
    (h : Cached s.pairHealthMap (pairKey a b)) :
    Cached (l.foldl forgetPeer s).pairHealthMap (pairKey a b) := by
  refine foldl_invariant (I := fun t : ServerState => Cached t.pairHealthMap (pairKey a b)) _ _
    ?_ h
  intro t x hx ht
  rw [show (forgetPeer t x).pairHealthMap = _ from congrArg Records.health (forgetPeer_records x)]
  refine ht.of_filter fun v => ?_
  obtain ⟨hxa, hxb⟩ := hl x hx
  rcases parsePairKey_pairKey ha hb with hk | hk <;> rw [hk] <;> simp [hxa.symm, hxb.symm]

theorem not_expired {db : Db} {now : Int} {p : PeerId} (h : expired db now p = false) :
    ∀ x ∈ expiredPeers db now, x.1 ≠ p := by
  intro x hx he
  have := List.any_eq_false.mp h x hx
  simp [he] at this

/-- Where forced rows come in pairs, a kept force is in both. -/
theorem both_of_mirrored {db : Db} (h : db.rowForced a b = true ∨ db.rowForced b a = true)
    (hrows : db.rowForced a b = db.rowForced b a) :
    db.rowForced a b = true ∧ db.rowForced b a = true := by
  rcases h with h | h
  · exact ⟨h, hrows ▸ h⟩
  · exact ⟨hrows ▸ h, h⟩

theorem row_mem {db : Db} (h : db.rowForced a b = true) :
    ∃ row, ((a, b), row) ∈ db.peerLinks.entries := by
  obtain ⟨row, m, hg, -⟩ := rowForced_iff.mp h
  exact ⟨row, (OMap.mem_entries _ _ _).mpr hg⟩

/-- What is stored of all pairs is stored of one. -/
theorem ForceStored.pair {e : Event} (h : ForceStored s e) (a b : PeerId) :
    PairForceStored a b s e := by
  have hrow : ∀ x y, s.db.rowForced x y = true → ∃ row, ((x, y), row) ∈ s.db.peerLinks.entries :=
    fun _ _ hr => row_mem hr
  cases e with
  | forceMode p q mode =>
    cases mode with
    | auto => trivial
    | force m => exact fun _ => h
  | restart =>
    refine Bool.eq_iff_iff.mpr ⟨fun hr => ?_, fun hr => ?_⟩ <;> obtain ⟨row, hmem⟩ := hrow _ _ hr
    · exact h _ hmem hr
    · exact h _ hmem hr
  | reap now fails =>
    cases fails with
    | false => trivial
    | true =>
      intro hexp
      refine Bool.eq_iff_iff.mpr ⟨fun hr => ?_, fun hr => ?_⟩ <;> obtain ⟨row, hmem⟩ := hrow _ _ hr
      · exact h _ hmem hexp hr
      · exact h _ hmem hexp.symm hr
  | _ => trivial

theorem kept_reap (ha : ColonFree a) (hb : ColonFree b) (h : Kept a b s.pairHealthMap s.db)
    (now : Int) (fails : Bool) (hlasts : Lasts cfg a b s (.reap now fails))
    (hstored : PairForceStored a b s (.reap now fails)) :
    Kept a b (s.reap now fails).pairHealthMap (s.reap now fails).db := by
  obtain ⟨-, hina, hinb⟩ := hlasts
  have hrec := reap_records_eq (s := s) now fails
  simp only [step] at hina hinb
  rw [show (s.reap now fails).db = _ from congrArg Records.db hrec] at hina hinb ⊢
  rw [show (s.reap now fails).pairHealthMap = _ from congrArg Records.health hrec]
  cases fails with
  | false =>
    -- both peers survive the delete: they are not expired
    obtain ⟨hl, -, -, hab⟩ := foldl_deletePeer hina hinb
    obtain ⟨-, -, -, hba⟩ := foldl_deletePeer hinb hina
    exact h.mono (fun hr => hab.trans hr) (fun hr => hba.trans hr)
      (cached_foldl_forgetPeer ha hb hl)
  | true =>
    cases hexp : expired s.db now a || expired s.db now b with
    | false =>
      rw [Bool.or_eq_false_iff] at hexp
      exact h.mono id id (cached_foldl_forgetPeer ha hb fun x hx =>
        ⟨not_expired hexp.1 x hx, not_expired hexp.2 x hx⟩)
    | true =>
      rw [Bool.or_eq_true] at hexp
      exact Or.inl (both_of_mirrored h.row (hstored hexp))

/-- **One event**: a kept force stays kept, and no probe of the pair starts. -/
theorem kept_step (ha : ColonFree a) (hb : ColonFree b) (h : Kept a b s.pairHealthMap s.db)
    {e : Event} (hlasts : Lasts cfg a b s e) (hstored : PairForceStored a b s e) :
    Kept a b (step cfg s e).pairHealthMap (step cfg s e).db ∧
      probeStarts (pairKey a b) (step cfg s e).log = probeStarts (pairKey a b) s.log := by
  have hchain : e ≠ .restart → (∀ now fails, e ≠ .reap now fails) → (∀ w, e ≠ .api w) →
      Kept a b (step cfg s e).records.health (step cfg s e).records.db ∧
        probeStarts (pairKey a b) (step cfg s e).records.log = probeStarts (pairKey a b) s.log := by
    intro hrestart hreap hapi
    have hsteps : ReflTransGen (RecordStep cfg e) s.records (step cfg s e).records :=
      recordSteps_of_step hrestart
    generalize (step cfg s e).records = r' at hsteps ⊢
    induction hsteps with
    | refl => exact ⟨h, rfl⟩
    | tail _ hlast ih =>
      obtain ⟨hkept, hstarts⟩ := hlast.kept ha hb ih.1 hlasts.1 hreap hapi
      exact ⟨hkept, hstarts.trans ih.2⟩
  cases e with
  | reap now fails =>
    refine ⟨kept_reap ha hb h now fails hlasts hstored, ?_⟩
    exact congrArg (fun r : Records => probeStarts (pairKey a b) r.log) (reap_records_eq now fails)
  | api w =>
    refine ⟨h.mono (fun hr => ?_) (fun hr => ?_) id, rfl⟩
    · exact (rowForced_apply w hlasts.2.1 hlasts.2.2).trans hr
    · exact (rowForced_apply w hlasts.2.2 hlasts.2.1).trans hr
  | restart => exact ⟨Or.inl (both_of_mirrored h.row hstored), rfl⟩
  | _ => exact hchain (by simp) (by simp) (by simp)

/-! ## Runs -/

/-- The command itself puts the force in a row and in the cache. -/
theorem kept_command (cfg : Config) (s : ServerState) {m : ForcedMode}
    (haccepted : s.db.sameNetwork a b = true)
    (hrow : s.db.peerLinks.has (a, b) = true ∨ s.db.peerLinks.has (b, a) = true) :
    Kept a b (step cfg s (.forceMode a b (.force m))).pairHealthMap
      (step cfg s (.forceMode a b (.force m))).db := by
  have hdb : (getOrCreateHealth cfg (s.abortForForce (pairKey a b)) (pairKey a b)).2.db = s.db := by
    have habort := congrArg Records.db (records_abortForForce s (pairKey a b))
    unfold getOrCreateHealth
    split <;> exact habort
  have hrec := handleForceMode_records_eq (s := s) cfg a b (.force m)
  simp only [hdb] at hrec
  rw [step, postForceMode_eq, if_pos haccepted,
    show (s.handleForceMode cfg a b (.force m)).pairHealthMap = _ from congrArg Records.health hrec,
    show (s.handleForceMode cfg a b (.force m)).db = _ from congrArg Records.db hrec]
  refine Or.inr ⟨?_, _, OMap.get?_set_self .., by simp [forceHealth]⟩
  have hset : ∀ x y : PeerId, (x = a ∧ y = b) ∨ (x = b ∧ y = a) →
      s.db.peerLinks.has (x, y) = true → (s.db.setForcedMode a b (some m)).rowForced x y = true := by
    intro x y hxy hhas
    obtain ⟨row, hg⟩ := (OMap.has_iff _ _).mp hhas
    rw [rowForced_iff]
    refine ⟨{ row with forcedMode := some m }, m, ?_, rfl⟩
    rw [Db.get?_setForcedMode, hg]
    simp [Prod.mk.injEq, hxy]
  exact hrow.imp (hset a b (Or.inl ⟨rfl, rfl⟩)) (hset b a (Or.inr ⟨rfl, rfl⟩))

/-- A stretch of steps in which the force is in effect. -/
theorem kept_run (ha : ColonFree a) (hb : ColonFree b) {es : List Event}
    (h : Kept a b s.pairHealthMap s.db) (hlasts : Along (step cfg) (Lasts cfg a b) s es)
    (hstored : Along (step cfg) ForceStored s es) :
    probeStarts (pairKey a b) (run (step cfg) s es).log = probeStarts (pairKey a b) s.log := by
  induction es generalizing s with
  | nil => rfl
  | cons e rest ih =>
    obtain ⟨hkept, hstarts⟩ := kept_step ha hb h hlasts.1 (hstored.1.pair a b)
    exact (ih hkept hlasts.2 hstored.2).trans hstarts

end

/-! ## Top theorem -/

/-- **A force that is stored holds**, whatever happens between the command and its end. -/
theorem force_holds_when_stored (cfg : Config) (db : Db) (es : List Event) (hids : IdsOk es)
    (hstored : Along (step cfg) ForceStored (ServerState.init db) es) : ForceHolds cfg db es := by
  intro pre a b m mid post he haccepted hlasts
  subst he
  obtain ⟨ha, hb⟩ : ColonFree a ∧ ColonFree b := hids (.forceMode a b (.force m)) (by simp)
  obtain ⟨-, hcommand, hrest⟩ := (along_append (step cfg) ForceStored _ pre _).mp hstored
  have hmid := ((along_append (step cfg) ForceStored _ mid post).mp hrest).1
  have hkept := kept_command (m := m) cfg (exec cfg db pre) haccepted (hcommand haccepted)
  rw [exec_concat] at hlasts ⊢
  have hrun := kept_run ha hb hkept hlasts hmid
  rwa [show exec cfg db (pre ++ .forceMode a b (.force m) :: mid) =
    run (step cfg) (step cfg (exec cfg db pre) (.forceMode a b (.force m))) mid from
      run_append (step cfg) _ pre _]

/-- Both peers report, the pair is forced to relay and the server restarts. -/
def forcedRestartRun : List Event :=
  [.open wsOne, .open wsTwo] ++ bothReport 1000 .relay true ++
    [.forceMode peerOne peerTwo (.force .forceRelay), .restart, .open wsOne, .open wsTwo] ++
    bothReport 2000 .relay true ++ [.sweep 60000]

theorem force_holds_when_stored_forcedRestartRun : ForceHolds {} twoPeers forcedRestartRun :=
  force_holds_when_stored {} twoPeers forcedRestartRun (by decide) (by decide)

/-- The pair is forced to relay before its first reports. -/
def forcedEarlyRun : List Event :=
  [.open wsOne, .open wsTwo, .forceMode peerOne peerTwo (.force .forceRelay)] ++
    bothReport 1000 .relay true ++ [.sweep 60000]

/-- The rows that the reports insert carry no force: the sweep starts a direct probe. -/
theorem force_forgotten : IdsOk forcedEarlyRun ∧ ¬ ForceHolds {} twoPeers forcedEarlyRun := by
  refine ⟨by decide, fun h => ?_⟩
  have hstarts := h [.open wsOne, .open wsTwo] peerOne peerTwo .forceRelay
    (bothReport 1000 .relay true ++ [.sweep 60000]) [] rfl (by decide) (by decide)
  exact absurd hstarts (by decide)

end Meshezia
