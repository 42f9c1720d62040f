import Meshezia.Api.Config
import Meshezia.Api.Writes

/-!
# Health reports over the tables

Besides the endpoints, the health reports of agents write to the tables: the rows of
`peer_links`, for the peer that a web socket was opened for.  `serving` runs the API
together with these sockets (`index.ts`, `relay.ts`); what a report writes is what it writes
to the database of the negotiator:

    (t.upsertReports p reports now).toDb = ServerState.upsertReports t.toDb p reports now
                                                                  (toDb_upsertReports)

`handleHealthReport` does not look at the networks of the two peers.  When the reports of a
run name peers of the network of their sender only, so do all links (`linksInside_serving`).
-/

namespace Meshezia.Api

open ServerState (linkRowOf)

/-! ## The transaction of a report -/

/-- The transaction of `handleHealthReport`: all entries or, when one fails, none. -/
def Tables.upsertReports (t : Tables) (fromPeerId : PeerId) (reports : List HealthReport)
    (now : Int) : Tables :=
  match reports.foldlM (fun (t : Tables) r => t.upsertLink fromPeerId r.peerId (linkRowOf r now))
    t with
  | .ok t => t
  | .error _ => t

theorem upsertReports_rule {I : Tables → Prop} {p : PeerId} {now : Int}
    (reports : List HealthReport)
    (hupsert : ∀ t t', ∀ r ∈ reports, I t →
      t.upsertLink p r.peerId (linkRowOf r now) = .ok t' → I t')
    {t : Tables} (h : I t) : I (t.upsertReports p reports now) := by
  unfold Tables.upsertReports
  split
  · rename_i he
    exact foldlM_invariant reports hupsert h he
  · exact h

theorem toDb_upsertLink (t : Tables) (p q : PeerId) (row : LinkRow) :
    t.toDb.upsertLink p q row = (t.upsertLink p q row).toOption.map fun t => t.toDb := by
  unfold Tables.upsertLink Db.upsertLink
  rw [has_toDb_peers, has_toDb_peers]
  by_cases h : t.peers.has p = true ∧ t.peers.has q = true
  · rw [dif_pos h, h.1, h.2]
    rfl
  · rw [dif_neg h, if_neg (by simpa using h)]
    rfl

/-- A report writes to the tables what it writes to the database of the negotiator. -/
theorem toDb_upsertReports (t : Tables) (p : PeerId) (reports : List HealthReport) (now : Int) :
    (t.upsertReports p reports now).toDb = ServerState.upsertReports t.toDb p reports now := by
  have hloop : ∀ (l : List HealthReport) (t : Tables),
      l.foldlM (fun (db : Db) r => db.upsertLink p r.peerId (linkRowOf r now)) t.toDb =
        ((l.foldlM (fun (t : Tables) r => t.upsertLink p r.peerId (linkRowOf r now)) t).toOption.map
          fun t => t.toDb) := by
    intro l
    induction l with
    | nil =>
      intro t
      rfl
    | cons r rest ih =>
      intro t
      rw [List.foldlM_cons, List.foldlM_cons, toDb_upsertLink]
      cases t.upsertLink p r.peerId (linkRowOf r now) with
      | error e => rfl
      | ok t1 => exact ih t1
  unfold Tables.upsertReports ServerState.upsertReports
  rw [hloop]
  split
  · rename_i he
    rw [he]
    rfl
  · rename_i he
    rw [he]
    rfl

/-! ## The API with its sockets -/

/-- The check of an upgrade to a web socket (`index.ts`): the admin token, or the token of the
network of the peer. -/
def upgradeAllowed (env : Env) (t : Tables) (token : JsString) (peerId : PeerId) : Bool :=
  !token.isEmpty && !peerId.isEmpty &&
    (token == env.adminToken ||
      t.networks.entries.any fun e => e.2.token == token && t.inNetwork e.1 peerId)

structure ServingState extends ApiState where
  /-- The peers of the open sockets. -/
  sockets : List PeerId

inductive ServingEvent where
  | api (event : Event)
  | upgrade (token : JsString) (peerId : PeerId)
  | report (peerId : PeerId) (reports : List HealthReport) (now : Int)
  | close (peerId : PeerId)

def servingStep (env : Env) (s : ServingState) : ServingEvent → ServingState
  | .api event => { s with toApiState := step env s.toApiState event }
  | .upgrade token peerId =>
    if upgradeAllowed env s.tables token peerId then { s with sockets := s.sockets ++ [peerId] }
    else s
  | .report peerId reports now =>
    if s.sockets.contains peerId then
      { s with tables := s.tables.upsertReports peerId reports now }
    else s
  | .close peerId => { s with sockets := s.sockets.erase peerId }

def ServingState.start : ServingState := ⟨⟨.empty, []⟩, []⟩

/-- The state after the events `es`, from an empty database. -/
def serving (env : Env) (es : List ServingEvent) : ServingState := run (servingStep env) .start es

/-! ## Links inside the networks -/

/-- Not two peers of different networks. -/
def SameNetwork (t : Tables) (p q : PeerId) : Prop :=
  ∀ row row', t.peers.get? p = some row → t.peers.get? q = some row' →
    row'.networkId = row.networkId

/-- No link leads out of the network of its peer. -/
def LinksInside (t : Tables) : Prop := ∀ k, t.peerLinks.has k = true → SameNetwork t k.1 k.2

/-- The reports name peers of the network of their sender. -/
def ReportsInside (s : ServingState) : ServingEvent → Prop
  | .report peerId reports _ => ∀ r ∈ reports, SameNetwork s.tables peerId r.peerId
  | _ => True

/-- Statements that add no link and move no peer keep the links inside. -/
theorem LinksInside.mono {t t' : Tables} (ht : LinksInside t)
    (hlinks : ∀ k, t'.peerLinks.has k = true → t.peerLinks.has k = true)
    (hpeers : ∀ p row', t.peers.has p = true → t'.peers.get? p = some row' →
      ∃ row, t.peers.get? p = some row ∧ row'.networkId = row.networkId) : LinksInside t' := by
  intro k hk row' row2' h1 h2
  have hold := hlinks k hk
  obtain ⟨hp, hq⟩ := t.schema.linkPeers hold
  obtain ⟨row, hrow, hnet⟩ := hpeers _ _ hp h1
  obtain ⟨row2, hrow2, hnet2⟩ := hpeers _ _ hq h2
  rw [hnet, hnet2]
  exact ht k hold row row2 hrow hrow2

theorem update_links {t t' : Tables} (h : Update t t') {k : PeerId × PeerId}
    (hk : t'.peerLinks.has k = true) : t.peerLinks.has k = true := by
  have hfilter : ∀ gone : PeerId → Bool,
      (t.peerLinks.filter fun k _ => !gone k.1 && !gone k.2).has k = true →
      t.peerLinks.has k = true := by
    intro gone hk
    rw [OMap.has_filter _ fun k : PeerId × PeerId => !gone k.1 && !gone k.2,
      Bool.and_eq_true] at hk
    exact hk.1
  cases h with
  | renameNetwork hok =>
    rw [Tables.renameNetwork_ok hok] at hk
    exact hk
  | setRelayEnabled id enabled => exact hk
  | deleteNetwork id => exact hfilter _ hk
  | updatePeer id hchecked => exact hk
  | deletePeers gone => exact hfilter _ hk
  | upsertPort hlow hhigh hok =>
    rw [(Tables.upsertPort_ok hok).2] at hk
    exact hk
  | setForcedMode peerA peerB mode =>
    have hk : (t.peerLinks.mapVals _).has k = true := hk
    rwa [OMap.has_mapVals] at hk

theorem linksInside_update {t t' : Tables} (ht : LinksInside t) (h : Update t t') :
    LinksInside t' := by
  refine ht.mono (fun k hk => update_links h hk) fun p row' _ hrow' => ?_
  obtain ⟨row, hrow, hnet, -⟩ := updates_address (.single h) hrow'
  exact ⟨row, hrow, hnet⟩

theorem linksInside_step {env : Env} {s : ApiState} (hs : LinksInside s.tables) (e : Event) :
    LinksInside (step env s e).tables := by
  rcases step_writes env s e with h | h | ⟨request, draws, -, h⟩
  · exact updates_keep (fun _ _ => linksInside_update) hs h
  · obtain ⟨id, row, hfree, -, -, -, -, he⟩ := registered_peers h
    refine hs.mono (fun k hk => by rw [he] at hk; exact hk) fun p row' hp hrow' => ?_
    -- a link has no end at the new peer
    have hne : id ≠ p := by
      rintro rfl
      rw [OMap.has_eq_false_iff _ _ |>.mpr hfree] at hp
      cases hp
    rw [he] at hrow'
    have hrow' : (s.tables.peers.set id row).get? p = some row' := hrow'
    rw [OMap.get?_set_ne _ _ hne] at hrow'
    exact ⟨row', hrow', rfl⟩
  · obtain ⟨_, _, _, -, -, -, he⟩ := created_toRows h
    refine hs.mono (fun k hk => by rw [he] at hk; exact hk) fun p row' _ hrow' => ?_
    rw [he] at hrow'
    exact ⟨row', hrow', rfl⟩

theorem linksInside_upsertReports {t : Tables} (ht : LinksInside t) {p : PeerId}
    {reports : List HealthReport} (now : Int)
    (hreports : ∀ r ∈ reports, SameNetwork t p r.peerId) :
    LinksInside (t.upsertReports p reports now) := by
  refine (upsertReports_rule (I := fun t' => LinksInside t' ∧ t'.peers = t.peers) reports ?_
    ⟨ht, rfl⟩).1
  rintro t1 t2 r hr ⟨hinside, hpeers⟩ hok
  obtain ⟨new, hrows⟩ := Tables.upsertLink_ok hok
  refine ⟨?_, by rw [hrows]; exact hpeers⟩
  intro k hk row row' hrow hrow'
  rw [hrows] at hk hrow hrow'
  have hlinks : k = (p, r.peerId) ∨ t1.peerLinks.has k = true := by
    rw [OMap.has_set, Bool.or_eq_true, decide_eq_true_eq] at hk
    exact hk.imp Eq.symm id
  rcases hlinks with rfl | hk
  · rw [hpeers] at hrow hrow'
    exact hreports r hr row row' hrow hrow'
  · exact hinside k hk row row' hrow hrow'

/-- **Links.**  When all reports of a run name peers of the network of their sender, no link
leads out of a network. -/
theorem linksInside_serving {env : Env} {es : List ServingEvent}
    (h : Along (servingStep env) ReportsInside .start es) :
    LinksInside (serving env es).tables := by
  refine run_invariant_along (servingStep env) (I := fun s => LinksInside s.tables) ?_ ?_ h
  · intro s e hs hinside
    cases e with
    | api event => exact linksInside_step hs event
    | upgrade token peerId =>
      simp only [servingStep]
      split <;> exact hs
    | report peerId reports now =>
      simp only [servingStep]
      split
      · exact linksInside_upsertReports hs now hinside
      · exact hs
    | close peerId => exact hs
  · intro k hk
    cases hk

end Meshezia.Api
