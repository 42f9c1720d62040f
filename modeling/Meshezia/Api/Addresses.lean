import Meshezia.Api.Step

/-!
# Mesh addresses

No constraint of the schema says that two peers of a network have different addresses.
They have because `allocateIp` takes a text that no peer of the network has, and no other
statement writes the column:

    UniqueIps (exec env es).tables, and a step keeps the address of every peer that
    stays                                                       (mesh_addresses_unique)

for every run of requests, interleaved as the event loop allows, and of the reaper.
-/

namespace Meshezia.Api

/-- Two peers of a network have different addresses. -/
def UniqueIps (t : Tables) : Prop :=
  ∀ id id' row row', t.peers.get? id = some row → t.peers.get? id' = some row' → id ≠ id' →
    row.networkId = row'.networkId → row.ipv4 ≠ row'.ipv4

/-! ## The rows of `peers` under one step -/

/-- A statement other than `INSERT INTO peers` deletes rows or writes checked columns. -/
theorem update_peers {t t' : Tables} (h : Update t t') {id : PeerId}
    {row' : PeerRecord} (hrow' : t'.peers.get? id = some row') :
    ∃ row, t.peers.get? id = some row ∧
      (row' = row ∨ ∃ a : Assignment, a.Checked ∧ row' = a.apply row) := by
  cases h with
  | renameNetwork hok =>
    rw [Tables.renameNetwork_ok hok] at hrow'
    exact ⟨row', hrow', Or.inl rfl⟩
  | setRelayEnabled net enabled => exact ⟨row', hrow', Or.inl rfl⟩
  | deleteNetwork net => exact ⟨row', (OMap.get?_filter_eq_some.mp hrow').1, Or.inl rfl⟩
  | updatePeer p hchecked =>
    rename_i a
    have hrow' : (t.peers.mapVals fun k row => if k = p then a.apply row else row).get? id =
        some row' := hrow'
    rw [OMap.get?_mapVals, Option.map_eq_some_iff] at hrow'
    obtain ⟨row, hrow, rfl⟩ := hrow'
    refine ⟨row, hrow, ?_⟩
    split
    · exact Or.inr ⟨a, hchecked, rfl⟩
    · exact Or.inl rfl
  | deletePeers gone => exact ⟨row', (OMap.get?_filter_eq_some.mp hrow').1, Or.inl rfl⟩
  | upsertPort hlow hhigh hok =>
    rw [(Tables.upsertPort_ok hok).2] at hrow'
    exact ⟨row', hrow', Or.inl rfl⟩
  | setForcedMode peerA peerB mode => exact ⟨row', hrow', Or.inl rfl⟩

/-- The rows that are there after an update were there before, at the same address. -/
theorem updates_address {t t' : Tables} (h : Updates t t') {id : PeerId} {row' : PeerRecord}
    (hrow' : t'.peers.get? id = some row') :
    ∃ row, t.peers.get? id = some row ∧ row'.networkId = row.networkId ∧
      row'.ipv4 = row.ipv4 := by
  induction h generalizing row' with
  | refl => exact ⟨row', hrow', rfl, rfl⟩
  | tail _ hlast ih =>
    obtain ⟨mid, hmid, hsame⟩ := update_peers hlast hrow'
    obtain ⟨row, hrow, hnet, hip⟩ := ih hmid
    rcases hsame with rfl | ⟨a, -, rfl⟩
    · exact ⟨row, hrow, hnet, hip⟩
    · exact ⟨row, hrow, by rw [Assignment.apply_networkId, hnet],
        by rw [Assignment.apply_ipv4, hip]⟩

/-- A registration adds one row, whose address is free and canonical. -/
theorem registered_peers {lang : Coercions} {t t' : Tables} (h : Registered lang t t') :
    ∃ id row, t.peers.get? id = none ∧ row.ipv4 ∉ t.usedIps row.networkId ∧
      CanonicalIPv4 row.ipv4 ∧ AddressOrEmpty row.publicIp ∧ KeyOrEmpty row.pubkey ∧
      t'.toRows = { t.toRows with peers := t.peers.set id row } := by
  obtain ⟨hip, haddress, hkey, hok⟩ := h
  rename_i id row subnet
  obtain ⟨hfree, hcanonical⟩ := allocateIp_spec hip
  obtain ⟨hnew, -, hrows⟩ := Tables.insertPeer_ok hok
  exact ⟨id, row, (OMap.has_eq_false_iff _ _).mp hnew, hfree, hcanonical, haddress, hkey, hrows⟩

theorem created_peers {env : Env} {draws : Draws} {t t' : Tables} {request : Request}
    (h : Created env draws t t' request) : t'.peers = t.peers := by
  obtain ⟨-, hok, -⟩ := h
  rw [(Tables.insertNetwork_ok hok).2]

/-! ## Uniqueness -/

theorem uniqueIps_update {t t' : Tables} (ht : UniqueIps t) (h : Update t t') :
    UniqueIps t' := by
  intro id id' row row' hrow hrow' hne hnet
  obtain ⟨old, hold, hnet1, hip1⟩ := updates_address (.single h) hrow
  obtain ⟨old', hold', hnet2, hip2⟩ := updates_address (.single h) hrow'
  rw [hip1, hip2]
  exact ht id id' old old' hold hold' hne (by rw [← hnet1, ← hnet2, hnet])

theorem uniqueIps_registered {lang : Coercions} {t t' : Tables} (ht : UniqueIps t)
    (h : Registered lang t t') : UniqueIps t' := by
  obtain ⟨new, row, -, hfree, -, -, -, he⟩ := registered_peers h
  -- the address of the new peer is that of no old peer of its network
  have hother : ∀ {p old}, t.peers.get? p = some old → old.networkId = row.networkId →
      old.ipv4 ≠ row.ipv4 := by
    intro p old hold hnet hip
    exact hfree (Tables.mem_usedIps.mpr ⟨p, old, hold, hnet, hip⟩)
  intro id id' row1 row2 h1 h2 hne hnet
  rw [he] at h1 h2
  rcases OMap.get?_set_cases h1 with ⟨rfl, rfl⟩ | ⟨-, old1⟩ <;>
    rcases OMap.get?_set_cases h2 with ⟨rfl, rfl⟩ | ⟨-, old2⟩
  · exact absurd rfl hne
  · exact (hother old2 hnet.symm).symm
  · exact hother old1 hnet
  · exact ht id id' row1 row2 old1 old2 hne hnet

/-- A step keeps the address of every peer that is there before and after it. -/
theorem step_address (env : Env) (s : ApiState) (e : Event) {id : PeerId} {row row' : PeerRecord}
    (hrow : s.tables.peers.get? id = some row)
    (hrow' : (step env s e).tables.peers.get? id = some row') : row'.ipv4 = row.ipv4 := by
  rcases step_writes env s e with hupdates | hregistered | ⟨request, draws, -, hcreated⟩
  · obtain ⟨old, hold, -, hip⟩ := updates_address hupdates hrow'
    rw [hrow] at hold
    cases hold
    exact hip
  · obtain ⟨new, added, habsent, -, -, -, -, he⟩ := registered_peers hregistered
    rw [he] at hrow'
    have hrow' : (s.tables.peers.set new added).get? id = some row' := hrow'
    have hne : new ≠ id := by
      rintro rfl
      rw [habsent] at hrow
      cases hrow
    rw [OMap.get?_set_ne _ _ hne, hrow] at hrow'
    cases hrow'
    rfl
  · rw [created_peers hcreated, hrow] at hrow'
    cases hrow'
    rfl

/-- **Mesh addresses.**  In every run two peers of a network have different addresses, and
no step changes the address of a peer. -/
theorem mesh_addresses_unique (env : Env) (es : List Event) :
    UniqueIps (exec env es).tables ∧
      ∀ e id row row', (exec env es).tables.peers.get? id = some row →
        (exec env (es ++ [e])).tables.peers.get? id = some row' → row'.ipv4 = row.ipv4 := by
  constructor
  · refine exec_invariant ?_ (fun _ _ => uniqueIps_update) (fun _ _ => uniqueIps_registered)
      ?_ es
    · intro id id' row row' h
      cases h
    · intro t t' draws request ht h
      unfold UniqueIps
      rw [created_peers h]
      exact ht
  · intro e id row row' hrow hrow'
    rw [exec_concat] at hrow'
    exact step_address env (exec env es) e hrow hrow'

end Meshezia.Api
