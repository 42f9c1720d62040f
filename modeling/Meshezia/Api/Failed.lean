import Meshezia.Lib.Run
import Meshezia.Api.Handlers

/-!
# Failed requests

Every endpoint checks before it writes, or writes in one transaction, and then a failed
request leaves the tables as they were.  The one exception is `PATCH /api/peers/:id`: it
writes each field as soon as that field has passed, so a field that does not pass leaves
the earlier ones written.  This happens exactly when one of them changes the row
(`HalfApplied`):

    (400 ≤ status → tables after = tables before) ↔ ¬ HalfApplied env t request
                                                          (failed_request_unchanged)
-/

namespace Meshezia.Api

/-- A request that fails leaves the tables as they are. -/
def Unchanged (t : Tables) (out : Tables × Response) : Prop := 400 ≤ out.2.status → out.1 = t

theorem unchanged_self (t : Tables) (response : Response) : Unchanged t (t, response) :=
  fun _ => rfl

theorem unchanged_of_status {t : Tables} {out : Tables × Response} (h : out.2.status < 400) :
    Unchanged t out := by
  intro hfail
  omega

/-! ## The endpoints that check first -/

section
variable (env : Env) (t : Tables) (draws : Draws) (authorization : Option JsString)

theorem unchanged_postNetworks (body : Option Json) :
    Unchanged t (postNetworks env t authorization body draws) := by
  unfold postNetworks
  split
  · exact unchanged_self t _
  · split
    · exact unchanged_self t _
    · exact unchanged_self t _
    · split
      · exact unchanged_self t _
      · split
        · exact unchanged_self t _
        · dsimp only
          split
          · exact unchanged_self t _
          · exact unchanged_self t _
          · exact unchanged_of_status (by decide : 201 < 400)

theorem unchanged_deleteNetwork (id : NetworkId) :
    Unchanged t (deleteNetwork env t authorization id) := by
  unfold deleteNetwork
  split
  · exact unchanged_self t _
  · exact unchanged_of_status (by decide : 200 < 400)

/-- A network that is not there stays away, and then nothing is written. -/
theorem unchanged_answerNetwork {t' : Tables} {id : NetworkId} {body : Json}
    (hsome : (t'.networks.get? id).isSome = (t.networks.get? id).isSome)
    (habsent : t.networks.get? id = none → t' = t) :
    Unchanged t (answerNetwork (patchRelayEnabled t' id body) id) := by
  cases hid : t.networks.get? id with
  | none =>
    have ht : t' = t := habsent hid
    subst ht
    have hpatch : patchRelayEnabled t' id body = t' := by
      unfold patchRelayEnabled
      split
      · rfl
      · exact Tables.setRelayEnabled_of_absent hid _
    rw [hpatch]
    unfold answerNetwork
    rw [hid]
    exact unchanged_self t' _
  | some row =>
    obtain ⟨row', hrow'⟩ : ∃ row', (patchRelayEnabled t' id body).networks.get? id = some row' := by
      apply Option.isSome_iff_exists.mp
      rw [hid] at hsome
      unfold patchRelayEnabled
      split
      · exact hsome
      · show ((t'.networks.mapVals _).get? id).isSome = true
        simpa using hsome
    unfold answerNetwork
    rw [hrow']
    exact unchanged_of_status (by decide : 200 < 400)

theorem unchanged_patchNetwork (id : NetworkId) (body : Option Json) :
    Unchanged t (patchNetwork env t authorization id body) := by
  unfold patchNetwork
  split
  · exact unchanged_self t _
  · split
    · exact unchanged_self t _
    · exact unchanged_self t _
    · split
      · exact unchanged_answerNetwork t rfl fun _ => rfl
      · split
        · exact unchanged_self t _
        · dsimp only
          split
          · exact unchanged_self t _
          · split
            · exact unchanged_self t _
            · rename_i t' hrename
              exact unchanged_answerNetwork t (Tables.renameNetwork_isSome hrename id)
                fun hid => Tables.renameNetwork_of_absent hid hrename

theorem unchanged_postPeers (body : Option Json) :
    Unchanged t (postPeers env t authorization body draws) := by
  unfold postPeers
  split
  · exact unchanged_self t _
  · exact unchanged_self t _
  · split
    · exact unchanged_self t _
    · split
      · exact unchanged_self t _
      · split
        · exact unchanged_self t _
        · split
          · exact unchanged_self t _
          · split
            · exact unchanged_self t _
            · dsimp only
              split
              · exact unchanged_self t _
              · exact unchanged_self t _
              · exact unchanged_of_status (by decide : 201 < 400)

theorem unchanged_deletePeer (id : PeerId) : Unchanged t (deletePeer env t authorization id) := by
  unfold deletePeer
  split
  · exact unchanged_self t _
  · split
    · exact unchanged_self t _
    · exact unchanged_of_status (by decide : 200 < 400)

/-- The transaction: a refused entry takes the earlier ones back. -/
theorem unchanged_putPortsBody (peerId : PeerId) (body : Option Json) :
    Unchanged t (putPortsBody t peerId body) := by
  unfold putPortsBody
  split
  · exact unchanged_self t _
  · split
    · exact unchanged_self t _
    · split
      · exact unchanged_self t _
      · exact unchanged_of_status (by decide : 200 < 400)

theorem unchanged_putPorts (peerId : PeerId) (body : Option Json) :
    Unchanged t (putPorts env t authorization peerId body) := by
  unfold putPorts
  split
  · exact unchanged_self t _
  · exact unchanged_putPortsBody t peerId body

/-- The network of a peer exists, so the configuration is built whenever `last_seen` is
written. -/
theorem unchanged_getConfig (peerId : PeerId) :
    Unchanged t (getConfig env t authorization peerId draws) := by
  unfold getConfig
  split
  · exact unchanged_self t _
  · rename_i peer hpeer
    split
    · exact unchanged_self t _
    · obtain ⟨network, hnetwork⟩ := (OMap.has_iff _ _).mp (t.schema.peerNetwork hpeer)
      have hkept : (t.updatePeer peerId (.lastSeen draws.now)).networks.get? peer.networkId =
          some network := hnetwork
      dsimp only
      rw [hkept]
      exact unchanged_of_status (by decide : 200 < 400)

theorem unchanged_postForceMode (body : Option Json) :
    Unchanged t (postForceMode env t authorization body) := by
  unfold postForceMode
  split
  · exact unchanged_self t _
  · split
    · exact unchanged_self t _
    · exact unchanged_self t _
    · split
      · split
        · exact unchanged_self t _
        · split
          · split
            · exact unchanged_of_status (by decide : 200 < 400)
            · exact unchanged_self t _
          · exact unchanged_self t _
      · exact unchanged_self t _

end

/-! ## Assignments to different columns -/

/-- The column an assignment writes. -/
def Assignment.column : Assignment → String
  | .publicIp _ => "public_ip"
  | .pubkey _ => "pubkey"
  | .lastSeen _ => "last_seen"
  | .ttlSeconds _ => "ttl_seconds"
  | .memo _ => "memo"
  | .agentVersion _ => "agent_version"

theorem Assignment.apply_comm {a b : Assignment} (h : a.column ≠ b.column) (row : PeerRecord) :
    a.apply (b.apply row) = b.apply (a.apply row) := by
  cases a <;> cases b <;> first | rfl | exact absurd rfl h

theorem Assignment.apply_apply (a : Assignment) (row : PeerRecord) :
    a.apply (a.apply row) = a.apply row := by
  cases a <;> rfl

/-- `a` has been written: writing it again changes nothing. -/
theorem apply_foldl_of_apply {a : Assignment} {as : List Assignment}
    (hcol : ∀ b ∈ as, a.column ≠ b.column) {row : PeerRecord} (h : a.apply row = row) :
    a.apply (as.foldl Assignment.apply row) = as.foldl Assignment.apply row := by
  induction as generalizing row with
  | nil => exact h
  | cons b rest ih =>
    have hb : a.apply (b.apply row) = b.apply row := by
      rw [Assignment.apply_comm (hcol b (by simp)), h]
    exact ih (fun c hc => hcol c (by simp [hc])) hb

theorem apply_foldl_of_mem {a : Assignment} {as : List Assignment}
    (hcol : as.Pairwise fun a b => a.column ≠ b.column) (ha : a ∈ as) (row : PeerRecord) :
    a.apply (as.foldl Assignment.apply row) = as.foldl Assignment.apply row := by
  induction as generalizing row with
  | nil => cases ha
  | cons b rest ih =>
    rw [List.pairwise_cons] at hcol
    rcases List.mem_cons.mp ha with rfl | ha
    · exact apply_foldl_of_apply hcol.1 (a.apply_apply row)
    · exact ih hcol.2 ha (b.apply row)

/-- Updates of different columns leave the tables as they are exactly when each of them
writes what the row already holds. -/
theorem updates_eq_self_iff {id : PeerId} {as : List Assignment}
    (hcol : as.Pairwise fun a b => a.column ≠ b.column) {t : Tables} {row : PeerRecord}
    (hrow : t.peers.get? id = some row) :
    as.foldl (fun t a => t.updatePeer id a) t = t ↔ ∀ a ∈ as, a.apply row = row := by
  constructor
  · intro h a ha
    have hfinal : ∀ (as : List Assignment) (t : Tables) (row : PeerRecord),
        t.peers.get? id = some row →
        (as.foldl (fun t a => t.updatePeer id a) t).peers.get? id =
          some (as.foldl Assignment.apply row) := by
      intro as
      induction as with
      | nil => exact fun _ _ h => h
      | cons b rest ih =>
        intro t row hrow
        apply ih
        show (t.peers.mapVals _).get? id = _
        simp [hrow]
    have hsame := hfinal as t row hrow
    rw [h, hrow] at hsame
    have hmem := apply_foldl_of_mem hcol ha row
    rwa [← Option.some.inj hsame] at hmem
  · intro h
    have hloop : ∀ as : List Assignment, (∀ a ∈ as, a.apply row = row) →
        as.foldl (fun t a => t.updatePeer id a) t = t := by
      intro as
      induction as with
      | nil => exact fun _ => rfl
      | cons b rest ih =>
        intro hall
        rw [List.foldl_cons, (Tables.updatePeer_eq_self hrow).mpr (hall b (by simp))]
        exact ih fun a ha => hall a (by simp [ha])
    exact hloop as h

/-! ## The fields of `PATCH /api/peers/:id` -/

/-- What is written before the first field that does not pass. -/
def written : List FieldPatch → List Assignment
  | [] => []
  | .absent :: rest => written rest
  | .invalid _ :: _ => []
  | .write a :: rest => a :: written rest

theorem applyFields_fst (id : PeerId) (ps : List FieldPatch) (t : Tables) :
    (applyFields t id ps).1 = (written ps).foldl (fun t a => t.updatePeer id a) t := by
  induction ps generalizing t with
  | nil => rfl
  | cons p rest ih =>
    cases p with
    | absent => exact ih t
    | invalid text => rfl
    | write a => exact ih (t.updatePeer id a)

theorem applyFields_none {id : PeerId} {ps : List FieldPatch} (t : Tables)
    (h : ∀ text, .invalid text ∉ ps) : (applyFields t id ps).2 = none := by
  induction ps generalizing t with
  | nil => rfl
  | cons p rest ih =>
    have hrest : ∀ text, .invalid text ∉ rest := fun text hm => h text (by simp [hm])
    cases p with
    | absent => exact ih t hrest
    | invalid text => exact absurd (List.mem_cons_self ..) (h text)
    | write a => exact ih (t.updatePeer id a) hrest

theorem applyFields_some {id : PeerId} {before after : List FieldPatch} {text : String}
    (t : Tables) (h : ∀ text, .invalid text ∉ before) :
    (applyFields t id (before ++ .invalid text :: after)).2 = some text := by
  induction before generalizing t with
  | nil => rfl
  | cons p rest ih =>
    have hrest : ∀ text, .invalid text ∉ rest := fun text hm => h text (by simp [hm])
    cases p with
    | absent => exact ih t hrest
    | invalid text => exact absurd (List.mem_cons_self ..) (h text)
    | write a => exact ih (t.updatePeer id a) hrest

theorem mem_written {before after : List FieldPatch} {text : String} {a : Assignment}
    (h : ∀ text, .invalid text ∉ before) :
    a ∈ written (before ++ .invalid text :: after) ↔ .write a ∈ before := by
  induction before with
  | nil => simp [written]
  | cons p rest ih =>
    have hrest : ∀ text, .invalid text ∉ rest := fun text hm => h text (by simp [hm])
    cases p with
    | absent => simpa [written] using ih hrest
    | invalid text => exact absurd (List.mem_cons_self ..) (h text)
    | write b => simpa [written] using or_congr_right (ih hrest)

/-- A list of fields has a first one that does not pass, or none. -/
theorem first_invalid (ps : List FieldPatch) :
    (∀ text, .invalid text ∉ ps) ∨ ∃ before text after,
      ps = before ++ .invalid text :: after ∧ ∀ text, .invalid text ∉ before := by
  induction ps with
  | nil => exact Or.inl fun _ h => by cases h
  | cons p rest ih =>
    by_cases hp : ∃ text, p = .invalid text
    · obtain ⟨text, rfl⟩ := hp
      exact Or.inr ⟨[], text, rest, rfl, fun _ h => by cases h⟩
    · have hhead : ∀ text, FieldPatch.invalid text ≠ p := fun text e => hp ⟨text, e.symm⟩
      rcases ih with hnone | ⟨before, text, after, rfl, hbefore⟩
      · left
        intro text hm
        rcases List.mem_cons.mp hm with he | hm
        · exact hhead text he
        · exact hnone text hm
      · right
        refine ⟨p :: before, text, after, rfl, ?_⟩
        intro text hm
        rcases List.mem_cons.mp hm with he | hm
        · exact hhead text he
        · exact hbefore text hm

/-- A field patch writes its own column. -/
theorem fieldPatch_write {α : Type} {v : Option Json} {guard : Option Json → Option α}
    {column : α → Assignment} {text : String} {a : Assignment}
    (h : fieldPatch v guard column text = .write a) : ∃ x, a = column x := by
  unfold fieldPatch at h
  split at h
  · cases h
  · split at h
    · cases h
    · cases h
      exact ⟨_, rfl⟩

/-- The columns the fields of a body are written to, in order. -/
theorem columns_written (lang : Coercions) (body : Json) :
    ((written (patchFields lang body)).map Assignment.column).Sublist
      ["pubkey", "public_ip", "ttl_seconds", "memo", "agent_version"] := by
  have hcons : ∀ (p : FieldPatch) (rest : List FieldPatch) (c : String) (cs : List String),
      (∀ a, p = .write a → a.column = c) →
      ((written rest).map Assignment.column).Sublist cs →
      ((written (p :: rest)).map Assignment.column).Sublist (c :: cs) := by
    intro p rest c cs hp hrest
    cases p with
    | absent => exact hrest.cons c
    | invalid text => exact List.nil_sublist _
    | write a =>
      have ha : a.column = c := hp a rfl
      show (a.column :: (written rest).map Assignment.column).Sublist (c :: cs)
      rw [ha]
      exact hrest.cons_cons c
  unfold patchFields
  refine hcons _ _ _ _ ?_ (hcons _ _ _ _ ?_ (hcons _ _ _ _ ?_ (hcons _ _ _ _ ?_
    (hcons _ _ _ _ ?_ (List.Sublist.refl []))))) <;> intro a ha
  · obtain ⟨x, rfl⟩ := fieldPatch_write ha
    rfl
  · obtain ⟨x, rfl⟩ := fieldPatch_write ha
    rfl
  · obtain ⟨x, rfl⟩ := fieldPatch_write ha
    rfl
  · obtain ⟨x, rfl⟩ := fieldPatch_write ha
    rfl
  · unfold patchAgentVersion at ha
    split at ha
    · cases ha
    · split at ha
      · cases ha
        rfl
      · cases ha

theorem pairwise_written (lang : Coercions) (body : Json) :
    (written (patchFields lang body)).Pairwise fun a b => a.column ≠ b.column := by
  rw [← List.pairwise_map (f := Assignment.column)]
  exact List.Pairwise.sublist (columns_written lang body) (by decide)

/-! ## Exactly when a failed request changes something -/

/-- An authorised `PATCH` of a peer, with a field that does not pass behind one that
passes and differs from what is stored. -/
def HalfApplied (env : Env) (t : Tables) (request : Request) : Prop :=
  ∃ authorization id body row before text after,
    request = .patchPeer authorization id (some body) ∧ t.peers.get? id = some row ∧
    requireAdminOrNetwork env t authorization row.networkId = none ∧
    patchFields env.lang body = before ++ .invalid text :: after ∧
    (∀ text, .invalid text ∉ before) ∧ ∃ a, .write a ∈ before ∧ a.apply row ≠ row

theorem patchPeerFields_unchanged_iff {env : Env} {t : Tables} {id : PeerId} {row : PeerRecord}
    (hrow : t.peers.get? id = some row) (body : Json) :
    Unchanged t (patchPeerFields env t id body) ↔
      ¬ ∃ before text after, patchFields env.lang body = before ++ .invalid text :: after ∧
        (∀ text, .invalid text ∉ before) ∧ ∃ a, .write a ∈ before ∧ a.apply row ≠ row := by
  rcases first_invalid (patchFields env.lang body) with hnone | ⟨before, text, after, hps, hbefore⟩
  · -- every field passes, and the request succeeds
    have herr : (applyFields t id (patchFields env.lang body)).2 = none := applyFields_none t hnone
    constructor
    · rintro - ⟨before, text, after, hps, -, -⟩
      exact hnone text (by rw [hps]; simp)
    · intro _
      obtain ⟨row', hrow'⟩ : ∃ row', (applyFields t id (patchFields env.lang body)).1.peers.get? id =
          some row' := by
        rw [applyFields_fst]
        exact foldl_invariant (I := fun t : Tables => ∃ row', t.peers.get? id = some row') _ _
          (fun t a _ ⟨old, hold⟩ => ⟨a.apply old, by
            show (t.peers.mapVals _).get? id = _
            simp [hold]⟩) ⟨row, hrow⟩
      unfold patchPeerFields
      rw [← Prod.eta (applyFields t id (patchFields env.lang body)), herr]
      dsimp only
      rw [hrow']
      exact unchanged_of_status (by decide : 200 < 400)
  · -- the tables are those with the fields of `before` written
    have herr : (applyFields t id (patchFields env.lang body)).2 = some text := by
      rw [hps]
      exact applyFields_some t hbefore
    have hout : patchPeerFields env t id body =
        reject (applyFields t id (patchFields env.lang body)).1 400 text := by
      unfold patchPeerFields
      rw [← Prod.eta (applyFields t id (patchFields env.lang body)), herr]
    have hsame : Unchanged t (patchPeerFields env t id body) ↔
        ∀ a, .write a ∈ before → a.apply row = row := by
      rw [hout]
      have hwritten : Unchanged t (reject (applyFields t id (patchFields env.lang body)).1 400 text) ↔
          (applyFields t id (patchFields env.lang body)).1 = t :=
        ⟨fun h => h (Nat.le_refl 400), fun h _ => h⟩
      rw [hwritten, applyFields_fst, updates_eq_self_iff (pairwise_written env.lang body) hrow, hps]
      exact forall_congr' fun a => by rw [mem_written hbefore]
    rw [hsame]
    constructor
    · rintro hall ⟨before', text', after', hps', hbefore', a, ha, hne⟩
      apply hne
      apply hall
      have hin := (@mem_written before' after' text' a hbefore').mpr ha
      rw [← hps', hps] at hin
      exact (mem_written hbefore).mp hin
    · intro hno a ha
      by_contra hne
      exact hno ⟨before, text, after, hps, hbefore, a, ha, hne⟩

theorem unchanged_patchPeer_iff (env : Env) (t : Tables) (authorization : Option JsString)
    (id : PeerId) (body : Option Json) :
    Unchanged t (patchPeer env t authorization id body) ↔
      ¬ HalfApplied env t (.patchPeer authorization id body) := by
  have hnot : ∀ {p : Prop} {out : Tables × Response}, Unchanged t out → ¬ p →
      (Unchanged t out ↔ ¬ p) := fun hu hp => ⟨fun _ => hp, fun _ => hu⟩
  unfold patchPeer
  cases body with
  | none =>
    apply hnot (unchanged_self t _)
    rintro ⟨_, _, body, _, _, _, _, he, _⟩
    cases he
  | some body =>
    dsimp only
    cases hpeer : t.peers.get? id with
    | none =>
      apply hnot (unchanged_self t _)
      rintro ⟨_, _, _, row, _, _, _, he, hrow, _⟩
      cases he
      rw [hpeer] at hrow
      cases hrow
    | some peer =>
      dsimp only
      cases hdeny : requireAdminOrNetwork env t authorization peer.networkId with
      | some deny =>
        apply hnot (unchanged_self t _)
        rintro ⟨_, _, _, row, _, _, _, he, hrow, hallow, _⟩
        cases he
        rw [hpeer] at hrow
        cases hrow
        rw [hdeny] at hallow
        cases hallow
      | none =>
        have hhalf : HalfApplied env t (.patchPeer authorization id (some body)) ↔
            ∃ before text after, patchFields env.lang body = before ++ .invalid text :: after ∧
              (∀ text, .invalid text ∉ before) ∧ ∃ a, .write a ∈ before ∧ a.apply peer ≠ peer := by
          constructor
          · rintro ⟨_, _, _, row, before, text, after, he, hrow, -, hrest⟩
            cases he
            rw [hpeer] at hrow
            cases hrow
            exact ⟨before, text, after, hrest⟩
          · rintro ⟨before, text, after, hrest⟩
            exact ⟨authorization, id, body, peer, before, text, after, rfl, hpeer, hdeny, hrest⟩
        rw [hhalf]
        have hfields := @patchPeerFields_unchanged_iff env t id peer hpeer body
        cases body with
        | null =>
          apply hnot (unchanged_self t _)
          rintro ⟨before, text, after, hps, -, -⟩
          have hm : FieldPatch.invalid text ∈ patchFields env.lang .null := by
            rw [hps]
            simp
          have hnull : patchFields env.lang .null =
              [.absent, .absent, .absent, .absent, .absent] := rfl
          rw [hnull] at hm
          simp at hm
        | bool b => exact hfields
        | num n => exact hfields
        | str s => exact hfields
        | arr items => exact hfields
        | obj fields => exact hfields

/-- **Failed requests.**  A request leaves the tables as they are when it fails, unless it
is a `PATCH` of a peer that is half applied; then it fails and does not. -/
theorem failed_request_unchanged (env : Env) (t : Tables) (draws : Draws) (request : Request) :
    (400 ≤ (handle env t draws request).2.status → (handle env t draws request).1 = t) ↔
      ¬ HalfApplied env t request := by
  have hother : (∀ authorization id body, request ≠ .patchPeer authorization id body) →
      ¬ HalfApplied env t request := by
    rintro h ⟨authorization, id, body, _, _, _, _, he, _⟩
    exact h authorization id (some body) he
  have hkept : ∀ {out : Tables × Response}, Unchanged t out →
      (∀ authorization id body, request ≠ .patchPeer authorization id body) →
      (Unchanged t out ↔ ¬ HalfApplied env t request) :=
    fun hu h => ⟨fun _ => hother h, fun _ => hu⟩
  show Unchanged t (handle env t draws request) ↔ _
  cases request with
  | postNetworks authorization body =>
    exact hkept (unchanged_postNetworks env t draws authorization body) (by intros; simp)
  | deleteNetwork authorization id =>
    exact hkept (unchanged_deleteNetwork env t authorization id) (by intros; simp)
  | patchNetwork authorization id body =>
    exact hkept (unchanged_patchNetwork env t authorization id body) (by intros; simp)
  | postPeers authorization body =>
    exact hkept (unchanged_postPeers env t draws authorization body) (by intros; simp)
  | deletePeer authorization id =>
    exact hkept (unchanged_deletePeer env t authorization id) (by intros; simp)
  | putPorts authorization peerId body =>
    exact hkept (unchanged_putPorts env t authorization peerId body) (by intros; simp)
  | getConfig authorization peerId =>
    exact hkept (unchanged_getConfig env t draws authorization peerId) (by intros; simp)
  | postForceMode authorization body =>
    exact hkept (unchanged_postForceMode env t authorization body) (by intros; simp)
  | patchPeer authorization id body => exact unchanged_patchPeer_iff env t authorization id body

/-- A key that passes before an address that does not. -/
def keyThenBadAddress : Request :=
  .patchPeer sampleAdmin peerUuid
    (some (.obj [(js "pubkey", .str sampleKey), (js "publicIpv4", .str (js "10.0.0"))]))

/-- The request fails with a 400, and the key of the peer has been replaced. -/
theorem failed_patch_replaces_key :
    ¬ (400 ≤ (handle sampleEnv sampleTables (drawsOf []) keyThenBadAddress).2.status →
      (handle sampleEnv sampleTables (drawsOf []) keyThenBadAddress).1 = sampleTables) := by
  intro h
  have hsame := h (by decide)
  have hkey := congrArg (fun t => (t.peers.get? peerUuid).map PeerRecord.pubkey) hsame
  revert hkey
  decide

end Meshezia.Api
