import Meshezia.Api.Failed
import Meshezia.Api.PairConfigs

/-!
# What an agent says of itself

The requests of `client.register` and `client.updatePeer`, with which an agent begins
(`boot` of `index.ts`), and what the server makes of them.

A name is given once in a network (`Named`), and a peer keeps it as long as it is there
(`peer_before`).  With arguments that pass the checks:

    the registration is taken ↔ the network is there, has a free address, and nobody in it
      has the name                                                  (status_register_iff)
    the update is taken ↔ the peer is there                           (status_update_iff)
-/

namespace Meshezia.Api

/-! ## The requests -/

/-- The arguments of an agent that the server gets to know; `ttl` is 0 when none is given. -/
structure AgentArgs where
  networkId : NetworkId
  name : JsString
  ttl : Int
  memo : JsString
  version : JsString
deriving DecidableEq, Repr

/-- A field that is left out as `undefined` unless `given`. -/
def fieldIf (given : Bool) (key : String) (value : Json) : List (JsString × Json) :=
  if given then [(js key, value)] else []

namespace AgentArgs

/-- The body of `client.register`. -/
def registerBody (args : AgentArgs) (publicIp pubkey : JsString) : Json :=
  .obj ([(js "networkId", .str args.networkId), (js "name", .str args.name),
      (js "publicIpv4", .str publicIp), (js "pubkey", .str pubkey)] ++
    fieldIf (decide (args.ttl ≠ 0)) "ttlSeconds" (.num (.int args.ttl)) ++
    fieldIf (!args.memo.isEmpty) "memo" (.str args.memo) ++
    [(js "agentVersion", .str args.version)])

/-- The body of `client.updatePeer` in `boot`. -/
def updateBody (args : AgentArgs) (publicIp pubkey : JsString) : Json :=
  .obj ([(js "pubkey", .str pubkey), (js "publicIpv4", .str publicIp)] ++
    fieldIf (!args.memo.isEmpty) "memo" (.str args.memo) ++
    [(js "agentVersion", .str args.version)])

/-- The arguments, the address and the key pass the checks of the server. -/
structure Valid (args : AgentArgs) (lang : Coercions) (publicIp pubkey : JsString) : Prop where
  networkId : UUID_RE args.networkId = true
  name : isValidName (some (.str args.name)) = some args.name
  publicIp : emptyOr (isValidIPv4 lang) (some (.str publicIp)) = some publicIp
  pubkey : emptyOr isValidPubkey (some (.str pubkey)) = some pubkey
  ttl : 0 ≤ args.ttl ∧ args.ttl ≤ 31536000
  memo : args.memo.length ≤ 1024

end AgentArgs

/-- The peer has the name, in the network. -/
def Named (t : Tables) (networkId : NetworkId) (name : JsString) (id : PeerId) : Prop :=
  ∃ row, t.peers.get? id = some row ∧ row.networkId = networkId ∧ row.name = name

/-! ## Rows that stay -/

/-- The rows that are there after an update were there before, under the same name. -/
theorem updates_named {t t' : Tables} (h : Updates t t') {id : PeerId} {row' : PeerRecord}
    (hrow' : t'.peers.get? id = some row') :
    ∃ row, t.peers.get? id = some row ∧ row'.networkId = row.networkId ∧
      row'.name = row.name := by
  induction h generalizing row' with
  | refl => exact ⟨row', hrow', rfl, rfl⟩
  | tail _ hlast ih =>
    obtain ⟨mid, hmid, hsame⟩ := update_peers hlast hrow'
    obtain ⟨row, hrow, hnet, hname⟩ := ih hmid
    rcases hsame with rfl | ⟨a, -, rfl⟩
    · exact ⟨row, hrow, hnet, hname⟩
    · exact ⟨row, hrow, by rw [Assignment.apply_networkId, hnet],
        by rw [Assignment.apply_name, hname]⟩

/-- The peers that are there after a step were there before it, unless the step draws their id. -/
theorem peer_before {env : Env} {s : ApiState} {e : Event} {q : PeerId}
    (hfresh : drawnPeer e ≠ some q) {row' : PeerRecord}
    (hrow' : (step env s e).tables.peers.get? q = some row') :
    ∃ row, s.tables.peers.get? q = some row ∧ row'.networkId = row.networkId ∧
      row'.name = row.name := by
  rcases step_writes env s e with hupdates | hregistered | ⟨request, draws, -, hcreated⟩
  · exact updates_named hupdates hrow'
  · -- a registration: the peer is not the new one
    obtain ⟨id, row, hnone, -, -, -, -, he⟩ := registered_peers hregistered
    have hpeers : (step env s e).tables.peers = s.tables.peers.set id row := by rw [he]
    rw [hpeers] at hrow'
    rcases OMap.get?_set_cases hrow' with ⟨rfl, -⟩ | ⟨-, hold⟩
    · have hhas : (step env s e).tables.peers.has id = true := by
        rw [hpeers, OMap.has_set, decide_eq_true rfl, Bool.true_or]
      have hnot : s.tables.peers.has id = false := (OMap.has_eq_false_iff _ _).mpr hnone
      rcases step_ports env s e with ⟨r, -, hok⟩ | ⟨-, hkept | ⟨id', row', hid, hok⟩⟩
      · rw [(upsertPorts_ok hok).1, hnot] at hhas
        cases hhas
      · have := hkept.peers id hhas
        rw [hnot] at this
        cases this
      · rw [(Tables.insertPeer_ok hok).2.2] at hhas
        have hhas : (s.tables.peers.set id' row').has id = true := hhas
        rw [OMap.has_set, hnot, Bool.or_false, decide_eq_true_eq] at hhas
        exact absurd (hhas ▸ hid) hfresh
    · exact ⟨row', hold, rfl, rfl⟩
  · rw [created_peers hcreated] at hrow'
    exact ⟨row', hrow', rfl, rfl⟩

/-! ## Who has a name -/

section
variable {t t' : Tables} {networkId : NetworkId} {name : JsString} {p : PeerId}

theorem named_updatePeer (t : Tables) (id : PeerId) (a : Assignment) :
    Named (t.updatePeer id a) networkId name p ↔ Named t networkId name p := by
  have hsame : ∀ row : PeerRecord, (if p = id then a.apply row else row).networkId = row.networkId ∧
      (if p = id then a.apply row else row).name = row.name := by
    intro row
    split <;> simp
  constructor
  · rintro ⟨row', hrow', hnet, hname⟩
    rw [get?_updatePeer, Option.map_eq_some_iff] at hrow'
    obtain ⟨row, hrow, rfl⟩ := hrow'
    exact ⟨row, hrow, (hsame row).1.symm.trans hnet, (hsame row).2.symm.trans hname⟩
  · rintro ⟨row, hrow, hnet, hname⟩
    refine ⟨_, ?_, (hsame row).1.trans hnet, (hsame row).2.trans hname⟩
    rw [get?_updatePeer, hrow]
    rfl

theorem named_patchPeer (env : Env) (t : Tables) (draws : Draws) (authorization : Option JsString)
    (id : PeerId) (body : Option Json) :
    Named (handle env t draws (.patchPeer authorization id body)).1 networkId name p ↔
      Named t networkId name p := by
  have heffect := handle_effect env t draws (.patchPeer authorization id body)
  generalize (handle env t draws (.patchPeer authorization id body)).1 = t' at heffect
  cases heffect with
  | unchanged => exact Iff.rfl
  | patchPeer found allowed =>
    rename_i as
    unfold updatePeers
    exact foldl_invariant (I := fun t' : Tables => Named t' networkId name p ↔
      Named t networkId name p) _ as (fun t' a _ h => (named_updatePeer t' id a).trans h) Iff.rfl

theorem named_insertPeer {id : PeerId} {row : PeerRecord} (hok : t.insertPeer id row = .ok t') :
    Named t' networkId name p ↔
      (p = id ∧ row.networkId = networkId ∧ row.name = name) ∨ Named t networkId name p := by
  obtain ⟨hnew, -, hrows⟩ := Tables.insertPeer_ok hok
  have hpeers : t'.peers = t.peers.set id row := congrArg Rows.peers hrows
  unfold Named
  rw [hpeers]
  constructor
  · rintro ⟨row', hrow', hnet, hname⟩
    rcases OMap.get?_set_cases hrow' with ⟨rfl, rfl⟩ | ⟨-, hold⟩
    · exact Or.inl ⟨rfl, hnet, hname⟩
    · exact Or.inr ⟨row', hold, hnet, hname⟩
  · rintro (⟨rfl, hnet, hname⟩ | ⟨old, hold, hnet, hname⟩)
    · exact ⟨row, OMap.get?_set_self .., hnet, hname⟩
    · have hne : id ≠ p := by
        rintro rfl
        rw [OMap.has_of_get? hold] at hnew
        cases hnew
      exact ⟨old, (OMap.get?_set_ne _ _ hne).trans hold, hnet, hname⟩

end

/-! ## The fields of the bodies -/

section
variable (args : AgentArgs) (publicIp pubkey : JsString)

theorem get?_registerBody :
    (args.registerBody publicIp pubkey).get? (js "networkId") = some (.str args.networkId) ∧
    (args.registerBody publicIp pubkey).get? (js "name") = some (.str args.name) ∧
    (args.registerBody publicIp pubkey).get? (js "publicIpv4") = some (.str publicIp) ∧
    (args.registerBody publicIp pubkey).get? (js "pubkey") = some (.str pubkey) ∧
    (args.registerBody publicIp pubkey).get? (js "ttlSeconds") =
      (if args.ttl ≠ 0 then some (.num (.int args.ttl)) else none) ∧
    (args.registerBody publicIp pubkey).get? (js "memo") =
      (if args.memo.isEmpty then none else some (.str args.memo)) ∧
    (args.registerBody publicIp pubkey).get? (js "agentVersion") = some (.str args.version) := by
  unfold AgentArgs.registerBody fieldIf
  by_cases httl : args.ttl ≠ 0 <;> cases hmemo : args.memo.isEmpty <;>
    simp only [httl, decide_true, decide_false, if_true, if_false, Bool.not_true, Bool.not_false,
      ne_eq, not_false_eq_true, Bool.false_eq_true] <;>
    exact ⟨rfl, rfl, rfl, rfl, rfl, rfl, rfl⟩

theorem get?_updateBody :
    (args.updateBody publicIp pubkey).get? (js "pubkey") = some (.str pubkey) ∧
    (args.updateBody publicIp pubkey).get? (js "publicIpv4") = some (.str publicIp) ∧
    (args.updateBody publicIp pubkey).get? (js "ttlSeconds") = none ∧
    (args.updateBody publicIp pubkey).get? (js "memo") =
      (if args.memo.isEmpty then none else some (.str args.memo)) ∧
    (args.updateBody publicIp pubkey).get? (js "agentVersion") = some (.str args.version) := by
  unfold AgentArgs.updateBody fieldIf
  cases hmemo : args.memo.isEmpty <;>
    simp only [if_true, if_false, Bool.not_true, Bool.not_false, Bool.false_eq_true] <;>
    exact ⟨rfl, rfl, rfl, rfl, rfl⟩

end

/-! ## The registration -/

section
variable {env : Env} {t : Tables} {draws : Draws} {args : AgentArgs} {publicIp pubkey : JsString}
  {authorization : Option JsString}

theorem isValidUUID_str {s : JsString} (h : UUID_RE s = true) : isValidUUID (some (.str s)) = some s := by
  show (some s).filter UUID_RE = some s
  rw [Option.filter_some, if_pos h]

theorem isValidMemo_str {s : JsString} (h : s.length ≤ 1024) : isValidMemo (some (.str s)) = some s := by
  show (some s).filter (fun s => decide (s.length ≤ 1024)) = some s
  rw [Option.filter_some, if_pos (by simpa using h)]

/-- A string that passes is read as it is. -/
theorem emptyOr_str {guard : Option Json → Option JsString} {s s' : JsString}
    (hguard : ∀ s s', guard (some (.str s)) = some s' → s' = s)
    (h : emptyOr guard (some (.str s)) = some s') : s' = s := by
  unfold emptyOr at h
  split at h
  · rename_i heq
    cases heq
    cases h
    rfl
  · exact hguard s s' h

theorem isValidPubkey_str (s s' : JsString) (h : isValidPubkey (some (.str s)) = some s') :
    s' = s := by
  obtain ⟨h, -⟩ := Option.filter_eq_some_iff.mp h
  exact (Option.some.inj h).symm

/-- What a registration that passes the checks of its body asks for. -/
theorem readNewPeer_registerBody {lang : Coercions} {new : NewPeer}
    (h : readNewPeer lang (args.registerBody publicIp pubkey) = .ok new) :
    new.networkId = args.networkId ∧ new.name = args.name ∧ new.pubkey = pubkey := by
  obtain ⟨hnet, hname, -, hkey, -⟩ := get?_registerBody args publicIp pubkey
  unfold readNewPeer at h
  rw [hnet, hname, hkey] at h
  simp only [bind_eq_ok, check_eq_ok] at h
  obtain ⟨networkId, h1, name, h2, ip, -, key, h4, ttl, -, memo, -, h⟩ := h
  cases h
  obtain ⟨h1, -⟩ := Option.filter_eq_some_iff.mp h1
  obtain ⟨h2, -⟩ := Option.filter_eq_some_iff.mp h2
  cases h1
  cases h2
  exact ⟨rfl, rfl, emptyOr_str isValidPubkey_str h4⟩

/-- The network is there, with a free address, and nobody in it has the name. -/
structure Vacant (lang : Coercions) (t : Tables) (networkId : NetworkId) (name : JsString) : Prop where
  network : ∃ network, t.networks.get? networkId = some network ∧
    (allocateIp lang (t.usedIps networkId) network.subnet).isSome = true
  name : ∀ id, ¬ Named t networkId name id

/-- A row is inserted if its id and its name are new, and its network is there. -/
theorem insertPeer_iff {id : PeerId} {row : PeerRecord} : (∃ t', t.insertPeer id row = .ok t') ↔
    t.peers.has id = false ∧ (∀ p, ¬ Named t row.networkId row.name p) ∧
      t.networks.has row.networkId = true := by
  have hclash : t.peerClash id row = false ↔ t.peers.has id = false ∧
      ∀ p, ¬ Named t row.networkId row.name p := by
    unfold Rows.peerClash
    rw [Bool.or_eq_false_iff, List.any_eq_false]
    refine and_congr_right fun _ => ⟨?_, ?_⟩
    · rintro h p ⟨old, hold, hnet, hname⟩
      exact h (p, old) ((OMap.mem_entries _ _ _).mpr hold) (by simp [hnet, hname])
    · rintro h ⟨p, old⟩ hmem hsame
      simp only [Bool.and_eq_true, beq_iff_eq] at hsame
      exact h p ⟨old, (OMap.mem_entries _ _ _).mp hmem, hsame⟩
  unfold Tables.insertPeer
  constructor
  · rintro ⟨t', h⟩
    split at h
    · rename_i hno
      split at h
      · rename_i hnet
        exact ⟨(hclash.mp hno).1, (hclash.mp hno).2, hnet⟩
      · cases h
    · cases h
  · rintro ⟨hid, hname, hnet⟩
    rw [dif_pos (hclash.mpr ⟨hid, hname⟩), dif_pos hnet]
    exact ⟨_, rfl⟩

/-- **A registration** is taken, and answered with the new peer, or it changes nothing. -/
theorem register_cases (env : Env) (t : Tables) (draws : Draws) (authorization : Option JsString)
    (args : AgentArgs) (publicIp pubkey : JsString) :
    let answer := handle env t draws
      (.postPeers authorization (some (args.registerBody publicIp pubkey)))
    (∃ row, answer.2 = ⟨201, .peer (formatPeer draws.id row)⟩ ∧
      t.insertPeer draws.id row = .ok answer.1 ∧ row.networkId = args.networkId ∧
      row.name = args.name ∧ row.pubkey = pubkey ∧ Vacant env.lang t args.networkId args.name) ∨
    (400 ≤ answer.2.status ∧ answer.1 = t) := by
  intro answer
  have hanswer : answer = postPeers env t authorization
    (some (args.registerBody publicIp pubkey)) draws := rfl
  have hrefused : ∀ (status : Nat) (text : String), 400 ≤ status → answer = reject t status text →
      400 ≤ answer.2.status ∧ answer.1 = t := by
    intro status text hstatus he
    rw [he]
    exact ⟨hstatus, rfl⟩
  unfold postPeers at hanswer
  split at hanswer
  · exact Or.inr (hrefused 400 _ (by decide) hanswer)
  · rename_i heq
    cases heq
  · rename_i body _ heq
    cases heq
    split at hanswer
    · exact Or.inr (hrefused 400 _ (by decide) hanswer)
    · rename_i new hread
      obtain ⟨hnet, hname, hkey⟩ := readNewPeer_registerBody hread
      split at hanswer
      · rename_i deny hdeny
        unfold requireAdminOrNetwork at hdeny
        split at hdeny
        · cases hdeny
        · cases hdeny
          rw [hanswer]
          exact Or.inr ⟨show 400 ≤ 401 by decide, rfl⟩
      · split at hanswer
        · exact Or.inr (hrefused 404 _ (by decide) hanswer)
        · rename_i network hnetwork
          split at hanswer
          · exact Or.inr (hrefused 409 _ (by decide) hanswer)
          · rename_i ipv4 hfree
            split at hanswer
            · exact Or.inr (hrefused 500 _ (by decide) hanswer)
            · dsimp only at hanswer
              split at hanswer
              · exact Or.inr (hrefused 409 _ (by decide) hanswer)
              · exact Or.inr (hrefused 500 _ (by decide) hanswer)
              · rename_i t' hok
                rw [hanswer]
                refine Or.inl ⟨_, rfl, hok, hnet, hname, hkey, ⟨network, hnet ▸ hnetwork, ?_⟩, ?_⟩
                · rw [← hnet, hfree]
                  rfl
                · have hnew := (insertPeer_iff.mp ⟨t', hok⟩).2.1
                  rw [hnet, hname] at hnew
                  exact hnew

theorem readNewPeer_of_valid (h : args.Valid env.lang publicIp pubkey) :
    ∃ new, readNewPeer env.lang (args.registerBody publicIp pubkey) = .ok new := by
  obtain ⟨hnet, hname, hip, hkey, httl, hmemo, -⟩ := get?_registerBody args publicIp pubkey
  have httl' : ∃ ttl, optional ((args.registerBody publicIp pubkey).get? (js "ttlSeconds")) 0
      isValidTTL = some ttl := by
    rw [httl]
    split
    · refine ⟨args.ttl, ?_⟩
      show (if decide (0 ≤ args.ttl) && decide (args.ttl ≤ 31536000) then some args.ttl else none) = _
      simp [h.ttl]
    · exact ⟨0, rfl⟩
  have hmemo' : ∃ memo, optional ((args.registerBody publicIp pubkey).get? (js "memo")) []
      isValidMemo = some memo := by
    rw [hmemo]
    split
    · exact ⟨[], rfl⟩
    · exact ⟨args.memo, isValidMemo_str h.memo⟩
  obtain ⟨ttl, httl'⟩ := httl'
  obtain ⟨memo, hmemo'⟩ := hmemo'
  refine ⟨⟨args.networkId, args.name, publicIp, pubkey, ttl, memo⟩, ?_⟩
  unfold readNewPeer
  rw [httl', hmemo', hnet, hname, hip, hkey, isValidUUID_str h.networkId, h.name]
  simp only [optional, h.publicIp, h.pubkey]
  rfl

/-- **What registers**: with arguments that pass the checks and a good token, a name that is
free in a network that has a free address. -/
theorem status_register_iff (hvalid : args.Valid env.lang publicIp pubkey)
    (hallowed : requireAdminOrNetwork env t authorization args.networkId = none)
    (hfresh : t.peers.has draws.id = false) :
    (handle env t draws (.postPeers authorization
      (some (args.registerBody publicIp pubkey)))).2.status = 201 ↔
    Vacant env.lang t args.networkId args.name := by
  constructor
  · intro hstatus
    rcases register_cases env t draws authorization args publicIp pubkey with
      ⟨row, -, -, -, -, -, hvacant⟩ | ⟨hlow, -⟩
    · exact hvacant
    · omega
  · rintro ⟨⟨network, hnetwork, hfree⟩, hname⟩
    obtain ⟨new, hread⟩ := readNewPeer_of_valid hvalid
    obtain ⟨hnet, hnew, -⟩ := readNewPeer_registerBody hread
    obtain ⟨ipv4, hip⟩ := Option.isSome_iff_exists.mp hfree
    rw [← hnet] at hallowed hnetwork hip hname
    rw [← hnew] at hname
    have hversion := (get?_registerBody args publicIp pubkey).2.2.2.2.2.2
    obtain ⟨fields, hbody⟩ : ∃ fields, args.registerBody publicIp pubkey = .obj fields := ⟨_, rfl⟩
    obtain ⟨t', hok⟩ := (@insertPeer_iff t draws.id
      { networkId := new.networkId, name := new.name, publicIp := new.publicIpv4,
        pubkey := new.pubkey, ipv4, lastSeen := draws.now, ttlSeconds := new.ttlSeconds,
        memo := new.memo, agentVersion := .str args.version }).mpr
      ⟨hfresh, hname, OMap.has_of_get? hnetwork⟩
    show (postPeers env t authorization (some (args.registerBody publicIp pubkey)) draws).2.status =
      201
    unfold postPeers
    rw [hbody] at hread hversion ⊢
    simp only [hread, hallowed, hnetwork, hip, hversion, bindOr, hok]

/-! ## The update -/

/-- The fields of an update, none of which is refused when the arguments pass. -/
theorem invalid_patchFields_updateBody (hvalid : args.Valid env.lang publicIp pubkey) :
    ∀ text, FieldPatch.invalid text ∉ patchFields env.lang (args.updateBody publicIp pubkey) := by
  obtain ⟨hkey, hip, httl, hmemo, hversion⟩ := get?_updateBody args publicIp pubkey
  have hkey' : patchPubkey (args.updateBody publicIp pubkey) = .write (.pubkey pubkey) := by
    unfold patchPubkey fieldPatch
    rw [hkey]
    simp only [hvalid.pubkey]
  have hip' : patchPublicIpv4 env.lang (args.updateBody publicIp pubkey) =
      .write (.publicIp publicIp) := by
    unfold patchPublicIpv4 fieldPatch
    rw [hip]
    simp only [hvalid.publicIp]
  have httl' : patchTtlSeconds (args.updateBody publicIp pubkey) = .absent := by
    unfold patchTtlSeconds fieldPatch
    rw [httl]
  have hmemo' : ∀ text, patchMemo (args.updateBody publicIp pubkey) ≠ .invalid text := by
    intro text
    unfold patchMemo fieldPatch
    rw [hmemo]
    cases args.memo.isEmpty with
    | true =>
      intro h
      cases h
    | false => simp [isValidMemo_str hvalid.memo]
  have hversion' : ∀ text, patchAgentVersion (args.updateBody publicIp pubkey) ≠ .invalid text := by
    intro text
    unfold patchAgentVersion
    split
    · intro h
      cases h
    · split <;> intro h <;> cases h
  intro text
  unfold patchFields
  rw [hkey', hip', httl']
  simp only [List.mem_cons, List.not_mem_nil, or_false, not_or]
  exact ⟨by simp, by simp, by simp, fun h => hmemo' text h.symm, fun h => hversion' text h.symm⟩

/-- The other fields leave the keys alone. -/
theorem pubkey_applyFields {id : PeerId} {ps : List FieldPatch}
    (hps : ∀ v, FieldPatch.write (.pubkey v) ∉ ps) (t : Tables) (p : PeerId) :
    ((applyFields t id ps).1.peers.get? p).map PeerRecord.pubkey =
      (t.peers.get? p).map PeerRecord.pubkey := by
  induction ps generalizing t with
  | nil => rfl
  | cons x rest ih =>
    have hrest : ∀ v, FieldPatch.write (.pubkey v) ∉ rest :=
      fun v hv => hps v (List.mem_cons_of_mem x hv)
    cases x with
    | absent => exact ih hrest t
    | invalid text => rfl
    | write a =>
      refine (ih hrest (t.updatePeer id a)).trans ?_
      rw [get?_updatePeer, Option.map_map]
      refine congrArg (fun f => (t.peers.get? p).map f) (funext fun row => ?_)
      dsimp only [Function.comp]
      split
      · cases a with
        | pubkey v => exact absurd (List.mem_cons_self ..) (hps v)
        | _ => rfl
      · rfl

/-- **An update** is refused, or the peer is there and has the key of the body now. -/
theorem update_cases (env : Env) (t : Tables) (draws : Draws) (authorization : Option JsString)
    (args : AgentArgs) (publicIp pubkey : JsString) (id : PeerId) :
    let answer := handle env t draws
      (.patchPeer authorization id (some (args.updateBody publicIp pubkey)))
    (answer.2.status = 200 ∧ t.peers.has id = true ∧
      (answer.1.peers.get? id).map PeerRecord.pubkey = some pubkey) ∨ 400 ≤ answer.2.status := by
  intro answer
  obtain ⟨fields, hbody⟩ : ∃ fields, args.updateBody publicIp pubkey = .obj fields := ⟨_, rfl⟩
  have hanswer : answer = patchPeer env t authorization id
    (some (args.updateBody publicIp pubkey)) := rfl
  cases hrow : t.peers.get? id with
  | none =>
    refine Or.inr ?_
    rw [hanswer]
    unfold patchPeer
    simp only [hrow]
    exact show 400 ≤ 404 by decide
  | some row =>
    cases hdeny : requireAdminOrNetwork env t authorization row.networkId with
    | some deny =>
      refine Or.inr ?_
      rw [hanswer]
      unfold patchPeer
      simp only [hrow, hdeny]
      unfold requireAdminOrNetwork at hdeny
      split at hdeny
      · cases hdeny
      · cases hdeny
        exact show 400 ≤ 401 by decide
    | none =>
      have hfields : answer = patchPeerFields env t id (args.updateBody publicIp pubkey) := by
        rw [hanswer]
        unfold patchPeer
        simp only [hrow, hdeny]
        rw [hbody]
      obtain ⟨hkey, -⟩ := get?_updateBody args publicIp pubkey
      unfold patchPeerFields patchFields patchPubkey fieldPatch at hfields
      rw [hkey] at hfields
      dsimp only at hfields
      cases hguard : emptyOr isValidPubkey (some (.str pubkey)) with
      | none =>
        rw [hguard] at hfields
        rw [hfields]
        exact Or.inr (show 400 ≤ 400 by decide)
      | some v =>
        have hv := emptyOr_str isValidPubkey_str hguard
        subst hv
        rw [hguard] at hfields
        -- the key is written first, and stays
        have hstays := fun p => @pubkey_applyFields id
          [patchPublicIpv4 env.lang (args.updateBody publicIp v),
            patchTtlSeconds (args.updateBody publicIp v), patchMemo (args.updateBody publicIp v),
            patchAgentVersion (args.updateBody publicIp v)] (by
              intro w hw
              simp only [List.mem_cons, List.not_mem_nil, or_false] at hw
              unfold patchPublicIpv4 patchTtlSeconds patchMemo patchAgentVersion fieldPatch at hw
              rcases hw with hw | hw | hw | hw <;> (repeat' split at hw) <;> cases hw)
          (t.updatePeer id (.pubkey v)) p
        dsimp only [applyFields] at hfields
        generalize applyFields (t.updatePeer id (.pubkey v)) id _ = result at hfields hstays
        obtain ⟨t', error⟩ := result
        have hpubkey : (t'.peers.get? id).map PeerRecord.pubkey = some v := by
          refine (hstays id).trans ?_
          rw [get?_updatePeer, hrow]
          simp [Assignment.apply]
        cases error with
        | some text =>
          rw [hfields]
          exact Or.inr (show 400 ≤ 400 by decide)
        | none =>
          dsimp only at hfields
          cases hrow' : t'.peers.get? id with
          | none =>
            rw [hrow'] at hpubkey
            cases hpubkey
          | some row' =>
            simp only [hrow'] at hfields
            rw [hfields]
            exact Or.inl ⟨rfl, OMap.has_of_get? hrow, hpubkey⟩

/-- **What updates**: with arguments that pass the checks and a good token, a peer that is
there. -/
theorem status_update_iff (hvalid : args.Valid env.lang publicIp pubkey) {id : PeerId}
    (hallowed : ∀ row, t.peers.get? id = some row →
      requireAdminOrNetwork env t authorization row.networkId = none) :
    (handle env t draws (.patchPeer authorization id
      (some (args.updateBody publicIp pubkey)))).2.status = 200 ↔ t.peers.has id = true := by
  constructor
  · intro hstatus
    rcases update_cases env t draws authorization args publicIp pubkey id with ⟨-, hhas, -⟩ | hlow
    · exact hhas
    · omega
  · intro hhas
    obtain ⟨row, hrow⟩ := (OMap.has_iff _ _).mp hhas
    obtain ⟨fields, hbody⟩ : ∃ fields, args.updateBody publicIp pubkey = .obj fields := ⟨_, rfl⟩
    have hnone := @applyFields_none id _ t (invalid_patchFields_updateBody hvalid)
    obtain ⟨as, has⟩ := applyFields_updates t id (patchFields env.lang
      (args.updateBody publicIp pubkey))
    have hrow' : ∃ row', (updatePeers t id as).peers.get? id = some row' := by
      have hnet := (updatePeers_frame t id as).2.2.2.2 id
      rw [hrow] at hnet
      cases hget : (updatePeers t id as).peers.get? id with
      | some row' => exact ⟨row', rfl⟩
      | none =>
        rw [hget] at hnet
        cases hnet
    obtain ⟨row', hrow'⟩ := hrow'
    show (patchPeer env t authorization id
      (some (args.updateBody publicIp pubkey))).2.status = 200
    unfold patchPeer
    rw [hbody] at hnone has ⊢
    simp only [hrow, hallowed row hrow]
    unfold patchPeerFields
    generalize applyFields t id (patchFields env.lang (.obj fields)) = result at hnone has
    obtain ⟨t', error⟩ := result
    dsimp only at hnone has
    subst hnone has
    simp only [hrow']

end

end Meshezia.Api
