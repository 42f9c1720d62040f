import Mathlib.Logic.Relation
import Meshezia.Lib.Run
import Meshezia.Api.Handlers

/-!
# Runs of the API

The database of a server over time: requests, whose handlers run without interruption
once their bodies have been read, and runs of the reaper (`reaper.ts`).  A
`PUT /api/peers/:id/ports` may be checked at one moment and get its body at a later one,
with other requests in between (`waiting`).

A step of a run creates one network (`Created`), registers one peer (`Registered`) or
executes a sequence of other statements, each with what the code has checked before it
(`Update`): `step_writes`.  An invariant of the tables is kept by every run when these
three keep it (`exec_invariant`).
-/

namespace Meshezia.Api

/-- The peers whose time to live has passed. -/
def expired (t : Tables) (now : Int) : List PeerId :=
  (t.peers.entries.filter fun e => decide (e.2.ttlSeconds > 0) &&
    decide (now - e.2.lastSeen > e.2.ttlSeconds * 1000)).map Prod.fst

/-- What `reap` does to the tables; its transaction may fail. -/
def reap (t : Tables) (now : Int) (deleteFails : Bool) : Tables :=
  if deleteFails then t else t.deletePeersWhere fun p => (expired t now).contains p

structure ApiState where
  tables : Tables
  /-- The `PUT …/ports` requests that wait for their bodies, by peer. -/
  waiting : List PeerId

inductive Event where
  | serve (request : Request) (draws : Draws)
  | openPorts (authorization : Option JsString) (peerId : PeerId)
  | portsBody (index : Nat) (body : Option Json)
  | reap (now : Int) (deleteFails : Bool)

def step (env : Env) (s : ApiState) : Event → ApiState
  | .serve request draws => { s with tables := (handle env s.tables draws request).1 }
  | .openPorts authorization peerId =>
    match putPortsCheck env s.tables authorization peerId with
    | some _ => s
    | none => { s with waiting := s.waiting ++ [peerId] }
  | .portsBody index body =>
    match s.waiting[index]? with
    | none => s
    | some peerId =>
      { tables := (putPortsBody s.tables peerId body).1, waiting := s.waiting.eraseIdx index }
  | .reap now deleteFails => { s with tables := reap s.tables now deleteFails }

/-- The state after the events `es`, from an empty database. -/
def exec (env : Env) (es : List Event) : ApiState := run (step env) ⟨.empty, []⟩ es

theorem exec_concat (env : Env) (es : List Event) (e : Event) :
    exec env (es ++ [e]) = step env (exec env es) e := run_concat (step env) _ es e

/-! ## What a step writes -/

/-- The empty string or a canonical address. -/
def AddressOrEmpty (s : JsString) : Prop := s = [] ∨ CanonicalIPv4 s

/-- The empty string or a key. -/
def KeyOrEmpty (s : JsString) : Prop := s = [] ∨ Base64Key s

/-- What is checked before an `UPDATE peers`. -/
def Assignment.Checked : Assignment → Prop
  | .publicIp v => AddressOrEmpty v
  | .pubkey v => KeyOrEmpty v
  | _ => True

/-- One statement of an endpoint or the reaper, other than an `INSERT`. -/
inductive Update (t : Tables) : Tables → Prop where
  | renameNetwork {t' id name} : t.renameNetwork id name = .ok t' → Update t t'
  | setRelayEnabled id enabled : Update t (t.setRelayEnabled id enabled)
  | deleteNetwork id : Update t (t.deleteNetwork id)
  | updatePeer id {a} : a.Checked → Update t (t.updatePeer id a)
  | deletePeers gone : Update t (t.deletePeersWhere gone)
  | upsertPort {t' fromPeerId toPeerId port} : 1 ≤ port → port ≤ 65535 →
      t.upsertPort fromPeerId toPeerId port = .ok t' → Update t t'
  | setForcedMode peerA peerB mode : Update t (t.setForcedMode peerA peerB mode)

/-- Statements one after the other. -/
abbrev Updates : Tables → Tables → Prop := Relation.ReflTransGen Update

/-- One `INSERT INTO peers`. -/
inductive Registered (lang : Coercions) (t t' : Tables) : Prop where
  | insert {id row subnet} :
      allocateIp lang (t.usedIps row.networkId) subnet = some row.ipv4 →
      AddressOrEmpty row.publicIp → KeyOrEmpty row.pubkey → t.insertPeer id row = .ok t' →
      Registered lang t t'

/-- One `INSERT INTO networks`, with the request it answers. -/
inductive Created (env : Env) (draws : Draws) (t t' : Tables) : Request → Prop where
  | insert {authorization body row} : bindAwg (bodyAwg body) draws.awg = some row.awg →
      t.insertNetwork draws.id row = .ok t' →
      (postNetworks env t authorization (some body) draws).2.status = 201 →
      Created env draws t t' (.postNetworks authorization (some body))

/-! ## What passes the checks of a body -/

theorem bind_eq_ok {ε α β : Type} {x : Except ε α} {f : α → Except ε β} {b : β} :
    x >>= f = .ok b ↔ ∃ a, x = .ok a ∧ f a = .ok b := by
  cases x with
  | error e => simp [bind, Except.bind]
  | ok a => simp [bind, Except.bind]

theorem check_eq_ok {α : Type} {v : Option α} {text : String} {a : α} :
    check v text = .ok a ↔ v = some a := by
  cases v <;> simp [check]

theorem addressOrEmpty_of_emptyOr {lang : Coercions} {v : Option Json} {s : JsString}
    (h : emptyOr (isValidIPv4 lang) v = some s) : AddressOrEmpty s := by
  unfold emptyOr at h
  split at h
  · cases h
    exact Or.inl rfl
  · exact Or.inr (canonical_of_isValidIPv4 h)

theorem keyOrEmpty_of_emptyOr {v : Option Json} {s : JsString}
    (h : emptyOr isValidPubkey v = some s) : KeyOrEmpty s := by
  unfold emptyOr at h
  split at h
  · cases h
    exact Or.inl rfl
  · exact Or.inr (base64Key_of_isValidPubkey h)

theorem of_optional {α : Type} {v : Option Json} {default a : α} {guard : Option Json → Option α}
    (h : optional v default guard = some a) : a = default ∨ guard v = some a := by
  unfold optional at h
  split at h
  · cases h
    exact Or.inl rfl
  · exact Or.inr h

theorem readNewPeer_checked {lang : Coercions} {body : Json} {new : NewPeer}
    (h : readNewPeer lang body = .ok new) :
    AddressOrEmpty new.publicIpv4 ∧ KeyOrEmpty new.pubkey := by
  simp only [readNewPeer, bind_eq_ok, check_eq_ok] at h
  obtain ⟨networkId, -, name, -, publicIpv4, hip, pubkey, hkey, ttlSeconds, -, memo, -, h⟩ := h
  cases h
  constructor
  · rcases of_optional hip with rfl | hip
    · exact Or.inl rfl
    · exact addressOrEmpty_of_emptyOr hip
  · rcases of_optional hkey with rfl | hkey
    · exact Or.inl rfl
    · exact keyOrEmpty_of_emptyOr hkey

theorem fieldPatch_checked {α : Type} {v : Option Json} {guard : Option Json → Option α}
    {column : α → Assignment} {text : String} (h : ∀ x, guard v = some x → (column x).Checked)
    {a : Assignment} (ha : fieldPatch v guard column text = .write a) : a.Checked := by
  unfold fieldPatch at ha
  split at ha
  · cases ha
  · split at ha
    · cases ha
    · rename_i hx
      cases ha
      exact h _ hx

theorem patchFields_checked {lang : Coercions} {body : Json} {a : Assignment}
    (h : .write a ∈ patchFields lang body) : a.Checked := by
  simp only [patchFields, List.mem_cons, List.not_mem_nil, or_false] at h
  rcases h with h | h | h | h | h
  · refine fieldPatch_checked ?_ h.symm
    exact fun _ hx => keyOrEmpty_of_emptyOr hx
  · refine fieldPatch_checked ?_ h.symm
    exact fun _ hx => addressOrEmpty_of_emptyOr hx
  · refine fieldPatch_checked ?_ h.symm
    exact fun _ _ => trivial
  · refine fieldPatch_checked ?_ h.symm
    exact fun _ _ => trivial
  · unfold patchAgentVersion at h
    split at h
    · cases h
    · split at h
      · cases h
        trivial
      · cases h

theorem readPort_checked {entry : Json} {e : PeerId × Int} (h : readPort entry = .ok e) :
    1 ≤ e.2 ∧ e.2 ≤ 65535 := by
  have hfields : ∀ {v w : Option Json}, (do
      let peerId ← check (isValidUUID v) "Invalid peerId in port entry"
      let port ← check (isValidPort w) "Invalid port number (1-65535)"
      return (peerId, port)) = Except.ok e → 1 ≤ e.2 ∧ e.2 ≤ 65535 := by
    intro v w hok
    simp only [bind_eq_ok, check_eq_ok] at hok
    obtain ⟨peerId, -, port, hport, hok⟩ := hok
    cases hok
    exact port_of_isValidPort hport
  unfold readPort at h
  split at h
  · exact hfields h
  · exact hfields h
  · cases h

theorem readPorts_checked {body : Json} {ports : List (PeerId × Int)}
    (h : readPorts body = .ok ports) : ∀ e ∈ ports, 1 ≤ e.2 ∧ e.2 ≤ 65535 := by
  have hmap : ∀ (items : List Json) (ports : List (PeerId × Int)),
      items.mapM readPort = .ok ports → ∀ e ∈ ports, 1 ≤ e.2 ∧ e.2 ≤ 65535 := by
    intro items
    induction items with
    | nil =>
      intro ports h e he
      cases h
      cases he
    | cons item rest ih =>
      intro ports h e he
      simp only [List.mapM_cons, bind_eq_ok] at h
      obtain ⟨first, hfirst, others, hothers, h⟩ := h
      cases h
      rcases List.mem_cons.mp he with rfl | he
      · exact readPort_checked hfirst
      · exact ih others hothers e he
  unfold readPorts at h
  split at h
  · split at h
    · exact hmap _ _ h
    · cases h
  · cases h

/-! ## The statements of each handler -/

section
variable {env : Env} (t : Tables)

theorem writes_patchRelayEnabled (id : NetworkId) (body : Json) :
    Updates t (patchRelayEnabled t id body) := by
  unfold patchRelayEnabled
  split
  · exact .refl
  · exact .single (.setRelayEnabled id _)

theorem answerNetwork_fst (id : NetworkId) : (answerNetwork t id).1 = t := by
  unfold answerNetwork
  split <;> rfl

/-- A `POST /api/networks` is answered with an error, or stores the network. -/
theorem postNetworks_cases (authorization : Option JsString) (body : Option Json)
    (draws : Draws) :
    ((postNetworks env t authorization body draws).1 = t ∧
        (postNetworks env t authorization body draws).2.status ≠ 201) ∨
      ∃ given row t' response, body = some given ∧
        bindAwg (bodyAwg given) draws.awg = some row.awg ∧
        t.insertNetwork draws.id row = .ok t' ∧
        postNetworks env t authorization body draws = (t', ⟨201, response⟩) := by
  have hreject : ∀ {status : Nat} {text : String} {out : Tables × Response}, status ≠ 201 →
      reject t status text = out → out.1 = t ∧ out.2.status ≠ 201 := by
    rintro status text out hstatus rfl
    exact ⟨rfl, hstatus⟩
  generalize hout : postNetworks env t authorization body draws = out
  unfold postNetworks at hout
  split at hout
  · rename_i deny hdeny
    unfold requireAdmin at hdeny
    split at hdeny
    · cases hdeny
    · cases hdeny
      rw [← hout]
      exact Or.inl ⟨rfl, by simp [unauthorized]⟩
  · split at hout
    · exact Or.inl (hreject (by decide) hout)
    · rw [← hout]
      exact Or.inl ⟨rfl, by simp [crash]⟩
    · split at hout
      · exact Or.inl (hreject (by decide) hout)
      · split at hout
        · exact Or.inl (hreject (by decide) hout)
        · rename_i hawg
          dsimp only at hout
          split at hout
          · exact Or.inl (hreject (by decide) hout)
          · exact Or.inl (hreject (by decide) hout)
          · rename_i hok
            exact Or.inr ⟨_, _, _, _, rfl, hawg, hok, hout.symm⟩

/-- An accepted request stores the network it was sent for. -/
theorem created_of_status {authorization : Option JsString} {body : Option Json} {draws : Draws}
    (h : (postNetworks env t authorization body draws).2.status = 201) :
    Created env draws t (postNetworks env t authorization body draws).1
      (.postNetworks authorization body) := by
  rcases @postNetworks_cases env t authorization body draws with
    ⟨-, hrefused⟩ | ⟨given, row, t', response, rfl, hawg, hok, hout⟩
  · exact absurd h hrefused
  · refine .insert hawg ?_ h
    rw [hout]
    exact hok

theorem writes_postNetworks (authorization : Option JsString) (body : Option Json)
    (draws : Draws) :
    (postNetworks env t authorization body draws).1 = t ∨
      Created env draws t (postNetworks env t authorization body draws).1
        (.postNetworks authorization body) := by
  rcases @postNetworks_cases env t authorization body draws with
    hsame | ⟨_, _, _, _, -, -, -, hout⟩
  · exact Or.inl hsame.1
  · exact Or.inr (created_of_status t (by rw [hout]))

theorem writes_patchNetwork (authorization : Option JsString) (id : NetworkId)
    (body : Option Json) : Updates t (patchNetwork env t authorization id body).1 := by
  unfold patchNetwork
  split
  · exact .refl
  · split
    · exact .refl
    · exact .refl
    · split
      · rw [answerNetwork_fst]
        exact writes_patchRelayEnabled t id _
      · split
        · exact .refl
        · dsimp only
          split
          · exact .refl
          · split
            · exact .refl
            · rename_i hok
              rw [answerNetwork_fst]
              exact .head (.renameNetwork hok) (writes_patchRelayEnabled _ id _)

theorem writes_postPeers (authorization : Option JsString) (body : Option Json) (draws : Draws) :
    (postPeers env t authorization body draws).1 = t ∨
      Registered env.lang t (postPeers env t authorization body draws).1 := by
  unfold postPeers
  split
  · exact Or.inl rfl
  · exact Or.inl rfl
  · split
    · exact Or.inl rfl
    · rename_i hnew
      split
      · exact Or.inl rfl
      · split
        · exact Or.inl rfl
        · split
          · exact Or.inl rfl
          · rename_i hip
            split
            · exact Or.inl rfl
            · dsimp only
              split
              · exact Or.inl rfl
              · exact Or.inl rfl
              · rename_i hok
                have hchecked := readNewPeer_checked hnew
                exact Or.inr (.insert hip hchecked.1 hchecked.2 hok)

theorem writes_upsertPorts {t' : Tables} {peerId : PeerId} {ports : List (PeerId × Int)}
    (hports : ∀ e ∈ ports, 1 ≤ e.2 ∧ e.2 ≤ 65535) (h : upsertPorts t peerId ports = .ok t') :
    Updates t t' := by
  refine foldlM_invariant (I := Updates t) ports (fun t1 t2 e he hupdates hok => ?_) .refl h
  obtain ⟨hlow, hhigh⟩ := hports e he
  exact hupdates.tail (.upsertPort hlow hhigh hok)

theorem writes_putPortsBody (peerId : PeerId) (body : Option Json) :
    Updates t (putPortsBody t peerId body).1 := by
  unfold putPortsBody
  split
  · exact .refl
  · split
    · exact .refl
    · rename_i hports
      split
      · exact .refl
      · rename_i hok
        exact writes_upsertPorts t (readPorts_checked hports) hok

theorem writes_applyFields (id : PeerId) (ps : List FieldPatch)
    (hps : ∀ a, .write a ∈ ps → a.Checked) : Updates t (applyFields t id ps).1 := by
  induction ps generalizing t with
  | nil => exact .refl
  | cons p rest ih =>
    have hrest : ∀ a, .write a ∈ rest → a.Checked := fun a ha => hps a (by simp [ha])
    cases p with
    | absent => exact ih t hrest
    | invalid text => exact .refl
    | write a => exact .head (.updatePeer id (hps a (by simp))) (ih (t.updatePeer id a) hrest)

theorem writes_patchPeerFields (id : PeerId) (body : Json) :
    Updates t (patchPeerFields env t id body).1 := by
  have hfst : (patchPeerFields env t id body).1 =
      (applyFields t id (patchFields env.lang body)).1 := by
    unfold patchPeerFields
    split
    · rename_i he
      rw [he]
      rfl
    · rename_i he
      rw [he]
      dsimp only
      split <;> rfl
  rw [hfst]
  exact writes_applyFields t id _ fun a ha => patchFields_checked ha

theorem writes_patchPeer (authorization : Option JsString) (id : PeerId) (body : Option Json) :
    Updates t (patchPeer env t authorization id body).1 := by
  unfold patchPeer
  split
  · exact .refl
  · split
    · exact .refl
    · split
      · exact .refl
      · split
        · exact .refl
        · exact writes_patchPeerFields t id _

theorem writes_getConfig (authorization : Option JsString) (peerId : PeerId) (draws : Draws) :
    Updates t (getConfig env t authorization peerId draws).1 := by
  unfold getConfig
  split
  · exact .refl
  · split
    · exact .refl
    · dsimp only
      split
      · exact .single (.updatePeer peerId trivial)
      · exact .single (.updatePeer peerId trivial)

theorem writes_postForceMode (authorization : Option JsString) (body : Option Json) :
    Updates t (postForceMode env t authorization body).1 := by
  unfold postForceMode
  split
  · exact .refl
  · split
    · exact .refl
    · exact .refl
    · split
      · split
        · exact .refl
        · split
          · split
            · exact .single (.setForcedMode _ _ _)
            · exact .refl
          · exact .refl
      · exact .refl

theorem writes_deleteNetwork (authorization : Option JsString) (id : NetworkId) :
    Updates t (deleteNetwork env t authorization id).1 := by
  unfold deleteNetwork
  split
  · exact .refl
  · exact .single (.deleteNetwork id)

theorem writes_deletePeer (authorization : Option JsString) (id : PeerId) :
    Updates t (deletePeer env t authorization id).1 := by
  unfold deletePeer
  split
  · exact .refl
  · split
    · exact .refl
    · exact .single (.deletePeers _)

theorem writes_putPorts (authorization : Option JsString) (peerId : PeerId)
    (body : Option Json) : Updates t (putPorts env t authorization peerId body).1 := by
  unfold putPorts
  split
  · exact .refl
  · exact writes_putPortsBody t peerId body

/-- What one request does to the tables. -/
theorem handle_writes (draws : Draws) (request : Request) :
    Updates t (handle env t draws request).1 ∨
      Registered env.lang t (handle env t draws request).1 ∨
      Created env draws t (handle env t draws request).1 request := by
  have hsame : ∀ {t' : Tables}, t' = t → Updates t t' := by
    rintro _ rfl
    exact .refl
  cases request with
  | postNetworks authorization body =>
    exact (writes_postNetworks t authorization body draws).imp hsame Or.inr
  | deleteNetwork authorization id => exact Or.inl (writes_deleteNetwork t authorization id)
  | patchNetwork authorization id body => exact Or.inl (writes_patchNetwork t authorization id body)
  | postPeers authorization body =>
    exact (writes_postPeers t authorization body draws).imp hsame Or.inl
  | deletePeer authorization id => exact Or.inl (writes_deletePeer t authorization id)
  | putPorts authorization peerId body =>
    exact Or.inl (writes_putPorts t authorization peerId body)
  | getConfig authorization peerId => exact Or.inl (writes_getConfig t authorization peerId draws)
  | postForceMode authorization body => exact Or.inl (writes_postForceMode t authorization body)
  | patchPeer authorization id body => exact Or.inl (writes_patchPeer t authorization id body)

end

/-- **One step.**  It executes a sequence of checked statements, registers a peer or creates
a network. -/
theorem step_writes (env : Env) (s : ApiState) (e : Event) :
    Updates s.tables (step env s e).tables ∨ Registered env.lang s.tables (step env s e).tables ∨
      ∃ request draws, e = .serve request draws ∧
        Created env draws s.tables (step env s e).tables request := by
  cases e with
  | serve request draws =>
    rcases @handle_writes env s.tables draws request with h | h | h
    · exact Or.inl h
    · exact Or.inr (Or.inl h)
    · exact Or.inr (Or.inr ⟨request, draws, rfl, h⟩)
  | openPorts authorization peerId =>
    left
    simp only [step]
    split <;> exact .refl
  | portsBody index body =>
    left
    simp only [step]
    split
    · exact .refl
    · exact writes_putPortsBody s.tables _ body
  | reap now deleteFails =>
    left
    show Updates s.tables (reap s.tables now deleteFails)
    unfold reap
    split
    · exact .refl
    · exact .single (.deletePeers _)

/-- What every statement keeps, a sequence of them keeps. -/
theorem updates_keep {I : Tables → Prop} (hupdate : ∀ t t', I t → Update t t' → I t')
    {t t' : Tables} (ht : I t) (h : Updates t t') : I t' := by
  induction h with
  | refl => exact ht
  | tail _ hlast ih => exact hupdate _ _ ih hlast

/-- **Invariants of the tables.**  What every statement keeps holds along every run that
starts with it. -/
theorem exec_invariant {env : Env} {I : Tables → Prop} (hempty : I .empty)
    (hupdate : ∀ t t', I t → Update t t' → I t')
    (hregister : ∀ t t', I t → Registered env.lang t t' → I t')
    (hcreate : ∀ t t' draws request, I t → Created env draws t t' request → I t')
    (es : List Event) : I (exec env es).tables := by
  refine run_invariant (step env) (I := fun s => I s.tables) ?_ hempty es
  intro s e hs
  rcases step_writes env s e with h | h | ⟨request, draws, -, h⟩
  · exact updates_keep hupdate hs h
  · exact hregister _ _ hs h
  · exact hcreate _ _ _ _ hs h

end Meshezia.Api
