import Meshezia.Api.Registration
import Meshezia.System.Mesh

/-!
# How an agent joins

`boot` of the agent and the server.  The agent reads its keys, or makes them
(`getOrCreateKeypair`); then it registers with its name and files the id it has got, or, when
an id is filed, it updates its peer.  It may be killed at any point, also while it writes a file,
which is then empty; a request or its answer may get lost; and others use the server meanwhile.

A step is one of a few cases (`EnrolCase`, `Enrolled`).  From them:

    EnrolInv env boot s          what is on the disk belongs to the agent, and its peer too
    KeyKnown env s               the server has its key

so that an agent that runs has its keys and its id on the disk, and every later one on that disk
has the same                                                               (identity_stays)
-/

namespace Meshezia

/-! ## The model -/

structure Keypair where
  privateKey : JsString
  pubkey : JsString
deriving DecidableEq, Repr

/-- The files of `DATA_DIR` that `boot` uses, by the line they hold.  A file that was cut short is
empty; in `state.json` that is no JSON. -/
structure Disk where
  privateKey : Option JsString
  pubkey : Option JsString
  state : Option (Option PeerId)
deriving DecidableEq, Repr

/-- Where `getOrCreateKeypair` is killed. -/
inductive KeyCut where
  | inPrivateKey
  | between
  | inPubkey
deriving DecidableEq, Repr

namespace Disk

def empty : Disk := ⟨none, none, none⟩

/-- `loadPeerId`; its caller takes an empty id for none. -/
def loadPeerId (disk : Disk) : Option PeerId := disk.state.join.filter fun id => !id.isEmpty

/-- `getOrCreateKeypair`: both files are read, or both are written. -/
def getOrCreateKeypair (awgPubkey : JsString → JsString) (disk : Disk) (genkey : JsString)
    (cut : Option KeyCut) : Disk × Option Keypair :=
  match disk.privateKey, disk.pubkey with
  | some privateKey, some pubkey => (disk, some ⟨privateKey, pubkey⟩)
  | _, _ =>
    match cut with
    | some .inPrivateKey => ({ disk with privateKey := some [] }, none)
    | some .between => ({ disk with privateKey := some genkey }, none)
    | some .inPubkey => ({ disk with privateKey := some genkey, pubkey := some [] }, none)
    | none =>
      ({ disk with privateKey := some genkey, pubkey := some (awgPubkey genkey) },
        some ⟨genkey, awgPubkey genkey⟩)

end Disk

/-- How far `boot` is. -/
inductive BootStage where
  | off
  | keyed (keys : Keypair)
  | registered (keys : Keypair) (id : PeerId)
  | running (keys : Keypair) (id : PeerId)
deriving DecidableEq, Repr

/-- What an agent is started with; `awgPubkey` is the command `awg pubkey`. -/
structure BootConfig where
  args : Api.AgentArgs
  authorization : Option JsString
  awgPubkey : JsString → JsString

/-- The server with the requests it has got, and one agent on its disk. -/
structure Enrolment where
  requests : List Api.Event
  disk : Disk
  stage : BootStage

/-- The keys that `boot` works with. -/
def BootStage.keys? : BootStage → Option Keypair
  | .off => none
  | .keyed keys | .registered keys _ | .running keys _ => some keys

/-- The id that is registered but not filed. -/
def BootStage.unsaved? : BootStage → Option PeerId
  | .registered _ id => some id
  | _ => none

inductive EnrolEvent where
  | request (e : Api.Event)
  | boot (genkey : JsString) (cut : Option KeyCut)
  | enrol (publicIp : JsString) (delivery : Delivery) (now : Api.Draws)
  | save (cut : Bool)
  | stop

namespace Enrolment

def tables (env : Api.Env) (s : Enrolment) : Api.Tables := (Api.exec env s.requests).tables

/-- The ids that registrations have drawn. -/
def drawn (s : Enrolment) : List PeerId := s.requests.filterMap Api.drawnPeer

def ask (s : Enrolment) (e : Api.Event) : Enrolment := { s with requests := s.requests ++ [e] }

/-- `ApiClient.request`, with what its caller gets; `none` when it throws. -/
def call (env : Api.Env) (s : Enrolment) (request : Api.Request) (delivery : Delivery)
    (now : Api.Draws) : Enrolment × Option Api.ResponseBody :=
  let answer := (Api.handle env (s.tables env) now request).2
  match delivery with
  | .lost => (s, none)
  | .unheard => (s.ask (.serve request now), none)
  | .answered =>
    (s.ask (.serve request now),
      if 200 ≤ answer.status ∧ answer.status < 300 then some answer.body else none)

end Enrolment

abbrev BootConfig.register (boot : BootConfig) (publicIp pubkey : JsString) : Api.Request :=
  .postPeers boot.authorization (some (boot.args.registerBody publicIp pubkey))

abbrev BootConfig.update (boot : BootConfig) (id : PeerId) (publicIp pubkey : JsString) : Api.Request :=
  .patchPeer boot.authorization id (some (boot.args.updateBody publicIp pubkey))

namespace Enrolment

/-- `boot` from the keys to the answer of the server; what throws ends the process. -/
def enrol (env : Api.Env) (boot : BootConfig) (s : Enrolment) (keys : Keypair) (publicIp : JsString)
    (delivery : Delivery) (now : Api.Draws) : Enrolment :=
  match s.disk.loadPeerId with
  | none =>
    match s.call env (boot.register publicIp keys.pubkey) delivery now with
    | (s', some (.peer peer)) => { s' with stage := .registered keys peer.id }
    | (s', _) => { s' with stage := .off }
  | some id =>
    match s.call env (boot.update id publicIp keys.pubkey) delivery now with
    | (s', some _) => { s' with stage := .running keys id }
    | (s', none) => { s' with stage := .off }

/-- `savePeerId`, which may be killed. -/
def save (s : Enrolment) (keys : Keypair) (id : PeerId) (cut : Bool) : Enrolment :=
  if cut then { s with disk := { s.disk with state := some none }, stage := .off }
  else { s with disk := { s.disk with state := some (some id) }, stage := .running keys id }

end Enrolment

def enrolStep (env : Api.Env) (boot : BootConfig) (s : Enrolment) : EnrolEvent → Enrolment
  | .request e => s.ask e
  | .boot genkey cut =>
    match s.stage with
    | .off =>
      match s.disk.getOrCreateKeypair boot.awgPubkey genkey cut with
      | (disk, some keys) => { s with disk, stage := .keyed keys }
      | (disk, none) => { s with disk }
    | _ => s
  | .enrol publicIp delivery now =>
    match s.stage with
    | .keyed keys => s.enrol env boot keys publicIp delivery now
    | _ => s
  | .save cut =>
    match s.stage with
    | .registered keys id => s.save keys id cut
    | _ => s
  | .stop => { s with stage := .off }

/-- A new agent and a server without data. -/
def noEnrolment : Enrolment := ⟨[], .empty, .off⟩

/-! ## What a boot does to the tables -/

section
variable {env : Api.Env} {boot : BootConfig} {s : Enrolment} {keys : Keypair} {publicIp : JsString}
  {delivery : Delivery} {now : Api.Draws}

theorem tables_ask_serve (env : Api.Env) (s : Enrolment) (request : Api.Request) (now : Api.Draws) :
    (s.ask (.serve request now)).tables env = (Api.handle env (s.tables env) now request).1 :=
  congrArg Api.ApiState.tables (Api.exec_concat env s.requests (.serve request now))

/-- What `enrol` does: nothing arrives, or a registration is refused, or it is taken, or an
update is made. -/
inductive Enrolled (env : Api.Env) (boot : BootConfig) (s : Enrolment) (keys : Keypair)
    (publicIp : JsString) (delivery : Delivery) (now : Api.Draws) : Enrolment → Prop where
  | unsent : delivery = .lost → Enrolled env boot s keys publicIp delivery now { s with stage := .off }
  | refused : s.disk.loadPeerId = none → delivery ≠ .lost →
      (s.ask (.serve (boot.register publicIp keys.pubkey) now)).tables env = s.tables env →
      400 ≤ (Api.handle env (s.tables env) now (boot.register publicIp keys.pubkey)).2.status →
      Enrolled env boot s keys publicIp delivery now
        { s.ask (.serve (boot.register publicIp keys.pubkey) now) with stage := .off }
  | taken (row : Api.PeerRecord) : s.disk.loadPeerId = none → delivery ≠ .lost →
      (s.tables env).insertPeer now.id row =
        .ok ((s.ask (.serve (boot.register publicIp keys.pubkey) now)).tables env) →
      row.networkId = boot.args.networkId → row.name = boot.args.name → row.pubkey = keys.pubkey →
      (Api.handle env (s.tables env) now (boot.register publicIp keys.pubkey)).2.status = 201 →
      Enrolled env boot s keys publicIp delivery now
        { s.ask (.serve (boot.register publicIp keys.pubkey) now) with
          stage := if delivery = .answered then .registered keys now.id else .off }
  | updated (id : PeerId) : s.disk.loadPeerId = some id → delivery ≠ .lost →
      ((Api.handle env (s.tables env) now (boot.update id publicIp keys.pubkey)).2.status = 200 →
        (((s.ask (.serve (boot.update id publicIp keys.pubkey) now)).tables env).peers.get? id).map
          Api.PeerRecord.pubkey = some keys.pubkey) →
      Enrolled env boot s keys publicIp delivery now
        { s.ask (.serve (boot.update id publicIp keys.pubkey) now) with
          stage := if delivery = .answered ∧
            (Api.handle env (s.tables env) now (boot.update id publicIp keys.pubkey)).2.status = 200
            then .running keys id else .off }

theorem call_answered_ok {request : Api.Request} {answer : Api.Response}
    (hanswer : (Api.handle env (s.tables env) now request).2 = answer)
    (h : 200 ≤ answer.status ∧ answer.status < 300) :
    s.call env request .answered now = (s.ask (.serve request now), some answer.body) := by
  subst hanswer
  show (_, if _ then _ else _) = _
  rw [if_pos h]

theorem call_answered_failed {request : Api.Request}
    (h : 400 ≤ (Api.handle env (s.tables env) now request).2.status) :
    s.call env request .answered now = (s.ask (.serve request now), none) := by
  show (_, if _ then _ else _) = _
  rw [if_neg (by omega)]

theorem enrolled_enrol (env : Api.Env) (boot : BootConfig) (s : Enrolment) (keys : Keypair)
    (publicIp : JsString) (delivery : Delivery) (now : Api.Draws) :
    Enrolled env boot s keys publicIp delivery now
      (s.enrol env boot keys publicIp delivery now) := by
  by_cases hlost : delivery = .lost
  · subst hlost
    have he : s.enrol env boot keys publicIp .lost now = { s with stage := .off } := by
      unfold Enrolment.enrol
      cases s.disk.loadPeerId <;> rfl
    rw [he]
    exact .unsent rfl
  cases hid : s.disk.loadPeerId with
  | none =>
    have he : s.enrol env boot keys publicIp delivery now =
        match s.call env (boot.register publicIp keys.pubkey) delivery now with
        | (s', some (.peer peer)) => { s' with stage := .registered keys peer.id }
        | (s', _) => { s' with stage := .off } := by
      unfold Enrolment.enrol
      rw [hid]
    rcases Api.register_cases env (s.tables env) now boot.authorization boot.args publicIp
      keys.pubkey with ⟨row, hanswer, hok, hnet, hname, hkey, -⟩ | ⟨hstatus, hsame⟩
    · have hanswer : (Api.handle env (s.tables env) now (boot.register publicIp keys.pubkey)).2 =
          ⟨201, .peer (Api.formatPeer now.id row)⟩ := hanswer
      have htaken : Enrolled env boot s keys publicIp delivery now _ :=
        .taken row hid hlost (by rw [tables_ask_serve]; exact hok) hnet hname hkey (by rw [hanswer])
      cases delivery with
      | lost => exact absurd rfl hlost
      | unheard =>
        rw [he]
        exact htaken
      | answered =>
        rw [he, call_answered_ok hanswer ⟨show 200 ≤ 201 by decide, show 201 < 300 by decide⟩]
        exact htaken
    · have hrefused : Enrolled env boot s keys publicIp delivery now _ :=
        .refused hid hlost ((tables_ask_serve env s _ now).trans hsame) hstatus
      cases delivery with
      | lost => exact absurd rfl hlost
      | unheard =>
        rw [he]
        exact hrefused
      | answered =>
        rw [he, call_answered_failed hstatus]
        exact hrefused
  | some id =>
    have he : s.enrol env boot keys publicIp delivery now =
        match s.call env (boot.update id publicIp keys.pubkey) delivery now with
        | (s', some _) => { s' with stage := .running keys id }
        | (s', none) => { s' with stage := .off } := by
      unfold Enrolment.enrol
      rw [hid]
    have hcases := Api.update_cases env (s.tables env) now boot.authorization boot.args publicIp
      keys.pubkey id
    have hupdated : Enrolled env boot s keys publicIp delivery now _ :=
      .updated id hid hlost fun h200 => by
        rw [tables_ask_serve]
        rcases hcases with ⟨-, -, hkey⟩ | hlow
        · exact hkey
        · exact absurd (h200 ▸ hlow : 400 ≤ 200) (by decide)
    cases delivery with
    | lost => exact absurd rfl hlost
    | unheard =>
      rw [he]
      exact hupdated
    | answered =>
      rcases hcases with ⟨h200, -, -⟩ | hlow
      · rw [if_pos ⟨rfl, h200⟩] at hupdated
        rw [he, call_answered_ok rfl ⟨h200 ▸ (by decide : 200 ≤ 200), h200 ▸ (by decide : 200 < 300)⟩]
        exact hupdated
      · have hne : ∀ n : Nat, 400 ≤ n → ¬ n = 200 := by omega
        rw [if_neg fun h => hne _ hlow h.2] at hupdated
        rw [he, call_answered_failed hlow]
        exact hupdated

end

/-- What a step does, by its event and the stage. -/
inductive EnrolCase (env : Api.Env) (boot : BootConfig) (s : Enrolment) : EnrolEvent → Enrolment → Prop where
  | request (e : Api.Event) : EnrolCase env boot s (.request e) (s.ask e)
  | boot (genkey : JsString) (cut : Option KeyCut) {disk : Disk} {result : Option Keypair} :
      s.stage = .off → s.disk.getOrCreateKeypair boot.awgPubkey genkey cut = (disk, result) →
      EnrolCase env boot s (.boot genkey cut) { s with disk, stage := result.elim .off .keyed }
  | bootIdle (genkey : JsString) (cut : Option KeyCut) : EnrolCase env boot s (.boot genkey cut) s
  | enrol {publicIp : JsString} {delivery : Delivery} {now : Api.Draws} {keys : Keypair}
      {s' : Enrolment} : s.stage = .keyed keys →
      Enrolled env boot s keys publicIp delivery now s' →
      EnrolCase env boot s (.enrol publicIp delivery now) s'
  | enrolIdle (publicIp : JsString) (delivery : Delivery) (now : Api.Draws) :
      (∀ keys, s.stage ≠ .keyed keys) → EnrolCase env boot s (.enrol publicIp delivery now) s
  | cut {keys : Keypair} {id : PeerId} : s.stage = .registered keys id →
      EnrolCase env boot s (.save true)
        { s with disk := { s.disk with state := some none }, stage := .off }
  | saved {keys : Keypair} {id : PeerId} : s.stage = .registered keys id →
      EnrolCase env boot s (.save false)
        { s with disk := { s.disk with state := some (some id) }, stage := .running keys id }
  | saveIdle (cut : Bool) : (∀ keys id, s.stage ≠ .registered keys id) →
      EnrolCase env boot s (.save cut) s
  | stop : EnrolCase env boot s .stop { s with stage := .off }

theorem enrolCase_enrolStep (env : Api.Env) (boot : BootConfig) (s : Enrolment) (e : EnrolEvent) :
    EnrolCase env boot s e (enrolStep env boot s e) := by
  obtain ⟨requests, disk, stage⟩ := s
  cases e with
  | request e => exact .request e
  | boot genkey cut =>
    cases stage with
    | off =>
      have hcase := fun disk' result => @EnrolCase.boot env boot ⟨requests, disk, .off⟩ genkey cut
        disk' result rfl
      simp only [enrolStep]
      split
      · rename_i heq
        exact hcase _ _ heq
      · rename_i heq
        exact hcase _ _ heq
    | keyed keys => exact .bootIdle genkey cut
    | registered keys id => exact .bootIdle genkey cut
    | running keys id => exact .bootIdle genkey cut
  | enrol publicIp delivery now =>
    cases stage with
    | keyed keys => exact .enrol rfl (enrolled_enrol env boot _ keys publicIp delivery now)
    | off => exact .enrolIdle publicIp delivery now (fun keys h => by cases h)
    | registered keys id => exact .enrolIdle publicIp delivery now (fun keys h => by cases h)
    | running keys id => exact .enrolIdle publicIp delivery now (fun keys h => by cases h)
  | save cut =>
    cases stage with
    | registered keys id =>
      cases cut with
      | true => exact .cut rfl
      | false => exact .saved rfl
    | off => exact .saveIdle cut (fun keys id h => by cases h)
    | keyed keys => exact .saveIdle cut (fun keys id h => by cases h)
    | running keys id => exact .saveIdle cut (fun keys id h => by cases h)
  | stop => exact .stop

/-! ## The ids -/

section
variable {env : Api.Env} {boot : BootConfig} {s : Enrolment} {e : EnrolEvent}

theorem Enrolled.requests {keys : Keypair} {publicIp : JsString} {delivery : Delivery}
    {now : Api.Draws} {s' : Enrolment} (h : Enrolled env boot s keys publicIp delivery now s') :
    s'.requests = s.requests ∨ ∃ x, s'.requests = s.requests ++ [x] := by
  cases h with
  | unsent => exact Or.inl rfl
  | refused => exact Or.inr ⟨_, rfl⟩
  | taken => exact Or.inr ⟨_, rfl⟩
  | updated => exact Or.inr ⟨_, rfl⟩

/-- A step makes at most one request. -/
theorem requests_enrolStep (env : Api.Env) (boot : BootConfig) (s : Enrolment) (e : EnrolEvent) :
    (enrolStep env boot s e).requests = s.requests ∨
      ∃ x, (enrolStep env boot s e).requests = s.requests ++ [x] := by
  have hcase := enrolCase_enrolStep env boot s e
  generalize enrolStep env boot s e = s' at hcase
  cases hcase with
  | request x => exact Or.inr ⟨x, rfl⟩
  | enrol _ henrol => exact henrol.requests
  | _ => exact Or.inl rfl

theorem drawn_grows (env : Api.Env) (boot : BootConfig) (s : Enrolment) (e : EnrolEvent) :
    s.drawn <+: (enrolStep env boot s e).drawn := by
  unfold Enrolment.drawn
  rcases requests_enrolStep env boot s e with h | ⟨x, h⟩
  · simp only [h, List.prefix_rfl]
  · rw [h, List.filterMap_append]
    exact List.prefix_append _ _

theorem drawn_grows_run (env : Api.Env) (boot : BootConfig) (s : Enrolment) (es : List EnrolEvent) :
    s.drawn <+: (run (enrolStep env boot) s es).drawn := by
  induction es generalizing s with
  | nil => exact List.prefix_rfl
  | cons e es ih => exact (drawn_grows env boot s e).trans (ih _)

/-- The ids that have been drawn, as `crypto.randomUUID` draws them. -/
structure FreshIds (s : Enrolment) : Prop where
  nodup : s.drawn.Nodup
  nonempty : [] ∉ s.drawn

theorem FreshIds.before {es : List EnrolEvent}
    (h : FreshIds (run (enrolStep env boot) s es)) : FreshIds s :=
  ⟨h.nodup.sublist (drawn_grows_run env boot s es).sublist,
    fun hmem => h.nonempty ((drawn_grows_run env boot s es).subset hmem)⟩

/-- A peer that has been registered and is there keeps its network and its name. -/
theorem row_before (hfresh : FreshIds (enrolStep env boot s e)) {id : PeerId} (hid : id ∈ s.drawn)
    {row' : Api.PeerRecord}
    (hrow' : ((enrolStep env boot s e).tables env).peers.get? id = some row') :
    ∃ row, (s.tables env).peers.get? id = some row ∧ row'.networkId = row.networkId ∧
      row'.name = row.name := by
  unfold Enrolment.tables at hrow' ⊢
  rcases requests_enrolStep env boot s e with h | ⟨x, h⟩
  · rw [h] at hrow'
    exact ⟨row', hrow', rfl, rfl⟩
  · rw [h, Api.exec_concat] at hrow'
    refine Api.peer_before (fun hdrawn => ?_) hrow'
    have hnodup := hfresh.nodup
    unfold Enrolment.drawn at hnodup
    rw [h, List.filterMap_append, List.nodup_append] at hnodup
    exact hnodup.2.2 id hid id (by simp [hdrawn]) rfl

end

/-! ## The disk -/

/-- Both key files are there or are made anew: the private key comes first. -/
def KeyFiles (boot : BootConfig) (disk : Disk) : Prop :=
  ∀ pubkey, disk.pubkey = some pubkey → ∃ privateKey, disk.privateKey = some privateKey ∧
    (pubkey = boot.awgPubkey privateKey ∨ pubkey = [])

section
variable {boot : BootConfig} {disk disk' : Disk} {genkey : JsString} {cut : Option KeyCut}
  {keys : Keypair}

/-- `getOrCreateKeypair` leaves two files as they are, and what it returns is in them. -/
theorem getOrCreateKeypair_spec {result : Option Keypair} (hfiles : KeyFiles boot disk)
    (h : disk.getOrCreateKeypair boot.awgPubkey genkey cut = (disk', result)) :
    KeyFiles boot disk' ∧ disk'.state = disk.state ∧
      (∀ privateKey pubkey, disk.privateKey = some privateKey → disk.pubkey = some pubkey →
        disk'.privateKey = some privateKey ∧ disk'.pubkey = some pubkey) ∧
      (∀ keys, result = some keys → disk'.privateKey = some keys.privateKey ∧
        disk'.pubkey = some keys.pubkey) := by
  unfold Disk.getOrCreateKeypair at h
  split at h
  · rename_i privateKey pubkey hprivate hpubkey
    cases h
    refine ⟨hfiles, rfl, fun a b ha hb => ⟨ha, hb⟩, fun keys hkeys => ?_⟩
    cases hkeys
    exact ⟨hprivate, hpubkey⟩
  · rename_i hmissing
    have hone : ∀ privateKey pubkey, disk.privateKey = some privateKey →
        disk.pubkey = some pubkey → False := hmissing
    have hnone : disk.pubkey = none := by
      refine Option.eq_none_iff_forall_ne_some.mpr fun pubkey hpubkey => ?_
      obtain ⟨privateKey, hprivate, -⟩ := hfiles pubkey hpubkey
      exact hone privateKey pubkey hprivate hpubkey
    split at h <;> cases h
    · exact ⟨fun k hk => absurd (hnone ▸ hk) (by simp), rfl,
        fun a b ha hb => (hone a b ha hb).elim, fun keys hkeys => by cases hkeys⟩
    · exact ⟨fun k hk => absurd (hnone ▸ hk) (by simp), rfl,
        fun a b ha hb => (hone a b ha hb).elim, fun keys hkeys => by cases hkeys⟩
    · refine ⟨fun k hk => ⟨genkey, rfl, Or.inr ?_⟩, rfl,
        fun a b ha hb => (hone a b ha hb).elim, fun keys hkeys => by cases hkeys⟩
      cases hk
      rfl
    · refine ⟨fun k hk => ⟨genkey, rfl, Or.inl ?_⟩, rfl,
        fun a b ha hb => (hone a b ha hb).elim, fun keys hkeys => ?_⟩
      · cases hk
        rfl
      · cases hkeys
        exact ⟨rfl, rfl⟩

end

/-! ## The identity -/

/-- The peer, as long as it is there, has the name of the agent. -/
def Own (env : Api.Env) (boot : BootConfig) (s : Enrolment) (id : PeerId) : Prop :=
  id ∈ s.drawn ∧ ∀ row, (s.tables env).peers.get? id = some row →
    row.networkId = boot.args.networkId ∧ row.name = boot.args.name

/-- What holds of an agent and its disk. -/
structure EnrolInv (env : Api.Env) (boot : BootConfig) (s : Enrolment) : Prop where
  files : KeyFiles boot s.disk
  keys : ∀ keys, s.stage.keys? = some keys →
    s.disk.privateKey = some keys.privateKey ∧ s.disk.pubkey = some keys.pubkey
  filed : ∀ id, s.disk.loadPeerId = some id → Own env boot s id
  unsaved : ∀ id, s.stage.unsaved? = some id → s.disk.loadPeerId = none ∧ Own env boot s id
  running : ∀ keys id, s.stage = .running keys id → s.disk.loadPeerId = some id

section
variable {env : Api.Env} {boot : BootConfig} {s : Enrolment} {e : EnrolEvent}

theorem Own.later (hfresh : FreshIds (enrolStep env boot s e)) {id : PeerId}
    (h : Own env boot s id) : Own env boot (enrolStep env boot s e) id := by
  refine ⟨(drawn_grows env boot s e).subset h.1, fun row' hrow' => ?_⟩
  obtain ⟨row, hrow, hnet, hname⟩ := row_before hfresh h.1 hrow'
  obtain ⟨h1, h2⟩ := h.2 row hrow
  exact ⟨hnet.trans h1, hname.trans h2⟩

/-- The id of a registration that has been taken. -/
theorem own_of_taken {s' : Enrolment} {id : PeerId} {row : Api.PeerRecord}
    (hok : (s.tables env).insertPeer id row = .ok (s'.tables env)) (hid : id ∈ s'.drawn)
    (hnet : row.networkId = boot.args.networkId) (hname : row.name = boot.args.name) :
    Own env boot s' id := by
  refine ⟨hid, fun row' hrow' => ?_⟩
  have hpeers : (s'.tables env).peers = (s.tables env).peers.set id row := by
    rw [(Api.Tables.insertPeer_ok hok).2.2]
  rw [hpeers, OMap.get?_set_self] at hrow'
  cases hrow'
  exact ⟨hnet, hname⟩

theorem loadPeerId_saved (disk : Disk) {id : PeerId} (hid : id ≠ []) :
    ({ disk with state := some (some id) } : Disk).loadPeerId = some id := by
  show (some id).filter (fun id => !id.isEmpty) = some id
  rw [Option.filter_some, if_pos (by simpa using hid)]

theorem enrolInv_off (hfiles : KeyFiles boot s.disk) (hstage : s.stage = .off)
    (hfiled : ∀ id, s.disk.loadPeerId = some id → Own env boot s id) : EnrolInv env boot s := by
  refine ⟨hfiles, fun keys hkeys => ?_, hfiled, fun id hid => ?_, fun keys id hrun => ?_⟩
  · rw [hstage] at hkeys
    cases hkeys
  · rw [hstage] at hid
    cases hid
  · rw [hstage] at hrun
    cases hrun

theorem EnrolInv.step (h : EnrolInv env boot s) (hfresh : FreshIds (enrolStep env boot s e)) :
    EnrolInv env boot (enrolStep env boot s e) := by
  have hlater := fun id => @Own.later env boot s e hfresh id
  have hcase := enrolCase_enrolStep env boot s e
  generalize enrolStep env boot s e = s' at hcase hlater hfresh
  cases hcase with
  | request x => exact ⟨h.files, h.keys, fun id hid => hlater id (h.filed id hid),
      fun id hid => ⟨(h.unsaved id hid).1, hlater id (h.unsaved id hid).2⟩, h.running⟩
  | @boot genkey cut disk result hoff hkeys =>
    obtain ⟨hfiles, hstate, -, hresult⟩ := getOrCreateKeypair_spec h.files hkeys
    have hfiled : ∀ id, disk.loadPeerId = some id → s.disk.loadPeerId = some id := by
      intro id hid
      unfold Disk.loadPeerId at hid ⊢
      rw [← hstate]
      exact hid
    refine ⟨hfiles, fun keys hstage => ?_, fun id hid => hlater id (h.filed id (hfiled id hid)),
      fun id hid => ?_, fun keys id hstage => ?_⟩
    · cases result with
      | none => cases hstage
      | some k =>
        cases hstage
        exact hresult _ rfl
    · cases result <;> cases hid
    · cases result <;> cases hstage
  | bootIdle genkey cut => exact h
  | @enrol publicIp delivery now keys _ hstage henrol =>
    have hkeys := h.keys keys (by rw [hstage]; rfl)
    cases henrol with
    | unsent => exact enrolInv_off h.files rfl h.filed
    | refused => exact enrolInv_off h.files rfl fun id hid => hlater id (h.filed id hid)
    | taken row hnone _ hok hnet hname hkey hstatus =>
      have hown : Own env boot { s.ask (.serve (boot.register publicIp keys.pubkey) now) with
          stage := if delivery = .answered then .registered keys now.id else .off } now.id :=
        own_of_taken hok (by simp [Enrolment.drawn, Enrolment.ask, Api.drawnPeer]) hnet hname
      refine ⟨h.files, fun k hk => ?_, fun id hid => hlater id (h.filed id hid), fun id hid => ?_,
        fun k id hrun => ?_⟩
      · split at hk
        · cases hk
          exact hkeys
        · cases hk
      · split at hid
        · cases hid
          exact ⟨hnone, hown⟩
        · cases hid
      · split at hrun <;> cases hrun
    | updated id hid _ hkey =>
      refine ⟨h.files, fun k hk => ?_, fun id hid => hlater id (h.filed id hid),
        fun id' hid' => ?_, fun k id' hrun => ?_⟩
      · split at hk
        · cases hk
          exact hkeys
        · cases hk
      · split at hid' <;> cases hid'
      · split at hrun
        · cases hrun
          exact hid
        · cases hrun
  | enrolIdle => exact h
  | cut hstage => exact enrolInv_off h.files rfl fun _ hid => by cases hid
  | @saved keys id hstage =>
    obtain ⟨-, hown⟩ := h.unsaved id (by rw [hstage]; rfl)
    have hne : id ≠ [] := by
      rintro rfl
      exact hfresh.nonempty hown.1
    refine ⟨h.files, fun k hk => ?_, fun id' hid' => ?_, fun id' hid' => ?_, fun k id' hrun => ?_⟩
    · cases hk
      exact h.keys keys (by rw [hstage]; rfl)
    · rw [loadPeerId_saved s.disk hne] at hid'
      cases hid'
      exact hown
    · cases hid'
    · cases hrun
      exact loadPeerId_saved s.disk hne
  | saveIdle => exact h
  | stop => exact enrolInv_off h.files rfl h.filed

theorem enrolInv_run {es : List EnrolEvent}
    (hfresh : FreshIds (run (enrolStep env boot) noEnrolment es)) :
    EnrolInv env boot (run (enrolStep env boot) noEnrolment es) := by
  induction es using List.reverseRecOn with
  | nil => exact enrolInv_off (fun _ hk => by cases hk) rfl fun _ hid => by cases hid
  | append_singleton es e ih =>
    rw [run_concat] at hfresh ⊢
    exact (ih (@FreshIds.before env boot _ [e] hfresh)).step hfresh

/-- The keys on the disk stay. -/
theorem keys_stay (h : EnrolInv env boot s) {privateKey pubkey : JsString}
    (hprivate : s.disk.privateKey = some privateKey) (hpubkey : s.disk.pubkey = some pubkey) :
    (enrolStep env boot s e).disk.privateKey = some privateKey ∧
      (enrolStep env boot s e).disk.pubkey = some pubkey := by
  have hcase := enrolCase_enrolStep env boot s e
  generalize enrolStep env boot s e = s' at hcase
  cases hcase with
  | boot genkey cut hoff hkeys =>
    exact (getOrCreateKeypair_spec h.files hkeys).2.2.1 _ _ hprivate hpubkey
  | enrol hstage henrol => cases henrol <;> exact ⟨hprivate, hpubkey⟩
  | _ => exact ⟨hprivate, hpubkey⟩

/-- So does the id. -/
theorem id_stays (h : EnrolInv env boot s) {id : PeerId} (hid : s.disk.loadPeerId = some id) :
    (enrolStep env boot s e).disk.loadPeerId = some id := by
  have hcase := enrolCase_enrolStep env boot s e
  generalize enrolStep env boot s e = s' at hcase
  have hsaved : ∀ {keys id'}, s.stage = .registered keys id' → False := by
    intro keys id' hstage
    have := (h.unsaved id' (by rw [hstage]; rfl)).1
    rw [hid] at this
    cases this
  cases hcase with
  | boot genkey cut hoff hkeys =>
    have hstate := (getOrCreateKeypair_spec h.files hkeys).2.1
    unfold Disk.loadPeerId at hid ⊢
    rw [hstate]
    exact hid
  | enrol hstage henrol => cases henrol <;> exact hid
  | cut hstage => exact (hsaved hstage).elim
  | saved hstage => exact (hsaved hstage).elim
  | _ => exact hid

/-- Both, in the rest of a run. -/
theorem identity_run {es : List EnrolEvent} (h : EnrolInv env boot s)
    (hfresh : FreshIds (run (enrolStep env boot) s es)) :
    EnrolInv env boot (run (enrolStep env boot) s es) ∧
    (∀ privateKey pubkey, s.disk.privateKey = some privateKey → s.disk.pubkey = some pubkey →
      (run (enrolStep env boot) s es).disk.privateKey = some privateKey ∧
        (run (enrolStep env boot) s es).disk.pubkey = some pubkey) ∧
    ∀ id, s.disk.loadPeerId = some id →
      (run (enrolStep env boot) s es).disk.loadPeerId = some id := by
  induction es generalizing s with
  | nil => exact ⟨h, fun _ _ h1 h2 => ⟨h1, h2⟩, fun _ hid => hid⟩
  | cons e es ih =>
    have hstep : FreshIds (enrolStep env boot s e) := @FreshIds.before env boot _ es hfresh
    obtain ⟨hinv, hkeys, hid⟩ := ih (h.step hstep) hfresh
    refine ⟨hinv, fun a b ha hb => ?_, fun id hfiled => hid id (id_stays h hfiled)⟩
    obtain ⟨ha', hb'⟩ := @keys_stay env boot s e h a b ha hb
    exact hkeys a b ha' hb'

/-! ## The key at the server -/

/-- A request of others leaves the keys of the peers alone. -/
def KeepsKeys (env : Api.Env) (boot : BootConfig) (s : Enrolment) : EnrolEvent → Prop
  | .request e => ∀ p row row', (s.tables env).peers.get? p = some row →
      ((enrolStep env boot s (.request e)).tables env).peers.get? p = some row' →
      row'.pubkey = row.pubkey
  | _ => True

/-- The server has the key of the agent. -/
def KeyKnown (env : Api.Env) (s : Enrolment) : Prop :=
  ∀ keys id row, s.stage = .registered keys id ∨ s.stage = .running keys id →
    (s.tables env).peers.get? id = some row → row.pubkey = keys.pubkey

theorem keyKnown_step (h : EnrolInv env boot s) (hknown : KeyKnown env s)
    (hkeeps : KeepsKeys env boot s e) (hfresh : FreshIds (enrolStep env boot s e)) :
    KeyKnown env (enrolStep env boot s e) := by
  have hoff : ∀ {s' : Enrolment}, s'.stage = .off → KeyKnown env s' := by
    intro s' hstage keys id row hrun
    rw [hstage] at hrun
    rcases hrun with hrun | hrun <;> cases hrun
  have hown : ∀ keys id, s.stage = .registered keys id ∨ s.stage = .running keys id →
      Own env boot s id := by
    rintro keys id (hstage | hstage)
    · exact (h.unsaved id (by rw [hstage]; rfl)).2
    · exact h.filed id (h.running keys id hstage)
  have hbefore := fun id => @row_before env boot s e hfresh id
  have hcase := enrolCase_enrolStep env boot s e
  generalize hs' : enrolStep env boot s e = s' at hcase hbefore hfresh
  cases hcase with
  | request x =>
    intro keys id row' hrun hrow'
    obtain ⟨row, hrow, -⟩ := hbefore id (hown keys id hrun).1 hrow'
    rw [hkeeps id row row' hrow hrow']
    exact hknown keys id row hrun hrow
  | @boot genkey cut disk result hstage hkeys =>
    intro keys id row hrun
    cases result <;> rcases hrun with hrun | hrun <;> cases hrun
  | bootIdle => exact hknown
  | @enrol publicIp delivery now keys _ hstage henrol =>
    cases henrol with
    | unsent => exact hoff rfl
    | refused => exact hoff rfl
    | taken row _ _ hok _ _ hkey =>
      intro k id row' hrun hrow'
      have hid : k = keys ∧ id = now.id := by
        rcases hrun with hrun | hrun <;> dsimp only at hrun <;> split at hrun <;> cases hrun
        exact ⟨rfl, rfl⟩
      obtain ⟨rfl, rfl⟩ := hid
      have hpeers := congrArg Api.Rows.peers (Api.Tables.insertPeer_ok hok).2.2
      replace hrow' : ((s.ask (.serve (boot.register publicIp k.pubkey) now)).tables env).peers.get?
        now.id = some row' := hrow'
      rw [hpeers, OMap.get?_set_self] at hrow'
      cases hrow'
      exact hkey
    | updated id hid _ hkey =>
      intro k id' row' hrun hrow'
      have hrun' : (k = keys ∧ id' = id) ∧ (Api.handle env (s.tables env) now
          (boot.update id publicIp keys.pubkey)).2.status = 200 := by
        rcases hrun with hrun | hrun <;> dsimp only at hrun <;> split at hrun <;> cases hrun
        rename_i h200
        exact ⟨⟨rfl, rfl⟩, h200.2⟩
      obtain ⟨⟨rfl, rfl⟩, h200⟩ := hrun'
      replace hrow' : ((s.ask (.serve (boot.update id' publicIp k.pubkey) now)).tables
        env).peers.get? id' = some row' := hrow'
      have hkey := hkey h200
      rw [hrow'] at hkey
      exact Option.some.inj hkey
  | enrolIdle => exact hknown
  | cut => exact hoff rfl
  | @saved keys id hstage =>
    intro k id' row hrun hrow
    have hid : k = keys ∧ id' = id := by
      rcases hrun with hrun | hrun <;> cases hrun
      exact ⟨rfl, rfl⟩
    obtain ⟨rfl, rfl⟩ := hid
    exact hknown k id' row (Or.inl hstage) hrow
  | saveIdle => exact hknown
  | stop => exact hoff rfl

theorem keyKnown_run {es : List EnrolEvent}
    (hkeeps : Along (enrolStep env boot) (KeepsKeys env boot) noEnrolment es)
    (hfresh : FreshIds (run (enrolStep env boot) noEnrolment es)) :
    KeyKnown env (run (enrolStep env boot) noEnrolment es) := by
  induction es using List.reverseRecOn with
  | nil =>
    rintro keys id row (hrun | hrun) <;> cases hrun
  | append_singleton es e ih =>
    rw [run_concat] at hfresh ⊢
    obtain ⟨hbefore, hlast, -⟩ := (along_append _ _ _ _ _).mp hkeeps
    have hfresh' := @FreshIds.before env boot _ [e] hfresh
    exact keyKnown_step (enrolInv_run hfresh') (ih hbefore hfresh') hlast hfresh

end

/-- **One disk, one agent.**  In every run with new ids, whatever is lost or killed: an agent that
runs has its keys and its id on the disk.  The keys fit, or the agent was once killed while it
wrote the public one, which is empty then.  The peer with the id, if it is there, has the network
and the name of the agent, and its key unless others have written another.  And whenever an
agent runs on the disk again, it has the same keys and the same id. -/
theorem identity_stays (env : Api.Env) (boot : BootConfig) {es es' : List EnrolEvent}
    (hfresh : FreshIds (run (enrolStep env boot) noEnrolment (es ++ es'))) {keys : Keypair}
    {id : PeerId}
    (hrun : (run (enrolStep env boot) noEnrolment es).stage = .running keys id) :
    let s := run (enrolStep env boot) noEnrolment es
    s.disk = ⟨some keys.privateKey, some keys.pubkey, some (some id)⟩ ∧
    (keys.pubkey = boot.awgPubkey keys.privateKey ∨ keys.pubkey = []) ∧
    (∀ row, (s.tables env).peers.get? id = some row →
      row.networkId = boot.args.networkId ∧ row.name = boot.args.name ∧
      (Along (enrolStep env boot) (KeepsKeys env boot) noEnrolment es →
        row.pubkey = keys.pubkey)) ∧
    ∀ keys' id', (run (enrolStep env boot) noEnrolment (es ++ es')).stage = .running keys' id' →
      keys' = keys ∧ id' = id := by
  intro s
  rw [run_append] at hfresh ⊢
  have hfresh' : FreshIds s := FreshIds.before hfresh
  have hinv : EnrolInv env boot s := enrolInv_run hfresh'
  obtain ⟨hprivate, hpubkey⟩ := hinv.keys keys (by rw [hrun]; rfl)
  have hid := hinv.running keys id hrun
  refine ⟨?_, ?_, fun row hrow => ?_, fun keys' id' hrun' => ?_⟩
  · have hstate : s.disk.state = some (some id) := by
      unfold Disk.loadPeerId at hid
      obtain ⟨hid, -⟩ := Option.filter_eq_some_iff.mp hid
      exact Option.join_eq_some_iff.mp hid
    rw [← hprivate, ← hpubkey, ← hstate]
  · obtain ⟨privateKey, hprivate', hfit⟩ := hinv.files keys.pubkey hpubkey
    rw [hprivate] at hprivate'
    cases hprivate'
    exact hfit
  · obtain ⟨hnet, hname⟩ := (hinv.filed id hid).2 row hrow
    exact ⟨hnet, hname, fun hkeeps => keyKnown_run hkeeps hfresh' keys id row (Or.inr hrun) hrow⟩
  · obtain ⟨hinv', hkeys, hids⟩ := identity_run hinv hfresh
    obtain ⟨h1, h2⟩ := hinv'.keys keys' (by rw [hrun']; rfl)
    obtain ⟨h3, h4⟩ := hkeys _ _ hprivate hpubkey
    have h5 := hinv'.running keys' id' hrun'
    rw [hids id hid] at h5
    rw [h1] at h3
    rw [h2] at h4
    obtain ⟨privateKey, pubkey⟩ := keys
    obtain ⟨privateKey', pubkey'⟩ := keys'
    cases h3
    cases h4
    cases h5
    exact ⟨rfl, rfl⟩

/-! ## An agent that joins -/

/-- A private key of X25519, and its public key. -/
def samplePair : Keypair :=
  ⟨js "cAdtCnMYpX08FsFyUbJmRd9ML4frwJkqsXf7pR25LGo=",
    js "hSDwCYkwp1R0i33ctD73Wg2/Og0mOBr066SpjqqbTmo="⟩

def sampleBoot : BootConfig where
  args := { networkId := Api.networkUuid, name := js "a", ttl := 0, memo := [], version := js "0.1.0" }
  authorization := Api.sampleAdmin
  awgPubkey := fun privateKey => if privateKey = samplePair.privateKey then samplePair.pubkey else []

def bootNow : EnrolEvent := .boot samplePair.privateKey none

def enrolNow (delivery : Delivery) (id : PeerId) : EnrolEvent :=
  .enrol (js "192.0.2.6") delivery (Api.drawsOf id)

/-- A network, and an agent that joins it. -/
def joinRun : List EnrolEvent :=
  [.request (.serve (Api.networkRequest []) (Api.drawsOf Api.networkUuid)), bootNow,
    enrolNow .answered Api.peerUuid, .save false]

theorem identity_stays_joinRun :
    (run (enrolStep Api.sampleEnv sampleBoot) noEnrolment joinRun).disk =
      ⟨some samplePair.privateKey, some samplePair.pubkey, some (some Api.peerUuid)⟩ ∧
    ¬ ∃ keys' id', (run (enrolStep Api.sampleEnv sampleBoot) noEnrolment
      (joinRun ++ [.stop, .boot [] none, enrolNow .answered []])).stage = .running keys' id' ∧
      id' ≠ Api.peerUuid := by
  obtain ⟨hdisk, -, -, hlater⟩ := @identity_stays Api.sampleEnv sampleBoot joinRun
    [.stop, .boot [] none, enrolNow .answered []] (show FreshIds _ from ⟨by decide, by decide⟩)
    samplePair Api.peerUuid (by decide)
  exact ⟨hdisk, fun ⟨keys', id', hrun, hne⟩ => hne (hlater keys' id' hrun).2⟩

end Meshezia
