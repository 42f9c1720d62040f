import Meshezia.System.Probing

/-!
# Probes that come from both ends

Each message of a probe rests on the one before: the verdict on the results, a result on what
has got through, that on the nonces of the ready messages, and these on what the agents drew.
A nonce is drawn once, so it says who drew it and for whom (`DistinctNonces`):

    .sent x (.probeVerdict y .switchRelay)  → Reached x y ∨ Reached y x   (switch_relay_reached)
    .sent x (.probeVerdict y .switchDirect) → Heard x y ∧ Heard y x       (switch_direct_heard)

It does not matter which address a request or a datagram was sent to, nor which agent or
socket it got to.
-/

namespace Meshezia

open ServerState

/-! ## The evidence of an agent -/

/-- What has happened that `p` may know, with the requests of its handlers. -/
def ProbeHistory.evidence (h : ProbeHistory) (p : PeerId) (posts : OMap Nat ProbePost) :
    Evidence where
  drawn q n := ⟨p, q, n⟩ ∈ h.drawn
  told q n := ⟨q, p, n⟩ ∈ h.drawn
  asked id q := ∃ post, posts.get? id = some post ∧ post.peerId = q ∧ ⟨q, p, post.nonce⟩ ∈ h.drawn
  reached q := ∃ a ∈ h.answers, a.client = p ∧ a.post.peerId = q ∧ ⟨q, p, a.post.nonce⟩ ∈ h.drawn
  heard q := ∃ a ∈ h.arrivals, a.receiver = p ∧ a.socketFor = q ∧ ⟨q, p, a.text⟩ ∈ h.drawn

/-- More has happened. -/
structure ProbeHistory.Le (h h' : ProbeHistory) : Prop where
  drawn : ∀ d ∈ h.drawn, d ∈ h'.drawn
  answers : ∀ a ∈ h.answers, a ∈ h'.answers
  arrivals : ∀ a ∈ h.arrivals, a ∈ h'.arrivals

/-- What holds of an agent. -/
structure ProbeNodeInv (h : ProbeHistory) (p : PeerId) (x : ProbeNode) : Prop where
  backed : x.prober.Backed (h.evidence p x.posts)
  past : ∀ out ∈ x.past, out.Backed (h.evidence p x.posts)
  posts : ∀ id post, x.posts.get? id = some post →
    id < x.prober.nextId ∧ ⟨post.peerId, p, post.nonce⟩ ∈ h.drawn
  replies : ∀ id status, x.replies.get? id = some status → ∃ post, x.posts.get? id = some post ∧
    (isOk status = true → ∃ a ∈ h.answers, a.client = p ∧ a.post = post)

section
variable {h h' : ProbeHistory} {p : PeerId} {x : ProbeNode} {posts posts' : OMap Nat ProbePost}

theorem ProbeHistory.le_refl (h : ProbeHistory) : h.Le h :=
  ⟨fun _ hd => hd, fun _ ha => ha, fun _ ha => ha⟩

theorem evidence_le (hh : h.Le h') (p : PeerId) (posts posts' : OMap Nat ProbePost) :
    (h.evidence p posts).Le (h'.evidence p posts') where
  drawn q n hd := hh.drawn _ hd
  told q n hd := hh.drawn _ hd
  reached := by
    rintro q ⟨a, ha, hclient, hpeer, hd⟩
    exact ⟨a, hh.answers a ha, hclient, hpeer, hh.drawn _ hd⟩
  heard := by
    rintro q ⟨a, ha, hreceiver, hsocket, hd⟩
    exact ⟨a, hh.arrivals a ha, hreceiver, hsocket, hh.drawn _ hd⟩

/-- The requests `posts'` are those of `posts` and more. -/
theorem asked_le (hh : h.Le h')
    (hposts : ∀ id post, posts.get? id = some post → posts'.get? id = some post) (p : PeerId) :
    ∀ id q, (h.evidence p posts).asked id q → (h'.evidence p posts').asked id q := by
  rintro id q ⟨post, hpost, hpeer, hd⟩
  exact ⟨post, hposts id post hpost, hpeer, hh.drawn _ hd⟩

theorem ProbeNodeInv.imp (hh : h.Le h') (hx : ProbeNodeInv h p x) : ProbeNodeInv h' p x where
  backed := hx.backed.imp (evidence_le hh p _ _) (asked_le hh (fun _ _ hpost => hpost) p)
  past out hout := ProbeOutput.Backed.imp (evidence_le hh p _ _) (hx.past out hout)
  posts id post hpost := ⟨(hx.posts id post hpost).1, hh.drawn _ (hx.posts id post hpost).2⟩
  replies := by
    intro id status hstatus
    obtain ⟨post, hpost, hans⟩ := hx.replies id status hstatus
    refine ⟨post, hpost, fun hok => ?_⟩
    obtain ⟨a, ha, hclient, he⟩ := hans hok
    exact ⟨a, hh.answers a ha, hclient, he⟩

/-- All that an agent has ever sent is backed. -/
theorem ProbeNodeInv.sent (hx : ProbeNodeInv h p x) :
    ∀ out ∈ x.sent, out.Backed (h.evidence p x.posts) :=
  fun out hout => (List.mem_append.mp hout).elim (hx.past out) (hx.backed.outputs out)

/-- **One agent.**  It takes a step that is backed. -/
theorem ProbeNodeInv.step (hx : ProbeNodeInv h p x) {e : ProbeEvent}
    (he : e.Backed (h.evidence p x.posts) x.prober) :
    ProbeNodeInv h p { x with prober := probeStep x.prober e } where
  backed := backed_step hx.backed he
  past := hx.past
  posts id post hpost :=
    ⟨Nat.lt_of_lt_of_le (hx.posts id post hpost).1 (nextId_le_probeStep x.prober e),
      (hx.posts id post hpost).2⟩
  replies := hx.replies

/-- It makes a request, with the nonce that the peer drew. -/
theorem ProbeNodeInv.check (hx : ProbeNodeInv h p x) (now : Int) (post : ProbePost)
    (hd : ⟨post.peerId, p, post.nonce⟩ ∈ h.drawn) (nonce : JsString) (bind : Except JsString Int) :
    ProbeNodeInv h p { x with
      prober := probeStep x.prober (.receive now (.probeRelayCheck post.peerId post.meshIpv4
        post.tcpPort post.nonce post.clientPubkey post.serverPubkey) nonce bind)
      posts := x.posts.set x.prober.nextId post } := by
  have hgrow : ∀ id post', x.posts.get? id = some post' →
      (x.posts.set x.prober.nextId post).get? id = some post' := by
    intro id post' hget
    rw [OMap.get?_set_ne _ _ (Nat.ne_of_gt (hx.posts id post' hget).1)]
    exact hget
  have hle := evidence_le h.le_refl p x.posts (x.posts.set x.prober.nextId post)
  have hasked : (h.evidence p (x.posts.set x.prober.nextId post)).asked x.prober.nextId
      post.peerId := ⟨post, OMap.get?_set_self _ _ _, rfl, hd⟩
  constructor
  · exact backed_step (e := .receive now (.probeRelayCheck post.peerId post.meshIpv4
      post.tcpPort post.nonce post.clientPubkey post.serverPubkey) nonce bind)
      (hx.backed.imp hle (asked_le h.le_refl hgrow p)) hasked
  · exact fun out hout => ProbeOutput.Backed.imp hle (hx.past out hout)
  · intro id post' hget
    show id < x.prober.nextId + 1 ∧ _
    rcases OMap.get?_set_cases hget with ⟨rfl, rfl⟩ | ⟨-, hget⟩
    · exact ⟨Nat.lt_succ_self _, hd⟩
    · exact ⟨Nat.lt_succ_of_lt (hx.posts id post' hget).1, (hx.posts id post' hget).2⟩
  · intro id status hstatus
    obtain ⟨post', hpost, hans⟩ := hx.replies id status hstatus
    exact ⟨post', hgrow id post' hpost, hans⟩

/-- An agent that starts has done nothing yet but what it has sent. -/
theorem probeNodeInv_restart (boot : Boot) (selfPubkey : JsString) {past : List ProbeOutput}
    (posts : OMap Nat ProbePost)
    (hpast : ∀ out ∈ past, out.Backed (h.evidence p posts)) :
    ProbeNodeInv h p (boot.node selfPubkey past) where
  backed := backed_boot boot.range boot.host boot.file [] _
  past out hout := ProbeOutput.Backed.imp (evidence_le h.le_refl p _ _) (hpast out hout)
  posts id post hpost := by cases hpost
  replies id status hstatus := by cases hstatus

end

/-! ## The invariant -/

/-- A message is known to come from `p`. -/
def ProbeNet.Knows (σ : ProbeNet) (p : PeerId) (msg : AgentMsg) : Prop :=
  msg.peer? = none ∨ .toServer msg ∈ (σ.nodes p).sent

structure ProbeNetInv (σ : ProbeNet) : Prop where
  table : TableInv σ.server
  vouched : VouchInv σ.Knows σ.server
  tagged : ∀ it ∈ σ.server.trace, it.isBare = false
  nodes : ∀ p, ProbeNodeInv σ.history p (σ.nodes p)
  answers : ∀ a ∈ σ.history.answers,
    ⟨a.answerer, a.server.peerId, a.server.nonce⟩ ∈ σ.history.drawn ∧
      isOk (a.server.answer a.selfPubkey a.post) = true
  arrivals : ∀ a ∈ σ.history.arrivals, ∃ ip port, .datagram ip port a.text ∈ (σ.nodes a.sender).sent

section
variable {σ σ' : ProbeNet} {cfg : Config}

theorem probeNetInv_init (db : Db) (boots : PeerId → Boot × JsString) :
    ProbeNetInv (.init db boots) where
  table := TableInv.init db
  vouched := by
    constructor
    · intro k neg hn
      cases hn
    · intro it hit
      cases hit
  tagged it hit := by cases hit
  nodes p := probeNodeInv_restart (boots p).1 (boots p).2 .empty fun out hout => by cases hout
  answers a ha := by cases ha
  arrivals a ha := by cases ha

/-- A step of an agent, in which the network may have done something. -/
theorem ProbeNetInv.of_node (hi : ProbeNetInv σ) {p : PeerId} {x : ProbeNode} {h : ProbeHistory}
    (hh : σ.history.Le h) (hx : ProbeNodeInv h p x) (hsent : ∀ out ∈ (σ.nodes p).sent, out ∈ x.sent)
    (hanswers : ∀ a ∈ h.answers, a ∈ σ.history.answers ∨
      (⟨a.answerer, a.server.peerId, a.server.nonce⟩ ∈ σ.history.drawn ∧
        isOk (a.server.answer a.selfPubkey a.post) = true))
    (harrivals : ∀ a ∈ h.arrivals, a ∈ σ.history.arrivals ∨
      ∃ ip port, .datagram ip port a.text ∈ (σ.nodes a.sender).sent) :
    ProbeNetInv { σ.setNode p x with history := h } := by
  have hkeeps : ∀ q, ∀ out ∈ (σ.nodes q).sent, out ∈ (Function.update σ.nodes p x q).sent := by
    intro q out hout
    by_cases hq : q = p
    · subst hq
      rw [Function.update_self]
      exact hsent out hout
    · rw [Function.update_of_ne hq]
      exact hout
  constructor
  · exact hi.table
  · exact hi.vouched.imp fun q msg hknows => hknows.imp id (hkeeps q _)
  · exact hi.tagged
  · intro q
    show ProbeNodeInv h q (Function.update σ.nodes p x q)
    by_cases hq : q = p
    · subst hq
      rw [Function.update_self]
      exact hx
    · rw [Function.update_of_ne hq]
      exact (hi.nodes q).imp hh
  · intro a ha
    rcases hanswers a ha with hold | ⟨hd, hok⟩
    · exact ⟨hh.drawn _ (hi.answers a hold).1, (hi.answers a hold).2⟩
    · exact ⟨hh.drawn _ hd, hok⟩
  · intro a ha
    obtain ⟨ip, port, hout⟩ := (harrivals a ha).elim (hi.arrivals a) id
    exact ⟨ip, port, hkeeps a.sender _ hout⟩

theorem sent_step (x : ProbeNode) (e : ProbeEvent) (posts : OMap Nat ProbePost) :
    ∀ out ∈ x.sent, out ∈ ({ x with prober := probeStep x.prober e, posts } : ProbeNode).sent := by
  intro out hout
  rcases List.mem_append.mp hout with hout | hout
  · exact List.mem_append_left _ hout
  · exact List.mem_append_right _ ((outputs_probeStep x.prober e).subset hout)

/-- An agent takes a backed step, and nothing else happens. -/
theorem ProbeNetInv.act (hi : ProbeNetInv σ) {p : PeerId} {e : ProbeEvent}
    (he : e.Backed (σ.history.evidence p (σ.nodes p).posts) (σ.nodes p).prober) :
    ProbeNetInv (σ.act p e) :=
  hi.of_node σ.history.le_refl ((hi.nodes p).step he) (sent_step (σ.nodes p) e _)
    (fun _ ha => Or.inl ha) fun _ ha => Or.inl ha

theorem backed_of_isOwn {e : ProbeEvent} (he : e.isOwn = true) (E : Evidence) (s : Prober) :
    e.Backed E s := by
  cases e with
  | receive now msg nonce bind => cases he
  | fetched id ok => cases he
  | datagram k text => cases he
  | _ => trivial

theorem probeNetInv_serve (hi : ProbeNetInv σ) {e : Event} (hids : e.idsOk) :
    ProbeNetInv (σ.serve cfg e) := by
  unfold ProbeNet.serve
  split
  · rename_i hmay
    have hknown : e.Known (fun _ => σ.Knows) σ.server := by
      cases e with
      | message ws now msg =>
        rcases Bool.or_eq_true_iff.mp hmay with hnone | hsent
        · exact Or.inl (Option.isNone_iff_eq_none.mp hnone)
        · exact Or.inr (of_decide_eq_true hsent)
      | _ => trivial
    exact { hi with
      table := tableInv_step cfg hi.table hids
      vouched := vouched_step cfg hi.table hi.vouched hids hknown
      tagged := fun it hit => (noBare_step σ.server cfg e it hit).elim (hi.tagged it) id }
  · exact hi

theorem mem_messagesTo {s : ServerState} {p : PeerId} {msg : ServerMsg} :
    msg ∈ s.messagesTo p ↔ ∃ ws tag, .sent p ws msg tag ∈ s.trace := by
  unfold ServerState.messagesTo
  simp only [List.mem_map, List.mem_filterMap]
  constructor
  · rintro ⟨⟨ws, m⟩, ⟨it, hit, hsent⟩, rfl⟩
    unfold TraceItem.sentTo at hsent
    split at hsent
    · split at hsent
      · rename_i dest ws' msg' tag hdest
        cases hsent
        subst hdest
        exact ⟨ws, tag, hit⟩
      · cases hsent
    · cases hsent
  · rintro ⟨ws, tag, hit⟩
    exact ⟨(ws, msg), ⟨_, hit, if_pos rfl⟩, rfl⟩

/-- The messages to `p` that are part of a probe rest on what others have sent. -/
theorem vouched_messagesTo (hi : ProbeNetInv σ) {p : PeerId} {msg : ServerMsg}
    (hmsg : msg ∈ σ.server.messagesTo p) (hprobe : msg.ofProbe = true) :
    msg.Vouched σ.Knows p := by
  obtain ⟨ws, tag, hit⟩ := mem_messagesTo.mp hmsg
  have htagged := hi.tagged _ hit
  have hvouched := hi.vouched.items _ hit
  cases tag with
  | none => cases hprobe.symm.trans htagged
  | some n => exact hvouched

/-- The nonce of a ready was drawn by its sender for the peer that it is about. -/
theorem drawn_of_knows (hi : ProbeNetInv σ) {p q : PeerId} {nonce : JsString} {msg : AgentMsg}
    (hknows : σ.Knows q msg) (hready : (∃ ip port, msg = .probeRelayReady p ip port nonce) ∨
      ∃ port, msg = .probeDirectReady p port nonce) : ⟨q, p, nonce⟩ ∈ σ.history.drawn := by
  rcases hready with ⟨ip, port, rfl⟩ | ⟨port, rfl⟩ <;> rcases hknows with hnone | hsent
  · cases hnone
  · exact (hi.nodes q).sent _ hsent
  · cases hnone
  · exact (hi.nodes q).sent _ hsent

/-- More nonces have been drawn. -/
theorem le_draws (h : ProbeHistory) (new : List DrawnNonce) :
    h.Le { h with drawn := new ++ h.drawn } :=
  ⟨fun _ hd => List.mem_append_right _ hd, fun _ ha => ha, fun _ ha => ha⟩

/-- **A message.**  What it says of nonces the other agent has drawn; what its handler draws is
recorded. -/
theorem probeNodeInv_deliver (hi : ProbeNetInv σ) {p : PeerId} {msg : ServerMsg}
    (hmsg : msg ∈ σ.server.messagesTo p) (now : Int) (nonce : JsString)
    (bind : Except JsString Int) :
    ProbeNodeInv { σ.history with drawn := msg.draws p nonce ++ σ.history.drawn } p
      { σ.nodes p with
        prober := probeStep (σ.nodes p).prober (.receive now msg nonce bind)
        posts := msg.posts (σ.nodes p).posts (σ.nodes p).prober.nextId } := by
  have hx := (hi.nodes p).imp (le_draws σ.history (msg.draws p nonce))
  cases msg with
  | probeRelayServe q =>
    refine hx.step (e := .receive now (.probeRelayServe q) nonce bind) ?_
    exact List.mem_cons_self
  | probeDirectStart q =>
    refine hx.step (e := .receive now (.probeDirectStart q) nonce bind) ?_
    exact List.mem_cons_self
  | probeRelayCheck q ip port n clientPubkey serverPubkey =>
    have hd := drawn_of_knows hi (vouched_messagesTo hi hmsg rfl) (Or.inl ⟨ip, port, rfl⟩)
    exact hx.check now ⟨q, ip, port, clientPubkey, serverPubkey, n⟩ hd nonce bind
  | probeDirectGo q ip port n =>
    have hd := drawn_of_knows hi (vouched_messagesTo hi hmsg rfl) (Or.inr ⟨port, rfl⟩)
    exact hx.step (e := .receive now (.probeDirectGo q ip port n) nonce bind) hd
  | probeVerdict q action =>
    exact hx.step (e := .receive now (.probeVerdict q action) nonce bind) trivial
  | negotiateAbort q reason =>
    exact hx.step (e := .receive now (.negotiateAbort q reason) nonce bind) trivial
  | forceMode q mode => exact hx.step (e := .receive now (.forceMode q mode) nonce bind) trivial
  | peerRemoved q => exact hx.step (e := .receive now (.peerRemoved q) nonce bind) trivial

theorem probeNetInv_deliver (hi : ProbeNetInv σ) (p : PeerId) (now : Int) (msg : ServerMsg)
    (nonce : JsString) (bind : Except JsString Int) :
    ProbeNetInv (σ.deliver p now msg nonce bind) := by
  unfold ProbeNet.deliver
  dsimp only
  split
  · rename_i hmsg
    exact hi.of_node (le_draws σ.history _) (probeNodeInv_deliver hi hmsg now nonce bind)
      (sent_step (σ.nodes p) _ _) (fun _ ha => Or.inl ha) fun _ ha => Or.inl ha
  · exact hi

/-- **A request.**  If the server answers it with 200, that is recorded. -/
theorem probeNetInv_request (hi : ProbeNetInv σ) (p : PeerId) (id : Nat) (answerer : PeerId)
    (k : Nat) : ProbeNetInv (σ.request p id answerer k) := by
  unfold ProbeNet.request
  dsimp only
  split
  · rename_i post server hpost _ hserver
    generalize hstatus : server.answer (σ.nodes answerer).selfPubkey post = status
    generalize hans : (if isOk status = true then
        (⟨p, post, answerer, server, (σ.nodes answerer).selfPubkey⟩ : ProbeAnswer) ::
          σ.history.answers
      else σ.history.answers) = answers
    have hmem : ∀ a ∈ answers, a ∈ σ.history.answers ∨
        (a = ⟨p, post, answerer, server, (σ.nodes answerer).selfPubkey⟩ ∧ isOk status = true) := by
      intro a ha
      rw [← hans] at ha
      split at ha
      · rename_i hok
        exact (List.mem_cons.mp ha).elim (fun he => Or.inr ⟨he, hok⟩) Or.inl
      · exact Or.inl ha
    have hold : ∀ a ∈ σ.history.answers, a ∈ answers := by
      intro a ha
      rw [← hans]
      split
      · exact List.mem_cons_of_mem _ ha
      · exact ha
    have hh : σ.history.Le { σ.history with answers } :=
      ⟨fun _ hd => hd, hold, fun _ ha => ha⟩
    have hx := (hi.nodes p).imp hh
    refine hi.of_node hh { hx with replies := ?_ } (fun _ hout => hout) ?_ fun _ ha => Or.inl ha
    · intro i st hst
      rcases OMap.get?_set_cases hst with ⟨rfl, rfl⟩ | ⟨-, hst⟩
      · refine ⟨post, hpost, fun hok => ?_⟩
        refine ⟨⟨p, post, answerer, server, (σ.nodes answerer).selfPubkey⟩, ?_, rfl, rfl⟩
        show _ ∈ answers
        rw [← hans, if_pos hok]
        exact List.mem_cons_self
      · exact hx.replies i st hst
    · intro a ha
      rcases hmem a ha with hold | ⟨rfl, hok⟩
      · exact Or.inl hold
      · refine Or.inr ⟨(hi.nodes answerer).backed.servers k server hserver, ?_⟩
        rw [hstatus]
        exact hok
  · exact hi

/-- **A reply.**  The server that answered with 200 was asked for this peer. -/
theorem probeNetInv_reply (hi : ProbeNetInv σ) (p : PeerId) (id : Nat) :
    ProbeNetInv (σ.reply p id) := by
  unfold ProbeNet.reply
  split
  · rename_i status hstatus
    refine hi.act ?_
    intro hok q hasked
    obtain ⟨post, hpost, hans⟩ := (hi.nodes p).replies id status hstatus
    obtain ⟨a, ha, hclient, he⟩ := hans hok
    obtain ⟨post', hpost', hpeer, hd⟩ := hasked
    cases hpost.symm.trans hpost'
    subst he
    exact ⟨a, ha, hclient, hpeer, hd⟩
  · exact hi

/-- **A datagram.** -/
theorem probeNetInv_datagram (hi : ProbeNetInv σ) (p : PeerId) (k : Nat) (sender : PeerId)
    (ip : JsString) (port : Int) (text : JsString) :
    ProbeNetInv (σ.datagram p k sender ip port text) := by
  unfold ProbeNet.datagram
  split
  · rename_i hsent
    split
    · rename_i e he
      split
      · have hh : σ.history.Le { σ.history with arrivals :=
            { sender, receiver := p, socketFor := e.peerId, text } :: σ.history.arrivals } :=
          ⟨fun _ hd => hd, fun _ ha => ha, fun _ ha => List.mem_cons_of_mem _ ha⟩
        have hx := ((hi.nodes p).imp hh).step (e := .datagram k text) (by
          intro e' he' htold
          cases he.symm.trans he'
          exact ⟨_, List.mem_cons_self, rfl, rfl, htold⟩)
        refine hi.of_node hh hx (sent_step (σ.nodes p) _ _) (fun _ ha => Or.inl ha) ?_
        intro a ha
        rcases List.mem_cons.mp ha with rfl | ha
        · exact Or.inr ⟨ip, port, hsent⟩
        · exact Or.inl ha
      · exact hi
    · exact hi
  · exact hi

/-- **One step.** -/
theorem probeNetInv_step (hi : ProbeNetInv σ) {e : ProbeNetEvent} (hids : e.idsOk) :
    ProbeNetInv (probeNetStep cfg σ e) := by
  cases e with
  | server e => exact probeNetInv_serve hi hids
  | deliver p now msg nonce bind => exact probeNetInv_deliver hi p now msg nonce bind
  | request p id answerer k => exact probeNetInv_request hi p id answerer k
  | reply p id => exact probeNetInv_reply hi p id
  | fail p id =>
    refine hi.act ?_
    intro hok
    cases hok
  | datagram p k sender ip port text => exact probeNetInv_datagram hi p k sender ip port text
  | agent p e =>
    show ProbeNetInv (if e.isOwn = true then σ.act p e else σ)
    split
    · rename_i hown
      exact hi.act (backed_of_isOwn hown _ _)
    · exact hi
  | setSelfIp p ip =>
    have hx := hi.nodes p
    exact hi.of_node σ.history.le_refl { hx with backed := { hx.backed with } }
      (fun _ hout => hout) (fun _ ha => Or.inl ha) fun _ ha => Or.inl ha
  | restart p boot selfPubkey =>
    exact hi.of_node σ.history.le_refl (probeNodeInv_restart boot selfPubkey _ (hi.nodes p).sent)
      (fun _ hout => List.mem_append_left _ hout) (fun _ ha => Or.inl ha) fun _ ha => Or.inl ha

theorem probeNetInv_run (cfg : Config) (db : Db) (boots : PeerId → Boot × JsString)
    {es : List ProbeNetEvent} (hids : ∀ e ∈ es, e.idsOk) :
    ProbeNetInv (run (probeNetStep cfg) (.init db boots) es) := by
  induction es using List.reverseRecOn with
  | nil => exact probeNetInv_init db boots
  | append_singleton es e ih =>
    rw [run_concat]
    exact probeNetInv_step (ih fun x hx => hids x (List.mem_append_left _ hx))
      (hids e (List.mem_append_right _ List.mem_cons_self))

/-! ## Both ends -/

/-- A nonce says who drew it and for whom. -/
theorem drawn_unique (h : σ.history.DistinctNonces) {d d' : DrawnNonce} (hd : d ∈ σ.history.drawn)
    (hd' : d' ∈ σ.history.drawn) (hnonce : d.nonce = d'.nonce) : d = d' :=
  List.inj_on_of_nodup_map h hd hd' hnonce

theorem ProbeNetInv.reached (hi : ProbeNetInv σ) (hnonces : σ.history.DistinctNonces)
    {x y : PeerId} (hresult : σ.Knows x (.probeRelayResult y true)) : σ.history.Reached x y := by
  have hsent := hresult.resolve_left (by simp [AgentMsg.peer?])
  obtain ⟨a, ha, hclient, hpeer, hd⟩ := (hi.nodes x).sent _ hsent rfl
  obtain ⟨hserver, hok⟩ := hi.answers a ha
  obtain ⟨hnonce, hkey, -⟩ := (answer_ok_iff a.server a.selfPubkey a.post).mp hok
  have he := drawn_unique hnonces hserver hd hnonce.symm
  simp only [DrawnNonce.mk.injEq] at he
  exact ⟨a, ha, hclient, he.1, he.2.1, hnonce, hkey⟩

theorem ProbeNetInv.heard (hi : ProbeNetInv σ) (hnonces : σ.history.DistinctNonces)
    {x y : PeerId} (hresult : σ.Knows x (.probeDirectResult y true)) : σ.history.Heard x y := by
  have hsent := hresult.resolve_left (by simp [AgentMsg.peer?])
  obtain ⟨a, ha, hreceiver, hsocket, hd⟩ := (hi.nodes x).sent _ hsent rfl
  obtain ⟨ip, port, hout⟩ := hi.arrivals a ha
  obtain ⟨q, hdrawn⟩ := (hi.nodes a.sender).sent _ hout
  have he := drawn_unique hnonces hdrawn hd rfl
  simp only [DrawnNonce.mk.injEq] at he
  exact ⟨a, ha, hreceiver, hsocket, he.1, hd⟩

theorem vouched_verdict (hi : ProbeNetInv σ) {x y : PeerId} {ws : Ws} {action : VerdictAction}
    {tag : Option Nat} (h : .sent x ws (.probeVerdict y action) tag ∈ σ.server.trace) :
    (ServerMsg.probeVerdict y action).Vouched σ.Knows x :=
  vouched_messagesTo hi (mem_messagesTo.mpr ⟨ws, tag, h⟩) rfl

end

/-- **Relay.**  In every run in which no nonce is drawn twice: before the server tells `x` to
switch to relay with `y`, a request of one of the two has got to the server that the other one
started for it, and the other one has found in it its nonce and its key. -/
theorem switch_relay_reached (cfg : Config) (db : Db) (boots : PeerId → Boot × JsString)
    (es : List ProbeNetEvent) (hids : ∀ e ∈ es, e.idsOk)
    (hnonces : (run (probeNetStep cfg) (.init db boots) es).history.DistinctNonces) :
    ∀ x ws y tag, .sent x ws (.probeVerdict y .switchRelay) tag ∈
        (run (probeNetStep cfg) (.init db boots) es).server.trace →
      (run (probeNetStep cfg) (.init db boots) es).history.Reached x y ∨
        (run (probeNetStep cfg) (.init db boots) es).history.Reached y x := by
  intro x ws y tag hsent
  have hi := probeNetInv_run cfg db boots hids
  exact Or.imp (hi.reached hnonces) (hi.reached hnonces) (vouched_verdict hi hsent)

theorem switch_relay_reached_reachedRun :
    ∃ ws tag, .sent peerOne ws (.probeVerdict peerTwo .switchRelay) tag ∈
        (run (probeNetStep {}) (.init keyedPeers bootBoth) reachedRun).server.trace ∧
      ((run (probeNetStep {}) (.init keyedPeers bootBoth) reachedRun).history.Reached peerOne
          peerTwo ∨
        (run (probeNetStep {}) (.init keyedPeers bootBoth) reachedRun).history.Reached peerTwo
          peerOne) := by
  have hsent : .sent peerOne wsOne (.probeVerdict peerTwo .switchRelay) (some 1) ∈
      (run (probeNetStep {}) (.init keyedPeers bootBoth) reachedRun).server.trace := by
    decide +kernel
  exact ⟨wsOne, some 1, hsent, switch_relay_reached {} keyedPeers bootBoth reachedRun
    (by decide +kernel) (by decide +kernel) _ _ _ _ hsent⟩

/-- **Direct.**  In every run in which no nonce is drawn twice: before the server tells `x` to
switch to direct with `y`, each of the two has got a datagram of the other one, with the nonce
that this one drew for it, on a socket that it keeps for the other one. -/
theorem switch_direct_heard (cfg : Config) (db : Db) (boots : PeerId → Boot × JsString)
    (es : List ProbeNetEvent) (hids : ∀ e ∈ es, e.idsOk)
    (hnonces : (run (probeNetStep cfg) (.init db boots) es).history.DistinctNonces) :
    ∀ x ws y tag, .sent x ws (.probeVerdict y .switchDirect) tag ∈
        (run (probeNetStep cfg) (.init db boots) es).server.trace →
      (run (probeNetStep cfg) (.init db boots) es).history.Heard x y ∧
        (run (probeNetStep cfg) (.init db boots) es).history.Heard y x := by
  intro x ws y tag hsent
  have hi := probeNetInv_run cfg db boots hids
  exact And.imp (hi.heard hnonces) (hi.heard hnonces) (vouched_verdict hi hsent)

theorem switch_direct_heard_heardRun :
    ∃ ws tag, .sent peerOne ws (.probeVerdict peerTwo .switchDirect) tag ∈
        (run (probeNetStep {}) (.init keyedPeers bootBoth) heardRun).server.trace ∧
      (run (probeNetStep {}) (.init keyedPeers bootBoth) heardRun).history.Heard peerOne peerTwo ∧
        (run (probeNetStep {}) (.init keyedPeers bootBoth) heardRun).history.Heard peerTwo
          peerOne := by
  have hsent : .sent peerOne wsOne (.probeVerdict peerTwo .switchDirect) (some 1) ∈
      (run (probeNetStep {}) (.init keyedPeers bootBoth) heardRun).server.trace := by
    decide +kernel
  exact ⟨wsOne, some 1, hsent, switch_direct_heard {} keyedPeers bootBoth heardRun
    (by decide +kernel) (by decide +kernel) _ _ _ _ hsent⟩

end Meshezia
