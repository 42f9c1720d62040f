import Meshezia.Agent.Leaks

/-!
# What the probes of an agent rest on

What an agent knows of its probes (`Evidence`): the nonces it has drawn, the nonces that the
server has told it, whom its requests and whose datagrams have got through.  What it sends is
backed by that (`ProbeOutput.Backed`): a ready names a nonce that it drew for this peer, and it
reports success about a peer that was reached, or heard.

    what happens is backed → what is sent is                            (backed_step)
-/

namespace Meshezia

/-! ## Evidence -/

/-- `told q n`: the server says that `n` is the nonce of `q`.  `asked id q`: the handler `id`
asks the server of `q`. -/
structure Evidence where
  drawn : PeerId → JsString → Prop
  told : PeerId → JsString → Prop
  asked : Nat → PeerId → Prop
  reached : PeerId → Prop
  heard : PeerId → Prop

/-- `E'` knows what `E` knows, but for what is asked. -/
structure Evidence.Le (E E' : Evidence) : Prop where
  drawn : ∀ q n, E.drawn q n → E'.drawn q n
  told : ∀ q n, E.told q n → E'.told q n
  reached : ∀ q, E.reached q → E'.reached q
  heard : ∀ q, E.heard q → E'.heard q

def ProbeOutput.Backed (E : Evidence) : ProbeOutput → Prop
  | .toServer (.probeRelayReady q _ _ nonce) => E.drawn q nonce
  | .toServer (.probeDirectReady q _ nonce) => E.drawn q nonce
  | .toServer (.probeRelayResult q success) => success = true → E.reached q
  | .toServer (.probeDirectResult q success) => success = true → E.heard q
  | .toServer _ => True
  | .datagram _ _ text => ∃ q, E.drawn q text

structure ProbeEntry.Backed (E : Evidence) (e : ProbeEntry) : Prop where
  drawn : E.drawn e.peerId e.nonce
  told : ∀ n, e.expected = some n → E.told e.peerId n
  heard : e.resolved = true → E.heard e.peerId

/-- The entry `k` is one for `q`. -/
def EntryFor (es : OMap Nat ProbeEntry) (k : Nat) (q : PeerId) : Prop :=
  ∃ e, es.get? k = some e ∧ e.peerId = q

def ProbeHandler.Backed (E : Evidence) (es : OMap Nat ProbeEntry) (id : Nat) :
    ProbeHandler → Prop
  | .checking q => E.asked id q
  | .binding q nonce => E.drawn q nonce
  | .bound q k => EntryFor es k q
  | .sending q k _ _ _ => EntryFor es k q
  | .polling q k => EntryFor es k q

/-- What has to be known when the event happens. -/
def ProbeEvent.Backed (E : Evidence) (s : Prober) : ProbeEvent → Prop
  | .receive _ (.probeRelayServe q) nonce _ => E.drawn q nonce
  | .receive _ (.probeRelayCheck q _ _ _ _ _) _ _ => E.asked s.nextId q
  | .receive _ (.probeDirectStart q) nonce _ => E.drawn q nonce
  | .receive _ (.probeDirectGo q _ _ nonce) _ _ => E.told q nonce
  | .fetched id ok => ok = true → ∀ q, E.asked id q → E.reached q
  | .datagram k text =>
    ∀ e, s.entries.get? k = some e → E.told e.peerId text → E.heard e.peerId
  | _ => True

structure Prober.Backed (E : Evidence) (s : Prober) : Prop where
  servers : ∀ k server, s.servers.get? k = some server → E.drawn server.peerId server.nonce
  entries : ∀ k e, s.entries.get? k = some e → e.Backed E ∧ k < s.nextId
  sockets : ∀ q k, s.udpProbeSockets.get? q = some k → EntryFor s.entries k q
  handlers : ∀ id h, s.handlers.get? id = some h → h.Backed E s.entries id
  outputs : ∀ out ∈ s.outputs, out.Backed E

section
variable {E E' : Evidence} {s s' : Prober}

/-! ## More may be known later -/

theorem ProbeOutput.Backed.imp (hE : E.Le E') {out : ProbeOutput} (h : out.Backed E) :
    out.Backed E' := by
  cases out with
  | datagram ip port text =>
    obtain ⟨q, hq⟩ := h
    exact ⟨q, hE.drawn q text hq⟩
  | toServer msg =>
    cases msg with
    | probeRelayReady q ip port nonce => exact hE.drawn q nonce h
    | probeDirectReady q port nonce => exact hE.drawn q nonce h
    | probeRelayResult q success => exact fun hok => hE.reached q (h hok)
    | probeDirectResult q success => exact fun hok => hE.heard q (h hok)
    | _ => trivial

theorem ProbeHandler.Backed.imp (hE : E.Le E') (hasked : ∀ id q, E.asked id q → E'.asked id q)
    {es es' : OMap Nat ProbeEntry} (hes : ∀ k q, EntryFor es k q → EntryFor es' k q) {id : Nat}
    {h : ProbeHandler} (hb : h.Backed E es id) : h.Backed E' es' id := by
  cases h with
  | checking q => exact hasked id q hb
  | binding q nonce => exact hE.drawn q nonce hb
  | bound q k => exact hes k q hb
  | sending q k ip port sent => exact hes k q hb
  | polling q k => exact hes k q hb

theorem Evidence.le_refl (E : Evidence) : E.Le E :=
  ⟨fun _ _ h => h, fun _ _ h => h, fun _ h => h, fun _ h => h⟩

theorem Prober.Backed.imp (hE : E.Le E') (hasked : ∀ id q, E.asked id q → E'.asked id q)
    (h : s.Backed E) : s.Backed E' where
  servers k server hk := hE.drawn _ _ (h.servers k server hk)
  entries k e hk := by
    obtain ⟨⟨hdrawn, htold, hheard⟩, hlt⟩ := h.entries k e hk
    exact ⟨⟨hE.drawn _ _ hdrawn, fun n hn => hE.told _ n (htold n hn),
      fun hr => hE.heard _ (hheard hr)⟩, hlt⟩
  sockets := h.sockets
  handlers id x hx := ProbeHandler.Backed.imp hE hasked (fun _ _ hfor => hfor) (h.handlers id x hx)
  outputs out hout := ProbeOutput.Backed.imp hE (h.outputs out hout)

/-! ## The parts of a step -/

theorem Prober.Backed.sendMsg (h : s.Backed E) {msg : AgentMsg}
    (hmsg : (ProbeOutput.toServer msg).Backed E) : (s.sendMsg msg).Backed E :=
  { h with
    outputs := by
      intro out hout
      rcases List.mem_append.mp hout with hout | hout
      · exact h.outputs out hout
      · rw [List.mem_singleton.mp hout]
        exact hmsg }

/-- A bind has failed. -/
theorem Prober.Backed.bindError (h : s.Backed E) (q : PeerId) (text : JsString) :
    ((s.sendMsg (.probeError q text)).unfreezePeer q).Backed E := by
  have hsent : (s.sendMsg (.probeError q text)).Backed E := h.sendMsg trivial
  exact { hsent with }

theorem Prober.Backed.setHandler (h : s.Backed E) {id : Nat} {x : ProbeHandler}
    (hx : x.Backed E s.entries id) :
    { s with handlers := s.handlers.set id x }.Backed E :=
  { h with
    handlers := by
      intro i y hy
      rcases OMap.get?_set_cases hy with ⟨rfl, rfl⟩ | ⟨-, hy⟩
      · exact hx
      · exact h.handlers i y hy }

theorem Prober.Backed.endHandler (h : s.Backed E) (id : Nat) :
    { s with handlers := s.handlers.delete id }.Backed E :=
  { h with handlers := fun i y hy => h.handlers i y (OMap.get?_of_get?_delete hy).2 }

theorem Prober.Backed.await (h : s.Backed E) {x : ProbeHandler}
    (hx : x.Backed E s.entries s.nextId) : (s.await x).Backed E :=
  { h.setHandler hx with
    entries := fun k e hk => ⟨(h.entries k e hk).1, Nat.lt_succ_of_lt (h.entries k e hk).2⟩ }

theorem entryFor_mapVals {es : OMap Nat ProbeEntry} {f : Nat → ProbeEntry → ProbeEntry}
    (hf : ∀ k e, (f k e).peerId = e.peerId) {k : Nat} {q : PeerId} (h : EntryFor es k q) :
    EntryFor (es.mapVals f) k q := by
  obtain ⟨e, he, rfl⟩ := h
  exact ⟨f k e, by rw [OMap.get?_mapVals, he]; rfl, hf k e⟩

/-- Every entry is changed by `f`. -/
theorem Prober.Backed.mapEntries (h : s.Backed E) {f : Nat → ProbeEntry → ProbeEntry}
    (hpeer : ∀ k e, (f k e).peerId = e.peerId)
    (hf : ∀ k e, s.entries.get? k = some e → e.Backed E → (f k e).Backed E) :
    { s with entries := s.entries.mapVals f }.Backed E where
  servers := h.servers
  entries := by
    intro k e' hk
    rw [OMap.get?_mapVals, Option.map_eq_some_iff] at hk
    obtain ⟨e, he, rfl⟩ := hk
    exact ⟨hf k e he (h.entries k e he).1, (h.entries k e he).2⟩
  sockets q k hk := entryFor_mapVals hpeer (h.sockets q k hk)
  handlers id x hx := ProbeHandler.Backed.imp E.le_refl (fun _ _ hq => hq)
    (fun _ _ hfor => entryFor_mapVals hpeer hfor) (h.handlers id x hx)
  outputs := h.outputs

theorem Prober.Backed.closeEntry (h : s.Backed E) (k : Nat) :
    { s with entries := Prober.closeEntry s.entries k }.Backed E := by
  refine h.mapEntries (fun i e => ?_) fun i e _ he => ?_
  · split <;> rfl
  · split
    · exact ⟨he.drawn, he.told, he.heard⟩
    · exact he

theorem Prober.Backed.closeUdp (h : s.Backed E) (p : PeerId) :
    (s.closeUdpProbeSocket p).Backed E := by
  unfold Prober.closeUdpProbeSocket
  split
  · exact h
  · rename_i k _
    exact { h.closeEntry k with
      sockets := fun q i hq => (h.closeEntry k).sockets q i (OMap.get?_of_get?_delete hq).2 }

theorem Prober.Backed.closeTcp (h : s.Backed E) (p : PeerId) :
    (s.closeTcpProbeServer p).Backed E := by
  unfold Prober.closeTcpProbeServer
  split
  · exact h
  · split
    · exact { h with
        servers := fun k server hk => h.servers k server (OMap.get?_of_get?_delete hk).2 }
    · exact h

theorem Prober.Backed.cleanUp (h : s.Backed E) (p : PeerId) : (s.cleanUp p).Backed E :=
  (h.closeTcp p).closeUdp p

theorem Prober.Backed.closeAll (h : s.Backed E) (l : List (PeerId × Nat)) :
    { s with entries := l.foldl (fun es (e : PeerId × Nat) => Prober.closeEntry es e.2)
               s.entries }.Backed E := by
  induction l generalizing s with
  | nil => exact h
  | cons e rest ih => exact ih (h.closeEntry e.2)

theorem Prober.Backed.reset (h : s.Backed E) : s.resetNegotiateState.Backed E where
  servers := by
    intro k server hk
    unfold Prober.resetNegotiateState Prober.stopServer at hk
    dsimp only at hk
    split at hk
    · exact h.servers k server hk
    · exact h.servers k server (OMap.get?_of_get?_delete hk).2
  entries := (h.closeAll _).entries
  sockets q k hk := by cases hk
  handlers := (h.closeAll _).handlers
  outputs := h.outputs

theorem Prober.Backed.sendNonce (h : s.Backed E) (k : Nat) (ip : JsString) (port : Int) :
    (s.sendNonce k ip port).Backed E := by
  unfold Prober.sendNonce
  split
  · exact h
  · rename_i e he
    split
    · refine { h with outputs := ?_ }
      intro out hout
      rcases List.mem_append.mp hout with hout | hout
      · exact h.outputs out hout
      · rw [List.mem_singleton.mp hout]
        exact ⟨e.peerId, (h.entries k e he).1.drawn⟩
    · exact h

theorem entries_sendNonce (s : Prober) (k : Nat) (ip : JsString) (port : Int) :
    (s.sendNonce k ip port).entries = s.entries := by
  unfold Prober.sendNonce
  split
  · rfl
  · split <;> rfl

/-! ## The handlers -/

theorem Prober.Backed.serve (h : s.Backed E) {q : PeerId} {nonce : JsString}
    (hdrawn : E.drawn q nonce) (bind : Except JsString Int) :
    (s.handleProbeRelayServe q nonce bind).Backed E := by
  unfold Prober.handleProbeRelayServe
  cases bind with
  | error text => exact h.bindError q text
  | ok port =>
    refine Prober.Backed.sendMsg (s := { s with
      servers := s.servers.set s.nextId { peerId := q, port, nonce }
      tcpProbeServer := some (s.nextId, q)
      nextId := s.nextId + 1 }) { h with servers := ?_, entries := ?_ } hdrawn
    · intro k server hk
      rcases OMap.get?_set_cases hk with ⟨-, rfl⟩ | ⟨-, hk⟩
      · exact hdrawn
      · exact h.servers k server hk
    · exact fun k e hk => ⟨(h.entries k e hk).1, Nat.lt_succ_of_lt (h.entries k e hk).2⟩

theorem Prober.Backed.directGo (h : s.Backed E) {q : PeerId} {nonce : JsString}
    (htold : E.told q nonce) (ip : JsString) (port : Int) :
    (s.handleProbeDirectGo q ip port nonce).Backed E := by
  unfold Prober.handleProbeDirectGo
  split
  · exact h
  · rename_i k hk
    obtain ⟨e, he, hpeer⟩ := h.sockets q k hk
    dsimp only
    have hset : { s with entries := s.entries.mapVals fun i e =>
        if i = k then { e with expected := some nonce } else e }.Backed E := by
      refine h.mapEntries (fun i e => ?_) fun i e' hi he' => ?_
      · split <;> rfl
      · split
        · rename_i hik
          subst hik
          cases hi.symm.trans he
          refine ⟨he'.drawn, fun n hn => ?_, he'.heard⟩
          cases hn
          rw [hpeer]
          exact htold
        · exact he'
    refine (hset.sendNonce k ip port).await ?_
    rw [entries_sendNonce]
    refine entryFor_mapVals (fun i e => ?_) (h.sockets q k hk)
    split <;> rfl

theorem Prober.Backed.finish (h : s.Backed E) {q : PeerId} {success : Bool}
    (hheard : success = true → E.heard q) (id : Nat) : (s.finishDirectGo id q success).Backed E :=
  ((h.endHandler id).closeUdp q).sendMsg hheard

theorem Prober.Backed.look (h : s.Backed E) {q : PeerId} {k : Nat} (hfor : EntryFor s.entries k q)
    (id : Nat) : (s.lookResolved id q k).Backed E := by
  unfold Prober.lookResolved
  split
  · rename_i hresolved
    obtain ⟨e, he, rfl⟩ := hfor
    rw [he] at hresolved
    exact h.finish (fun _ => (h.entries k e he).1.heard (Option.some.inj hresolved)) id
  · exact h.setHandler hfor

theorem Prober.Backed.goStep (h : s.Backed E) (id : Nat) (timeUp : Bool) :
    (s.goStep id timeUp).Backed E := by
  unfold Prober.goStep
  split
  · rename_i q k ip port sent hid
    have hfor : EntryFor (s.sendNonce k ip port).entries k q := by
      rw [entries_sendNonce]
      exact h.handlers id _ hid
    dsimp only
    split
    · exact @Prober.Backed.setHandler _ _ (h.sendNonce k ip port) id
        (.sending q k ip port (sent + 1)) hfor
    · exact (h.sendNonce k ip port).look hfor id
  · rename_i q k hid
    split
    · exact h.finish (fun hf => by cases hf) id
    · exact h.look (h.handlers id _ hid) id
  · exact h

theorem Prober.Backed.fetched (h : s.Backed E) {id : Nat} {ok : Bool}
    (hok : ok = true → ∀ q, E.asked id q → E.reached q) : (s.fetched id ok).Backed E := by
  unfold Prober.fetched
  split
  · rename_i q hid
    exact (h.endHandler id).sendMsg fun hsuccess => hok hsuccess q (h.handlers id _ hid)
  · exact h

theorem Prober.Backed.udpBound (h : s.Backed E) (id : Nat) (bind : Except JsString Int) :
    (s.udpBound id bind).Backed E := by
  unfold Prober.udpBound
  split
  · rename_i q nonce hid
    have hdrawn : E.drawn q nonce := h.handlers id _ hid
    cases bind with
    | error text => exact (h.endHandler id).bindError q text
    | ok port =>
      -- the new entry has an id that no entry had
      have hgrow : ∀ k x, EntryFor s.entries k x →
          EntryFor (s.entries.set s.nextId { peerId := q, port, nonce }) k x := by
        rintro k x ⟨e, he, hx⟩
        refine ⟨e, ?_, hx⟩
        rw [OMap.get?_set_ne _ _ (Nat.ne_of_gt (h.entries k e he).2)]
        exact he
      constructor
      · exact h.servers
      · intro k e hk
        rcases OMap.get?_set_cases hk with ⟨rfl, rfl⟩ | ⟨-, hk⟩
        · refine ⟨⟨hdrawn, ?_, ?_⟩, Nat.lt_succ_self _⟩
          · intro n hn
            cases hn
          · intro hr
            cases hr
        · exact ⟨(h.entries k e hk).1, Nat.lt_succ_of_lt (h.entries k e hk).2⟩
      · exact fun x k hk => hgrow k x (h.sockets x k hk)
      · intro i y hy
        rcases OMap.get?_set_cases hy with ⟨rfl, rfl⟩ | ⟨-, hy⟩
        · exact ⟨_, OMap.get?_set_self _ _ _, rfl⟩
        · exact ProbeHandler.Backed.imp E.le_refl (fun _ _ hq => hq) hgrow (h.handlers i y hy)
      · exact h.outputs
  · exact h

theorem Prober.Backed.udpResume (h : s.Backed E) (id : Nat) : (s.udpResume id).Backed E := by
  unfold Prober.udpResume
  split
  · rename_i q k hid
    obtain ⟨e, he, hpeer⟩ : EntryFor s.entries k q := h.handlers id _ hid
    have hset : { s with udpProbeSockets := s.udpProbeSockets.set q k,
                         handlers := s.handlers.delete id }.Backed E :=
      { h.endHandler id with
        sockets := by
          intro x i hx
          rcases OMap.get?_set_cases hx with ⟨rfl, rfl⟩ | ⟨-, hx⟩
          · exact ⟨e, he, hpeer⟩
          · exact h.sockets x i hx }
    dsimp only
    rw [he]
    refine hset.sendMsg ?_
    show E.drawn q e.nonce
    rw [← hpeer]
    exact (h.entries k e he).1.drawn
  · exact h

theorem Prober.Backed.datagram (h : s.Backed E) {k : Nat} {text : JsString}
    (hheard : ∀ e, s.entries.get? k = some e → E.told e.peerId text → E.heard e.peerId) :
    (s.datagram k text).Backed E := by
  refine h.mapEntries (fun i e => ?_) fun i e hi he => ?_
  · split <;> rfl
  · split
    · rename_i hcond
      obtain ⟨rfl, -, hexpected⟩ := hcond
      exact ⟨he.drawn, he.told, fun _ => hheard e hi (he.told text hexpected)⟩
    · exact he

/-! ## Steps -/

/-- **One step.** -/
theorem backed_step (h : s.Backed E) {e : ProbeEvent} (he : e.Backed E s) :
    (probeStep s e).Backed E := by
  cases e with
  | receive now msg nonce bind =>
    have hrecv : { s with agent := s.agent.receive now msg,
                          log := .received msg :: s.log }.Backed E := { h with }
    cases msg with
    | probeRelayServe q => exact hrecv.serve he bind
    | probeRelayCheck q ip port n clientPubkey serverPubkey =>
      exact hrecv.await (x := .checking q) he
    | probeDirectStart q => exact hrecv.await (x := .binding q nonce) he
    | probeDirectGo q ip port n => exact hrecv.directGo he ip port
    | probeVerdict q action => exact hrecv.cleanUp q
    | negotiateAbort q reason => exact hrecv.cleanUp q
    | forceMode q mode => exact hrecv.cleanUp q
    | peerRemoved q => exact hrecv
  | fetched id ok => exact h.fetched he
  | udpBound id bind => exact h.udpBound id bind
  | udpResume id => exact h.udpResume id
  | goStep id timeUp => exact h.goStep id timeUp
  | datagram k text => exact h.datagram he
  | wsClose => exact { h.reset with }
  | awgApplied id => exact { h with }
  | switchDone id => exact { h with }
  | startPoll config => exact { h with }
  | pollStep id ok draws => exact { h with }
  | tick now => exact { h with }

theorem backed_boot (range : PortRange) (host : Host) (file : MappingFile)
    (selfMeshIpv4 : JsString) (E : Evidence) :
    (Prober.boot range host file selfMeshIpv4).Backed E := by
  refine ⟨?_, ?_, ?_, ?_, ?_⟩
  · intro k server hk
    cases hk
  · intro k e hk
    cases hk
  · intro q k hk
    cases hk
  · intro id x hx
    cases hx
  · intro out hout
    cases hout

/-- Ids go up. -/
theorem nextId_le_probeStep (s : Prober) (e : ProbeEvent) : s.nextId ≤ (probeStep s e).nextId := by
  cases probeStep_servers s e with
  | same h => exact h.2.2
  | started _ _ h => exact Nat.le_of_lt h
  | stopped _ _ _ h => exact h

/-! ## What has been sent stays sent -/

theorem outputs_closeTcp (s : Prober) (p : PeerId) :
    (s.closeTcpProbeServer p).outputs = s.outputs := by
  unfold Prober.closeTcpProbeServer
  split
  · rfl
  · split <;> rfl

theorem outputs_closeUdp (s : Prober) (p : PeerId) :
    (s.closeUdpProbeSocket p).outputs = s.outputs := by
  unfold Prober.closeUdpProbeSocket
  split <;> rfl

theorem outputs_cleanUp (s : Prober) (p : PeerId) : (s.cleanUp p).outputs = s.outputs :=
  (outputs_closeUdp _ p).trans (outputs_closeTcp s p)

theorem outputs_sendNonce (s : Prober) (k : Nat) (ip : JsString) (port : Int) :
    s.outputs <+: (s.sendNonce k ip port).outputs := by
  unfold Prober.sendNonce
  split
  · exact List.prefix_rfl
  · split
    · exact List.prefix_append _ _
    · exact List.prefix_rfl

theorem outputs_finish (s : Prober) (id : Nat) (q : PeerId) (success : Bool) :
    s.outputs <+: (s.finishDirectGo id q success).outputs := by
  have hclose := outputs_closeUdp { s with handlers := s.handlers.delete id } q
  exact ⟨_, congrArg (· ++ [ProbeOutput.toServer (.probeDirectResult q success)]) hclose.symm⟩

theorem outputs_look (s : Prober) (id : Nat) (q : PeerId) (k : Nat) :
    s.outputs <+: (s.lookResolved id q k).outputs := by
  unfold Prober.lookResolved
  split
  · exact outputs_finish s id q true
  · exact List.prefix_rfl

theorem outputs_goStep (s : Prober) (id : Nat) (timeUp : Bool) :
    s.outputs <+: (s.goStep id timeUp).outputs := by
  unfold Prober.goStep
  split
  · rename_i q k ip port sent _
    dsimp only
    split
    · exact outputs_sendNonce s k ip port
    · exact (outputs_sendNonce s k ip port).trans (outputs_look _ id q k)
  · rename_i q k _
    split
    · exact outputs_finish s id q false
    · exact outputs_look s id q k
  · exact List.prefix_rfl

theorem outputs_udpBound (s : Prober) (id : Nat) (bind : Except JsString Int) :
    s.outputs <+: (s.udpBound id bind).outputs := by
  unfold Prober.udpBound
  split
  · cases bind with
    | ok port => exact List.prefix_rfl
    | error text => exact List.prefix_append _ _
  · exact List.prefix_rfl

theorem outputs_udpResume (s : Prober) (id : Nat) : s.outputs <+: (s.udpResume id).outputs := by
  unfold Prober.udpResume
  split
  · dsimp only
    split
    · exact List.prefix_rfl
    · exact List.prefix_append _ _
  · exact List.prefix_rfl

theorem outputs_directGo (s : Prober) (q : PeerId) (ip : JsString) (port : Int)
    (nonce : JsString) : s.outputs <+: (s.handleProbeDirectGo q ip port nonce).outputs := by
  unfold Prober.handleProbeDirectGo
  split
  · exact List.prefix_rfl
  · rename_i k _
    exact outputs_sendNonce { s with entries := s.entries.mapVals fun i e =>
      if i = k then { e with expected := some nonce } else e } k ip port

theorem outputs_probeStep (s : Prober) (e : ProbeEvent) :
    s.outputs <+: (probeStep s e).outputs := by
  cases e with
  | receive now msg nonce bind =>
    cases msg with
    | probeRelayServe q =>
      cases bind with
      | ok port => exact List.prefix_append _ _
      | error text => exact List.prefix_append _ _
    | probeDirectGo q ip port n =>
      exact outputs_directGo { s with agent := s.agent.receive now (.probeDirectGo q ip port n),
                                      log := .received (.probeDirectGo q ip port n) :: s.log }
        q ip port n
    | probeVerdict q action => exact (outputs_cleanUp _ q).symm ▸ List.prefix_rfl
    | negotiateAbort q reason => exact (outputs_cleanUp _ q).symm ▸ List.prefix_rfl
    | forceMode q mode => exact (outputs_cleanUp _ q).symm ▸ List.prefix_rfl
    | _ => exact List.prefix_rfl
  | fetched id ok =>
    show s.outputs <+: (s.fetched id ok).outputs
    unfold Prober.fetched
    split
    · exact List.prefix_append _ _
    · exact List.prefix_rfl
  | udpBound id bind => exact outputs_udpBound s id bind
  | udpResume id => exact outputs_udpResume s id
  | goStep id timeUp => exact outputs_goStep s id timeUp
  | _ => exact List.prefix_rfl

end

end Meshezia
