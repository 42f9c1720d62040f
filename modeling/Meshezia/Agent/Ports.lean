import Meshezia.Agent.Mappings

/-!
# Listen ports

`getPort` draws a port that no peer has in memory, but it does not look at the ports that the
configuration gives to other peers.  So a peer can draw the port that the configuration gives
to a peer that comes after it (`listen_port_drawn_twice`).  In a run of calls that do not
overlap in which a port of the configuration is no other peer's, unless that peer gives it up
in the same call and the call comes to that point, ports are not shared:

    Along Sequential es → Along Unclashing es → after each call, DistinctPorts s.peerToPort
      and the reported ports are those of different peers          (listen_ports_distinct)
-/

namespace Meshezia

def DistinctPorts (m : OMap PeerId Nat) : Prop := (m.entries.map Prod.snd).Nodup

instance (m : OMap PeerId Nat) : Decidable (DistinctPorts m) :=
  inferInstanceAs (Decidable (List.Nodup _))

/-! ## Which peers keep their port -/

/-- A peer gives its port up in this call: it is not in the configuration, or among the peers
ahead and has another port there. -/
def letsGo (config : PeerConfig) (ahead : List PeerEndpoint) (p : PeerId) : Bool :=
  !Agent.isDesired config p || ahead.any fun x =>
    decide (x.id = p) && decide (x.pubkey ≠ []) && decide (x.listenPort > 0)

/-- The peers that the first loop has still to come to. -/
def Poll.ahead (poll : Poll) : List PeerEndpoint :=
  match poll.stage with
  | .listing => poll.config.peers
  | .creating _ rest => rest
  | .setting _ rest => rest
  | .routing _ rest => rest
  | _ => []

/-- The peers that the first loop has come to. -/
def Poll.had (poll : Poll) : List PeerEndpoint :=
  poll.config.peers.take (poll.config.peers.length - poll.ahead.length)

/-- No other peer has the port that the configuration gives to this one. -/
def SoleHolder (m : OMap PeerId Nat) (peer : PeerEndpoint) : Prop :=
  peer.pubkey ≠ [] → peer.listenPort > 0 →
    ∀ held ∈ m.entries, held.1 ≠ peer.id → held.2 ≠ peer.listenPort

instance (m : OMap PeerId Nat) (peer : PeerEndpoint) : Decidable (SoleHolder m peer) :=
  inferInstanceAs (Decidable (_ → _ → ∀ held ∈ m.entries, _ → _))

/-- A port of the configuration is held by no other peer that keeps it.  Where no port is found,
so that the call ends before any peer gives up a port, no peer was given one in its turn before
that another peer has. -/
def Agent.Unclashing (s : Agent) : AgentEvent → Prop
  | .pollStep id ok draws => ∀ poll ∈ s.polls.get? id, ∀ next ∈ poll.turn ok,
      (next.1.listenPort > 0 → ∀ held ∈ s.peerToPort.entries, held.1 ≠ next.1.id →
        held.2 = next.1.listenPort → letsGo poll.config next.2 held.1 = true) ∧
      (portFor s.range s.peerToPort next.1 draws = none →
        ∀ peer ∈ poll.had, SoleHolder s.peerToPort peer)
  | _ => True

instance (s : Agent) : (e : AgentEvent) → Decidable (s.Unclashing e)
  | .pollStep id ok draws => inferInstanceAs (Decidable (∀ poll ∈ s.polls.get? id,
      ∀ next ∈ poll.turn ok,
        (next.1.listenPort > 0 → ∀ held ∈ s.peerToPort.entries, held.1 ≠ next.1.id →
          held.2 = next.1.listenPort → letsGo poll.config next.2 held.1 = true) ∧
        (portFor s.range s.peerToPort next.1 draws = none →
          ∀ peer ∈ poll.had, SoleHolder s.peerToPort peer)))
  | .receive _ _ | .awgApplied _ | .switchDone _ | .startPoll _ | .probeFailed _ | .tick _
  | .wsClose => isTrue trivial

/-- The ports of the peers whose turn it was, as far as their commands have not failed. -/
def Poll.placed (poll : Poll) : List (PeerId × Nat) :=
  match poll.stage.work? with
  | some (t, _) => poll.ports ++ [(t.peer.id, t.listenPort)]
  | none => poll.ports

/-- One of the two peers was given the port by the configuration. -/
def GaveOut (peers : List PeerEndpoint) (p q : PeerId) (port : Nat) : Prop :=
  ∃ x ∈ peers, x.pubkey ≠ [] ∧ 0 < x.listenPort ∧ x.listenPort = port ∧ (x.id = p ∨ x.id = q)

/-- What a call of `reconcile` keeps of the ports `m` in memory. -/
structure PollSpread (m : OMap PeerId Nat) (poll : Poll) : Prop where
  suffix : ∃ before, poll.config.peers = before ++ poll.ahead
  clash : ∀ p q port, m.get? p = some port → m.get? q = some port → p ≠ q →
    letsGo poll.config poll.ahead p = true ∨ letsGo poll.config poll.ahead q = true
  given : ∀ p q port, m.get? p = some port → m.get? q = some port → p ≠ q →
    GaveOut poll.had p q port
  placed : ∀ x ∈ poll.placed, m.get? x.1 = some x.2 ∧
    letsGo poll.config poll.ahead x.1 = false
  leaving : ∀ p, poll.stage.leaving? = some p → Agent.isDesired poll.config p = false
  settled : poll.stage.saves = true → ∀ p, m.has p = true → Agent.isDesired poll.config p = true

section
variable {config : PeerConfig} {ahead rest : List PeerEndpoint} {p : PeerId}

theorem letsGo_eq_true : letsGo config ahead p = true ↔ Agent.isDesired config p = false ∨
    ∃ x ∈ ahead, x.id = p ∧ x.pubkey ≠ [] ∧ x.listenPort > 0 := by
  simp [letsGo, and_assoc]

theorem letsGo_nil : letsGo config [] p = true ↔ Agent.isDesired config p = false := by
  simp [letsGo]

/-- A peer that keeps its port keeps it when fewer peers are ahead. -/
theorem letsGo_of_subset (hsub : ∀ x ∈ rest, x ∈ ahead) (h : letsGo config ahead p = false) :
    letsGo config rest p = false := by
  refine Bool.eq_false_iff.mpr fun hrest => ?_
  rw [letsGo_eq_true] at hrest
  have hall : letsGo config ahead p = true := by
    refine letsGo_eq_true.mpr (hrest.imp_right ?_)
    rintro ⟨x, hx, hp⟩
    exact ⟨x, hsub x hx, hp⟩
  rw [h] at hall
  cases hall

/-- The turn of a peer is not that of another one. -/
theorem letsGo_of_turn {peer : PeerEndpoint} (hfirst : firstKeyed ahead = some (peer, rest))
    (hne : p ≠ peer.id) (h : letsGo config ahead p = true) : letsGo config rest p = true := by
  obtain ⟨-, before, rfl, hbefore⟩ := firstKeyed_eq_some hfirst
  refine letsGo_eq_true.mpr ((letsGo_eq_true.mp h).imp_right ?_)
  rintro ⟨x, hx, rfl, hkey, hport⟩
  rcases List.mem_append.mp hx with hx | hx
  · exact absurd (hbefore x hx) hkey
  · rcases List.mem_cons.mp hx with rfl | hx
    · exact absurd rfl hne
    · exact ⟨x, hx, rfl, hkey, hport⟩

theorem letsGo_of_none (hfirst : firstKeyed ahead = none) (h : letsGo config ahead p = true) :
    letsGo config [] p = true := by
  rcases letsGo_eq_true.mp h with hgone | ⟨x, hx, -, hkey, -⟩
  · exact letsGo_nil.mpr hgone
  · exact absurd (firstKeyed_eq_none hfirst x hx) hkey

/-- After its turn a peer keeps its port. -/
theorem letsGo_self {peer : PeerEndpoint} {before : List PeerEndpoint}
    (hpeers : config.peers = before ++ peer :: rest) : letsGo config rest peer.id = false := by
  refine Bool.eq_false_iff.mpr fun h => ?_
  rcases letsGo_eq_true.mp h with hgone | ⟨x, hx, hid, -, -⟩
  · have hmem : peer ∈ config.peers := by
      rw [hpeers]
      simp
    rw [isDesired_of_mem hmem] at hgone
    cases hgone
  · have hsorted := config.sorted
    rw [hpeers] at hsorted
    have hlt := (List.pairwise_cons.mp (List.pairwise_append.mp hsorted).2.1).1 x hx
    rw [hid] at hlt
    exact absurd hlt (by simp [jsLt_irrefl])

end

theorem GaveOut.imp {peers peers' : List PeerEndpoint} {p q : PeerId} {port : Nat}
    (h : GaveOut peers p q port) (hsub : ∀ x ∈ peers, x ∈ peers') : GaveOut peers' p q port := by
  obtain ⟨x, hx, hgiven⟩ := h
  exact ⟨x, hsub x hx, hgiven⟩

section
variable {poll poll' : Poll} {ok : Bool} {todo rest : List PeerEndpoint} {t : Target}

theorem had_of_suffix {before : List PeerEndpoint} (h : poll.config.peers = before ++ poll.ahead) :
    poll.had = before := by
  unfold Poll.had
  rw [h, List.length_append, Nat.add_sub_cancel]
  exact List.take_left

theorem had_of_ahead_nil (h : poll.ahead = []) : poll.had = poll.config.peers := by
  refine had_of_suffix ?_
  rw [h, List.append_nil]

theorem todo_eq_ahead (h : poll.todo ok = some todo) : todo = poll.ahead := by
  unfold Poll.todo at h
  unfold Poll.ahead
  cases hstage : poll.stage with
  | listing =>
    rw [hstage] at h
    cases h
    rfl
  | creating t rest =>
    cases ok <;> simp [hstage] at h
    exact h.symm
  | setting t rest =>
    cases ok <;> simp [hstage] at h
    exact h.symm
  | routing t rest =>
    rw [hstage] at h
    cases h
    rfl
  | _ => simp [hstage] at h

theorem ahead_of_work (h : poll.stage.work? = some (t, rest)) : poll.ahead = rest := by
  unfold Poll.ahead
  cases hstage : poll.stage with
  | creating t rest =>
    rw [hstage] at h
    cases h
    rfl
  | setting t rest =>
    rw [hstage] at h
    cases h
    rfl
  | routing t rest =>
    rw [hstage] at h
    cases h
    rfl
  | _ => simp [hstage, Stage.work?] at h

theorem placed_of_work (h : poll.stage.work? = some (t, rest)) :
    poll.placed = poll.ports ++ [(t.peer.id, t.listenPort)] := by
  simp [Poll.placed, h]

theorem mem_placed_of_portsAfter {x : PeerId × Nat} (h : x ∈ poll.portsAfter ok) :
    x ∈ poll.placed := by
  unfold Poll.portsAfter at h
  unfold Poll.placed
  cases hstage : poll.stage with
  | routing t rest =>
    rw [hstage] at h
    cases ok with
    | true => exact h
    | false => exact List.mem_append_left _ h
  | creating t rest =>
    rw [hstage] at h
    exact List.mem_append_left _ h
  | setting t rest =>
    rw [hstage] at h
    exact List.mem_append_left _ h
  | _ =>
    rw [hstage] at h
    exact h

end

/-! ## One call -/

section
variable {m : OMap PeerId Nat} {poll poll' : Poll}

section
variable (h : PollSpread m poll) {range : PortRange} {draws : List Nat} {peer : PeerEndpoint}
  {rest : List PeerEndpoint} {port : Nat} {m' : OMap PeerId Nat}
  (hfirst : firstKeyed poll.ahead = some (peer, rest))
  (hport : portFor range m peer draws = some (port, m'))
include h hfirst hport

/-- Another peer with the new port of the one whose turn it is gives it up. -/
theorem PollSpread.givesWay (hheld : peer.listenPort > 0 → ∀ q,
    m.get? q = some peer.listenPort → q ≠ peer.id → letsGo poll.config rest q = true)
    {q : PeerId} (hq : m'.get? q = some port) (hne : q ≠ peer.id) :
    letsGo poll.config rest q = true := by
  obtain ⟨-, between, hsplit, -⟩ := firstKeyed_eq_some hfirst
  obtain ⟨before, hsuffix⟩ := h.suffix
  have hmem : peer ∈ poll.config.peers := by
    rw [hsuffix, hsplit]
    simp
  rw [(portFor_spec hport).2.2 q (Ne.symm hne)] at hq
  unfold portFor at hport
  split at hport
  · rename_i hpos
    cases hport
    exact hheld hpos q hq hne
  · rename_i hzero
    obtain ⟨-, -, -, hown | hfree⟩ := getPort_spec hport
    · rcases h.clash q peer.id port hq hown hne with hgo | hgo
      · exact letsGo_of_turn hfirst hne hgo
      · -- the configuration gives this peer no port
        rcases letsGo_eq_true.mp hgo with hgone | ⟨x, hx, hid, -, hpos⟩
        · rw [isDesired_of_mem hmem] at hgone
          cases hgone
        · have hx' : x ∈ poll.config.peers := by
            rw [hsuffix]
            exact List.mem_append_right _ hx
          rw [PeerConfig.eq_of_id hx' hmem hid] at hpos
          exact absurd hpos hzero
    · exact absurd hq (hfree q)

/-- Another peer with the new port of the one whose turn it is had it before, or the port is
that of the configuration. -/
theorem PollSpread.gaveOut {p q : PeerId} (hp : m'.get? p = some port) (hq : m'.get? q = some port)
    (hne : p ≠ q) (hself : peer.id = p ∨ peer.id = q) : GaveOut poll.had p q port ∨
      (peer.pubkey ≠ [] ∧ 0 < peer.listenPort ∧ peer.listenPort = port) := by
  obtain ⟨hkey, -⟩ := firstKeyed_eq_some hfirst
  have hother := (portFor_spec hport).2.2
  unfold portFor at hport
  split at hport
  · rename_i hpos
    cases hport
    exact Or.inr ⟨hkey, hpos, rfl⟩
  · left
    obtain ⟨-, -, -, hown | hfree⟩ := getPort_spec hport
    · rcases hself with rfl | rfl
      · exact h.given _ q port hown ((hother q hne).symm.trans hq) hne
      · exact h.given p _ port ((hother p (Ne.symm hne)).symm.trans hp) hown hne
    · rcases hself with rfl | rfl
      · exact absurd ((hother q hne).symm.trans hq) (hfree q)
      · exact absurd ((hother p (Ne.symm hne)).symm.trans hp) (hfree p)

/-- A peer that was placed keeps its port. -/
theorem PollSpread.stays (hnonzero : ∀ p port, m.get? p = some port → port ≠ 0)
    {x : PeerId × Nat} (hx : x ∈ poll.placed) : m'.get? x.1 = some x.2 := by
  obtain ⟨hkey, between, hsplit, -⟩ := firstKeyed_eq_some hfirst
  obtain ⟨-, hself, hother⟩ := portFor_spec hport
  obtain ⟨hget, hstay⟩ := h.placed x hx
  by_cases hxp : x.1 = peer.id
  · rw [hxp] at hget hstay ⊢
    rw [hself]
    unfold portFor at hport
    split at hport
    · -- a peer whose port is given in the configuration has not been placed before
      rename_i hpos
      have hgo : letsGo poll.config poll.ahead peer.id = true :=
        letsGo_eq_true.mpr (Or.inr ⟨peer, by rw [hsplit]; simp, rfl, hkey, hpos⟩)
      rw [hstay] at hgo
      cases hgo
    · rw [getPort_own range hget (hnonzero _ _ hget)] at hport
      cases hport
      rfl
  · rw [hother _ (Ne.symm hxp)]
    exact hget

end

/-- The turn of a peer: afterwards it keeps the port it has got. -/
theorem PollSpread.turn (h : PollSpread m poll)
    (hnonzero : ∀ p port, m.get? p = some port → port ≠ 0) {range : PortRange} {ok : Bool}
    {draws : List Nat} {peer : PeerEndpoint} {rest : List PeerEndpoint} {t : Target} {port : Nat}
    {m' : OMap PeerId Nat} (hturn : poll.turn ok = some (peer, rest))
    (hport : portFor range m peer draws = some (port, m'))
    (hheld : peer.listenPort > 0 → ∀ q, m.get? q = some peer.listenPort → q ≠ peer.id →
      letsGo poll.config rest q = true)
    (hconfig : poll'.config = poll.config) (hports : poll'.ports = poll.portsAfter ok)
    (hwork : poll'.stage.work? = some (t, rest)) (hpeer : t.peer = peer)
    (ht : t.listenPort = port) : PollSpread m' poll' := by
  obtain ⟨todo, htodo, hfirst⟩ := Option.bind_eq_some_iff.mp hturn
  obtain rfl := todo_eq_ahead htodo
  obtain ⟨-, hself, hother⟩ := portFor_spec hport
  obtain ⟨-, between, hsplit, -⟩ := firstKeyed_eq_some hfirst
  obtain ⟨before, hsuffix⟩ := h.suffix
  have hpeers : poll.config.peers = (before ++ between) ++ peer :: rest := by
    rw [hsuffix, hsplit, List.append_assoc]
  have hahead : poll'.ahead = rest := ahead_of_work hwork
  have hgives : ∀ q, m'.get? q = some port → q ≠ peer.id → letsGo poll.config rest q = true :=
    fun q hq hne => h.givesWay hfirst hport hheld hq hne
  have hsuffix' : poll'.config.peers = (before ++ between ++ [peer]) ++ poll'.ahead := by
    rw [hconfig, hahead, hpeers]
    simp
  have hhad : ∀ x ∈ poll.had, x ∈ poll'.had := by
    intro x hx
    rw [had_of_suffix hsuffix] at hx
    rw [had_of_suffix hsuffix']
    simp [hx]
  refine ⟨⟨_, hsuffix'⟩, ?_, ?_, ?_, ?_, ?_⟩
  · intro p q n hp hq hne
    rw [hconfig, hahead]
    by_cases hpp : p = peer.id
    · subst hpp
      obtain rfl := Option.some.inj (hp.symm.trans hself)
      exact Or.inr (hgives q hq (Ne.symm hne))
    · by_cases hqp : q = peer.id
      · subst hqp
        obtain rfl := Option.some.inj (hq.symm.trans hself)
        exact Or.inl (hgives p hp hne)
      · rw [hother p (Ne.symm hpp)] at hp
        rw [hother q (Ne.symm hqp)] at hq
        exact (h.clash p q n hp hq hne).imp (letsGo_of_turn hfirst hpp) (letsGo_of_turn hfirst hqp)
  · intro p q n hp hq hne
    by_cases hself' : peer.id = p ∨ peer.id = q
    · obtain rfl : port = n := by
        rcases hself' with rfl | rfl
        · exact Option.some.inj (hself.symm.trans hp)
        · exact Option.some.inj (hself.symm.trans hq)
      rcases h.gaveOut hfirst hport hp hq hne hself' with hold | ⟨hkey, hpos, hgiven⟩
      · exact hold.imp hhad
      · refine ⟨peer, ?_, hkey, hpos, hgiven, hself'⟩
        rw [had_of_suffix hsuffix']
        simp
    · rw [not_or] at hself'
      rw [hother p hself'.1] at hp
      rw [hother q hself'.2] at hq
      exact (h.given p q n hp hq hne).imp hhad
  · intro x hx
    rw [placed_of_work hwork, hports, hpeer, ht] at hx
    rw [hconfig, hahead]
    rcases List.mem_append.mp hx with hx | hx
    · have hplaced := mem_placed_of_portsAfter hx
      refine ⟨h.stays hfirst hport hnonzero hplaced, ?_⟩
      refine letsGo_of_subset (fun y hy => ?_) (h.placed x hplaced).2
      rw [hsplit]
      exact List.mem_append_right _ (List.mem_cons_of_mem _ hy)
    · rw [List.mem_singleton] at hx
      subst hx
      exact ⟨hself, letsGo_self hpeers⟩
  · intro p hp
    rw [leaving?_of_work (by rw [hwork]; rfl)] at hp
    cases hp
  · intro hs
    rw [saves_of_work (by rw [hwork]; rfl)] at hs
    cases hs

/-- The first loop is over: only the ports of peers that are gone may clash. -/
structure LoopOver (m : OMap PeerId Nat) (poll : Poll) : Prop where
  clash : ∀ p q port, m.get? p = some port → m.get? q = some port → p ≠ q →
    Agent.isDesired poll.config p = false ∨ Agent.isDesired poll.config q = false
  given : ∀ p q port, m.get? p = some port → m.get? q = some port → p ≠ q →
    GaveOut poll.config.peers p q port
  placed : ∀ x ∈ poll.ports, m.get? x.1 = some x.2 ∧ Agent.isDesired poll.config x.1 = true

theorem PollSpread.loopOver (h : PollSpread m poll) {ok : Bool} {todo : List PeerEndpoint}
    (htodo : poll.todo ok = some todo) (hfirst : firstKeyed todo = none)
    (hconfig : poll'.config = poll.config) (hports : poll'.ports = poll.portsAfter ok) :
    LoopOver m poll' := by
  obtain rfl := todo_eq_ahead htodo
  constructor
  · intro p q port hp hq hne
    rw [hconfig]
    exact (h.clash p q port hp hq hne).imp (fun hgo => letsGo_nil.mp (letsGo_of_none hfirst hgo))
      fun hgo => letsGo_nil.mp (letsGo_of_none hfirst hgo)
  · intro p q port hp hq hne
    rw [hconfig]
    exact (h.given p q port hp hq hne).imp fun x hx => List.mem_of_mem_take hx
  · intro x hx
    rw [hports] at hx
    rw [hconfig]
    obtain ⟨hget, hstay⟩ := h.placed x (mem_placed_of_portsAfter hx)
    refine ⟨hget, ?_⟩
    by_contra hgone
    have hgo : letsGo poll.config poll.ahead x.1 = true :=
      letsGo_eq_true.mpr (Or.inl (Bool.eq_false_iff.mpr hgone))
    rw [hstay] at hgo
    cases hgo

/-- A peer that is gone loses its port. -/
theorem PollSpread.removed (h : PollSpread m poll) {p : PeerId} (hstage : poll.stage = .removed p) :
    LoopOver (m.delete p) poll := by
  have hahead : poll.ahead = [] := by simp [Poll.ahead, hstage]
  have hplaced : poll.placed = poll.ports := by simp [Poll.placed, hstage, Stage.work?]
  have hgone : Agent.isDesired poll.config p = false := h.leaving p (by rw [hstage]; rfl)
  obtain ⟨-, hclash, hgiven, hall, -, -⟩ := h
  rw [hahead] at hclash hall
  rw [hplaced] at hall
  rw [had_of_ahead_nil hahead] at hgiven
  constructor
  · intro q r port hq hr hne
    exact (hclash q r port (OMap.get?_of_get?_delete hq).2 (OMap.get?_of_get?_delete hr).2 hne).imp
      letsGo_nil.mp letsGo_nil.mp
  · intro q r port hq hr hne
    exact hgiven q r port (OMap.get?_of_get?_delete hq).2 (OMap.get?_of_get?_delete hr).2 hne
  · intro x hx
    obtain ⟨hget, hstay⟩ := hall x hx
    have hdesired : Agent.isDesired poll.config x.1 = true := by
      by_contra hno
      rw [letsGo_nil.mpr (Bool.eq_false_iff.mpr hno)] at hstay
      cases hstay
    refine ⟨?_, hdesired⟩
    rw [OMap.get?_delete_ne _ ?_]
    · exact hget
    · rintro rfl
      rw [hgone] at hdesired
      cases hdesired

/-- Where every peer in memory is in the configuration, the ports are distinct. -/
theorem LoopOver.distinct (h : LoopOver m poll)
    (hall : ∀ p, m.has p = true → Agent.isDesired poll.config p = true) : DistinctPorts m := by
  refine OMap.nodup_values.mpr fun p q port hp hq => ?_
  by_contra hne
  rcases h.clash p q port hp hq hne with hgone | hgone
  · rw [hall p (OMap.has_of_get? hp)] at hgone
    cases hgone
  · rw [hall q (OMap.has_of_get? hq)] at hgone
    cases hgone

/-- Past the first loop. -/
theorem LoopOver.spread (h : LoopOver m poll) {stage : Stage} (hwork : stage.work? = none)
    (hlisting : stage ≠ .listing)
    (hleaving : ∀ p, stage.leaving? = some p → Agent.isDesired poll.config p = false)
    (hsettled : stage.saves = true → ∀ p, m.has p = true →
      Agent.isDesired poll.config p = true) : PollSpread m { poll with stage } := by
  have hahead : ({ poll with stage } : Poll).ahead = [] := by
    cases stage with
    | listing => exact absurd rfl hlisting
    | creating | setting | routing => cases hwork
    | _ => rfl
  have hplaced : ({ poll with stage } : Poll).placed = poll.ports := by simp [Poll.placed, hwork]
  refine ⟨⟨poll.config.peers, by rw [hahead, List.append_nil]⟩, ?_, ?_, ?_, hleaving, hsettled⟩
  · rw [hahead]
    intro p q port hp hq hne
    exact (h.clash p q port hp hq hne).imp letsGo_nil.mpr letsGo_nil.mpr
  · rw [had_of_ahead_nil hahead]
    exact h.given
  · rw [hahead, hplaced]
    intro x hx
    obtain ⟨hget, hdesired⟩ := h.placed x hx
    refine ⟨hget, Bool.eq_false_iff.mpr fun hgo => ?_⟩
    have hgone : Agent.isDesired poll.config x.1 = false := letsGo_nil.mp hgo
    rw [hdesired] at hgone
    cases hgone

/-- Ports in memory are those of different peers. -/
theorem DistinctPorts.ne {ports : List (PeerId × Nat)} (h : DistinctPorts m)
    (hall : ∀ x ∈ ports, m.get? x.1 = some x.2) :
    ∀ x ∈ ports, ∀ y ∈ ports, x.1 ≠ y.1 → x.2 ≠ y.2 := by
  intro x hx y hy hne he
  refine hne (OMap.nodup_values.mp h x.1 y.1 x.2 (hall x hx) ?_)
  rw [he]
  exact hall y hy

end

/-! ## Every state -/

/-- Different peers have different ports, except during a call of `reconcile`. -/
structure Spread (b : Books) : Prop where
  paired : Paired b
  sole : SoleCall b
  idle : (∀ id poll, b.polls.get? id = some poll → poll.stage.inReconcile = false) →
    DistinctPorts b.peerToPort
  busy : ∀ id poll, b.polls.get? id = some poll → poll.stage.inReconcile = true →
    PollSpread b.peerToPort poll
  reported : ∀ id poll, b.polls.get? id = some poll → poll.stage.inReconcile = false →
    ∀ x ∈ poll.ports, ∀ y ∈ poll.ports, x.1 ≠ y.1 → x.2 ≠ y.2

section
variable {b c : Books} {id : Nat} {poll poll' : Poll}

/-- The call under way goes on. -/
theorem Spread.goesOn (h : Spread b) (hpaired : Paired c) (hsole : SoleCall c)
    (hpoll : b.polls.get? id = some poll) (hin : poll.stage.inReconcile = true)
    (hpolls : c.polls = b.polls.set id poll') (hin' : poll'.stage.inReconcile = true)
    (hspread : PollSpread c.peerToPort poll') : Spread c where
  paired := hpaired
  sole := hsole
  idle := by
    intro hidle
    rw [hidle id poll' (by rw [hpolls]; exact OMap.get?_set_self _ _ _)] at hin'
    cases hin'
  busy := by
    intro i p hi hp
    rw [hpolls] at hi
    rcases OMap.get?_set_cases hi with ⟨-, rfl⟩ | ⟨hne, hi⟩
    · exact hspread
    · exact absurd (h.sole.alone _ _ _ _ hpoll hi hin hp) hne
  reported := by
    intro i p hi hp
    rw [hpolls] at hi
    rcases OMap.get?_set_cases hi with ⟨-, rfl⟩ | ⟨-, hi⟩
    · rw [hin'] at hp
      cases hp
    · exact h.reported i p hi hp

/-- The call under way ends. -/
theorem Spread.ends (h : Spread b) (hpaired : Paired c) (hsole : SoleCall c)
    (hpoll : b.polls.get? id = some poll) (hin : poll.stage.inReconcile = true)
    (hdistinct : DistinctPorts c.peerToPort)
    (hother : ∀ i, id ≠ i → c.polls.get? i = b.polls.get? i)
    (hself : ∀ p, c.polls.get? id = some p → p.stage.inReconcile = false ∧
      ∀ x ∈ p.ports, ∀ y ∈ p.ports, x.1 ≠ y.1 → x.2 ≠ y.2) : Spread c where
  paired := hpaired
  sole := hsole
  idle := fun _ => hdistinct
  busy := by
    intro i p hi hp
    by_cases hid : id = i
    · subst hid
      rw [(hself p hi).1] at hp
      cases hp
    · rw [hother i hid] at hi
      exact absurd (h.sole.alone _ _ _ _ hpoll hi hin hp) hid
  reported := by
    intro i p hi hp
    by_cases hid : id = i
    · subst hid
      exact (hself p hi).2
    · rw [hother i hid] at hi
      exact h.reported i p hi hp

/-- The second loop of the call under way goes on. -/
theorem Spread.removals (h : Spread b) (hpaired : Paired c) (hsole : SoleCall c)
    (hpoll : b.polls.get? id = some poll) (hin : poll.stage.inReconcile = true) {d : Books}
    (hd : Paired d) (hpolls : d.polls = b.polls) (hover : LoopOver d.peerToPort poll')
    (hstep : Removals d id poll' c) : Spread c := by
  have hdesired : (∀ p, d.peerToIf.has p = true → Agent.isDesired poll'.config p = true) →
      ∀ p, d.peerToPort.has p = true → Agent.isDesired poll'.config p = true :=
    fun hall p hp => hall p (hd.named p hp)
  cases hstep with
  | @removing p i _ hgone =>
    refine h.goesOn hpaired hsole hpoll hin (by rw [← hpolls]) rfl
      (hover.spread rfl (by simp) (fun q hq => ?_) fun hs => by cases hs)
    cases hq
    exact hgone
  | saving hall _ =>
    exact h.goesOn hpaired hsole hpoll hin (by rw [← hpolls]) rfl
      (hover.spread rfl (by simp) (fun q hq => by cases hq) fun _ => hdesired hall)
  | done hall _ =>
    have hdistinct := hover.distinct (hdesired hall)
    refine h.ends hpaired hsole hpoll hin hdistinct
      (fun i hi => by rw [← hpolls]; exact OMap.get?_set_ne _ _ hi) fun p hp => ?_
    rw [OMap.get?_set_self, Option.some.injEq] at hp
    subst hp
    exact ⟨rfl, hdistinct.ne fun x hx => (hover.placed x hx).1⟩

/-- A call that goes on to a stage with the same peers ahead and the same ports. -/
theorem PollSpread.moved {m : OMap PeerId Nat} (h : PollSpread m poll) {stage : Stage}
    (hahead : ({ poll with stage } : Poll).ahead = poll.ahead)
    (hplaced : ({ poll with stage } : Poll).placed = poll.placed)
    (hleaving : ∀ p, stage.leaving? = some p → poll.stage.leaving? = some p)
    (hsaves : stage.saves = true → poll.stage.saves = true) : PollSpread m { poll with stage } where
  suffix := by
    rw [hahead]
    exact h.suffix
  clash := by
    rw [hahead]
    exact h.clash
  given := by
    have hhad : ({ poll with stage } : Poll).had = poll.had := by
      unfold Poll.had
      rw [hahead]
    rw [hhad]
    exact h.given
  placed := by
    rw [hahead, hplaced]
    exact h.placed
  leaving p hp := h.leaving p (hleaving p hp)
  settled hs := h.settled (hsaves hs)

/-- A command of a peer's turn is followed by another one of the same turn. -/
theorem PollSpread.command {m : OMap PeerId Nat} (h : PollSpread m poll) {stage : Stage}
    (hwork : poll.stage.work?.isSome = true) (hsame : stage.work? = poll.stage.work?) :
    PollSpread m { poll with stage } := by
  obtain ⟨⟨t, rest⟩, hold⟩ := Option.isSome_iff_exists.mp hwork
  have hnew : stage.work? = some (t, rest) := hsame.trans hold
  refine h.moved ((ahead_of_work hnew).trans (ahead_of_work hold).symm)
    ((placed_of_work hnew).trans (placed_of_work hold).symm) (fun p hp => ?_) fun hs => ?_
  · rw [leaving?_of_work (by rw [hnew]; rfl)] at hp
    cases hp
  · rw [saves_of_work (by rw [hnew]; rfl)] at hs
    cases hs

/-- A call that has found every peer to be in the configuration. -/
theorem PollSpread.distinct {m : OMap PeerId Nat} (h : PollSpread m poll)
    (hsaves : poll.stage.saves = true) : DistinctPorts m := by
  have hahead : poll.ahead = [] := by
    unfold Poll.ahead
    cases hstage : poll.stage <;> first | rfl | simp [hstage, Stage.saves] at hsaves
  refine OMap.nodup_values.mpr fun p q port hp hq => ?_
  by_contra hne
  have hclash := h.clash p q port hp hq hne
  rw [hahead, letsGo_nil, letsGo_nil] at hclash
  rcases hclash with hgone | hgone
  · rw [h.settled hsaves p (OMap.has_of_get? hp)] at hgone
    cases hgone
  · rw [h.settled hsaves q (OMap.has_of_get? hq)] at hgone
    cases hgone

/-- A call that throws has given no peer a port that another one has. -/
theorem PollSpread.distinct_of_sole {m : OMap PeerId Nat} (h : PollSpread m poll)
    (hsole : ∀ peer ∈ poll.had, SoleHolder m peer) : DistinctPorts m := by
  refine OMap.nodup_values.mpr fun p q port hp hq => ?_
  by_contra hne
  obtain ⟨x, hx, hkey, hpos, rfl, hid⟩ := h.given p q port hp hq hne
  rcases hid with rfl | rfl
  · exact hsole x hx hkey hpos (q, x.listenPort) ((OMap.mem_entries _ _ _).mpr hq) (Ne.symm hne) rfl
  · exact hsole x hx hkey hpos (p, x.listenPort) ((OMap.mem_entries _ _ _).mpr hp) hne rfl

/-- A poll that is past `reconcile` goes on, or ends. -/
theorem Spread.past (h : Spread b) (hpoll : b.polls.get? id = some poll)
    (hpast : poll.stage.inReconcile = false) {polls : OMap Nat Poll}
    (hpaired : Paired { b with polls }) (hsole : SoleCall { b with polls })
    (hother : ∀ i, id ≠ i → polls.get? i = b.polls.get? i)
    (hself : ∀ p, polls.get? id = some p → p.stage.inReconcile = false ∧ p.ports = poll.ports) :
    Spread { b with polls } where
  paired := hpaired
  sole := hsole
  idle := by
    intro hidle
    refine h.idle fun i p hi => ?_
    by_cases hid : id = i
    · subst hid
      rw [hpoll] at hi
      cases hi
      exact hpast
    · exact hidle i p ((hother i hid).trans hi)
  busy := by
    intro i p hi hp
    by_cases hid : id = i
    · subst hid
      rw [(hself p hi).1] at hp
      cases hp
    · exact h.busy i p ((hother i hid).symm.trans hi) hp
  reported := by
    intro i p hi hp
    by_cases hid : id = i
    · subst hid
      rw [(hself p hi).2]
      exact h.reported id poll hpoll hpast
    · exact h.reported i p ((hother i hid).symm.trans hi) hp

theorem Spread.start (h : Spread b) (config : PeerConfig) (id : Nat)
    (hidle : ∀ id poll, b.polls.get? id = some poll → poll.stage.inReconcile = false)
    (hpaired : Paired { b with
      polls := b.polls.set id { config, existing := [], ports := [], stage := .listing } })
    (hsole : SoleCall { b with
      polls := b.polls.set id { config, existing := [], ports := [], stage := .listing } }) :
    Spread { b with
      polls := b.polls.set id { config, existing := [], ports := [], stage := .listing } } where
  paired := hpaired
  sole := hsole
  idle := fun _ => h.idle hidle
  busy := by
    intro i p hi hp
    rcases OMap.get?_set_cases hi with ⟨-, rfl⟩ | ⟨-, hi⟩
    · have hdistinct := OMap.nodup_values.mp (h.idle hidle)
      exact ⟨⟨[], rfl⟩, fun p q port hp hq hne => absurd (hdistinct p q port hp hq) hne,
        fun p q port hp hq hne => absurd (hdistinct p q port hp hq) hne, fun x hx => (by cases hx),
        fun p hp => (by cases hp), fun hs => (by cases hs)⟩
    · rw [hidle i p hi] at hp
      cases hp
  reported := by
    intro i p hi hp
    rcases OMap.get?_set_cases hi with ⟨-, rfl⟩ | ⟨-, hi⟩
    · cases hp
    · exact h.reported i p hi hp

/-- **One step** keeps the ports of different peers apart. -/
theorem Spread.step (h : Spread b) {range : PortRange} {e : AgentEvent}
    (hstep : BooksStep range b e c)
    (hseq : ∀ config, e = .startPoll config → ∀ id poll, b.polls.get? id = some poll →
      poll.stage.inReconcile = false)
    (hclash : ∀ id ok draws poll next, e = .pollStep id ok draws → b.polls.get? id = some poll →
      poll.turn ok = some next →
      (next.1.listenPort > 0 → ∀ q, b.peerToPort.get? q = some next.1.listenPort →
        q ≠ next.1.id → letsGo poll.config next.2 q = true) ∧
      (portFor range b.peerToPort next.1 draws = none →
        ∀ peer ∈ poll.had, SoleHolder b.peerToPort peer)) :
    Spread c := by
  have hpaired := h.paired.step hstep
  have hsole := h.sole.step hstep hseq
  cases hstep with
  | other => exact h
  | started config id => exact h.start config id (hseq config rfl) hpaired hsole
  | @polled id ok draws poll _ hpoll hstep =>
    cases hstep with
    | @command stage _ hwork hsame =>
      have hin := inReconcile_of_work hwork
      exact h.goesOn hpaired hsole hpoll hin rfl (inReconcile_of_work (by rw [hsame]; exact hwork))
        ((h.busy id poll hpoll hin).command hwork hsame)
    | turn hturn hport hconfig hports hwork hpeer ht =>
      have hin := inReconcile_of_turn hturn
      exact h.goesOn hpaired hsole hpoll hin rfl (inReconcile_of_work (by rw [hwork]; rfl))
        ((h.busy id poll hpoll hin).turn h.paired.ports hturn hport
          (hclash id ok draws poll _ rfl hpoll hturn).1 hconfig hports hwork hpeer ht)
    | throws hturn hnone =>
      have hin := inReconcile_of_turn hturn
      refine h.ends hpaired hsole hpoll hin ((h.busy id poll hpoll hin).distinct_of_sole
        ((hclash id ok draws poll _ rfl hpoll hturn).2 hnone))
        (fun i hi => OMap.get?_delete_ne _ hi) fun p hp => ?_
      rw [OMap.get?_delete_self] at hp
      cases hp
    | looped htodo hfirst hconfig hports hremovals =>
      have hin := inReconcile_of_todo htodo
      exact h.removals hpaired hsole hpoll hin h.paired rfl
        ((h.busy id poll hpoll hin).loopOver htodo hfirst hconfig hports) hremovals
    | @unlinked p i hstage =>
      have hin : poll.stage.inReconcile = true := by rw [hstage]; rfl
      refine h.goesOn hpaired hsole hpoll hin rfl rfl
        ((h.busy id poll hpoll hin).moved ?_ ?_ (fun q hq => ?_) fun hs => by cases hs)
      · simp only [Poll.ahead, hstage]
      · simp only [Poll.placed, hstage, Stage.work?]
      · rw [hstage]
        exact hq
    | @removed p _ hstage hremovals =>
      have hin : poll.stage.inReconcile = true := by rw [hstage]; rfl
      exact h.removals hpaired hsole hpoll hin (h.paired.remove p true) rfl
        ((h.busy id poll hpoll hin).removed hstage) hremovals
    | @written data hstage _ =>
      have hin : poll.stage.inReconcile = true := by rw [hstage]; rfl
      refine h.goesOn hpaired hsole hpoll hin rfl rfl
        ((h.busy id poll hpoll hin).moved ?_ ?_ (fun q hq => by cases hq) fun _ => ?_)
      · simp only [Poll.ahead, hstage]
      · simp only [Poll.placed, hstage, Stage.work?]
      · rw [hstage]
        rfl
    | unwritten hstage =>
      have hin : poll.stage.inReconcile = true := by rw [hstage]; rfl
      refine h.ends hpaired hsole hpoll hin
        ((h.busy id poll hpoll hin).distinct (by rw [hstage]; rfl))
        (fun i hi => OMap.get?_delete_ne _ hi) fun p hp => ?_
      rw [OMap.get?_delete_self] at hp
      cases hp
    | cleared hstage =>
      have hin : poll.stage.inReconcile = true := by rw [hstage]; rfl
      have hspread := h.busy id poll hpoll hin
      have hdistinct := hspread.distinct (by rw [hstage]; rfl)
      refine h.ends hpaired hsole hpoll hin hdistinct (fun i hi => OMap.get?_set_ne _ _ hi)
        fun p hp => ?_
      rw [OMap.get?_set_self, Option.some.injEq] at hp
      subst hp
      have hall := hspread.placed
      simp only [Poll.placed, hstage, Stage.work?] at hall
      exact ⟨rfl, hdistinct.ne fun x hx => (hall x hx).1⟩
    | ended hpast =>
      refine h.past hpoll hpast hpaired hsole (fun i hi => OMap.get?_delete_ne _ hi) fun p hp => ?_
      rw [OMap.get?_delete_self] at hp
      cases hp
    | later hpast hlate =>
      refine h.past hpoll hpast hpaired hsole (fun i hi => OMap.get?_set_ne _ _ hi) fun p hp => ?_
      rw [OMap.get?_set_self, Option.some.injEq] at hp
      subst hp
      exact ⟨hlate, rfl⟩

end

/-! ## Runs -/

/-- **Listen ports are not shared** in a run of calls that do not overlap, when no other peer
keeps a port that the configuration gives to a peer. -/
theorem listen_ports_distinct (range : PortRange) (host : Host) (file : MappingFile)
    (es : List AgentEvent) (hfile : DistinctPorts file.peerToPort)
    (hseq : Along agentStep Sequential (.boot range host file) es)
    (hclash : Along agentStep Agent.Unclashing (.boot range host file) es) :
    let s := run agentStep (.boot range host file) es
    ((∀ entry ∈ s.polls.entries, entry.2.stage.inReconcile = false) →
      DistinctPorts s.peerToPort) ∧
    ∀ entry ∈ s.polls.entries, entry.2.stage.inReconcile = false →
      ∀ x ∈ entry.2.ports, ∀ y ∈ entry.2.ports, x.1 ≠ y.1 → x.2 ≠ y.2 := by
  intro s
  have hspread : Spread s.books := by
    refine run_invariant_along agentStep (I := fun s => Spread s.books) ?_ ?_
      (along_and agentStep hseq hclash)
    · rintro s e hs ⟨hsequential, hunclashing⟩
      refine hs.step (booksStep_agentStep s e) ?_ ?_
      · rintro config rfl id poll hpoll
        exact hsequential (id, poll) ((OMap.mem_entries _ _ _).mpr hpoll)
      · rintro id ok draws poll next rfl hpoll hturn
        obtain ⟨hheld, hnone⟩ := hunclashing poll hpoll next hturn
        refine ⟨fun hpos q hq hne => ?_, hnone⟩
        exact hheld hpos (q, _) ((OMap.mem_entries _ _ _).mpr hq) hne rfl
    · have hnone : ∀ id poll, (Agent.boot range host file).books.polls.get? id ≠ some poll := by
        intro id poll hpoll
        cases hpoll
      exact ⟨paired_boot range host file,
        ⟨fun i j p q hi => absurd hi (hnone i p), fun i p data hi => absurd hi (hnone i p)⟩,
        fun _ => hfile, fun i p hi => absurd hi (hnone i p), fun i p hi => absurd hi (hnone i p)⟩
  constructor
  · intro hidle
    exact hspread.idle fun i p hi => hidle (i, p) ((OMap.mem_entries _ _ _).mpr hi)
  · rintro ⟨i, p⟩ hmem hpast
    exact hspread.reported i p ((OMap.mem_entries _ _ _).mp hmem) hpast

/-- Two peers draw their ports, the second one at its second draw, and the next configuration
gives them those ports. -/
def givenBackRun : List AgentEvent :=
  .startPoll newPeer :: List.replicate 10 (.pollStep 0 true [5, 6]) ++
    .startPoll ⟨[⟨[98], [107], [10], [69], 51825⟩, ⟨[99], [108], [11], [70], 51826⟩], by decide⟩ ::
      List.replicate 9 (.pollStep 1 true [])

theorem listen_ports_distinct_givenBackRun :
    DistinctPorts (run agentStep freshAgent givenBackRun).peerToPort ∧
      (run agentStep freshAgent givenBackRun).peerToPort.entries = [([98], 51825), ([99], 51826)] :=
  ⟨(listen_ports_distinct ⟨51820, 52819⟩ ⟨[], .empty⟩ .empty givenBackRun (by decide)
    (by decide +kernel) (by decide +kernel)).1 (by decide +kernel), by decide +kernel⟩

/-! ## A port drawn twice -/

/-- The ports that a step reports to the server. -/
def Agent.reports (s : Agent) : AgentEvent → List (PeerId × Nat)
  | .pollStep id true _ => match s.polls.get? id with
    | some poll => match poll.stage with
      | .reporting => if poll.ports = s.lastPorts then [] else poll.ports
      | _ => []
    | none => []
  | _ => []

/-- The agent, with all the ports it has reported. -/
def reportStep (s : Agent × List (PeerId × Nat)) (e : AgentEvent) : Agent × List (PeerId × Nat) :=
  (agentStep s.1 e, s.1.reports e ++ s.2)

/-- A configuration gives each peer no port or one that was reported for it, and no two peers
the same. -/
def GivesReported (s : Agent × List (PeerId × Nat)) : AgentEvent → Prop
  | .startPoll config =>
      (∀ p ∈ config.peers, p.listenPort = 0 ∨ (p.id, p.listenPort) ∈ s.2) ∧
      config.peers.Pairwise fun p q => p.listenPort = 0 ∨ p.listenPort ≠ q.listenPort
  | _ => True

instance (s : Agent × List (PeerId × Nat)) : (e : AgentEvent) → Decidable (GivesReported s e)
  | .startPoll config => inferInstanceAs (Decidable (
      (∀ p ∈ config.peers, p.listenPort = 0 ∨ (p.id, p.listenPort) ∈ s.2) ∧
      config.peers.Pairwise fun p q => p.listenPort = 0 ∨ p.listenPort ≠ q.listenPort))
  | .receive _ _ | .awgApplied _ | .switchDone _ | .pollStep _ _ _ | .probeFailed _ | .tick _
  | .wsClose => isTrue trivial

/-- The peer of the first poll is gone for a while, and comes back with its port behind a peer
that has none. -/
def returningRun : List AgentEvent :=
  firstPoll ++ .startPoll noPeer :: List.replicate 6 (.pollStep 1 true []) ++
    .startPoll ⟨[⟨[97], [108], [11], [70], 0⟩, ⟨[98], [107], [10], [69], 51825⟩], by decide⟩ ::
    List.replicate 9 (.pollStep 2 true [5])

/-- **A port is drawn twice**: the new peer draws the port that the next one is given. -/
theorem listen_port_drawn_twice : ¬ ∀ es : List AgentEvent,
    Along agentStep Sequential freshAgent es →
    Along reportStep GivesReported (freshAgent, []) es →
    (∀ entry ∈ (run agentStep freshAgent es).polls.entries, entry.2.stage.inReconcile = false) →
    DistinctPorts (run agentStep freshAgent es).peerToPort := by
  intro h
  have hdistinct := h returningRun (by decide) (by decide) (by decide)
  exact absurd hdistinct (by decide)

end Meshezia
