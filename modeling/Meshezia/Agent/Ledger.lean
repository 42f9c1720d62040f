import Meshezia.Agent.Devices
import Meshezia.Agent.PortDraws

/-!
# The ports of an agent

Which peer has which port is in memory, and in the mapping file when nothing is dirty.  Of
both a `Ledger` says that the ports are of different peers and are port numbers, and that the
file has what is in memory unless the flag is set.

A call keeps it when the configuration gives to a peer no port but the one it has (`HoldsPorts`)
and the writing of the file does not break off.  Commands may fail in it, `getPort` may throw, and
it may be killed on its way, after which the agent starts from the file again:

    Ledger s, HoldsPorts config s  →  Ledger after the call, and after a crash in it
                          (Ledger.reconcile_ok, Ledger.reconcile_error, Ledger.reboot)
-/

namespace Meshezia

structure Ledger (s : Agent) : Prop where
  start : 0 < s.range.start
  nonempty : s.range.start ≤ s.range.stop
  stop : s.range.stop ≤ 65535
  paired : Paired s.books
  distinct : InjectiveMap s.peerToPort
  bound : ∀ q port, s.peerToPort.get? q = some port → port ≤ 65535
  filed : s.dirty = false → ∀ q i, s.peerToIf.get? q = some i →
    (q, i, (s.peerToPort.get? q).getD 0) ∈ s.mappings
  fileDistinct : ∀ e ∈ s.mappings, ∀ e' ∈ s.mappings, e.2.2 = e'.2.2 → e.2.2 ≠ 0 → e.1 = e'.1
  fileBound : ∀ e ∈ s.mappings, e.2.2 ≤ 65535

/-- The configuration gives to a peer no port but the one it has. -/
def HoldsPorts (config : PeerConfig) (s : Agent) : Prop :=
  ∀ q ∈ config.peers, 0 < q.listenPort → s.peerToPort.get? q.id = some q.listenPort

/-- What the monitor knows does not matter. -/
theorem Ledger.withMonitor {s : Agent} (h : Ledger s) (monitor : Monitor) :
    Ledger { s with monitor } :=
  ⟨h.start, h.nonempty, h.stop, h.paired, h.distinct, h.bound, h.filed, h.fileDistinct,
    h.fileBound⟩

/-! ## A turn -/

section
variable {env : Install} {faults : Faults} {config : MeshConfig} {existing : List IfName}
  {draws : List Nat} {m m' : Machine} {peer : PeerEndpoint} {port : Nat} {reported : Option Nat}

/-- A new port is one of the range. -/
theorem listenPortOf_bound {s : Agent} {peerToPort : OMap PeerId Nat} (hledger : Ledger s)
    (hzero : peer.listenPort = 0) (h : s.listenPortOf peer draws = some (port, peerToPort)) :
    port ≤ 65535 := by
  unfold Agent.listenPortOf at h
  rw [if_neg (by omega)] at h
  cases hown : s.peerToPort.get? peer.id with
  | some own =>
    have hne : own ≠ 0 := hledger.paired.ports peer.id own hown
    rw [getPort_own s.range hown hne draws] at h
    cases h
    exact hledger.bound peer.id port hown
  | none =>
    have hnew : Portless s.peerToPort peer.id := by
      unfold Portless
      rw [hown]
      rfl
    rcases getPort_cases hledger.start hledger.nonempty hnew draws with
      ⟨p, ⟨-, hp, -⟩, -, hget⟩ | ⟨-, hget⟩
    · rw [hget] at h
      cases h
      have := hledger.stop
      omega
    · rw [hget] at h
      cases h

theorem paired_turn (h : Paired m.agent.books)
    (hturn : Turn env faults config existing draws peer m m' port reported) : Paired m'.agent.books := by
  have hname := h.name peer.id true
  have hhas : (getIfName m.agent.peerToIf peer.id).2.has peer.id = true :=
    (has_getIfName _ _ _).mpr (Or.inl rfl)
  have hport := hname.port hturn.listenPort hhas true
  refine ⟨?_, ?_, hport.ports, ?_, ?_⟩
  · exact hturn.injective h.distinct
  · show ∀ p, m'.agent.peerToPort.has p = true → m'.agent.peerToIf.has p = true
    rw [hturn.peerToIf]
    exact hport.named
  · show Savable m'.agent.mappings
    rw [hturn.mappings]
    exact h.file
  · intro id poll data hpoll
    have hpoll : m'.agent.polls.get? id = some poll := hpoll
    rw [hturn.polls] at hpoll
    exact h.saving id poll data hpoll

theorem paired_failed (h : Paired m.agent.books) (hfailed : FailedTurn peer m m') :
    Paired m'.agent.books := by
  have hname := h.name peer.id true
  refine ⟨?_, ?_, ?_, ?_, ?_⟩
  · show InjectiveMap m'.agent.peerToIf
    rw [hfailed.peerToIf]
    exact hname.distinct
  · show ∀ p, m'.agent.peerToPort.has p = true → m'.agent.peerToIf.has p = true
    rw [hfailed.peerToIf, hfailed.peerToPort]
    exact hname.named
  · show ∀ p port, m'.agent.peerToPort.get? p = some port → port ≠ 0
    rw [hfailed.peerToPort]
    exact h.ports
  · show Savable m'.agent.mappings
    rw [hfailed.mappings]
    exact h.file
  · intro id poll data hpoll
    have hpoll : m'.agent.polls.get? id = some poll := hpoll
    rw [hfailed.polls] at hpoll
    exact h.saving id poll data hpoll

/-- **A turn** gives its peer the port of the configuration, which it has, its own or a new
one. -/
theorem Ledger.turn (h : Ledger m.agent) (hholds : HoldsPorts config.toPeerConfig m.agent)
    (hpeer : peer ∈ config.peers)
    (hturn : Turn env faults config existing draws peer m m' port reported) :
    Ledger m'.agent ∧ HoldsPorts config.toPeerConfig m'.agent := by
  obtain ⟨-, hself, hothers, hgiven, hown⟩ := listenPortOf_spec hturn.listenPort
  -- the port was the peer's before, or it is new and in the range
  have hport : m.agent.peerToPort.get? peer.id = some port ∨
      ((∀ q, m.agent.peerToPort.get? q ≠ some port) ∧ port ≤ 65535) := by
    rcases Nat.eq_zero_or_pos peer.listenPort with hzero | hpos
    · exact (hown hzero).2.imp_right fun hnew =>
        ⟨hnew, listenPortOf_bound h hzero hturn.listenPort⟩
    · rw [hgiven hpos]
      exact Or.inl (hholds peer hpeer hpos)
  refine ⟨⟨?_, ?_, ?_, paired_turn h.paired hturn, ?_, ?_, ?_, ?_, ?_⟩, ?_⟩
  · rw [hturn.range]
    exact h.start
  · rw [hturn.range]
    exact h.nonempty
  · rw [hturn.range]
    exact h.stop
  · intro p q n hp hq
    have hcase : ∀ r, m'.agent.peerToPort.get? r = some n →
        (r = peer.id ∧ n = port) ∨ m.agent.peerToPort.get? r = some n := by
      intro r hr
      by_cases hid : peer.id = r
      · subst hid
        exact Or.inl ⟨rfl, Option.some.inj (hr.symm.trans hself)⟩
      · exact Or.inr ((hothers r hid).symm.trans hr)
    rcases hcase p hp with ⟨rfl, rfl⟩ | hp' <;> rcases hcase q hq with ⟨rfl, hn⟩ | hq'
    · rfl
    · rcases hport with hold | ⟨hnew, -⟩
      · exact h.distinct _ _ _ hold hq'
      · exact absurd hq' (hnew q)
    · subst hn
      rcases hport with hold | ⟨hnew, -⟩
      · exact h.distinct _ _ _ hp' hold
      · exact absurd hp' (hnew p)
    · exact h.distinct _ _ _ hp' hq'
  · intro q n hq
    by_cases hid : peer.id = q
    · subst hid
      rw [hself] at hq
      cases hq
      exact hport.elim (h.bound _ _) And.right
    · exact h.bound q n ((hothers q hid).symm.trans hq)
  · intro hclean q i hq
    obtain ⟨hdirty, hnamed, hsame⟩ := hturn.dirty hclean
    have hports : m'.agent.peerToPort.get? q = m.agent.peerToPort.get? q := by
      by_cases hid : peer.id = q
      · rw [← hid, hself, hsame]
      · exact hothers q hid
    obtain ⟨i0, hi0⟩ := (OMap.has_iff _ _).mp hnamed
    rw [hturn.peerToIf, getIfName_of_some hi0] at hq
    rw [hturn.mappings, hports]
    exact h.filed hdirty q i hq
  · rw [hturn.mappings]
    exact h.fileDistinct
  · rw [hturn.mappings]
    exact h.fileBound
  · intro q hq hpos
    by_cases hid : peer.id = q.id
    · have heq := PeerConfig.eq_of_id hpeer hq hid
      subst heq
      rw [hself, hgiven hpos]
    · exact (hothers q.id hid).trans (hholds q hq hpos)

theorem Ledger.failed (h : Ledger m.agent) (hholds : HoldsPorts config.toPeerConfig m.agent)
    (hfailed : FailedTurn peer m m') : Ledger m'.agent ∧ HoldsPorts config.toPeerConfig m'.agent := by
  refine ⟨⟨?_, ?_, ?_, paired_failed h.paired hfailed, ?_, ?_, ?_, ?_, ?_⟩, ?_⟩
  · exact hfailed.range ▸ h.start
  · exact hfailed.range ▸ h.nonempty
  · exact hfailed.range ▸ h.stop
  · exact hfailed.peerToPort ▸ h.distinct
  · exact hfailed.peerToPort ▸ h.bound
  · intro hclean q i hq
    obtain ⟨hdirty, hnamed⟩ := hfailed.dirty hclean
    obtain ⟨i0, hi0⟩ := (OMap.has_iff _ _).mp hnamed
    rw [hfailed.peerToIf, getIfName_of_some hi0] at hq
    rw [hfailed.mappings, hfailed.peerToPort]
    exact h.filed hdirty q i hq
  · exact hfailed.mappings ▸ h.fileDistinct
  · exact hfailed.mappings ▸ h.fileBound
  · intro q hq hpos
    rw [hfailed.peerToPort]
    exact hholds q hq hpos

end

/-! ## A call -/

section
variable {env : Install} {faults : Faults} {config : MeshConfig} {draws : PeerId → List Nat}
  {m m' : Machine} {ports ports' : List (PeerId × Nat)} {peers : List PeerEndpoint}
  {existing : List IfName}

/-- What of the agent only the end of a call and the report change. -/
def SameFile (m m' : Machine) : Prop :=
  m'.agent.mappings = m.agent.mappings ∧ m'.agent.lastPorts = m.agent.lastPorts ∧
    m'.agent.range = m.agent.range

theorem Ledger.loop (h : Ledger m.agent) (hholds : HoldsPorts config.toPeerConfig m.agent)
    (draws : PeerId → List Nat) (ports : List (PeerId × Nat))
    (hpeers : ∀ q ∈ peers, q ∈ config.peers) :
    let m' := Machine.ended (m.reconcileLoop env faults config existing draws ports peers)
    (Ledger m'.agent ∧ HoldsPorts config.toPeerConfig m'.agent) ∧ SameFile m m' := by
  refine loop_keeps (I := fun s => (Ledger s.agent ∧ HoldsPorts config.toPeerConfig s.agent) ∧
    SameFile m s) ?_ ?_ ports ⟨⟨h, hholds⟩, rfl, rfl, rfl⟩
  · rintro q hq - m2 m3 port3 reported3 ⟨⟨h2, hholds2⟩, hm, hl, hr⟩ hturn
    exact ⟨h2.turn hholds2 (hpeers q hq) hturn, hturn.mappings.trans hm, hturn.lastPorts.trans hl,
      hturn.range.trans hr⟩
  · rintro q - m2 m3 ⟨⟨h2, hholds2⟩, hm, hl, hr⟩ hfailed
    exact ⟨h2.failed hholds2 hfailed, hfailed.mappings.trans hm, hfailed.lastPorts.trans hl,
      hfailed.range.trans hr⟩

theorem Ledger.removeGonePeer (h : Ledger m.agent) (e : PeerId × IfName) :
    Ledger (m.removeGonePeer env faults e).agent where
  start := h.start
  nonempty := h.nonempty
  stop := h.stop
  paired := h.paired.remove e.1 true
  distinct := fun p q n hp hq =>
    h.distinct p q n (OMap.get?_of_get?_delete hp).2 (OMap.get?_of_get?_delete hq).2
  bound := fun q n hq => h.bound q n (OMap.get?_of_get?_delete hq).2
  filed := fun hclean => absurd hclean (by simp [Machine.removeGonePeer, Agent.removeGonePeer])
  fileDistinct := h.fileDistinct
  fileBound := h.fileBound

/-- Removals take nothing from the peers of the configuration. -/
theorem Ledger.removals (h : Ledger m.agent) (hholds : HoldsPorts config.toPeerConfig m.agent)
    {l : List (PeerId × IfName)} (hl : ∀ e ∈ l, Agent.isDesired config.toPeerConfig e.1 = false) :
    let m' := l.foldl (Machine.removeGonePeer env faults) m
    (Ledger m'.agent ∧ HoldsPorts config.toPeerConfig m'.agent) ∧ SameFile m m' := by
  refine foldl_invariant (I := fun s : Machine => (Ledger s.agent ∧
    HoldsPorts config.toPeerConfig s.agent) ∧ SameFile m s) _ _ ?_ ⟨⟨h, hholds⟩, rfl, rfl, rfl⟩
  rintro t e he ⟨⟨ht, hholdst⟩, hsame⟩
  refine ⟨⟨ht.removeGonePeer e, fun q hq hpos => ?_⟩, hsame⟩
  have hid : e.1 ≠ q.id := by
    intro hid
    have hgone := hl e he
    rw [hid, isDesired_of_mem hq] at hgone
    cases hgone
  exact (OMap.get?_delete_ne _ hid).trans (hholdst q hq hpos)

/-- After saving, the file has what is in memory. -/
theorem Ledger.save (h : Ledger m.agent) :
    Ledger m.agent.saveMappings ∧ m.agent.saveMappings.dirty = false := by
  unfold Agent.saveMappings
  split
  · refine ⟨⟨h.start, h.nonempty, h.stop, ?_, h.distinct, h.bound, ?_, ?_, ?_⟩, rfl⟩
    · exact ⟨h.paired.distinct, h.paired.named, h.paired.ports, h.paired.savable, h.paired.saving⟩
    · intro _ q i hq
      exact (@mem_mappingData m.agent.books (q, i, _)).mpr ⟨hq, rfl⟩
    · rintro ⟨p, i, n⟩ he ⟨q, j, n'⟩ he' hn hne
      obtain ⟨-, hp⟩ := (@mem_mappingData m.agent.books _).mp he
      obtain ⟨-, hq⟩ := (@mem_mappingData m.agent.books _).mp he'
      have hget : ∀ {r k}, (m.agent.peerToPort.get? r).getD 0 = k → k ≠ 0 →
          m.agent.peerToPort.get? r = some k := by
        intro r k hk hk0
        cases hr : m.agent.peerToPort.get? r with
        | none =>
          rw [hr] at hk
          exact absurd hk.symm hk0
        | some k' =>
          rw [hr] at hk
          exact congrArg some hk
      have hn : n = n' := hn
      subst hn
      exact h.distinct p q n (hget hp hne) (hget hq hne)
    · rintro ⟨p, i, n⟩ he
      obtain ⟨-, hp⟩ := (@mem_mappingData m.agent.books _).mp he
      have hp : (m.agent.peerToPort.get? p).getD 0 = n := hp
      show n ≤ 65535
      cases hr : m.agent.peerToPort.get? p with
      | none =>
        rw [hr] at hp
        have : 0 = n := hp
        omega
      | some k =>
        rw [hr] at hp
        have : k = n := hp
        exact this ▸ h.bound p k hr
  · rename_i hclean
    exact ⟨h, by simpa using hclean⟩

/-- The list is of peers with a pubkey, in the order of the configuration, and of the ports that
they have in memory. -/
theorem loop_ports (hids : peers.Pairwise fun q r => q.id ≠ r.id)
    (h : m.reconcileLoop env faults config existing draws ports peers = .ok (m', ports')) :
    ∃ new, ports' = ports ++ new ∧
      (new.map Prod.fst).Sublist
        ((peers.filter fun p => !decide (p.pubkey = [])).map PeerEndpoint.id) ∧
      ∀ e ∈ new, m'.agent.peerToPort.get? e.1 = some e.2 := by
  induction peers generalizing m ports with
  | nil =>
    cases h
    exact ⟨[], (List.append_nil _).symm, .refl _, List.forall_mem_nil _⟩
  | cons peer rest ih =>
    obtain ⟨hpeer, hrest⟩ := List.pairwise_cons.mp hids
    unfold Machine.reconcileLoop at h
    split at h
    · rename_i hnil
      rw [List.filter_cons, if_neg (by simp [hnil])]
      exact ih hrest h
    · rename_i hkey
      rw [List.filter_cons, if_pos (by simp [hkey]), List.map_cons]
      split at h
      · cases h
      · obtain ⟨new, hnew, hsub, hports⟩ := ih hrest h
        exact ⟨new, hnew, hsub.cons _, hports⟩
      · rename_i m1 port hok
        obtain ⟨port', hturn⟩ := turn_of_ok hok
        obtain rfl : port = port' := hturn.reports port rfl
        obtain ⟨new, hnew, hsub, hports⟩ := ih hrest h
        refine ⟨(peer.id, port) :: new, ?_, hsub.cons_cons _, ?_⟩
        · rw [hnew, List.append_assoc, List.singleton_append]
        · refine List.forall_mem_cons.mpr ⟨?_, hports⟩
          -- the turns of the rest are of other peers
          have hkeeps := @loop_keeps env faults config existing draws m1 rest
            (fun s => s.agent.peerToPort.get? peer.id = some port) ?_ ?_
            (ports ++ [(peer.id, port)]) hturn.get?_self.2
          · rw [h] at hkeeps
            exact hkeeps
          · intro q hq _ m2 m3 port3 reported3 h2 hturn2
            exact (hturn2.get?_ne fun he => hpeer q hq he.symm).2.trans h2
          · intro q _ m2 m3 h2 hfailed
            exact hfailed.peerToPort ▸ h2

theorem Ledger.removeGone (h : Ledger m.agent) (hholds : HoldsPorts config.toPeerConfig m.agent) :
    let m' := m.removeGone env faults config
    (Ledger m'.agent ∧ HoldsPorts config.toPeerConfig m'.agent) ∧ SameFile m m' :=
  h.removals hholds fun e he => (forall_gone m config.toPeerConfig e he).1

/-- **A call that throws** keeps the ledger, and the file, unless its writing breaks off. -/
theorem Ledger.reconcile_error (h : Ledger m.agent)
    (hholds : HoldsPorts config.toPeerConfig m.agent) (hwhole : faults.writeMappings ≠ .cut)
    (herror : m.reconcile env faults config draws = .error m') :
    (Ledger m'.agent ∧ HoldsPorts config.toPeerConfig m'.agent) ∧ SameFile m m' := by
  have hloop := @Ledger.loop env faults config m config.peers (m.listInterfaces faults) h hholds
    draws [] fun q hq => hq
  rcases reconcile_cases env faults m config draws with
    ⟨m1, hr, hl⟩ | ⟨m1, ports, hl, ⟨mappings, hfile, hr⟩ | hr⟩ <;>
    rw [hr] at herror <;> cases herror <;> rw [hl] at hloop
  · exact hloop
  · obtain ⟨⟨h1, hholds1⟩, hm, hlast, hrange⟩ := hloop
    obtain ⟨hledger, hm2, hlast2, hrange2⟩ :=
      @Ledger.removeGone env faults config m1 h1 hholds1
    obtain rfl := hfile.resolve_right fun hcut => hwhole hcut.1
    exact ⟨hledger, hm2.trans hm, hlast2.trans hlast, hrange2.trans hrange⟩

/-- **A call that returns** keeps the ledger.  It lists peers with a pubkey, in the order of the
configuration, with the ports that they have in memory and in the file. -/
theorem Ledger.reconcile_ok (h : Ledger m.agent) (hholds : HoldsPorts config.toPeerConfig m.agent)
    (hok : m.reconcile env faults config draws = .ok (m', ports)) :
    Ledger m'.agent ∧ HoldsPorts config.toPeerConfig m'.agent ∧ m'.agent.dirty = false ∧
      m'.agent.lastPorts = m.agent.lastPorts ∧
      (ports.map Prod.fst).Sublist
        ((config.peers.filter fun p => !decide (p.pubkey = [])).map PeerEndpoint.id) ∧
      ∀ e ∈ ports, m'.agent.peerToPort.get? e.1 = some e.2 := by
  have hloop := @Ledger.loop env faults config m config.peers (m.listInterfaces faults) h hholds
    draws [] fun q hq => hq
  obtain ⟨m1, hl, rfl⟩ := reconcile_returns hok
  rw [hl] at hloop
  obtain ⟨⟨h1, hholds1⟩, -, hlast1, -⟩ := hloop
  obtain ⟨⟨h2, hholds2⟩, -, hlast2, -⟩ := @Ledger.removeGone env faults config m1 h1 hholds1
  obtain ⟨h3, hclean⟩ := h2.save
  obtain ⟨new, hnew, hsub, hports⟩ := loop_ports (List.pairwise_map.mp config.ids_nodup) hl
  have hsame : ((m1.removeGone env faults config).agent.saveMappings).peerToPort =
      (m1.removeGone env faults config).agent.peerToPort ∧
      ((m1.removeGone env faults config).agent.saveMappings).lastPorts =
        (m1.removeGone env faults config).agent.lastPorts := by
    unfold Agent.saveMappings
    split <;> exact ⟨rfl, rfl⟩
  rw [List.nil_append] at hnew
  subst hnew
  refine ⟨h3, fun q hq hpos => ?_, hclean, ?_, hsub, fun e he => ?_⟩
  · exact hsame.1 ▸ hholds2 q hq hpos
  · exact hsame.2.trans (hlast2.trans hlast1)
  · show ((m1.removeGone env faults config).agent.saveMappings).peerToPort.get? e.1 = some e.2
    obtain ⟨q, hq, hid⟩ := List.mem_map.mp (hsub.subset (List.mem_map_of_mem he))
    have hlisted : Agent.isDesired config.toPeerConfig e.1 = true :=
      hid ▸ isDesired_of_mem (List.mem_filter.mp hq).1
    rw [hsame.1]
    exact (get?_removeGone hlisted).2.trans (hports e he)

/-- **A call without a fault** lists all of them. -/
theorem reconcile_reports (hinj : InjectiveMap m.agent.peerToIf)
    (hok : m.reconcile env faults config draws = .ok (m', ports))
    (hlist : faults.listInterfaces = false) (hspare : ∀ i, faults.Spare i) :
    ∀ p ∈ config.peers, p.pubkey ≠ [] → p.id ∈ ports.map Prod.fst := by
  intro p hp hkey
  obtain ⟨-, port, reported, rfl, hreported, -⟩ := reconcile_makes
    (I := fun port reported _ => reported = some port) hinj hlist hp hkey
    (fun _ _ _ _ hs ht => (ht.installed hs (hspare _)).1) (fun _ _ _ _ _ _ _ _ _ _ h _ => h) hok
  exact List.mem_map_of_mem (hreported port rfl)

end

/-! ## A crash -/

/-- The file with this data, as `loadMappings` reads it. -/
def MappingFile.ofData (data : List (PeerId × IfName × Nat)) : MappingFile :=
  if h : (data.map Prod.fst).Nodup ∧ (data.map fun e => e.2.1).Nodup then ⟨data, h.1, h.2⟩
  else .empty

theorem MappingFile.data_ofData {data : List (PeerId × IfName × Nat)} (h : Savable data) :
    (MappingFile.ofData data).data = data := by
  unfold MappingFile.ofData
  split
  · rfl
  · rename_i hnot
    exact absurd h hnot

namespace Machine

/-- A call that is killed: after some turns of its first loop or, when all of them are over,
after some of its second.  In a turn that is cut short the commands after the kill fail. -/
def partway (env : Install) (faults : Faults) (m : Machine) (config : MeshConfig)
    (draws : PeerId → List Nat) (turns removals : Nat) : Machine :=
  match m.reconcileLoop env faults config (m.listInterfaces faults) draws []
      (config.peers.take turns) with
  | .error m => m
  | .ok (m, _) =>
    if turns < config.peers.length then m
    else
      ((m.agent.peerToIf.entries.filter fun e =>
        !Agent.isDesired config.toPeerConfig e.1).take removals).foldl (removeGonePeer env faults) m

/-- The agent starts again on the same host. -/
def reboot (m : Machine) : Machine :=
  { m with agent := .boot m.agent.range m.agent.host (.ofData m.agent.mappings) }

end Machine

section
variable {env : Install} {faults : Faults} {config : MeshConfig} {m : Machine}

/-- A call that is killed has not written the file. -/
theorem Ledger.partway (h : Ledger m.agent) (hholds : HoldsPorts config.toPeerConfig m.agent)
    (draws : PeerId → List Nat) (turns removals : Nat) :
    Ledger (m.partway env faults config draws turns removals).agent ∧
      (m.partway env faults config draws turns removals).agent.mappings = m.agent.mappings := by
  have hloop := @Ledger.loop env faults config m (config.peers.take turns) (m.listInterfaces faults)
    h hholds draws [] fun q hq => List.mem_of_mem_take hq
  unfold Machine.partway
  split
  · rename_i m1 hresult
    rw [hresult] at hloop
    exact ⟨hloop.1.1, hloop.2.1⟩
  · rename_i m1 ports1 hresult
    rw [hresult] at hloop
    obtain ⟨⟨h1, hholds1⟩, hsame⟩ := hloop
    split
    · exact ⟨h1, hsame.1⟩
    · obtain ⟨⟨h2, -⟩, hsame2, -⟩ := @Ledger.removals env faults config m1 h1 hholds1 _
        fun e he => (forall_gone m1 config.toPeerConfig e (List.mem_of_mem_take he)).1
      exact ⟨h2, hsame2.trans hsame.1⟩

/-- **A restart** has in memory what is in the file. -/
theorem Ledger.reboot (h : Ledger m.agent) :
    Ledger m.reboot.agent ∧ m.reboot.agent.mappings = m.agent.mappings ∧
      m.reboot.agent.lastPorts = [] ∧
      ∀ q i n, (q, i, n) ∈ m.agent.mappings → m.reboot.agent.peerToIf.get? q = some i ∧
        (n ≠ 0 → m.reboot.agent.peerToPort.get? q = some n) := by
  have hdata : (MappingFile.ofData m.agent.mappings).data = m.agent.mappings :=
    MappingFile.data_ofData h.paired.file
  have hport : ∀ q n, m.reboot.agent.peerToPort.get? q = some n ↔
      n ≠ 0 ∧ ∃ e ∈ m.agent.mappings, e.1 = q ∧ e.2.2 = n := by
    intro q n
    have hget := @MappingFile.get?_peerToPort (.ofData m.agent.mappings) q n
    rw [hdata] at hget
    exact hget
  have hname : ∀ q i, m.reboot.agent.peerToIf.get? q = some i ↔
      ∃ e ∈ m.agent.mappings, e.1 = q ∧ e.2.1 = i := by
    intro q i
    have hget := @MappingFile.get?_peerToIf (.ofData m.agent.mappings) q i
    rw [hdata] at hget
    exact hget
  refine ⟨⟨h.start, h.nonempty, h.stop, paired_boot _ _ _, ?_, ?_, ?_, ?_, ?_⟩, hdata, rfl, ?_⟩
  · intro p q n hp hq
    obtain ⟨hne, e, he, rfl, hn⟩ := (hport p n).mp hp
    obtain ⟨-, e', he', rfl, hn'⟩ := (hport q n).mp hq
    exact h.fileDistinct e he e' he' (hn.trans hn'.symm) (hn.symm ▸ hne)
  · intro q n hq
    obtain ⟨-, e, he, -, rfl⟩ := (hport q n).mp hq
    exact h.fileBound e he
  · intro _ q i hq
    obtain ⟨⟨q, i, n⟩, he, rfl, rfl⟩ := (hname _ i).mp hq
    show (q, i, (m.reboot.agent.peerToPort.get? q).getD 0) ∈ (MappingFile.ofData _).data
    rw [hdata]
    by_cases hn : n = 0
    · -- a peer without a port in the file has none in memory
      have hnone : m.reboot.agent.peerToPort.get? q = none := by
        refine Option.eq_none_iff_forall_ne_some.mpr fun k hk => ?_
        obtain ⟨hk0, e', he', hq', hk'⟩ := (hport q k).mp hk
        have heq := List.inj_on_of_nodup_map h.paired.file.1 he' he hq'
        rw [heq] at hk'
        exact hk0 (hk'.symm.trans hn)
      rw [hnone]
      exact hn ▸ he
    · rw [(hport q n).mpr ⟨hn, _, he, rfl, rfl⟩]
      exact he
  · intro e he e' he'
    have he : e ∈ (MappingFile.ofData m.agent.mappings).data := he
    have he' : e' ∈ (MappingFile.ofData m.agent.mappings).data := he'
    rw [hdata] at he he'
    exact h.fileDistinct e he e' he'
  · intro e he
    have he : e ∈ (MappingFile.ofData m.agent.mappings).data := he
    rw [hdata] at he
    exact h.fileBound e he
  · intro q i n he
    exact ⟨(hname q i).mpr ⟨_, he, rfl, rfl⟩, fun hn => (hport q n).mpr ⟨hn, _, he, rfl, rfl⟩⟩

section
variable {selfIpv4 : JsString} {awg : Api.Awg Api.Scalar} {p : PeerEndpoint} {i : IfName}
  {port : Nat} {e : Option JsString}

/-- A call that is killed keeps the tunnels that its configuration agrees with. -/
theorem Held.partway (hheld : Held env selfIpv4 awg p i port e m)
    (hbase : MAIN_TABLE < env.rtTableBase) (hagrees : Agrees config selfIpv4 awg p port e)
    (hport : port ≠ 0) (draws : PeerId → List Nat) (turns removals : Nat) :
    Held env selfIpv4 awg p i port e (m.partway env faults config draws turns removals) := by
  have hloop := @Held.loop env faults config m (config.peers.take turns) selfIpv4 awg p i port e
    hheld hbase hagrees hport draws [] fun q hq => List.mem_of_mem_take hq
  unfold Machine.partway
  split
  · rename_i m1 hresult
    rw [hresult] at hloop
    exact hloop
  · rename_i m1 ports1 hresult
    rw [hresult] at hloop
    split
    · exact hloop
    · exact hloop.removals hbase hagrees.listed fun x hx =>
        forall_gone m1 config.toPeerConfig x (List.mem_of_mem_take hx)

/-- A restart keeps the tunnels that are in the file. -/
theorem Held.reboot (hheld : Held env selfIpv4 awg p i port e m) (hledger : Ledger m.agent)
    (hport : port ≠ 0) (hfiled : (p.id, i, port) ∈ m.agent.mappings) :
    Held env selfIpv4 awg p i port e m.reboot := by
  obtain ⟨hledger', -, -, hread⟩ := hledger.reboot
  obtain ⟨hname, hget⟩ := hread p.id i port hfiled
  exact ⟨{ hheld.tunnel with ifName := hname, listenPort := hget hport }, hheld.endpoint,
    hledger'.paired.distinct⟩

end

end

end Meshezia
