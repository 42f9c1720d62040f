import Meshezia.Agent.Mappings
import Meshezia.Agent.Turns

/-!
# Packets with a mark

An application picks its tunnel by a mark: a packet with the mark `RT_TABLE_BASE + n` is to
leave by `mza{n}`.  For that the rule, the table and the interface have to come and go
together (`Wired`):

    i is an interface of the host  ↔  the table of i has its rule, and then its one route

Whichever commands fail, a turn of `reconcile` puts nothing wrong into the tables of the mesh
(`Tidy`), and does not touch the host's own rules and routes, but for the routes to the peers in
the table `main` (`Untouched`).  A turn for `mza{i}` in which no command fails makes it `Wired`,
and it stays so in every turn for another interface, whatever fails there.

    Wired at the start, or since a call that dealt with i without a fault  →  marked packets for
      `mza{i}` leave by it, and without it there is no rule for it           (marked_packets)
-/

namespace Meshezia

open Kernel PolicyRoutes

/-! ## The invariant -/

/-- The tables of the mesh have no rule and no route but their own. -/
structure Tidy (base : Nat) (ifs : IfName → Prop) (k : Kernel) : Prop where
  rules : ∀ i, k.showRules (base + i) = [] ∨ k.showRules (base + i) = [markRule (base + i)]
  table : ∀ i d l, k.routes.get? (base + i, d) = some l → d = .default ∧ l = .mza i
  links : ∀ t d i, k.routes.get? (t, d) = some (.mza i) → ifs i

/-- The kernel is set up for `mza{i}` if it is there, and else has no rule for it. -/
structure Wired (base : Nat) (ifs : IfName → Prop) (i : IfName) (k : Kernel) : Prop where
  rule : k.showRules (base + i) ≠ [] ↔ ifs i
  route : ifs i → k.routes.get? (base + i, .default) = some (.mza i)

/-- Below the base the kernel has the same rules, and the same routes over links that are not
those of the mesh; only in `main` a route to a peer may be new. -/
structure Untouched (base : Nat) (k k' : Kernel) : Prop where
  rules : ∀ r, r.table < base → (r ∈ k'.rules ↔ r ∈ k.rules)
  others : ∀ t d name, t < base → (t = MAIN_TABLE → ∀ ip, d ≠ .host ip) →
    (k'.routes.get? (t, d) = some (.other name) ↔ k.routes.get? (t, d) = some (.other name))
  tables : ∀ t d l, t < base → t ≠ MAIN_TABLE → k'.routes.get? (t, d) = some l →
    k.routes.get? (t, d) = some l

theorem Untouched.refl (base : Nat) (k : Kernel) : Untouched base k k where
  rules := fun _ _ => Iff.rfl
  others := fun _ _ _ _ _ => Iff.rfl
  tables := fun _ _ _ _ _ h => h

theorem Untouched.trans {base : Nat} {k k' k'' : Kernel} (h : Untouched base k k')
    (h' : Untouched base k' k'') : Untouched base k k'' where
  rules := fun r hr => (h'.rules r hr).trans (h.rules r hr)
  others := fun t d name ht hd => (h'.others t d name ht hd).trans (h.others t d name ht hd)
  tables := fun t d l ht hm hl => h.tables t d l ht hm (h'.tables t d l ht hm hl)

/-! ## Setting up an interface -/

section
variable {base : Nat} {k k' : Kernel} {opts : EnsureInterfaceOpts} {ifs ifs' : IfName → Prop}
  {i : IfName}

/-- The rules of a table: the one of the interface may be new. -/
theorem Touched.showRules (h : Touched base opts k k') (i : IfName) :
    k'.showRules (base + i) = k.showRules (base + i) ∨ i = opts.ifName ∧
      markRule (base + i) ∉ k.rules ∧
      k'.showRules (base + i) = k.showRules (base + i) ++ [markRule (base + i)] := by
  have hadd := showRules_addRule k.toPolicyRoutes (base + i) (markRule (base + opts.ifName))
  unfold PolicyRoutes.showRules addRule at *
  rcases h.rules with hrules | ⟨hnot, hrules⟩
  · rw [hrules]
    exact Or.inl rfl
  · rw [hrules, hadd]
    by_cases hi : i = opts.ifName
    · subst hi
      exact Or.inr ⟨rfl, hnot, congrArg _ (if_pos rfl)⟩
    · have hne : ¬ base + opts.ifName = base + i := fun he => hi (Nat.add_left_cancel he).symm
      rw [if_neg (show ¬ (markRule (base + opts.ifName)).table = base + i from hne),
        List.append_nil]
      exact Or.inl rfl

/-- **A turn** leaves the tables tidy, whichever of its commands fail. -/
theorem Tidy.touched (h : Tidy base ifs k) (ht : Touched base opts k k')
    (hbase : MAIN_TABLE < base) (hifs : ∀ i, ifs i → ifs' i) (hmade : ifs' opts.ifName) :
    Tidy base ifs' k' := by
  constructor
  · intro i
    rcases ht.showRules i with hshow | ⟨-, hnot, hshow⟩
    · rw [hshow]
      exact h.rules i
    · rw [hshow]
      rcases h.rules i with hnil | hone
      · rw [hnil]
        exact Or.inr rfl
      · have hmem : markRule (base + i) ∈ k.showRules (base + i) := by
          rw [hone]
          exact List.mem_singleton_self _
        exact absurd ((mem_showRules _ _).mp hmem).1 hnot
  · intro i d l hget
    rcases ht.routes (base + i) d with hsame | ⟨hnew, ⟨htable, hd⟩ | ⟨hmain, -⟩⟩
    · rw [hsame] at hget
      exact h.table i d l hget
    · rw [hnew] at hget
      cases hget
      exact ⟨hd, by rw [Nat.add_left_cancel htable]⟩
    · omega
  · intro t d i hget
    rcases ht.routes t d with hsame | ⟨hnew, -⟩
    · rw [hsame] at hget
      exact hifs i (h.links t d i hget)
    · rw [hnew] at hget
      cases hget
      exact hmade

theorem Tidy.mono (h : Tidy base ifs k) (hifs : ∀ i, ifs i → ifs' i) : Tidy base ifs' k :=
  ⟨h.rules, h.table, fun t d i hget => hifs i (h.links t d i hget)⟩

/-- The turn of another interface. -/
theorem Wired.touched (h : Wired base ifs i k) (ht : Touched base opts k k')
    (hbase : MAIN_TABLE < base) (hi : i ≠ opts.ifName) (hifs : ifs' i ↔ ifs i) :
    Wired base ifs' i k' := by
  constructor
  · rw [(ht.showRules i).resolve_right fun h => hi h.1, hifs]
    exact h.rule
  · intro hthere
    refine ((ht.routes (base + i) .default).resolve_right ?_).trans (h.route (hifs.mp hthere))
    rintro ⟨-, ⟨htable, -⟩ | ⟨hmain, -⟩⟩
    · exact hi (Nat.add_left_cancel htable)
    · omega

/-- Its own turn, without a fault. -/
theorem Installed.wired (h : Installed base opts k) (hthere : ifs opts.ifName) :
    Wired base ifs opts.ifName k := by
  refine ⟨iff_of_true (fun hnil => h.rule ?_) hthere, fun _ => h.default⟩
  rw [markRules, hnil]
  rfl

theorem untouched_touched (ht : Touched base opts k k') : Untouched base k k' := by
  constructor
  · intro r hr
    rcases ht.rules with hrules | ⟨-, hrules⟩
    · rw [hrules]
    · rw [hrules, List.mem_append, List.mem_singleton]
      refine ⟨fun h => h.resolve_right ?_, Or.inl⟩
      rintro rfl
      simp only [markRule] at hr
      omega
  · intro t d name ht' hd
    rcases ht.routes t d with hsame | ⟨-, ⟨htable, -⟩ | ⟨hmain, hhost⟩⟩
    · rw [hsame]
    · omega
    · exact absurd hhost (hd hmain _)
  · intro t d l ht' hmain hget
    rcases ht.routes t d with hsame | ⟨-, ⟨htable, -⟩ | ⟨hmain', -⟩⟩
    · exact hsame ▸ hget
    · omega
    · exact absurd hmain' hmain

/-! ## Removing an interface -/

variable {fails : IfCommand → Bool} {ifName : IfName}

/-- The rules of a table: those of the interface may be gone. -/
theorem TakenDown.showRules (h : TakenDown base fails ifName k k') (i : IfName) :
    k'.showRules (base + i) = k.showRules (base + i) ∨
      i = ifName ∧ k'.showRules (base + i) = [] := by
  have hdrop := showRules_dropRules k.toPolicyRoutes (base + ifName) (base + i)
  rw [dropRules_eq] at hdrop
  unfold PolicyRoutes.showRules at *
  rcases h.rules with hrules | hrules
  · rw [hrules]
    exact Or.inl rfl
  · rw [hrules, hdrop]
    by_cases hi : i = ifName
    · exact Or.inr ⟨hi, if_pos (by rw [hi])⟩
    · exact Or.inl (if_neg fun he => hi (Nat.add_left_cancel he))

theorem Tidy.removed (h : Tidy base ifs k) (hr : TakenDown base fails ifName k k')
    (hifs : ∀ i, ifs i → (fails .linkDelete = false → i ≠ ifName) → ifs' i) :
    Tidy base ifs' k' := by
  constructor
  · intro i
    rcases hr.showRules i with hshow | ⟨-, hshow⟩
    · rw [hshow]
      exact h.rules i
    · exact Or.inl hshow
  · exact fun i d l hget => h.table i d l (hr.routes _ _ _ hget)
  · intro t d i hget
    refine hifs i (h.links t d i (hr.routes _ _ _ hget)) ?_
    rintro hdelete rfl
    exact hr.noRoutes hdelete t d hget

theorem Wired.removed (h : Wired base ifs i k) (hr : TakenDown base fails ifName k k')
    (hi : i ≠ ifName) (hifs : ifs' i ↔ ifs i) : Wired base ifs' i k' := by
  constructor
  · rw [(hr.showRules i).resolve_right fun h => hi h.1, hifs]
    exact h.rule
  · intro hthere
    refine hr.others _ _ _ (fun he => hi (Nat.add_left_cancel he)) (fun he => hi ?_)
      (h.route (hifs.mp hthere))
    exact Link.mza.inj he

/-- Its own removal, without a fault. -/
theorem TakenDown.wired (hr : TakenDown base fails ifName k k') (hspare : ∀ c, fails c = false)
    (hgone : ¬ ifs ifName) : Wired base ifs ifName k' :=
  ⟨iff_of_false (not_not_intro (hr.noRules (hspare _))) hgone, fun h => absurd h hgone⟩

theorem untouched_removed (hr : TakenDown base fails ifName k k') : Untouched base k k' := by
  constructor
  · intro r hr'
    rcases hr.rules with hrules | hrules
    · rw [hrules]
    · rw [hrules, List.mem_filter]
      have : ¬ r.table = base + ifName := by omega
      simp [this]
  · intro t d name ht _
    exact ⟨hr.routes t d _, hr.others t d _ (by omega) (by simp)⟩
  · exact fun t d l _ _ hget => hr.routes t d l hget

end

/-! ## Calls -/

/-- A call of `reconcile`, and a restart of the agent with a mapping file. -/
inductive MachineEvent where
  | call (config : MeshConfig) (draws : PeerId → List Nat) (monitor : Monitor) (faults : Faults)
  | restart (file : MappingFile)

namespace Machine

def reconcileWith (env : Install) (faults : Faults) (m : Machine) (config : MeshConfig)
    (draws : PeerId → List Nat) (monitor : Monitor) :
    Except Machine (Machine × List (PeerId × Nat)) :=
  { m with agent := { m.agent with monitor } }.reconcile env faults config draws

end Machine

def machineStep (env : Install) (m : Machine) : MachineEvent → Machine
  | .call config draws monitor faults => .ended (m.reconcileWith env faults config draws monitor)
  | .restart file => { m with agent := .boot m.agent.range m.agent.host file }

/-- The tables of the mesh are tidy, and the rest of the kernel is as that of `k`. -/
structure Fitted (base : Nat) (k : Kernel) (m : Machine) : Prop where
  tidy : Tidy base (· ∈ m.agent.host.interfaces) m.kernel
  untouched : Untouched base k m.kernel

/-- `mza{i}` and what the kernel has for it go together. -/
def Machine.WiredAt (base : Nat) (i : IfName) (m : Machine) : Prop :=
  Wired base (· ∈ m.agent.host.interfaces) i m.kernel

section
variable {env : Install} {faults : Faults} {k : Kernel} {m m' : Machine} {config : MeshConfig}
  {existing : List IfName} {i : IfName}

/-- **A turn**, whichever commands fail. -/
theorem Fitted.turn (h : Fitted env.rtTableBase k m) (hbase : MAIN_TABLE < env.rtTableBase)
    (hexisting : ∀ i ∈ existing, i ∈ m.agent.host.interfaces) {draws : List Nat}
    {peer : PeerEndpoint} {port : Nat} {reported : Option Nat}
    (hturn : Turn env faults config existing draws peer m m' port reported) :
    Fitted env.rtTableBase k m' := by
  rcases hturn.touched hexisting with hkernel | ⟨hmade, htouched⟩
  · exact ⟨hkernel ▸ h.tidy.mono fun i hi => hturn.interface_kept hi, hkernel ▸ h.untouched⟩
  · exact ⟨h.tidy.touched htouched hbase (fun i hi => hturn.interface_kept hi) hmade,
      h.untouched.trans (untouched_touched htouched)⟩

theorem Fitted.failed (h : Fitted env.rtTableBase k m) {peer : PeerEndpoint}
    (hfailed : FailedTurn peer m m') : Fitted env.rtTableBase k m' :=
  ⟨hfailed.kernel ▸ hfailed.host ▸ h.tidy, hfailed.kernel ▸ h.untouched⟩

theorem Fitted.removeGonePeer (h : Fitted env.rtTableBase k m) (e : PeerId × IfName) :
    Fitted env.rtTableBase k (m.removeGonePeer env faults e) := by
  have hremoved := takenDown_removeInterface env.rtTableBase (faults.command e.2) e.2 m.kernel
  exact ⟨h.tidy.removed hremoved fun i hi hne => mem_removeGonePeer.mpr ⟨hi, hne⟩,
    h.untouched.trans (untouched_removed hremoved)⟩

/-- The turn of another interface, and its own one, if no command fails. -/
theorem wiredAt_turn (hwired : m.WiredAt env.rtTableBase i) (hbase : MAIN_TABLE < env.rtTableBase)
    (hexisting : ∀ i ∈ existing, i ∈ m.agent.host.interfaces) {draws : List Nat}
    {peer : PeerEndpoint} {port : Nat} {reported : Option Nat}
    (hturn : Turn env faults config existing draws peer m m' port reported)
    (hspare : faults.Spare i) : m'.WiredAt env.rtTableBase i := by
  by_cases hi : i = m.ifNameOf peer
  · subst hi
    by_cases hlisted : m.ifNameOf peer ∈ m.agent.host.interfaces → m.ifNameOf peer ∈ existing
    · obtain ⟨-, -, hinstalled⟩ := hturn.spared hspare hlisted
      rcases hturn.touched hexisting with hkernel | ⟨hmade, -⟩
      · -- all of it was there before
        exact hinstalled.wired (hturn.interface_kept (hwired.rule.mp fun hnil =>
          hinstalled.rule (by rw [hkernel, markRules]; rw [Machine.optsOf, hnil]; rfl)))
      · exact hinstalled.wired hmade
    · obtain ⟨hmem, hnot⟩ := Classical.not_imp.mp hlisted
      obtain ⟨hhost, hkernel⟩ := hturn.refused hmem hnot
      unfold Machine.WiredAt
      rw [hhost, hkernel]
      exact hwired
  · have hifs : i ∈ m'.agent.host.interfaces ↔ i ∈ m.agent.host.interfaces :=
      ⟨fun h => (hturn.interface_new h).resolve_right hi, hturn.interface_kept⟩
    rcases hturn.touched hexisting with hkernel | ⟨-, htouched⟩
    · unfold Machine.WiredAt
      rw [hkernel]
      exact ⟨hwired.rule.trans hifs.symm, fun h => hwired.route (hifs.mp h)⟩
    · exact hwired.touched htouched hbase hi hifs

/-- A removal without a fault. -/
theorem wiredAt_removed (hspare : faults.Spare i) (p : PeerId) :
    (m.removeGonePeer env faults (p, i)).WiredAt env.rtTableBase i :=
  (takenDown_removeInterface env.rtTableBase (faults.command i) i m.kernel).wired hspare
    fun hi => (mem_removeGonePeer.mp hi).2 (hspare .linkDelete) rfl

theorem wiredAt_removeGonePeer (hwired : m.WiredAt env.rtTableBase i) (hspare : faults.Spare i)
    (e : PeerId × IfName) : (m.removeGonePeer env faults e).WiredAt env.rtTableBase i := by
  obtain ⟨p, j⟩ := e
  by_cases hi : i = j
  · subst hi
    exact wiredAt_removed hspare p
  · exact Wired.removed hwired (takenDown_removeInterface env.rtTableBase (faults.command j) j m.kernel)
      hi (mem_removeGonePeer.trans (and_iff_left fun _ => hi))

/-! ## Whole calls -/

variable {draws : PeerId → List Nat} {ports : List (PeerId × Nat)}

theorem Fitted.removeGone (h : Fitted env.rtTableBase k m) :
    Fitted env.rtTableBase k (m.removeGone env faults config) :=
  foldl_invariant _ _ (fun _ e _ ht => ht.removeGonePeer e) h

/-- **A call**, whichever commands fail. -/
theorem Fitted.reconcile (h : Fitted env.rtTableBase k m) (hbase : MAIN_TABLE < env.rtTableBase) :
    Fitted env.rtTableBase k (.ended (m.reconcile env faults config draws)) := by
  refine reconcile_keeps ?_ (fun _ => Fitted.removeGone)
    (fun _ _ _ h => ⟨h.tidy, h.untouched⟩)
  exact (@loop_keeps env faults config (m.listInterfaces faults) draws m config.peers
    (fun s => Fitted env.rtTableBase k s ∧
      ∀ i ∈ m.listInterfaces faults, i ∈ s.agent.host.interfaces)
    (fun _ _ _ _ _ _ _ hs ht => ⟨hs.1.turn hbase hs.2 ht, fun i hi => ht.interface_kept (hs.2 i hi)⟩)
    (fun _ _ _ _ hs hf => ⟨hs.1.failed hf, hf.host ▸ hs.2⟩) []
    ⟨h, fun _ => mem_of_mem_listInterfaces⟩).1

theorem wiredAt_save (h : m.WiredAt env.rtTableBase i) :
    ({ m with agent := m.agent.saveMappings } : Machine).WiredAt env.rtTableBase i := by
  show Wired env.rtTableBase (· ∈ m.agent.saveMappings.host.interfaces) i m.kernel
  rw [(saveMappings_apart _).1]
  exact h

theorem wiredAt_removeGone (h : m.WiredAt env.rtTableBase i) (hspare : faults.Spare i) :
    (m.removeGone env faults config).WiredAt env.rtTableBase i :=
  foldl_invariant (I := Machine.WiredAt env.rtTableBase i) _ _
    (fun _ e _ ht => wiredAt_removeGonePeer ht hspare e) h

/-- **A call in which no command for `mza{i}` fails** keeps it wired. -/
theorem wiredAt_reconcile (h : m.WiredAt env.rtTableBase i) (hbase : MAIN_TABLE < env.rtTableBase)
    (hspare : faults.Spare i) :
    (Machine.ended (m.reconcile env faults config draws)).WiredAt env.rtTableBase i := by
  refine reconcile_keeps (I := Machine.WiredAt env.rtTableBase i) ?_
    (fun _ h => wiredAt_removeGone h hspare) (fun _ _ _ h => h)
  exact (@loop_keeps env faults config (m.listInterfaces faults) draws m config.peers
    (fun s => s.WiredAt env.rtTableBase i ∧
      ∀ i ∈ m.listInterfaces faults, i ∈ s.agent.host.interfaces)
    (fun _ _ _ _ _ _ _ hs ht => ⟨wiredAt_turn hs.1 hbase hs.2 ht hspare,
      fun i hi => ht.interface_kept (hs.2 i hi)⟩)
    (fun _ _ _ _ hs hf => ⟨by unfold Machine.WiredAt; rw [hf.host, hf.kernel]; exact hs.1,
      hf.host ▸ hs.2⟩) [] ⟨h, fun _ => mem_of_mem_listInterfaces⟩).1

/-- **A call that sets up `mza{i}`** makes it wired, if no command for it fails. -/
theorem wiredAt_of_set (hinj : InjectiveMap m.agent.peerToIf) (hbase : MAIN_TABLE < env.rtTableBase)
    (hlist : faults.listInterfaces = false) (hspare : faults.Spare i)
    (hok : m.reconcile env faults config draws = .ok (m', ports)) {p : PeerEndpoint}
    (hp : p ∈ config.peers) (hkey : p.pubkey ≠ []) (hget : m'.agent.peerToIf.get? p.id = some i) :
    m'.WiredAt env.rtTableBase i := by
  -- after its turn the peer has an interface that is wired, and the turns of others keep it
  obtain ⟨m1, -, -, ⟨j, hj, hwired⟩, -, rfl⟩ := reconcile_makes (I := fun _ _ s =>
      ∃ j, s.agent.peerToIf.get? p.id = some j ∧
        (faults.Spare j → s.WiredAt env.rtTableBase j)) hinj hlist hp hkey
    (fun s s' port reported hs ht => by
      refine ⟨_, ht.get?_self.1, fun hspare' => ?_⟩
      obtain ⟨-, -, hthere, hinstalled⟩ := ht.installed hs hspare'
      exact hinstalled.wired hthere)
    (fun q _ _ s s' _ _ _ _ hthere ⟨j, hj, hwired⟩ ht => ⟨j, ht.get?_kept hj,
      fun hspare' => wiredAt_turn (hwired hspare') hbase hthere ht hspare'⟩) hok
  -- it is the one that it has at the end
  obtain rfl : j = i :=
    Option.some.inj (hj.symm.trans ((get?_saved (isDesired_of_mem hp)).symm.trans hget))
  exact wiredAt_save (wiredAt_removeGone (hwired hspare) hspare)

/-- **A call that removes `mza{i}`** makes it wired, if no command for it fails. -/
theorem wiredAt_of_removed (hspare : faults.Spare i)
    (hok : m.reconcile env faults config draws = .ok (m', ports)) {p : PeerId}
    (hgone : Agent.isDesired config.toPeerConfig p = false)
    (hget : m.agent.peerToIf.get? p = some i) : m'.WiredAt env.rtTableBase i := by
  obtain ⟨m1, hl, rfl⟩ := reconcile_returns hok
  -- the first loop leaves the peer its interface
  have hkept := @loop_keeps env faults config (m.listInterfaces faults) draws m config.peers
    (fun s => s.agent.peerToIf.get? p = some i) (fun _ _ _ _ _ _ _ hs ht => ht.get?_kept hs)
    (fun _ _ _ _ hs hf => hf.get? hs) [] hget
  rw [hl] at hkept
  have hmem : (p, i) ∈ m1.agent.peerToIf.entries.filter fun e =>
      !Agent.isDesired config.toPeerConfig e.1 :=
    List.mem_filter.mpr ⟨(OMap.mem_entries _ _ _).mpr hkept, by simp [hgone]⟩
  exact wiredAt_save (foldl_makes (I := Machine.WiredAt env.rtTableBase i) hmem
    (fun _ => wiredAt_removed hspare p) (fun _ e _ ht => wiredAt_removeGonePeer ht hspare e) m1)

theorem injective_reconcile (hinj : InjectiveMap m.agent.peerToIf) :
    InjectiveMap (Machine.ended (m.reconcile env faults config draws)).agent.peerToIf := by
  refine reconcile_keeps (I := fun s => InjectiveMap s.agent.peerToIf) ?_
    (fun _ => injective_removeGone) (fun _ _ _ h => h)
  exact loop_keeps (I := fun s => InjectiveMap s.agent.peerToIf)
    (fun _ _ _ _ _ _ _ hs ht => ht.injective hs) (fun _ _ _ _ hs hf => hf.injective hs) [] hinj

end

/-! ## Runs -/

section
variable {env : Install} {k : Kernel} {m : Machine} {i : IfName}

/-- No command for `mza{i}` fails in the step. -/
def MachineEvent.Spares (i : IfName) : MachineEvent → Prop
  | .call _ _ _ faults => faults.Spare i
  | .restart _ => True

/-- A call that comes to its end, in which no command for `mza{i}` fails, and which sets it up
for a peer with a pubkey, or removes it. -/
def Handles (env : Install) (i : IfName) (m : Machine) : MachineEvent → Prop
  | .call config draws monitor faults =>
    faults.listInterfaces = false ∧ faults.Spare i ∧ ∃ m' ports,
      m.reconcileWith env faults config draws monitor = .ok (m', ports) ∧
      ((∃ p ∈ config.peers, p.pubkey ≠ [] ∧ m'.agent.peerToIf.get? p.id = some i) ∨
        ∃ p, Agent.isDesired config.toPeerConfig p = false ∧ m.agent.peerToIf.get? p = some i)
  | .restart _ => False

theorem Fitted.step (h : Fitted env.rtTableBase k m) (hbase : MAIN_TABLE < env.rtTableBase)
    (e : MachineEvent) : Fitted env.rtTableBase k (machineStep env m e) := by
  cases e with
  | call config draws monitor faults =>
    have hmonitor : Fitted env.rtTableBase k { m with agent := { m.agent with monitor } } :=
      ⟨h.tidy, h.untouched⟩
    exact hmonitor.reconcile hbase
  | restart file => exact ⟨h.tidy, h.untouched⟩

theorem injective_machineStep (hinj : InjectiveMap m.agent.peerToIf) (e : MachineEvent) :
    InjectiveMap (machineStep env m e).agent.peerToIf := by
  cases e with
  | call config draws monitor faults => exact injective_reconcile hinj
  | restart file => exact (paired_boot m.agent.range m.agent.host file).distinct

/-- **A step** without a fault for `mza{i}` keeps it wired. -/
theorem wiredAt_step (h : m.WiredAt env.rtTableBase i) (hbase : MAIN_TABLE < env.rtTableBase)
    {e : MachineEvent} (he : e.Spares i) : (machineStep env m e).WiredAt env.rtTableBase i := by
  cases e with
  | call config draws monitor faults =>
    have hmonitor : ({ m with agent := { m.agent with monitor } } : Machine).WiredAt
      env.rtTableBase i := h
    exact wiredAt_reconcile hmonitor hbase he
  | restart file => exact h

/-- **A step that deals with `mza{i}`** makes it wired. -/
theorem wiredAt_handles (hinj : InjectiveMap m.agent.peerToIf) (hbase : MAIN_TABLE < env.rtTableBase)
    {e : MachineEvent} (he : Handles env i m e) :
    (machineStep env m e).WiredAt env.rtTableBase i := by
  cases e with
  | call config draws monitor faults =>
    obtain ⟨hlist, hspare, m', ports, hok, ⟨p, hp, hkey, hget⟩ | ⟨p, hgone, hget⟩⟩ := he
    · show (Machine.ended (m.reconcileWith env faults config draws monitor)).WiredAt _ i
      rw [hok]
      exact @wiredAt_of_set env faults { m with agent := { m.agent with monitor } } m' config i draws
        ports hinj hbase hlist hspare hok p hp hkey hget
    · show (Machine.ended (m.reconcileWith env faults config draws monitor)).WiredAt _ i
      rw [hok]
      exact @wiredAt_of_removed env faults { m with agent := { m.agent with monitor } } m' config i
        draws ports hspare hok p hgone hget
  | restart file => exact he.elim

end

/-! ## Where marked packets leave -/

/-- No rule of the host's own that comes before the one of `mza{i}` has a route for the
address; the rule of the table `main` comes after it. -/
def ComesFirst (covers : Destination → JsString → Prop) (base : Nat) (k : Kernel) (i : IfName)
    (addr : JsString) : Prop :=
  ∀ r ∈ k.rules, r.table < base → r.prio ≤ base + i → r.Matches (base + i) →
    r.table ≠ MAIN_TABLE ∧ ∀ l, ¬ k.Serves covers r.table addr l

theorem Wired.leaves {base : Nat} {ifs : IfName → Prop} {k k0 : Kernel}
    {covers : Destination → JsString → Prop} {i : IfName} (h : Wired base ifs i k)
    (htidy : Tidy base ifs k) (huntouched : Untouched base k0 k)
    (hcovers : ∀ addr, covers .default addr) (hi : ifs i) {addr : JsString}
    (hfirst : ComesFirst covers base k0 i addr) (link : Link) :
    k.Leaves covers (base + i) addr link ↔ link = .mza i := by
  have hmem : ∀ j r, r ∈ k.rules → r.table = base + j → r = markRule (base + j) := by
    intro j r hr htable
    have hshow : r ∈ k.showRules (base + j) := (mem_showRules _ _).mpr ⟨hr, htable⟩
    rcases htidy.rules j with hnil | hone
    · rw [hnil] at hshow
      cases hshow
    · rw [hone, List.mem_singleton] at hshow
      exact hshow
  have hrule : markRule (base + i) ∈ k.rules := by
    have hshow : markRule (base + i) ∈ k.showRules (base + i) := by
      rw [(htidy.rules i).resolve_left (h.rule.mpr hi)]
      exact List.mem_singleton_self _
    exact ((mem_showRules _ _).mp hshow).1
  have hroute : ∀ d l, k.routes.get? (base + i, d) = some l ↔ d = .default ∧ l = .mza i := by
    intro d l
    refine ⟨htidy.table i d l, ?_⟩
    rintro ⟨rfl, rfl⟩
    exact h.route hi
  refine leaves_of_only covers hrule ?_ hroute (hcovers addr) ?_ ?_ link
  · intro m hm
    exact (Option.some.inj hm).symm
  · intro r hr hprio hmatch
    by_cases htable : r.table < base
    · -- a rule of the host's own
      obtain ⟨hmain, hnone⟩ := hfirst r ((huntouched.rules r htable).mp hr) htable hprio hmatch
      refine Or.inr fun l hserves => ?_
      obtain ⟨d, hd, hcov⟩ := hserves
      exact hnone l ⟨d, huntouched.tables _ _ _ htable hmain hd, hcov⟩
    · -- a rule of the mesh: the mark says whose
      have hr' := hmem (r.table - base) r hr (by omega)
      rw [hr'] at hmatch
      exact Or.inl (by rw [hr']; exact hmatch _ rfl)
  · intro r hr htable
    simp only [hmem i r hr htable, Nat.le_refl]

/-- The host has no rules and routes from the base on, and none over an interface of the mesh. -/
structure Bare (base : Nat) (k : Kernel) : Prop where
  rules : ∀ r ∈ k.rules, r.table < base
  routes : ∀ e ∈ k.routes.entries, e.1.1 < base ∧ ∀ i, e.2 ≠ .mza i

theorem Bare.showRules {base : Nat} {k : Kernel} (h : Bare base k) (i : IfName) :
    k.showRules (base + i) = [] := by
  rw [PolicyRoutes.showRules, List.filter_eq_nil_iff]
  intro r hr htable
  have := h.rules r hr
  have := of_decide_eq_true htable
  omega

theorem Bare.tidy {base : Nat} {k : Kernel} (h : Bare base k) (ifs : IfName → Prop) :
    Tidy base ifs k := by
  have hroutes : ∀ t d l, k.routes.get? (t, d) = some l → t < base ∧ ∀ i, l ≠ .mza i :=
    fun t d l hget => h.routes _ ((OMap.mem_entries _ _ _).mpr hget)
  refine ⟨fun i => Or.inl (h.showRules i), fun i d l hget => ?_, fun t d i hget => ?_⟩
  · have := (hroutes _ _ _ hget).1
    omega
  · exact absurd rfl ((hroutes _ _ _ hget).2 i)

theorem Bare.wired {base : Nat} {k : Kernel} (h : Bare base k) {ifs : IfName → Prop} {i : IfName}
    (hi : ¬ ifs i) : Wired base ifs i k :=
  ⟨iff_of_false (not_not_intro (h.showRules i)) hi, fun hthere => absurd hthere hi⟩

/-- A host with the three rules of the kernel and a way out over `eth0`. -/
def plainKernel : Kernel where
  routes := OMap.empty.set (MAIN_TABLE, .default) (.other [101, 116, 104, 48])
  rules := [⟨0, none, 255⟩, ⟨32766, none, 254⟩, ⟨32767, none, 253⟩]
  devices := .empty
  addresses := .empty
  up := .empty
  sysctl := .empty
  keyFiles := .empty

theorem bare_plainKernel : Bare 4200 plainKernel where
  rules := by decide
  routes := by
    intro e he
    obtain rfl : e = ((MAIN_TABLE, .default), .other [101, 116, 104, 48]) :=
      List.mem_singleton.mp he
    exact ⟨by decide, fun i => by simp⟩

def plainMachine : Machine := ⟨.boot ⟨51820, 52819⟩ ⟨[], .empty⟩ .empty, plainKernel⟩

def plainInstall : Install := ⟨4200, [107]⟩

def plainAwg : Api.Awg Api.Scalar :=
  ⟨.num (.int 4), .num (.int 50), .num (.int 100), .num (.int 20), .num (.int 30), .num (.int 5),
    .num (.int 6), .num (.int 7), .num (.int 8)⟩

/-- The configuration of an agent at `10.9.0.1`. -/
def plainConfig (config : PeerConfig) : MeshConfig :=
  { config with selfIpv4 := [49, 48, 46, 57, 46, 48, 46, 49], awg := plainAwg }

def plainCovers : Destination → JsString → Prop
  | .default, _ => True
  | .host ip, addr => ip = addr
  | .net _, _ => False

/-- A call for one peer. -/
def plainCall (faults : Faults) : MachineEvent :=
  .call (plainConfig (onePeerCall [107]).config) (fun _ => [0]) .empty faults

/-- The rule of `mza0` cannot be added. -/
def ruleFaults : Faults := { Faults.none with command := fun i c => i == 0 && decide (c = .ruleAdd) }

end Meshezia
