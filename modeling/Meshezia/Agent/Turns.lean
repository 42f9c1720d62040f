import Meshezia.Agent.Converge
import Meshezia.Agent.Kernel

/-!
# The turns of `reconcile`

What a turn of a loop of `reconcile` may do, whichever of its commands fail: `Touched` is what
`ensureInterface` does to the kernel, `TakenDown` what `removeInterface` does, and `Turn` is a
whole turn of the first loop.  If none of its commands fails, a turn sets up all of its
interface (`Installed`):

    Spare faults i, a turn for mza{i}  →  Installed after it            (ensureInterface_spared)

What each turn keeps a loop keeps (`loop_keeps`), and what the turn of one peer makes and the
others keep is there after a loop that comes to its end (`loop_makes`).

When nothing fails, a call does to the agent what the agent's own call does (`agent_reconcile`).
-/

namespace Meshezia

open Kernel PolicyRoutes

/-! ## `ensureInterface` on the kernel -/

/-- What `ensureInterface` may do to the kernel. -/
structure Touched (base : Nat) (opts : EnsureInterfaceOpts) (k k' : Kernel) : Prop where
  rules : k'.rules = k.rules ∨ markRule (base + opts.ifName) ∉ k.rules ∧
    k'.rules = k.rules ++ [markRule (base + opts.ifName)]
  routes : ∀ t d, k'.routes.get? (t, d) = k.routes.get? (t, d) ∨
    k'.routes.get? (t, d) = some (.mza opts.ifName) ∧
      (t = base + opts.ifName ∧ d = .default ∨ t = MAIN_TABLE ∧ d = .host opts.meshIpv4)
  devices : ∀ i, k'.devices.get? i = k.devices.get? i ∨ i = opts.ifName ∧
    k'.devices.get? i = some ⟨opts.listenPort, opts.privateKey, opts.awg⟩
  addresses : ∀ a, k.addresses.has a = true → k'.addresses.has a = true
  up : ∀ i, k.up.has i = true → k'.up.has i = true

/-- All that `ensureInterface` sets up is there. -/
structure Installed (base : Nat) (opts : EnsureInterfaceOpts) (k : Kernel) : Prop where
  device : k.devices.get? opts.ifName = some ⟨opts.listenPort, opts.privateKey, opts.awg⟩
  address : k.addresses.has (opts.ifName, opts.selfIpv4) = true
  up : k.up.has opts.ifName = true
  route : k.routes.get? (MAIN_TABLE, .host opts.meshIpv4) = some (.mza opts.ifName)
  default : k.routes.get? (base + opts.ifName, .default) = some (.mza opts.ifName)
  rule : k.markRules (base + opts.ifName) ≠ []

/-- The kernel when `ensureInterface` is over, or has thrown. -/
def Kernel.after : Except Kernel Kernel → Kernel
  | .error k => k
  | .ok k => k

section
variable {base : Nat} {opts : EnsureInterfaceOpts} {fails : IfCommand → Bool} {k k' k'' : Kernel}

theorem Touched.refl (base : Nat) (opts : EnsureInterfaceOpts) (k : Kernel) : Touched base opts k k where
  rules := Or.inl rfl
  routes := fun _ _ => Or.inl rfl
  devices := fun _ => Or.inl rfl
  addresses := fun _ h => h
  up := fun _ h => h

theorem Touched.trans (h : Touched base opts k k') (h' : Touched base opts k' k'') :
    Touched base opts k k'' := by
  constructor
  · rcases h.rules with h1 | ⟨hnot, h1⟩
    · rw [← h1]
      exact h'.rules
    · -- the rule is there now, and is not added again
      rcases h'.rules with h2 | ⟨hnot', -⟩
      · exact Or.inr ⟨hnot, h2.trans h1⟩
      · exact absurd (h1 ▸ List.mem_append_right _ (List.mem_singleton_self _)) hnot'
  · intro t d
    rcases h'.routes t d with h2 | h2
    · rw [h2]
      exact h.routes t d
    · exact Or.inr h2
  · intro i
    rcases h'.devices i with h2 | h2
    · rw [h2]
      exact h.devices i
    · exact Or.inr h2
  · exact fun a ha => h'.addresses a (h.addresses a ha)
  · exact fun i hi => h'.up i (h.up i hi)

/-- What each command keeps is kept by all. -/
theorem runSafe_keeps {I : Kernel → Prop} {commands : List (IfCommand × (Kernel → Kernel))}
    (h : ∀ c ∈ commands, ∀ k, I k → I (c.2 k)) (hk : I k) : I (k.runSafe fails commands) := by
  refine foldl_invariant _ _ (fun k' c hc hk' => ?_) hk
  split
  · exact hk'
  · exact h c hc k' hk'

theorem has_set_of_has {α β : Type} [DecidableEq α] {m : OMap α β} {a : α} (b : α) (v : β)
    (h : m.has a = true) : (m.set b v).has a = true := by
  rw [OMap.has_set, h, Bool.or_true]

theorem touched_addrReplace (ipv4 : JsString) :
    Touched base opts k (addrReplace opts.ifName ipv4 k) :=
  { Touched.refl base opts k with addresses := fun _ h => has_set_of_has _ _ h }

theorem touched_linkUp : Touched base opts k (linkUp opts.ifName k) :=
  { Touched.refl base opts k with up := fun _ h => has_set_of_has _ _ h }

theorem touched_sysctlSet (key : Sysctl) (value : Nat) : Touched base opts k (sysctlSet key value k) :=
  { Touched.refl base opts k with }

theorem touched_routeReplace {table : Nat} {dest : Destination}
    (h : table = base + opts.ifName ∧ dest = .default ∨
      table = MAIN_TABLE ∧ dest = .host opts.meshIpv4) :
    Touched base opts k (routeReplace table dest opts.ifName k) := by
  refine { Touched.refl base opts k with routes := fun t d => ?_ }
  have hget := get?_replace k.toPolicyRoutes table t dest d (.mza opts.ifName)
  by_cases hd : table = t ∧ dest = d
  · rw [if_pos hd] at hget
    obtain ⟨rfl, rfl⟩ := hd
    exact Or.inr ⟨hget, h⟩
  · rw [if_neg hd] at hget
    exact Or.inl hget

theorem touched_ensureSysctl : Touched base opts k (k.ensureSysctl fails opts.ifName) := by
  refine runSafe_keeps (I := Touched base opts k) ?_ (.refl _ _ _)
  simp only [List.mem_cons, List.not_mem_nil, or_false]
  rintro c (rfl | rfl | rfl) k' hk' <;> exact hk'.trans (touched_sysctlSet _ _)

theorem touched_ensureFwmarkRouting :
    Touched base opts k (.after (k.ensureFwmarkRouting base fails opts.ifName)) := by
  have hroute : Touched base opts k (k.runSafe fails
      [(.defaultRoute, routeReplace (base + opts.ifName) .default opts.ifName)]) := by
    refine runSafe_keeps (I := Touched base opts k) ?_ (.refl _ _ _)
    intro c hc k' hk'
    cases List.mem_singleton.mp hc
    exact hk'.trans (touched_routeReplace (Or.inl ⟨rfl, rfl⟩))
  unfold ensureFwmarkRouting getTableForIf
  dsimp only
  generalize k.runSafe fails _ = k1 at hroute ⊢
  generalize (if fails .ruleShow then [] else k1.markRules (base + opts.ifName)) = shown
  by_cases hshown : shown = []
  · rw [if_pos hshown]
    split
    · exact hroute
    · rename_i hadd
      refine hroute.trans { Touched.refl base opts k1 with rules := Or.inr ⟨?_, rfl⟩ }
      simpa using fun hmem : markRule (base + opts.ifName) ∈ k1.rules => hadd (by simp [hmem])
  · rw [if_neg hshown]
    exact hroute

/-- **`ensureInterface`**, whichever commands fail. -/
theorem touched_ensureInterface :
    Touched base opts k (.after (k.ensureInterface base fails opts)) := by
  have hset : Touched base opts k ({ k with keyFiles := k.keyFiles.set opts.ifName opts.privateKey }.awgSet
      opts.ifName opts.listenPort opts.awg) := by
    refine { Touched.refl base opts k with devices := fun i => ?_ }
    show (k.devices.set opts.ifName ⟨opts.listenPort, _, opts.awg⟩).get? i = _ ∨ _ ∧
      (k.devices.set opts.ifName ⟨opts.listenPort, _, opts.awg⟩).get? i = _
    rw [OMap.get?_set, OMap.get?_set_self, Option.getD_some]
    by_cases hi : opts.ifName = i
    · exact Or.inr ⟨hi.symm, if_pos hi⟩
    · exact Or.inl (if_neg hi)
  unfold ensureInterface
  split
  · exact .refl _ _ _
  · dsimp only
    split
    · exact { Touched.refl base opts k with }
    · refine (hset.trans ?_).trans (touched_ensureSysctl.trans touched_ensureFwmarkRouting)
      refine runSafe_keeps (I := Touched base opts _) ?_ (.refl _ _ _)
      simp only [List.mem_cons, List.not_mem_nil, or_false]
      rintro c (rfl | rfl | rfl) k' hk'
      · exact hk'.trans (touched_addrReplace _)
      · exact hk'.trans touched_linkUp
      · exact hk'.trans (touched_routeReplace (Or.inr ⟨rfl, rfl⟩))

/-- A rule that is there already is shown. -/
theorem markRules_ne_nil {table : Nat} (h : markRule table ∈ k.rules) : k.markRules table ≠ [] :=
  List.ne_nil_of_mem (List.mem_filter.mpr
    ⟨(mem_showRules _ _).mpr ⟨h, rfl⟩, decide_eq_true rfl⟩)

theorem runSafe_spared (hspare : ∀ c, fails c = false)
    (commands : List (IfCommand × (Kernel → Kernel))) (k : Kernel) :
    k.runSafe fails commands = commands.foldl (fun k c => c.2 k) k := by
  unfold runSafe
  simp only [hspare, Bool.false_eq_true, if_false]

/-- **`ensureInterface`**, when no command fails. -/
theorem ensureInterface_spared (hspare : ∀ c, fails c = false) (base : Nat)
    (opts : EnsureInterfaceOpts) (k : Kernel) :
    ∃ k', k.ensureInterface base fails opts = .ok k' ∧ Installed base opts k' := by
  unfold ensureInterface ensureSysctl ensureFwmarkRouting getTableForIf
  simp only [hspare, runSafe_spared hspare, Bool.false_eq_true, if_false, List.foldl_cons,
    List.foldl_nil, Bool.false_or, decide_eq_true_eq]
  -- the kernel before its rules are looked at
  generalize hk1 : routeReplace (base + opts.ifName) .default opts.ifName _ = k1
  have hinstalled : ∀ rules, markRule (base + opts.ifName) ∈ rules ∨
      k1.markRules (base + opts.ifName) ≠ [] ∧ rules = k1.rules →
      Installed base opts { k1 with rules := rules } := by
    intro rules hrules
    subst hk1
    refine ⟨?_, ?_, ?_, ?_, ?_, ?_⟩
    · show ((_ : OMap IfName Device).set opts.ifName _).get? opts.ifName = _
      rw [OMap.get?_set_self, OMap.get?_set_self, Option.getD_some]
    · exact (OMap.has_set _ _ _ _).trans (by simp)
    · exact (OMap.has_set _ _ _ _).trans (by simp)
    · show ((_ : OMap (Nat × Destination) Link).set _ _).get? _ = _
      rw [OMap.get?_set_ne _ _ (by simp)]
      exact OMap.get?_set_self _ _ _
    · exact OMap.get?_set_self _ _ _
    · rcases hrules with hmem | ⟨hne, rfl⟩
      · exact markRules_ne_nil hmem
      · exact hne
  by_cases hnone : k1.markRules (base + opts.ifName) = []
  · have hnot : markRule (base + opts.ifName) ∉ k1.rules := fun hmem => markRules_ne_nil hmem hnone
    rw [if_pos hnone, if_neg hnot]
    exact ⟨_, rfl, hinstalled (k1.rules ++ [markRule (base + opts.ifName)])
      (Or.inl (by simp))⟩
  · rw [if_neg hnone]
    exact ⟨_, rfl, hinstalled k1.rules (Or.inr ⟨hnone, rfl⟩)⟩

end

/-! ## `removeInterface` on the kernel -/

/-- What `removeInterface` may do to the kernel. -/
structure TakenDown (base : Nat) (fails : IfCommand → Bool) (ifName : IfName) (k k' : Kernel) :
    Prop where
  rules : k'.rules = k.rules ∨
    k'.rules = k.rules.filter fun rule => !decide (rule.table = base + ifName)
  noRules : fails .ruleShowAll = false → k'.showRules (base + ifName) = []
  routes : ∀ t d l, k'.routes.get? (t, d) = some l → k.routes.get? (t, d) = some l
  others : ∀ t d l, t ≠ base + ifName → l ≠ .mza ifName →
    k.routes.get? (t, d) = some l → k'.routes.get? (t, d) = some l
  noRoutes : fails .linkDelete = false → ∀ t d, k'.routes.get? (t, d) ≠ some (.mza ifName)
  devices : ∀ i, i ≠ ifName → k'.devices.get? i = k.devices.get? i
  addresses : ∀ i a, i ≠ ifName → k.addresses.has (i, a) = true → k'.addresses.has (i, a) = true
  up : ∀ i, i ≠ ifName → k.up.has i = true → k'.up.has i = true

section
variable {base : Nat} {fails : IfCommand → Bool} {ifName : IfName} {k : Kernel}

/-- The rules and routes of the other tables stay. -/
theorem removeFwmarkRouting_spec :
    let k' := k.removeFwmarkRouting base fails ifName
    (k'.rules = k.rules ∨
      k'.rules = k.rules.filter fun rule => !decide (rule.table = base + ifName)) ∧
    (fails .ruleShowAll = false → k'.showRules (base + ifName) = []) ∧
    (∀ t d, k'.routes.get? (t, d) = k.routes.get? (t, d) ∨
      t = base + ifName ∧ k'.routes.get? (t, d) = none) ∧
    k'.devices = k.devices ∧ k'.addresses = k.addresses ∧ k'.up = k.up := by
  have hflush : ∀ t d, (k.flush (base + ifName)).routes.get? (t, d) = k.routes.get? (t, d) ∨
      t = base + ifName ∧ (k.flush (base + ifName)).routes.get? (t, d) = none := by
    intro t d
    rw [get?_flush]
    by_cases ht : t = base + ifName
    · exact Or.inr ⟨ht, if_pos ht⟩
    · exact Or.inl (if_neg ht)
  have hdrop : ∀ r : PolicyRoutes Destination Link,
      (r.dropRules (base + ifName)).rules =
        r.rules.filter fun rule => !decide (rule.table = base + ifName) :=
    fun r => congrArg PolicyRoutes.rules (dropRules_eq r (base + ifName))
  have hroutes : ∀ r : PolicyRoutes Destination Link,
      (r.dropRules (base + ifName)).routes = r.routes := by
    intro r
    rw [dropRules_eq]
  have hshow : ∀ r : PolicyRoutes Destination Link,
      (r.dropRules (base + ifName)).showRules (base + ifName) = [] :=
    fun r => (showRules_dropRules r _ _).trans (if_pos rfl)
  intro k'
  simp only [k', removeFwmarkRouting, runSafe, getTableForIf, List.foldl_cons, List.foldl_nil]
  cases fails .flush <;> cases fails .ruleShowAll <;>
    simp only [Bool.false_eq_true, Bool.true_eq_false, if_false, if_true]
  · refine ⟨Or.inr (hdrop _), fun _ => hshow _, fun t d => ?_, trivial, trivial, trivial⟩
    rw [hroutes]
    exact hflush t d
  · exact ⟨Or.inl rfl, False.elim, hflush, trivial, trivial, trivial⟩
  · refine ⟨Or.inr (hdrop _), fun _ => hshow _, fun t d => Or.inl ?_, trivial, trivial, trivial⟩
    rw [hroutes]
  · exact ⟨Or.inl trivial, False.elim, fun _ _ => Or.inl trivial, trivial, trivial, trivial⟩

/-- **`removeInterface`**, whichever commands fail. -/
theorem takenDown_removeInterface (base : Nat) (fails : IfCommand → Bool) (ifName : IfName)
    (k : Kernel) : TakenDown base fails ifName k (k.removeInterface base fails ifName) := by
  obtain ⟨hrules, hnone, hroutes, hdevices, haddresses, hup⟩ :=
    @removeFwmarkRouting_spec base fails ifName k
  have hsub : ∀ t d l, (k.removeFwmarkRouting base fails ifName).routes.get? (t, d) = some l →
      k.routes.get? (t, d) = some l := by
    intro t d l h
    rcases hroutes t d with he | ⟨-, he⟩ <;> rw [he] at h
    · exact h
    · cases h
  have hother : ∀ t d l, t ≠ base + ifName → k.routes.get? (t, d) = some l →
      (k.removeFwmarkRouting base fails ifName).routes.get? (t, d) = some l := by
    intro t d l ht h
    rcases hroutes t d with he | ⟨he, -⟩
    · rw [he]
      exact h
    · exact absurd he ht
  unfold removeInterface
  generalize k.removeFwmarkRouting base fails ifName = k1 at *
  simp only [runSafe, List.foldl_cons, List.foldl_nil]
  -- the key file is not among what is said
  have hdone : ∀ k2 : Kernel, TakenDown base fails ifName k k2 → TakenDown base fails ifName k
      (if fails .removeKey then k2 else { k2 with keyFiles := k2.keyFiles.delete ifName }) := by
    intro k2 h2
    split
    · exact h2
    · exact ⟨h2.rules, h2.noRules, h2.routes, h2.others, h2.noRoutes, h2.devices, h2.addresses,
        h2.up⟩
  refine hdone _ ?_
  cases hdelete : fails .linkDelete with
  | true =>
    rw [if_pos rfl]
    exact ⟨hrules, hnone, hsub, fun t d l ht _ => hother t d l ht,
      fun h => absurd (hdelete.symm.trans h) (by simp), fun i _ => by rw [hdevices],
      fun i a _ => by rw [haddresses]; exact id, fun i _ => by rw [hup]; exact id⟩
  | false =>
    rw [if_neg Bool.false_ne_true]
    have hget : ∀ t d l, (linkDelete ifName k1).routes.get? (t, d) = some l ↔
        k1.routes.get? (t, d) = some l ∧ l ≠ .mza ifName := by
      intro t d l
      show (k1.forgetLink (.mza ifName)).routes.get? (t, d) = some l ↔ _
      rw [get?_forgetLink, Option.filter_eq_some_iff]
      simp
    refine ⟨hrules, hnone, fun t d l h => hsub t d l ((hget t d l).mp h).1,
      fun t d l ht hl h => (hget t d l).mpr ⟨hother t d l ht h, hl⟩,
      fun _ t d h => ((hget t d _).mp h).2 rfl, fun i hi => ?_, fun i a hi ha => ?_, fun i hi hi' => ?_⟩
    · exact (OMap.get?_delete_ne _ hi.symm).trans (by rw [hdevices])
    · show (k1.addresses.filter fun a _ => !decide (a.1 = ifName)).has (i, a) = true
      rw [OMap.has_filter k1.addresses (fun a => !decide (a.1 = ifName)), haddresses, ha]
      simpa using hi
    · show (k1.up.delete ifName).has i = true
      unfold OMap.has at hi' ⊢
      rw [OMap.get?_delete_ne _ hi.symm, hup]
      exact hi'

end

/-! ## A turn of the first loop -/

/-- No command for this interface fails. -/
def Faults.Spare (faults : Faults) (i : IfName) : Prop := ∀ c, faults.command i c = false

namespace Machine

/-- The interface of a peer, which may be a new one. -/
def ifNameOf (m : Machine) (peer : PeerEndpoint) : IfName :=
  (getIfName m.agent.peerToIf peer.id).1

def optsOf (env : Install) (config : MeshConfig) (m : Machine) (peer : PeerEndpoint) (port : Nat) :
    EnsureInterfaceOpts where
  ifName := m.ifNameOf peer
  selfIpv4 := config.selfIpv4
  listenPort := port
  privateKey := env.privateKey
  awg := config.awg
  meshIpv4 := peer.meshIpv4

/-- The host after `createInterface`, if the interface is new. -/
def hostWith (m : Machine) (existing : List IfName) (peer : PeerEndpoint) : Host :=
  if existing.contains (m.ifNameOf peer) then m.agent.host
  else m.agent.host.linkAdd (m.ifNameOf peer)

/-- The host after `awg set`. -/
def hostSet (m : Machine) (existing : List IfName) (peer : PeerEndpoint) : Host :=
  (m.hostWith existing peer).awgSet (m.ifNameOf peer) peer.pubkey
    (if m.agent.skipEndpoint peer.id (!existing.contains (m.ifNameOf peer)) then []
      else peer.endpoint)

end Machine

/-- A turn of the first loop that gets a port, whichever of its commands fail. -/
structure Turn (env : Install) (faults : Faults) (config : MeshConfig) (existing : List IfName)
    (draws : List Nat) (peer : PeerEndpoint) (m m' : Machine) (port : Nat)
    (reported : Option Nat) : Prop where
  peerToIf : m'.agent.peerToIf = (getIfName m.agent.peerToIf peer.id).2
  listenPort : m.agent.listenPortOf peer draws = some (port, m'.agent.peerToPort)
  reports : ∀ n ∈ reported, n = port
  /-- The interface could not be created, or more has been done. -/
  setup : (m'.agent.host = m.agent.host ∧ m'.kernel = m.kernel) ∨
    ((m'.agent.host = m.hostWith existing peer ∨ m'.agent.host = m.hostSet existing peer) ∧
      Touched env.rtTableBase (m.optsOf env config peer port) m.kernel m'.kernel)
  /-- An interface that is there, but not listed, cannot be created. -/
  refused : m.ifNameOf peer ∈ m.agent.host.interfaces → m.ifNameOf peer ∉ existing →
    m'.agent.host = m.agent.host ∧ m'.kernel = m.kernel
  spared : faults.Spare (m.ifNameOf peer) →
    (m.ifNameOf peer ∈ m.agent.host.interfaces → m.ifNameOf peer ∈ existing) →
    reported = some port ∧ m'.agent.host = m.hostSet existing peer ∧
      Installed env.rtTableBase (m.optsOf env config peer port) m'.kernel
  dirty : m'.agent.dirty = false → m.agent.dirty = false ∧
    m.agent.peerToIf.has peer.id = true ∧ m.agent.peerToPort.get? peer.id = some port
  mappings : m'.agent.mappings = m.agent.mappings
  monitor : m'.agent.monitor = m.agent.monitor
  range : m'.agent.range = m.agent.range
  polls : m'.agent.polls = m.agent.polls
  lastPorts : m'.agent.lastPorts = m.agent.lastPorts

/-- A turn in which `getPort` throws. -/
structure FailedTurn (peer : PeerEndpoint) (m m' : Machine) : Prop where
  peerToIf : m'.agent.peerToIf = (getIfName m.agent.peerToIf peer.id).2
  peerToPort : m'.agent.peerToPort = m.agent.peerToPort
  host : m'.agent.host = m.agent.host
  kernel : m'.kernel = m.kernel
  dirty : m'.agent.dirty = false → m.agent.dirty = false ∧ m.agent.peerToIf.has peer.id = true
  mappings : m'.agent.mappings = m.agent.mappings
  range : m'.agent.range = m.agent.range
  polls : m'.agent.polls = m.agent.polls
  lastPorts : m'.agent.lastPorts = m.agent.lastPorts

section
variable {env : Install} {faults : Faults} {config : MeshConfig} {existing : List IfName}
  {draws : List Nat} {m m' : Machine} {peer : PeerEndpoint} {port : Nat} {reported : Option Nat}

/-- What `prepare` makes of the agent, when it gets a port. -/
theorem prepare_ok {s s' : Agent} {t : Target} {isNew : Bool}
    (h : s.prepare existing draws peer = .ok (s', t, isNew)) :
    ∃ listenPort peerToPort, s.listenPortOf peer draws = some (listenPort, peerToPort) ∧
      isNew = !existing.contains (getIfName s.peerToIf peer.id).1 ∧
      t = { peer, ifName := (getIfName s.peerToIf peer.id).1, listenPort,
            skipEndpoint := s.skipEndpoint peer.id isNew } ∧
      s' = { s with peerToIf := (getIfName s.peerToIf peer.id).2, peerToPort,
                    dirty := s.dirty || !s.peerToIf.has peer.id ||
                      decide (s.peerToPort.get? peer.id ≠ some listenPort) } := by
  unfold Agent.prepare at h
  dsimp only at h
  split at h
  · cases h
  · rename_i listenPort peerToPort hport
    cases h
    exact ⟨listenPort, peerToPort, hport, rfl, rfl, rfl⟩

/-- The machine when `ensureInterface` is over, or has thrown. -/
def Machine.after : Except Machine Machine → Machine
  | .error m => m
  | .ok m => m

/-- What `ensureInterface` makes of a machine. -/
theorem ensureInterface_cases (env : Install) (fails : IfCommand → Bool) (config : MeshConfig)
    (m : Machine) (t : Target) (isNew : Bool) :
    let added := if isNew then m.agent.host.linkAdd t.ifName else m.agent.host
    let set := added.awgSet t.ifName t.peer.pubkey (if t.skipEndpoint then [] else t.peer.endpoint)
    let result := m.ensureInterface env fails config t isNew
    ((Machine.after result).agent = { m.agent with host := (Machine.after result).agent.host } ∧
      ((Machine.after result).agent.host = m.agent.host ∧ (Machine.after result).kernel = m.kernel ∨
        ((Machine.after result).agent.host = added ∨ (Machine.after result).agent.host = set) ∧
          Touched env.rtTableBase (t.opts env config) m.kernel (Machine.after result).kernel)) ∧
    (isNew = true → t.ifName ∈ m.agent.host.interfaces → result = .error m) ∧
    ((∀ c, fails c = false) → (isNew = true → t.ifName ∉ m.agent.host.interfaces) →
      ∃ m', result = .ok m' ∧ m'.agent.host = set ∧
        Installed env.rtTableBase (t.opts env config) m'.kernel) := by
  intro added set result
  have htouched := @touched_ensureInterface env.rtTableBase (t.opts env config) fails m.kernel
  have hagent : (if isNew then { m.agent with host := m.agent.host.linkAdd t.ifName } else m.agent) =
      { m.agent with host := added } := by
    cases isNew <;> rfl
  simp only [result]
  refine ⟨?_, fun hnew hmem => ?_, fun hspare hnew => ?_⟩
  · unfold Machine.ensureInterface
    by_cases hcreate : (isNew && (fails .create || m.agent.host.interfaces.contains t.ifName)) = true
    · rw [if_pos hcreate]
      exact ⟨rfl, Or.inl ⟨rfl, rfl⟩⟩
    · rw [if_neg hcreate, hagent]
      dsimp only
      -- whether `awg set` was reached does not depend on the rest
      generalize hset : (if (fails .writeKey || fails .awgSet) = true then
        ({ m.agent with host := added } : Agent) else { m.agent with host := added }.configure t) =
          agent
      have hhost : agent = { m.agent with host := agent.host } ∧
          (agent.host = added ∨ agent.host = set) := by
        rw [← hset]
        split
        · exact ⟨rfl, Or.inl rfl⟩
        · exact ⟨rfl, Or.inr rfl⟩
      cases hresult : m.kernel.ensureInterface env.rtTableBase fails (t.opts env config) <;>
        rw [hresult] at htouched <;> exact ⟨hhost.1, Or.inr ⟨hhost.2, htouched⟩⟩
  · unfold Machine.ensureInterface
    rw [if_pos (by simp [hnew, hmem])]
  · obtain ⟨k', hk', hinstalled⟩ := ensureInterface_spared hspare env.rtTableBase
      (t.opts env config) m.kernel
    unfold Machine.ensureInterface
    rw [if_neg (by simpa [hspare] using hnew), hagent, hk']
    simp only [hspare, Bool.or_self, Bool.false_eq_true, if_false]
    exact ⟨_, rfl, rfl, hinstalled⟩

theorem turn_of_ok (h : m.reconcilePeer env faults config existing draws peer = .ok (m', reported)) :
    ∃ port, Turn env faults config existing draws peer m m' port reported := by
  unfold Machine.reconcilePeer at h
  split at h
  · cases h
  · rename_i agent t isNew hprepare
    obtain ⟨port, peerToPort, hport, hisNew, ht, hagent⟩ := prepare_ok hprepare
    obtain ⟨⟨hrest, hcases⟩, hrefused, hspared⟩ := ensureInterface_cases env (faults.command t.ifName) config
      { m with agent } t isNew
    have hname : t.ifName = m.ifNameOf peer := by
      rw [ht]
      rfl
    have hopts : t.opts env config = m.optsOf env config peer port := by
      rw [ht]
      rfl
    have hadded : (if isNew then agent.host.linkAdd t.ifName else agent.host) =
        m.hostWith existing peer := by
      rw [hname, hagent, hisNew]
      unfold Machine.hostWith Machine.ifNameOf
      cases existing.contains (getIfName m.agent.peerToIf peer.id).1 <;> rfl
    have hset : (m.hostWith existing peer).awgSet t.ifName t.peer.pubkey
        (if t.skipEndpoint then [] else t.peer.endpoint) = m.hostSet existing peer := by
      rw [ht, hisNew]
      rfl
    rw [hadded, hset, hopts] at hcases hspared
    -- the result, whether `ensureInterface` has thrown
    have hm' : m' = .after (({ m with agent } : Machine).ensureInterface env
        (faults.command t.ifName) config t isNew) ∧ (∀ n ∈ reported, n = port) ∧
        ∀ m'', ({ m with agent } : Machine).ensureInterface env (faults.command t.ifName) config t
          isNew = .ok m'' → reported = some port ∧ m'' = m' := by
      split at h
      · rename_i m1 hresult
        cases h
        rw [hresult]
        exact ⟨rfl, fun n hn => (Option.not_mem_none _ hn).elim, fun m'' hm'' => by cases hm''⟩
      · rename_i m1 hresult
        cases h
        rw [hresult, ht]
        exact ⟨rfl, fun n hn => (Option.some.inj hn).symm, fun m'' hm'' => ⟨rfl, by cases hm''; rfl⟩⟩
    obtain ⟨hm', hreports, hok⟩ := hm'
    rw [← hm'] at hrest hcases
    have hdirty : ∀ d : Bool, (d || !m.agent.peerToIf.has peer.id ||
        decide (m.agent.peerToPort.get? peer.id ≠ some port)) = false →
        d = false ∧ m.agent.peerToIf.has peer.id = true ∧
          m.agent.peerToPort.get? peer.id = some port := by
      intro d hd
      simpa [and_assoc] using hd
    subst hagent
    refine ⟨port, (congrArg Agent.peerToIf hrest).trans rfl, ?_, hreports, hcases,
      fun hmem hnot => ?_, fun hspare hlisted => ?_, ?_, (congrArg Agent.mappings hrest).trans rfl,
      (congrArg Agent.monitor hrest).trans rfl, (congrArg Agent.range hrest).trans rfl,
      (congrArg Agent.polls hrest).trans rfl, (congrArg Agent.lastPorts hrest).trans rfl⟩
    · rw [congrArg Agent.peerToPort hrest]
      exact hport
    · have hnew : isNew = true := by
        rw [hisNew, Bool.not_eq_true']
        exact Bool.eq_false_iff.mpr fun h => hnot (List.contains_iff_mem.mp h)
      rw [hrefused hnew (hname ▸ hmem)] at hm'
      rw [hm']
      exact ⟨rfl, rfl⟩
    · obtain ⟨m1, hresult, hhost, hinstalled⟩ := hspared (hname ▸ hspare) (by
        rintro hnew hmem
        have hold : existing.contains (getIfName m.agent.peerToIf peer.id).1 = true :=
          List.contains_iff_mem.mpr (hlisted (hname ▸ hmem))
        rw [hisNew, hold] at hnew
        cases hnew)
      obtain ⟨hreported, rfl⟩ := hok m1 hresult
      exact ⟨hreported, hhost, hinstalled⟩
    · rw [congrArg Agent.dirty hrest]
      exact hdirty _

theorem turn_of_error (h : m.reconcilePeer env faults config existing draws peer = .error m') :
    FailedTurn peer m m' := by
  unfold Machine.reconcilePeer at h
  split at h
  · rename_i agent hprepare
    cases h
    unfold Agent.prepare at hprepare
    dsimp only at hprepare
    split at hprepare
    · cases hprepare
      refine ⟨rfl, rfl, rfl, rfl, fun hd => ?_, rfl, rfl, rfl, rfl⟩
      simpa using hd
    · cases hprepare
  · split at h <;> cases h

/-- The port of a turn: the one of the configuration, else the peer's own or a new one. -/
theorem listenPortOf_spec {s : Agent} {peerToPort : OMap PeerId Nat}
    (h : s.listenPortOf peer draws = some (port, peerToPort)) :
    port ≠ 0 ∧ peerToPort.get? peer.id = some port ∧
      (∀ q, peer.id ≠ q → peerToPort.get? q = s.peerToPort.get? q) ∧
      (0 < peer.listenPort → port = peer.listenPort) ∧
      (peer.listenPort = 0 → (∀ own, s.peerToPort.get? peer.id = some own → own ≠ 0 → port = own) ∧
        (s.peerToPort.get? peer.id = some port ∨ ∀ q, s.peerToPort.get? q ≠ some port)) := by
  unfold Agent.listenPortOf at h
  split at h
  · rename_i hpos
    cases h
    exact ⟨Nat.ne_of_gt hpos, OMap.get?_set_self _ _ _, fun q hq => OMap.get?_set_ne _ _ hq,
      fun _ => rfl, fun hzero => absurd hzero (Nat.ne_of_gt hpos)⟩
  · rename_i hno
    obtain ⟨hne, hself, hothers, hnew⟩ := getPort_spec h
    refine ⟨hne, hself, hothers, fun hpos => absurd hpos hno, fun _ => ⟨fun own hown hne => ?_, hnew⟩⟩
    rw [getPort_own s.range hown hne draws] at h
    cases h
    rfl

theorem mem_hostWith {i : IfName} : i ∈ (m.hostWith existing peer).interfaces ↔
    i ∈ m.agent.host.interfaces ∨ i = m.ifNameOf peer ∧ m.ifNameOf peer ∉ existing := by
  unfold Machine.hostWith
  by_cases hold : m.ifNameOf peer ∈ existing
  · rw [if_pos (List.contains_iff_mem.mpr hold)]
    simp [hold]
  · rw [if_neg fun h => hold (List.contains_iff_mem.mp h)]
    show i ∈ m.agent.host.interfaces ++ [_] ↔ _
    simp [hold]

/-- The interface of a peer is no other peer's. -/
theorem ifNameOf_ne (hinj : InjectiveMap m.agent.peerToIf) {q : PeerId} {i : IfName}
    (hq : peer.id ≠ q) (hi : m.agent.peerToIf.get? q = some i) : m.ifNameOf peer ≠ i := by
  rintro rfl
  exact hq (getIfName_injective hinj peer.id _ _ _ (getIfName_get? _ _)
    ((getIfName_get?_ne _ hq).trans hi))

namespace Turn

variable (h : Turn env faults config existing draws peer m m' port reported)
include h

/-- The other peers keep their interfaces and their ports. -/
theorem get?_ne {q : PeerId} (hq : peer.id ≠ q) :
    m'.agent.peerToIf.get? q = m.agent.peerToIf.get? q ∧
      m'.agent.peerToPort.get? q = m.agent.peerToPort.get? q :=
  ⟨h.peerToIf ▸ getIfName_get?_ne _ hq, (listenPortOf_spec h.listenPort).2.2.1 q hq⟩

theorem get?_self : m'.agent.peerToIf.get? peer.id = some (m.ifNameOf peer) ∧
    m'.agent.peerToPort.get? peer.id = some port :=
  ⟨h.peerToIf ▸ getIfName_get? _ _, (listenPortOf_spec h.listenPort).2.1⟩

theorem injective (hinj : InjectiveMap m.agent.peerToIf) : InjectiveMap m'.agent.peerToIf :=
  h.peerToIf ▸ getIfName_injective hinj peer.id

theorem interface_kept {i : IfName} (hi : i ∈ m.agent.host.interfaces) :
    i ∈ m'.agent.host.interfaces := by
  rcases h.setup with ⟨hhost, -⟩ | ⟨hhost | hhost, -⟩ <;> rw [hhost]
  · exact hi
  · exact mem_hostWith.mpr (Or.inl hi)
  · exact mem_hostWith.mpr (Or.inl hi)

theorem interface_new {i : IfName} (hi : i ∈ m'.agent.host.interfaces) :
    i ∈ m.agent.host.interfaces ∨ i = m.ifNameOf peer := by
  rcases h.setup with ⟨hhost, -⟩ | ⟨hhost | hhost, -⟩ <;> rw [hhost] at hi
  · exact Or.inl hi
  · exact (mem_hostWith.mp hi).imp_right And.left
  · exact (mem_hostWith.mp hi).imp_right And.left

/-- What is done to the kernel is done for an interface that is there. -/
theorem touched (hexisting : ∀ i ∈ existing, i ∈ m.agent.host.interfaces) :
    m'.kernel = m.kernel ∨ m.ifNameOf peer ∈ m'.agent.host.interfaces ∧
      Touched env.rtTableBase (m.optsOf env config peer port) m.kernel m'.kernel := by
  rcases h.setup with ⟨-, hkernel⟩ | ⟨hhost, htouched⟩
  · exact Or.inl hkernel
  · refine Or.inr ⟨?_, htouched⟩
    have hmem : m.ifNameOf peer ∈ (m.hostWith existing peer).interfaces := by
      by_cases hold : m.ifNameOf peer ∈ existing
      · exact mem_hostWith.mpr (Or.inl (hexisting _ hold))
      · exact mem_hostWith.mpr (Or.inr ⟨rfl, hold⟩)
    rcases hhost with hhost | hhost <;> rw [hhost]
    · exact hmem
    · exact hmem

end Turn

end

/-! ## The loops -/

section
variable {env : Install} {faults : Faults} {config : MeshConfig} {existing : List IfName}
  {draws : PeerId → List Nat} {m m' : Machine} {ports ports' : List (PeerId × Nat)}
  {peers : List PeerEndpoint}

/-- The machine after a call, whether it returns or throws. -/
def Machine.ended : Except Machine (Machine × List (PeerId × Nat)) → Machine
  | .error m => m
  | .ok (m, _) => m

/-- **The first loop** keeps what each turn keeps; when `getPort` throws, its turn is the last. -/
theorem loop_spec {I F : Machine → Prop}
    (hturn : ∀ peer ∈ peers, peer.pubkey ≠ [] → ∀ m m' port reported, I m →
      Turn env faults config existing (draws peer.id) peer m m' port reported → I m')
    (hfailed : ∀ peer ∈ peers, ∀ m m', I m → FailedTurn peer m m' → F m')
    (ports : List (PeerId × Nat)) (h : I m) :
    match m.reconcileLoop env faults config existing draws ports peers with
    | .error m' => F m'
    | .ok (m', _) => I m' := by
  induction peers generalizing m ports with
  | nil => exact h
  | cons peer rest ih =>
    have hrest := fun p hp => hturn p (List.mem_cons_of_mem peer hp)
    have hfrest := fun p hp => hfailed p (List.mem_cons_of_mem peer hp)
    unfold Machine.reconcileLoop
    by_cases hkey : peer.pubkey = []
    · rw [if_pos hkey]
      exact ih hrest hfrest ports h
    · rw [if_neg hkey]
      cases hpeer : m.reconcilePeer env faults config existing (draws peer.id) peer with
      | error m1 => exact hfailed peer (by simp) m m1 h (turn_of_error hpeer)
      | ok r =>
        obtain ⟨m1, reported⟩ := r
        obtain ⟨port, hturn1⟩ := turn_of_ok hpeer
        have h1 := hturn peer (by simp) hkey _ _ port _ h hturn1
        cases reported with
        | none => exact ih hrest hfrest _ h1
        | some n => exact ih hrest hfrest _ h1

theorem loop_keeps {I : Machine → Prop}
    (hturn : ∀ peer ∈ peers, peer.pubkey ≠ [] → ∀ m m' port reported, I m →
      Turn env faults config existing (draws peer.id) peer m m' port reported → I m')
    (hfailed : ∀ peer ∈ peers, ∀ m m', I m → FailedTurn peer m m' → I m')
    (ports : List (PeerId × Nat)) (h : I m) :
    I (.ended (m.reconcileLoop env faults config existing draws ports peers)) := by
  have hspec := loop_spec hturn hfailed ports h
  split at hspec <;> rename_i hresult <;> rw [hresult] <;> exact hspec

/-- Ports are added to the list, and none is taken from it. -/
theorem loop_ports_mono
    (h : m.reconcileLoop env faults config existing draws ports peers = .ok (m', ports')) :
    ∀ e ∈ ports, e ∈ ports' := by
  induction peers generalizing m ports with
  | nil =>
    cases h
    exact fun _ he => he
  | cons peer rest ih =>
    unfold Machine.reconcileLoop at h
    split at h
    · exact ih h
    · split at h
      · cases h
      · exact ih h
      · exact fun e he => ih h e (List.mem_append_left _ he)

/-- **What a turn makes.**  If the turn of `p` makes it from what the turns before it keep, and
the turns after it keep it, it is there after a loop that comes to its end; and if `p` has a
port to report, that is in the list. -/
theorem loop_makes {J : Machine → Prop} {I : Nat → Option Nat → Machine → Prop} {p : PeerEndpoint}
    (hp : p ∈ peers) (hkey : p.pubkey ≠ []) (hids : peers.Pairwise fun q r => q.id ≠ r.id)
    (hbefore : ∀ q ∈ peers, q.id ≠ p.id → ∀ m m' port reported, J m →
      Turn env faults config existing (draws q.id) q m m' port reported → J m')
    (hmakes : ∀ m m' port reported, J m →
      Turn env faults config existing (draws p.id) p m m' port reported → I port reported m')
    (hafter : ∀ q ∈ peers, q.id ≠ p.id → ∀ m m' port reported n reported', I n reported' m →
      Turn env faults config existing (draws q.id) q m m' port reported → I n reported' m')
    (hJ : J m) (h : m.reconcileLoop env faults config existing draws ports peers = .ok (m', ports')) :
    ∃ port reported, I port reported m' ∧ ∀ n ∈ reported, (p.id, n) ∈ ports' := by
  induction peers generalizing m ports with
  | nil => cases hp
  | cons q rest ih =>
    obtain ⟨hq, hrest⟩ := List.pairwise_cons.mp hids
    have hbeforeRest := fun r hr => hbefore r (List.mem_cons_of_mem q hr)
    have hafterRest := fun r hr => hafter r (List.mem_cons_of_mem q hr)
    -- the loop goes on with the rest after the turn of `q`
    have hturn : ∀ m1 port reported ports1,
        Turn env faults config existing (draws q.id) q m m1 port reported →
        (∀ n ∈ reported, (q.id, n) ∈ ports1) →
        m1.reconcileLoop env faults config existing draws ports1 rest = .ok (m', ports') →
        ∃ port reported, I port reported m' ∧ ∀ n ∈ reported, (p.id, n) ∈ ports' := by
      intro m1 port reported ports1 hturn1 hreported hloop
      rcases List.mem_cons.mp hp with rfl | hp'
      · -- the turns of the rest are of others
        have hspec := @loop_spec env faults config existing draws m1 rest (I port reported)
          (fun _ => True)
          (fun r hr _ m2 m3 port3 reported3 h2 hturn3 => hafterRest r hr (fun he => hq r hr he.symm)
            m2 m3 port3 reported3 port reported h2 hturn3)
          (fun _ _ _ _ _ _ => trivial) ports1 (hmakes m m1 port reported hJ hturn1)
        rw [hloop] at hspec
        exact ⟨port, reported, hspec, fun n hn => loop_ports_mono hloop _ (hreported n hn)⟩
      · have hid : q.id ≠ p.id := hq p hp'
        exact ih hp' hrest hbeforeRest hafterRest (hbefore q (by simp) hid m m1 port reported hJ hturn1)
          hloop
    unfold Machine.reconcileLoop at h
    split at h
    · rename_i hnil
      have hp' : p ∈ rest := (List.mem_cons.mp hp).resolve_left fun he => hkey (he ▸ hnil)
      exact ih hp' hrest hbeforeRest hafterRest hJ h
    · split at h
      · cases h
      · rename_i m1 hpeer
        obtain ⟨port, hturn1⟩ := turn_of_ok hpeer
        exact hturn m1 port none _ hturn1 (fun n hn => (Option.not_mem_none _ hn).elim) h
      · rename_i m1 port hpeer
        obtain ⟨port', hturn1⟩ := turn_of_ok hpeer
        refine hturn m1 port' (some port) _ hturn1 (fun n hn => ?_) h
        cases hn
        exact List.mem_append_right _ (List.mem_singleton_self _)

/-! ## Before the turn of a peer -/

/-- What the turn of `p` finds when only others have had theirs in the loop. -/
structure Ready (existing : List IfName) (monitor : Monitor) (p : PeerId) (m : Machine) : Prop where
  injective : InjectiveMap m.agent.peerToIf
  there : ∀ i ∈ existing, i ∈ m.agent.host.interfaces
  monitor : m.agent.monitor = monitor
  others : ∀ i ∈ m.agent.host.interfaces, i ∈ existing ∨
    ∃ q, q ≠ p ∧ m.agent.peerToIf.get? q = some i

theorem Ready.turn {monitor : Monitor} {p : PeerId} {peer : PeerEndpoint} {draws : List Nat}
    {port : Nat} {reported : Option Nat} (hready : Ready existing monitor p m)
    (h : Turn env faults config existing draws peer m m' port reported) (hid : peer.id ≠ p) :
    Ready existing monitor p m' := by
  refine ⟨h.injective hready.injective, fun i hi => h.interface_kept (hready.there i hi),
    h.monitor.trans hready.monitor, fun i hi => ?_⟩
  rcases h.interface_new hi with hold | rfl
  · refine (hready.others i hold).imp_right ?_
    rintro ⟨q, hq, hget⟩
    by_cases hpeer : peer.id = q
    · subst hpeer
      refine ⟨peer.id, hq, ?_⟩
      rw [h.get?_self.1, Machine.ifNameOf, getIfName_of_some hget]
    · exact ⟨q, hq, (h.get?_ne hpeer).1.trans hget⟩
  · exact Or.inr ⟨peer.id, hid, h.get?_self.1⟩

/-- Its interface is listed, if it is there. -/
theorem Ready.listed {monitor : Monitor} {p : PeerEndpoint}
    (hready : Ready existing monitor p.id m) (hi : m.ifNameOf p ∈ m.agent.host.interfaces) :
    m.ifNameOf p ∈ existing := by
  refine (hready.others _ hi).resolve_right ?_
  rintro ⟨q, hq, hget⟩
  exact ifNameOf_ne hready.injective hq.symm hget rfl

/-- **A turn without faults** sets up all of its interface. -/
theorem Turn.installed {monitor : Monitor} {p : PeerEndpoint} {draws : List Nat} {port : Nat}
    {reported : Option Nat} (h : Turn env faults config existing draws p m m' port reported)
    (hready : Ready existing monitor p.id m) (hspare : faults.Spare (m.ifNameOf p)) :
    reported = some port ∧ m'.agent.host = m.hostSet existing p ∧
      m.ifNameOf p ∈ m'.agent.host.interfaces ∧
      Installed env.rtTableBase (m.optsOf env config p port) m'.kernel := by
  obtain ⟨hreported, hhost, hinstalled⟩ := h.spared hspare hready.listed
  refine ⟨hreported, hhost, ?_, hinstalled⟩
  rw [hhost]
  show m.ifNameOf p ∈ (m.hostWith existing p).interfaces
  by_cases hold : m.ifNameOf p ∈ existing
  · exact mem_hostWith.mpr (Or.inl (hready.there _ hold))
  · exact mem_hostWith.mpr (Or.inr ⟨rfl, hold⟩)

/-- A call starts ready for the turn of each of its peers, if it can list the interfaces. -/
theorem ready_start (hlist : faults.listInterfaces = false)
    (hinj : InjectiveMap m.agent.peerToIf) (p : PeerId) :
    Ready (m.listInterfaces faults) m.agent.monitor p m := by
  unfold Machine.listInterfaces
  rw [hlist]
  exact ⟨hinj, fun _ hi => hi, rfl, fun _ hi => Or.inl hi⟩

/-- What is listed is there, also when the list fails. -/
theorem mem_of_mem_listInterfaces {i : IfName} (hi : i ∈ m.listInterfaces faults) :
    i ∈ m.agent.host.interfaces := by
  unfold Machine.listInterfaces at hi
  split at hi
  · cases hi
  · exact hi

theorem FailedTurn.injective {peer : PeerEndpoint} (h : FailedTurn peer m m')
    (hinj : InjectiveMap m.agent.peerToIf) : InjectiveMap m'.agent.peerToIf :=
  h.peerToIf ▸ getIfName_injective hinj peer.id

/-- A peer keeps the interface that it has. -/
theorem getIfName_kept {peerToIf : OMap PeerId IfName} (p : PeerId) {q : PeerId} {i : IfName}
    (hi : peerToIf.get? q = some i) : (getIfName peerToIf p).2.get? q = some i := by
  by_cases hid : p = q
  · rw [hid, getIfName_of_some hi]
    exact hi
  · rw [getIfName_get?_ne _ hid]
    exact hi

theorem FailedTurn.get? {peer : PeerEndpoint} (h : FailedTurn peer m m') {q : PeerId} {i : IfName}
    (hi : m.agent.peerToIf.get? q = some i) : m'.agent.peerToIf.get? q = some i :=
  h.peerToIf ▸ getIfName_kept peer.id hi

theorem Turn.get?_kept {peer : PeerEndpoint} {draws : List Nat} {port : Nat}
    {reported : Option Nat} (h : Turn env faults config existing draws peer m m' port reported)
    {q : PeerId} {i : IfName} (hi : m.agent.peerToIf.get? q = some i) :
    m'.agent.peerToIf.get? q = some i :=
  h.peerToIf ▸ getIfName_kept peer.id hi

/-! ## The second loop -/

theorem mem_removeGonePeer {e : PeerId × IfName} {i : IfName} :
    i ∈ (Machine.removeGonePeer env faults m e).agent.host.interfaces ↔
      i ∈ m.agent.host.interfaces ∧ (faults.command e.2 .linkDelete = false → i ≠ e.2) := by
  show i ∈ (if faults.command e.2 .linkDelete = true then m.agent.host
    else m.agent.host.linkDelete e.2).interfaces ↔ _
  cases faults.command e.2 .linkDelete with
  | true => simp
  | false =>
    show i ∈ m.agent.host.interfaces.filter (fun j => !decide (j = e.2)) ↔ _
    simp

theorem forall_gone (m : Machine) (config : PeerConfig) :
    ∀ e ∈ m.agent.peerToIf.entries.filter fun e => !Agent.isDesired config e.1,
      Agent.isDesired config e.1 = false ∧ m.agent.peerToIf.get? e.1 = some e.2 := by
  intro e he
  obtain ⟨hmem, hgone⟩ := List.mem_filter.mp he
  exact ⟨by simpa using hgone, (OMap.mem_entries _ _ _).mp hmem⟩

/-- The peers of the configuration keep their interfaces and ports. -/
theorem get?_removeGone {q : PeerId} (hlisted : Agent.isDesired config.toPeerConfig q = true) :
    (m.removeGone env faults config).agent.peerToIf.get? q = m.agent.peerToIf.get? q ∧
      (m.removeGone env faults config).agent.peerToPort.get? q = m.agent.peerToPort.get? q := by
  refine foldl_invariant (I := fun t : Machine =>
    t.agent.peerToIf.get? q = m.agent.peerToIf.get? q ∧
      t.agent.peerToPort.get? q = m.agent.peerToPort.get? q) _ _ ?_ ⟨rfl, rfl⟩
  rintro t e he ⟨hif, hport⟩
  have hid : e.1 ≠ q := by
    intro hid
    have hgone := (forall_gone m config.toPeerConfig e he).1
    rw [hid, hlisted] at hgone
    cases hgone
  exact ⟨(OMap.get?_delete_ne _ hid).trans hif, (OMap.get?_delete_ne _ hid).trans hport⟩

theorem injective_removeGone (hinj : InjectiveMap m.agent.peerToIf) :
    InjectiveMap (m.removeGone env faults config).agent.peerToIf := by
  refine foldl_invariant (I := fun t : Machine => InjectiveMap t.agent.peerToIf) _ _ ?_ hinj
  exact fun t x _ ht p q i hp hq =>
    ht p q i (OMap.get?_of_get?_delete hp).2 (OMap.get?_of_get?_delete hq).2

/-- The file, when it is not written. -/
def Unwritten (faults : Faults) (old new : List (PeerId × IfName × Nat)) : Prop :=
  new = old ∨ faults.writeMappings = .cut ∧ new = []

/-- **A call**: its two loops, and the mapping file. -/
theorem reconcile_cases (env : Install) (faults : Faults) (m : Machine) (config : MeshConfig)
    (draws : PeerId → List Nat) :
    (∃ m', m.reconcile env faults config draws = .error m' ∧
      m.reconcileLoop env faults config (m.listInterfaces faults) draws [] config.peers =
        .error m') ∨
    ∃ m1 ports, m.reconcileLoop env faults config (m.listInterfaces faults) draws []
        config.peers = .ok (m1, ports) ∧
      ((∃ mappings, Unwritten faults (m1.removeGone env faults config).agent.mappings mappings ∧
        m.reconcile env faults config draws =
          .error { m1.removeGone env faults config with
            agent := { (m1.removeGone env faults config).agent with mappings } }) ∨
        m.reconcile env faults config draws =
          .ok ({ m1.removeGone env faults config with
            agent := (m1.removeGone env faults config).agent.saveMappings }, ports)) := by
  unfold Machine.reconcile
  split
  · rename_i m' hloop
    exact Or.inl ⟨m', rfl, hloop⟩
  · rename_i m1 ports hloop
    refine Or.inr ⟨m1, ports, hloop, ?_⟩
    generalize m1.removeGone env faults config = m2
    unfold Machine.saveMappings
    by_cases hdirty : m2.agent.dirty = true
    · rw [if_pos hdirty]
      cases hwrite : faults.writeMappings with
      | written => exact Or.inr rfl
      | refused => exact Or.inl ⟨_, Or.inl rfl, rfl⟩
      | cut => exact Or.inl ⟨_, Or.inr ⟨hwrite, rfl⟩, rfl⟩
    · have hsave : m2.agent.saveMappings = m2.agent := by
        unfold Agent.saveMappings
        exact if_neg hdirty
      rw [if_neg hdirty, hsave]
      exact Or.inr rfl

/-- **A call that returns** has come to the end of both loops, and the file has what is in
memory. -/
theorem reconcile_returns (h : m.reconcile env faults config draws = .ok (m', ports)) :
    ∃ m1, m.reconcileLoop env faults config (m.listInterfaces faults) draws [] config.peers =
        .ok (m1, ports) ∧
      m' = { m1.removeGone env faults config with
        agent := (m1.removeGone env faults config).agent.saveMappings } := by
  rcases reconcile_cases env faults m config draws with
    ⟨m1, hr, -⟩ | ⟨m1, ports', hl, ⟨_, -, hr⟩ | hr⟩ <;> rw [hr] at h <;> cases h
  exact ⟨m1, hl, rfl⟩

/-- What the turn of `p` makes, and the turns of others keep, is there before the removals of a
call that returns. -/
theorem reconcile_makes {I : Nat → Option Nat → Machine → Prop}
    (hinj : InjectiveMap m.agent.peerToIf) (hlist : faults.listInterfaces = false)
    {p : PeerEndpoint} (hp : p ∈ config.peers) (hkey : p.pubkey ≠ [])
    (hmakes : ∀ s s' port reported, Ready (m.listInterfaces faults) m.agent.monitor p.id s →
      Turn env faults config (m.listInterfaces faults) (draws p.id) p s s' port reported →
      I port reported s')
    (hafter : ∀ q ∈ config.peers, q.id ≠ p.id → ∀ s s' port reported n reported',
      (∀ i ∈ m.listInterfaces faults, i ∈ s.agent.host.interfaces) → I n reported' s →
      Turn env faults config (m.listInterfaces faults) (draws q.id) q s s' port reported →
      I n reported' s')
    (hok : m.reconcile env faults config draws = .ok (m', ports)) :
    ∃ m1 port reported, I port reported m1 ∧ (∀ n ∈ reported, (p.id, n) ∈ ports) ∧
      m' = { m1.removeGone env faults config with
        agent := (m1.removeGone env faults config).agent.saveMappings } := by
  obtain ⟨m1, hl, hm'⟩ := reconcile_returns hok
  have hids := List.pairwise_map.mp config.ids_nodup
  obtain ⟨port, reported, ⟨hmade, -⟩, hreported⟩ := loop_makes
    (I := fun port reported s => I port reported s ∧
      ∀ i ∈ m.listInterfaces faults, i ∈ s.agent.host.interfaces) hp hkey hids
    (fun _ _ hid _ _ _ _ hs ht => Ready.turn hs ht hid)
    (fun s s' port reported hs ht => ⟨hmakes s s' port reported hs ht,
      fun i hi => ht.interface_kept (hs.there i hi)⟩)
    (fun q hq hid s s' port reported n reported' hs ht =>
      ⟨hafter q hq hid s s' port reported n reported' hs.2 hs.1 ht,
        fun i hi => ht.interface_kept (hs.2 i hi)⟩)
    (ready_start hlist hinj p.id) hl
  exact ⟨m1, port, reported, hmade, hreported, hm'⟩

/-- The removals leave the peers of the configuration their interfaces. -/
theorem get?_saved {q : PeerId} (hlisted : Agent.isDesired config.toPeerConfig q = true) :
    (m.removeGone env faults config).agent.saveMappings.peerToIf.get? q =
      m.agent.peerToIf.get? q := by
  rw [(saveMappings_apart _).2]
  exact (get?_removeGone hlisted).1

/-- What the first loop keeps, the removals keep, and the file does not matter for, a call
keeps. -/
theorem reconcile_keeps {I : Machine → Prop}
    (hloop : I (.ended (m.reconcileLoop env faults config (m.listInterfaces faults) draws []
      config.peers)))
    (hgone : ∀ m : Machine, I m → I (m.removeGone env faults config))
    (hfile : ∀ (m : Machine) mappings dirty, I m →
      I { m with agent := { m.agent with mappings, dirty } }) :
    I (.ended (m.reconcile env faults config draws)) := by
  rcases reconcile_cases env faults m config draws with
    ⟨m1, hr, hl⟩ | ⟨m1, ports, hl, ⟨mappings, -, hr⟩ | hr⟩ <;> rw [hr] <;> rw [hl] at hloop
  · exact hloop
  · exact hfile _ mappings _ (hgone m1 hloop)
  · show I { m1.removeGone env faults config with
      agent := (m1.removeGone env faults config).agent.saveMappings }
    unfold Agent.saveMappings
    split
    · exact hfile _ _ _ (hgone m1 hloop)
    · exact hgone m1 hloop

/-! ## A call without a fault -/

/-- What a call leaves of the agent. -/
def agentOf : Except Machine (Machine × List (PeerId × Nat)) →
    Except Agent (Agent × List (PeerId × Nat))
  | .error m => .error m.agent
  | .ok (m, ports) => .ok (m.agent, ports)

theorem reconcilePeer_eq (s : Agent) (draws : List Nat) (peer : PeerEndpoint) :
    s.reconcilePeer existing draws peer =
      match s.prepare existing draws peer with
      | .error s => .error s
      | .ok (s, t, isNew) => .ok (s.ensureInterface t isNew, t.listenPort) := by
  unfold Agent.reconcilePeer Agent.prepare
  dsimp only
  generalize Agent.listenPortOf _ peer draws = chosen
  cases chosen <;> rfl

theorem ensureInterface_none (config : MeshConfig) (m : Machine) (t : Target) {isNew : Bool}
    (hnew : isNew = true → t.ifName ∉ m.agent.host.interfaces) :
    ∃ kernel, m.ensureInterface env (fun _ => false) config t isNew =
      .ok ⟨m.agent.ensureInterface t isNew, kernel⟩ := by
  obtain ⟨kernel, hkernel, -⟩ := @ensureInterface_spared (fun _ => false) (fun _ => rfl)
    env.rtTableBase (t.opts env config) m.kernel
  refine ⟨kernel, ?_⟩
  unfold Machine.ensureInterface
  rw [if_neg (by simpa using hnew), hkernel]
  rfl

/-- A turn does to the agent what the agent's own does, if its interface is listed when it is
there. -/
theorem reconcilePeer_none {peer : PeerEndpoint} (draws : List Nat)
    (hlisted : m.ifNameOf peer ∈ m.agent.host.interfaces → m.ifNameOf peer ∈ existing) :
    match m.agent.reconcilePeer existing draws peer with
    | .error agent => m.reconcilePeer env .none config existing draws peer = .error { m with agent }
    | .ok (agent, port) => ∃ kernel,
      m.reconcilePeer env .none config existing draws peer = .ok (⟨agent, kernel⟩, some port) := by
  rw [reconcilePeer_eq]
  unfold Machine.reconcilePeer
  cases hprepare : m.agent.prepare existing draws peer with
  | error agent => rfl
  | ok r =>
    obtain ⟨agent, t, isNew⟩ := r
    obtain ⟨port, peerToPort, -, hisNew, ht, hagent⟩ := prepare_ok hprepare
    obtain ⟨kernel, hkernel⟩ := @ensureInterface_none env config { m with agent } t isNew (by
      intro hnew hmem
      have hold : m.ifNameOf peer ∈ existing := hlisted (by
        rw [ht, hagent] at hmem
        exact hmem)
      have hold : existing.contains (getIfName m.agent.peerToIf peer.id).1 = true :=
        List.contains_iff_mem.mpr hold
      rw [hisNew, hold] at hnew
      cases hnew)
    refine ⟨kernel, ?_⟩
    show (match ({ m with agent } : Machine).ensureInterface env (fun _ => false) config t isNew with
      | .error m => .ok (m, none)
      | .ok m => .ok (m, some t.listenPort) : Except Machine (Machine × Option Nat)) = _
    rw [hkernel]

theorem agent_reconcileLoop {monitor : Monitor} (draws : PeerId → List Nat)
    (ports : List (PeerId × Nat)) (hids : peers.Pairwise fun q r => q.id ≠ r.id)
    (hready : ∀ p ∈ peers, Ready existing monitor p.id m) :
    agentOf (m.reconcileLoop env .none config existing draws ports peers) =
      m.agent.reconcileLoop existing draws ports peers := by
  induction peers generalizing m ports with
  | nil => rfl
  | cons peer rest ih =>
    obtain ⟨hpeer, hrest⟩ := List.pairwise_cons.mp hids
    unfold Machine.reconcileLoop Agent.reconcileLoop
    by_cases hkey : peer.pubkey = []
    · rw [if_pos hkey, if_pos hkey]
      exact ih ports hrest fun p hp => hready p (List.mem_cons_of_mem _ hp)
    · rw [if_neg hkey, if_neg hkey]
      have hturn := @reconcilePeer_none env config existing m peer (draws peer.id)
        (hready peer (List.mem_cons_self ..)).listed
      cases hagent : m.agent.reconcilePeer existing (draws peer.id) peer with
      | error agent =>
        rw [hagent] at hturn
        have hturn : m.reconcilePeer env .none config existing (draws peer.id) peer =
          .error { m with agent } := hturn
        rw [hturn]
        rfl
      | ok r =>
        obtain ⟨agent, port⟩ := r
        rw [hagent] at hturn
        obtain ⟨kernel, hturn⟩ := hturn
        rw [hturn]
        obtain ⟨_, hturn'⟩ := turn_of_ok hturn
        exact @ih ⟨agent, kernel⟩ _ hrest fun p hp =>
          (hready p (List.mem_cons_of_mem _ hp)).turn hturn' (hpeer p hp)

theorem agent_removeGonePeers (l : List (PeerId × IfName)) :
    (l.foldl (Machine.removeGonePeer env .none) m).agent =
      l.foldl Agent.removeGonePeer m.agent := by
  induction l generalizing m with
  | nil => rfl
  | cons e rest ih => exact ih

/-- **A call without a fault** does to the agent what the agent's own call does. -/
theorem agent_reconcile (hinj : InjectiveMap m.agent.peerToIf) (draws : PeerId → List Nat) :
    agentOf (m.reconcile env .none config draws) = m.agent.reconcile config.toPeerConfig draws := by
  have hids := List.pairwise_map.mp config.ids_nodup
  have hloop := @agent_reconcileLoop env config (m.listInterfaces .none) m config.peers
    m.agent.monitor draws [] hids fun p _ => ready_start rfl hinj p.id
  unfold Machine.reconcile Agent.reconcile
  rw [show m.agent.host.interfaces = m.listInterfaces .none from rfl, ← hloop]
  cases m.reconcileLoop env .none config (m.listInterfaces .none) draws [] config.peers with
  | error m => rfl
  | ok r =>
    obtain ⟨m1, ports⟩ := r
    have hgone : (m1.removeGone env .none config).agent = m1.agent.removeGone config.toPeerConfig :=
      agent_removeGonePeers _
    show agentOf (match (m1.removeGone env .none config).saveMappings .none with
      | .error m => .error m
      | .ok m => .ok (m, ports)) = .ok ((m1.agent.removeGone config.toPeerConfig).saveMappings, ports)
    rw [← hgone]
    generalize m1.removeGone env .none config = m2
    unfold Machine.saveMappings Agent.saveMappings
    cases m2.agent.dirty <;> rfl

end

end Meshezia
