import Meshezia.Lib.Naming
import Meshezia.Server.Isolation

/-!
# Steps on different pairs commute

Two events about different pairs lead to the same state in either order, up to the naming
of health records, negotiations and timers (`SameUpTo`), and each event sends the same
messages whether it comes first or second (`StepsCommute`).  Maps are compared by what
they hold at each key.

    IdsOk es → (e.About s a b → LeavesPairs a b s (step cfg s e)) ∧ … ∧
      (¬ SamePair c d a b → e.About s a b → e'.About s c d → StepsCommute cfg s e e'),
      s = exec cfg db es                                          (pairs_isolated)
-/

namespace Meshezia

open ServerState Relation

/-! ## What is claimed -/

/-- `t` holds what `s` holds, under the naming `σ`. -/
structure SameUpTo (σ : Nat → Nat) (s t : ServerState) : Prop where
  health : ∀ k, t.pairHealthMap.get? k = (s.pairHealthMap.get? k).map (PairHealth.rename σ)
  active : ∀ k, t.activeNegotiations.get? k =
    (s.activeNegotiations.get? k).map (NegotiationState.rename σ)
  timers : ∀ i, t.timers.get? (σ i) = (s.timers.get? i).map (Timer.rename σ)
  connections : t.connections = s.connections
  networks : t.db.networks = s.db.networks
  peers : t.db.peers = s.db.peers
  ports : t.db.peerPorts = s.db.peerPorts
  links : ∀ a b, t.db.pairLinks a b = s.db.pairLinks a b
  ref : t.nextRef = s.nextRef

/-- A message sent, with its receiver and the socket it went out on. -/
def TraceItem.message? : TraceItem → Option (PeerId × Ws × ServerMsg)
  | .sent p ws msg _ => some (p, ws, msg)
  | _ => none

/-- From `s` to `s'` the messages `m` were sent, the last one first. -/
def Sends (s s' : ServerState) (m : List (PeerId × Ws × ServerMsg)) : Prop :=
  ∃ items, s'.trace = items ++ s.trace ∧ items.filterMap TraceItem.message? = m

/-- The two orders of `e` and `e'` lead to one state, and each of the two sends the same
messages in both. -/
structure StepsCommute (cfg : Config) (s : ServerState) (e e' : Event) : Prop where
  same : ∃ σ, Function.Bijective σ ∧
    SameUpTo σ (step cfg (step cfg s e) e') (step cfg (step cfg s e') e)
  sent : ∃ m m', Sends s (step cfg s e) m ∧ Sends (step cfg s e) (step cfg (step cfg s e) e') m' ∧
    Sends s (step cfg s e') m' ∧ Sends (step cfg s e') (step cfg (step cfg s e') e) m

/-! ## Every name in the state was given out -/

/-- The health records were made before now. -/
def HidsOld (s : ServerState) : Prop := ∀ k h, s.pairHealthMap.get? k = some h → h.hid < s.nextRef

section
variable {a b c d : PeerId} {s s' : ServerState}

theorem HidsOld.apart (h : HidsOld s) (hapart : Apart a b s s') : HidsOld s' := by
  intro k g hg
  have href := hapart.ref
  by_cases hk : k = pairKey a b
  · subst hk
    rcases hapart.hids g hg with ⟨g0, hg0, he⟩ | ⟨-, hlt⟩
    · have := h _ g0 hg0
      omega
    · exact hlt
  · rw [hapart.health k hk] at hg
    have := h k g hg
    omega

/-- No record is new. -/
theorem HidsOld.of_subset (h : HidsOld s) (href : s.nextRef ≤ s'.nextRef)
    (hsub : ∀ k g, s'.pairHealthMap.get? k = some g → s.pairHealthMap.get? k = some g) :
    HidsOld s' :=
  fun k g hg => Nat.lt_of_lt_of_le (h k g (hsub k g hg)) href

theorem TableStep.ref_le {C : ServerState → PeerId → AgentMsg → Prop}
    {D : Nat → PeerId → AbortReason → Prop} {F : TraceItem → Prop} (hstep : TableStep C D F s s') :
    s.nextRef ≤ s'.nextRef := by
  cases hstep with
  | quiet items untagged active timers ref trace connIds connected health => exact ref
  | ignored p msg idle => exact Nat.le_refl _
  | stored p q msg neg neg' counts direct store pending => exact Nat.le_refl _
  | checked p q neg client meshIpv4 tcpPort nonce clientPubkey serverPubkey counts role =>
    exact Nat.le_refl _
  | went p q udpPort nonce neg neg' infoA infoB readyA readyB counts store ready =>
    exact Nat.le_add_right _ _
  | started key neg callback delay now backoff items may => exact Nat.le_add_right _ _
  | concluded key neg receipt ending active counts allowed => exact Nat.le_refl _

theorem ref_le_steps {C : ServerState → PeerId → AgentMsg → Prop}
    {D : Nat → PeerId → AbortReason → Prop} {F : TraceItem → Prop}
    (hsteps : ReflTransGen (TableStep C D F) s s') : s.nextRef ≤ s'.nextRef := by
  induction hsteps with
  | refl => exact Nat.le_refl _
  | tail _ hstep ih => exact Nat.le_trans ih hstep.ref_le

theorem step_ref_le (cfg : Config) (hi : TableInv s) {e : Event} (hids : e.idsOk) :
    s.nextRef ≤ (step cfg s e).nextRef := by
  by_cases hr : e = .restart
  · subst hr
    exact Nat.le_refl _
  · exact ref_le_steps
      (steps_of_step cfg (C := fun _ _ _ => True) hi e hids (by cases e <;> trivial) hr)

/-- The reaper makes no record. -/
theorem get?_reap_health {now : Int} {fails : Bool} {k : PairKey} {g : PairHealth}
    (hg : (s.reap now fails).pairHealthMap.get? k = some g) : s.pairHealthMap.get? k = some g := by
  have hrec := congrArg Records.health (reap_records_eq (s := s) now fails)
  simp only [records] at hrec
  rw [hrec] at hg
  refine foldl_invariant (I := fun t : ServerState => t.pairHealthMap.get? k = some g →
    s.pairHealthMap.get? k = some g) forgetPeer (expiredPeers s.db now) ?_ id hg
  intro t x _ ht hg
  have hforget := congrArg Records.health (forgetPeer_records (s := t) x)
  simp only [records] at hforget
  rw [hforget, OMap.get?_filter] at hg
  exact ht (Option.eq_some_of_filter_eq_some hg)

theorem checkDirectProbes_hids (cfg : Config) (hi : TableInv s) (h : HidsOld s) (now : Int) :
    HidsOld (s.checkDirectProbes cfg now) := by
  unfold checkDirectProbes
  refine (foldl_invariant (I := fun t => TableInv t ∧ t.db = s.db ∧ HidsOld t) _ _ ?_
    ⟨hi, rfl, h⟩).2.2
  rintro t row hrow ⟨hit, hdb, ht⟩
  have hne := ne_of_mem_relayPairs cfg hrow
  refine ⟨?_, (checkDirectProbe_db now row).trans hdb, ?_⟩
  · exact steps_inv (checkDirectProbe_steps (C := fun _ _ _ => True) (D := fun _ _ _ => True)
      (F := fun _ => True) hit now hne) hit
  · exact ht.apart ((hit.pairInv row.1 row.2).twin.checkDirectProbe Function.injective_id
      hit.connIds now).apart

/-- **One step** keeps the records old. -/
theorem hidsOld_step (cfg : Config) (hi : TableInv s) (h : HidsOld s) {e : Event}
    (hids : e.idsOk) : HidsOld (step cfg s e) := by
  have href := step_ref_le cfg hi hids
  cases e with
  | «open» ws => exact h
  | close ws =>
    refine h.of_subset href fun k g hg => ?_
    have hrec := congrArg Records.health (records_abortPeerNegotiations
      { s with connections := wsClose s.connections ws } ws.peerId .wsReset)
    simp only [step, handleClose] at hg
    simp only [records] at hrec
    rwa [hrec] at hg
  | message ws now msg =>
    cases hq : msg.peer? with
    | some q => exact h.apart (probe_apart cfg hi ws now hq).apart
    | none =>
      cases msg with
      | healthReport reports =>
        exact handleHealthReport_rule cfg hi (I := HidsOld) h
          fun t r _ _ _ ht htwin => ht.apart htwin.apart
      | probeRelayReady q meshIpv4 tcpPort nonce => cases hq
      | probeRelayResult q success => cases hq
      | probeDirectReady q udpPort nonce => cases hq
      | probeDirectResult q success => cases hq
      | probeError q error => cases hq
  | timer id =>
    cases ht : s.timers.get? id with
    | none =>
      rw [step, fireTimer, ht]
      exact h
    | some tm =>
      obtain ⟨n, hn, -⟩ := hi.owned id tm ht
      have hkey : tm.callback.key = pairKey n.peerA n.peerB := (hi.keyed _ n hn).pair.symm
      exact h.apart (apart_step cfg hi (e := .timer id) ⟨tm, ht, hkey⟩).apart
  | sweep now =>
    have hsteps := foldl_steps (C := fun _ _ _ => True) (D := fun _ _ _ => True)
      (F := fun _ => True) (abortIfStale now) s.activeNegotiations.entries
      (fun t e _ _ => abortIfStale_steps now e) hi
    have hrec := congrArg Records.health
      (records_foldl_abortIfStale s now s.activeNegotiations.entries)
    simp only [records] at hrec
    exact checkDirectProbes_hids cfg (steps_inv hsteps hi)
      (h.of_subset (ref_le_steps hsteps) fun k g hg => by rwa [hrec] at hg) now
  | reap now fails => exact h.of_subset href fun k g hg => get?_reap_health hg
  | forceMode p q mode =>
    exact h.apart (apart_step cfg hi (e := .forceMode p q mode) (Or.inl ⟨rfl, rfl⟩)).apart
  | api write => exact h
  | restart =>
    intro k g hg
    cases hg

/-- Records, negotiations and timers carry names given out before now. -/
structure NamesInv (s : ServerState) : Prop extends TableInv s where
  hids : HidsOld s

theorem namesInv_step (cfg : Config) (h : NamesInv s) {e : Event} (hids : e.idsOk) :
    NamesInv (step cfg s e) :=
  ⟨tableInv_step cfg h.toTableInv hids, hidsOld_step cfg h.toTableInv h.hids hids⟩

theorem namesInv_exec (cfg : Config) (db : Db) {es : List Event} (hids : IdsOk es) :
    NamesInv (exec cfg db es) :=
  run_invariant_along (step cfg) (P := fun _ e => e.idsOk) (I := NamesInv)
    (fun _ _ h hid => namesInv_step cfg h hid)
    ⟨TableInv.init db, fun _ _ hg => by cases hg⟩ (along_idsOk hids)

/-! ## Renaming what was named before -/

section
variable {ρ σ τ : Nat → Nat} {m : Nat}

theorem PairHealth.rename_rename (h : PairHealth) :
    (h.rename ρ).rename σ = h.rename (σ ∘ ρ) := rfl

theorem NegotiationState.rename_rename (n : NegotiationState) :
    (n.rename ρ).rename σ = n.rename (σ ∘ ρ) := by
  simp [NegotiationState.rename]

theorem Timer.rename_rename (tm : Timer) : (tm.rename ρ).rename σ = tm.rename (σ ∘ ρ) := by
  cases tm with
  | mk owner callback delay => cases callback <;> rfl

/-- The names that a callback carries. -/
def TimerCallback.Below (m : Nat) : TimerCallback → Prop
  | .directReadyTimeout _ _ _ ref => ref.hid < m
  | _ => True

theorem PairHealth.rename_congr (hagree : ∀ i < m, σ i = τ i) {h : PairHealth} (hlt : h.hid < m) :
    h.rename σ = h.rename τ := by
  simp only [PairHealth.rename, hagree _ hlt]

theorem NegotiationState.rename_congr (hagree : ∀ i < m, σ i = τ i) {n : NegotiationState}
    (hlt : n.nid < m) (htimer : ∀ t, n.timeoutId = some t → t < m) : n.rename σ = n.rename τ := by
  have hmap : n.timeoutId.map σ = n.timeoutId.map τ := by
    cases ht : n.timeoutId with
    | none => rfl
    | some t => simp only [Option.map_some, hagree _ (htimer t ht)]
  simp only [NegotiationState.rename, hagree _ hlt, hmap]

theorem Timer.rename_congr (hagree : ∀ i < m, σ i = τ i) {tm : Timer} (hlt : tm.owner < m)
    (hcallback : tm.callback.Below m) : tm.rename σ = tm.rename τ := by
  obtain ⟨owner, callback, delay⟩ := tm
  cases callback with
  | relayProbeTimeout key => simp only [Timer.rename, TimerCallback.rename, hagree _ hlt]
  | directReadyTimeout key x y ref =>
    have href : σ ref.hid = τ ref.hid := hagree _ hcallback
    simp only [Timer.rename, TimerCallback.rename, HealthRef.rename, hagree _ hlt, href]
  | directResultTimeout key x y => simp only [Timer.rename, TimerCallback.rename, hagree _ hlt]

theorem NamesInv.timeout_lt (h : NamesInv s) {k : PairKey} {n : NegotiationState}
    (hn : s.activeNegotiations.get? k = some n) {t : Nat} (ht : n.timeoutId = some t) :
    t < s.nextRef := by
  obtain ⟨t', tm, h1, h2, -⟩ := h.armed k n hn
  rw [ht, Option.some.injEq] at h1
  exact h1 ▸ h.timerLt t' tm h2

theorem NamesInv.owner_lt (h : NamesInv s) {i : Nat} {tm : Timer}
    (htm : s.timers.get? i = some tm) : tm.owner < s.nextRef := by
  obtain ⟨n, hn, hnid, -⟩ := h.owned i tm htm
  exact hnid ▸ h.nidLt _ n hn

theorem NamesInv.callback_below (h : NamesInv s) {i : Nat} {tm : Timer}
    (htm : s.timers.get? i = some tm) : tm.callback.Below s.nextRef := by
  have href := h.refs i tm htm
  cases hc : tm.callback with
  | relayProbeTimeout key => trivial
  | directReadyTimeout key x y ref =>
    rw [hc] at href
    obtain ⟨g, hg, he⟩ := Option.map_eq_some_iff.mp href.2
    show ref.hid < s.nextRef
    rw [← he]
    exact h.hids key g hg
  | directResultTimeout key x y => trivial

/-- Renamings that agree on the names given out rename the state's data alike. -/
theorem NamesInv.health_congr (h : NamesInv s) (hagree : ∀ i < s.nextRef, σ i = τ i)
    (k : PairKey) : (s.pairHealthMap.get? k).map (PairHealth.rename σ) =
      (s.pairHealthMap.get? k).map (PairHealth.rename τ) := by
  cases hg : s.pairHealthMap.get? k with
  | none => rfl
  | some g => rw [Option.map_some, Option.map_some, PairHealth.rename_congr hagree (h.hids k g hg)]

theorem NamesInv.active_congr (h : NamesInv s) (hagree : ∀ i < s.nextRef, σ i = τ i)
    (k : PairKey) : (s.activeNegotiations.get? k).map (NegotiationState.rename σ) =
      (s.activeNegotiations.get? k).map (NegotiationState.rename τ) := by
  cases hg : s.activeNegotiations.get? k with
  | none => rfl
  | some n =>
    rw [Option.map_some, Option.map_some,
      NegotiationState.rename_congr hagree (h.nidLt k n hg) fun t ht => h.timeout_lt hg ht]

theorem NamesInv.timer_congr (h : NamesInv s) (hagree : ∀ i < s.nextRef, σ i = τ i) {i : Nat}
    {tm : Timer} (htm : s.timers.get? i = some tm) : tm.rename σ = tm.rename τ :=
  Timer.rename_congr hagree (h.owner_lt htm) (h.callback_below htm)

end

/-! ## A step on another pair leaves a twin -/

theorem isPair_of_disjoint (hdisj : ¬ SamePair c d a b) {k : PeerId × PeerId}
    (hk : isPair c d k = true) : isPair a b k = false := by
  simp only [isPair, Bool.or_eq_true, decide_eq_true_eq] at hk
  rcases hk with rfl | rfl
  · exact isPair_eq_false hdisj
  · refine isPair_eq_false fun h => hdisj ?_
    rcases h with ⟨rfl, rfl⟩ | ⟨rfl, rfl⟩
    · exact Or.inr ⟨rfl, rfl⟩
    · exact Or.inl ⟨rfl, rfl⟩

theorem Apart.pairLinks (h : Apart a b s s') (hdisj : ¬ SamePair c d a b) :
    s'.db.pairLinks c d = s.db.pairLinks c d := by
  have hfilter : ∀ db : Db, db.pairLinks c d =
      (db.otherLinks a b).filter fun e => isPair c d e.1 := by
    intro db
    unfold Db.pairLinks Db.otherLinks
    rw [List.filter_filter]
    refine List.filter_congr fun e _ => ?_
    cases hk : isPair c d e.1 with
    | false => rfl
    | true => rw [isPair_of_disjoint hdisj hk]; rfl
  rw [hfilter, hfilter, h.links]

/-- After a step on the pair of `a` and `b` another pair is as it was, and the names to come
are shifted. -/
theorem Apart.twin (h : Apart a b s s') (hi : NamesInv s) (hi' : TableInv s')
    (hne : pairKey c d ≠ pairKey a b) (hdisj : ¬ SamePair c d a b) :
    Twin (shiftFrom s.nextRef (s'.nextRef - s.nextRef)) c d s s' where
  toPairInv := hi.toTableInv.pairInv c d
  ref := by
    intro i
    have := h.ref
    rw [shiftFrom_of_ge (Nat.le_add_right _ _)]
    omega
  health := by
    rw [h.health _ hne, hi.health_congr (shiftFrom_eq_id _ _), PairHealth.rename_id, Option.map_id, id]
  active := by
    rw [h.active _ hne, hi.active_congr (shiftFrom_eq_id _ _), NegotiationState.rename_id, Option.map_id,
      id]
  timers := by
    intro i
    have href := h.ref
    unfold ServerState.timerOf
    by_cases hlt : i < s.nextRef
    · rw [shiftFrom_of_lt hlt]
      ext tm
      simp only [Option.filter_eq_some_iff, Option.map_eq_some_iff, decide_eq_true_eq]
      constructor
      · rintro ⟨htm, hkey⟩
        have htm' := (h.timers i tm (hkey ▸ hne)).mp htm
        refine ⟨tm, ⟨htm', hkey⟩, ?_⟩
        rw [hi.timer_congr (shiftFrom_eq_id _ _) htm']
        rw [Timer.rename_id, id]
      · rintro ⟨tm', ⟨htm', hkey⟩, rfl⟩
        rw [hi.timer_congr (shiftFrom_eq_id _ _) htm', Timer.rename_id, id]
        exact ⟨(h.timers i tm' (hkey ▸ hne)).mpr htm', hkey⟩
    · -- neither state has given the name out
      rw [shiftFrom_of_ge (Nat.le_of_not_lt hlt)]
      have hnone : s.timers.get? i = none := by
        cases hg : s.timers.get? i with
        | none => rfl
        | some tm => exact absurd (hi.timerLt i tm hg) hlt
      have hnone' : s'.timers.get? (i + (s'.nextRef - s.nextRef)) = none := by
        cases hg : s'.timers.get? (i + (s'.nextRef - s.nextRef)) with
        | none => rfl
        | some tm => have := hi'.timerLt _ tm hg; omega
      rw [hnone, hnone']
      rfl
  connections := h.connections
  networks := h.networks
  peers := h.peers
  links := h.pairLinks hdisj

/-! ## Both orders -/

/-- From `s` a step on the pair of `a` and `b` leads to `s1` and one on the pair of `c` and `d`
to `s2`; taken after the other they lead to `s12` and `s21`. -/
structure Diamond (a b c d : PeerId) (s s1 s2 s12 s21 : ServerState) : Prop where
  inv : NamesInv s
  inv1 : NamesInv s1
  inv2 : NamesInv s2
  inv12 : TableInv s12
  inv21 : TableInv s21
  ne : pairKey c d ≠ pairKey a b
  disjoint : ¬ SamePair c d a b
  apart1 : Apart a b s s1
  apart2 : Apart c d s s2
  apart12 : Apart c d s1 s12
  apart21 : Apart a b s2 s21
  twin21 : Twin (shiftFrom s.nextRef (s2.nextRef - s.nextRef)) a b s1 s21
  twin12 : Twin (shiftFrom s.nextRef (s1.nextRef - s.nextRef)) c d s2 s12

/-- The names of the first order in the second. -/
def renamed (s s1 s2 : ServerState) : Nat → Nat :=
  swapBlocks s.nextRef (s1.nextRef - s.nextRef) (s2.nextRef - s.nextRef)

theorem SamePair.swap (h : ¬ SamePair c d a b) : ¬ SamePair a b c d := by
  rintro (⟨rfl, rfl⟩ | ⟨rfl, rfl⟩)
  · exact h (Or.inl ⟨rfl, rfl⟩)
  · exact h (Or.inr ⟨rfl, rfl⟩)

section
variable {s1 s2 s12 s21 : ServerState}

theorem Diamond.swap (h : Diamond a b c d s s1 s2 s12 s21) :
    Diamond c d a b s s2 s1 s21 s12 :=
  ⟨h.inv, h.inv2, h.inv1, h.inv21, h.inv12, h.ne.symm, SamePair.swap h.disjoint, h.apart2, h.apart1,
    h.apart21, h.apart12, h.twin12, h.twin21⟩

theorem Diamond.ref (h : Diamond a b c d s s1 s2 s12 s21) : s21.nextRef = s12.nextRef := by
  have href1 := h.apart1.ref
  have href2 := h.apart2.ref
  have h21 := h.twin21.ref 0
  have h12 := h.twin12.ref 0
  rw [shiftFrom_of_ge (by omega)] at h21 h12
  omega

/-- On the names of before the renaming is none. -/
theorem renamed_old (s s1 s2 : ServerState) : ∀ i < s.nextRef, renamed s s1 s2 i = id i :=
  fun _ hlt => swapBlocks_of_lt hlt

/-- On the names of the first step it is the one of its run after the other. -/
theorem Diamond.renamed_left (h : Diamond a b c d s s1 s2 s12 s21) : ∀ i < s1.nextRef,
    shiftFrom s.nextRef (s2.nextRef - s.nextRef) i = renamed s s1 s2 i := by
  intro i hlt
  have href := h.apart1.ref
  exact (swapBlocks_of_lt_add (by omega)).symm

/-- On the names of the second it undoes the one of its run after the first. -/
theorem Diamond.renamed_right (h : Diamond a b c d s s1 s2 s12 s21) : ∀ i < s2.nextRef,
    (renamed s s1 s2 ∘ shiftFrom s.nextRef (s1.nextRef - s.nextRef)) i = id i := by
  intro i hlt
  have href := h.apart2.ref
  exact swapBlocks_shiftFrom (by omega)

theorem Diamond.health (h : Diamond a b c d s s1 s2 s12 s21) (k : PairKey) :
    s21.pairHealthMap.get? k =
      (s12.pairHealthMap.get? k).map (PairHealth.rename (renamed s s1 s2)) := by
  by_cases hab : k = pairKey a b
  · subst hab
    rw [h.twin21.health, h.apart12.health _ h.ne.symm, h.inv1.health_congr h.renamed_left]
  · rw [h.apart21.health k hab]
    by_cases hcd : k = pairKey c d
    · subst hcd
      have hcomp : PairHealth.rename (renamed s s1 s2) ∘
          PairHealth.rename (shiftFrom s.nextRef (s1.nextRef - s.nextRef)) =
          PairHealth.rename (renamed s s1 s2 ∘ shiftFrom s.nextRef (s1.nextRef - s.nextRef)) :=
        funext fun g => g.rename_rename
      rw [h.twin12.health, Option.map_map, hcomp, h.inv2.health_congr h.renamed_right,
        PairHealth.rename_id, Option.map_id, id]
    · rw [h.apart2.health k hcd, h.apart12.health k hcd, h.apart1.health k hab,
        h.inv.health_congr (renamed_old s s1 s2), PairHealth.rename_id, Option.map_id, id]

theorem Diamond.active (h : Diamond a b c d s s1 s2 s12 s21) (k : PairKey) :
    s21.activeNegotiations.get? k =
      (s12.activeNegotiations.get? k).map (NegotiationState.rename (renamed s s1 s2)) := by
  by_cases hab : k = pairKey a b
  · subst hab
    rw [h.twin21.active, h.apart12.active _ h.ne.symm, h.inv1.active_congr h.renamed_left]
  · rw [h.apart21.active k hab]
    by_cases hcd : k = pairKey c d
    · subst hcd
      have hcomp : NegotiationState.rename (renamed s s1 s2) ∘
          NegotiationState.rename (shiftFrom s.nextRef (s1.nextRef - s.nextRef)) =
          NegotiationState.rename (renamed s s1 s2 ∘ shiftFrom s.nextRef (s1.nextRef - s.nextRef)) :=
        funext fun n => n.rename_rename
      rw [h.twin12.active, Option.map_map, hcomp, h.inv2.active_congr h.renamed_right,
        NegotiationState.rename_id, Option.map_id, id]
    · rw [h.apart2.active k hcd, h.apart12.active k hcd, h.apart1.active k hab,
        h.inv.active_congr (renamed_old s s1 s2), NegotiationState.rename_id, Option.map_id, id]

/-- An armed timer of the pair is the one its negotiation names. -/
theorem TableInv.timeout_of_key (hi : TableInv s) {i : Nat} {tm : Timer}
    (htm : s.timers.get? i = some tm) (hkey : tm.callback.key = pairKey a b) :
    ∃ n, s.activeNegotiations.get? (pairKey a b) = some n ∧ n.timeoutId = some i := by
  obtain ⟨n, hn, -, ht, -⟩ := hi.owned i tm htm
  exact ⟨n, hkey ▸ hn, ht⟩

theorem timerOf_eq_some {i : Nat} {tm : Timer} {key : PairKey} :
    s.timerOf key i = some tm ↔ s.timers.get? i = some tm ∧ tm.callback.key = key := by
  simp [ServerState.timerOf]

/-- What is armed in the first order is armed in the second under its other name. -/
theorem Diamond.armed (h : Diamond a b c d s s1 s2 s12 s21) {i : Nat} {tm : Timer}
    (htm : s12.timers.get? i = some tm) :
    s21.timers.get? (renamed s s1 s2 i) = some (tm.rename (renamed s s1 s2)) := by
  by_cases hcd : tm.callback.key = pairKey c d
  · -- armed by the second step: its name in the first order is a shifted one
    obtain ⟨n, hn, hti⟩ := h.inv12.timeout_of_key htm hcd
    rw [h.twin12.active] at hn
    obtain ⟨n2, hn2, rfl⟩ := Option.map_eq_some_iff.mp hn
    obtain ⟨j, hj, rfl⟩ := Option.map_eq_some_iff.mp hti
    have htwin := h.twin12.timers j
    rw [timerOf_eq_some.mpr ⟨htm, hcd⟩] at htwin
    obtain ⟨tm2, htm2, rfl⟩ := Option.map_eq_some_iff.mp htwin.symm
    obtain ⟨hget, hkey⟩ := timerOf_eq_some.mp htm2
    have hback := h.renamed_right j (h.inv2.timerLt j tm2 hget)
    simp only [Function.comp, id] at hback
    rw [hback, Timer.rename_rename, h.inv2.timer_congr h.renamed_right hget, Timer.rename_id, id]
    exact (h.apart21.timers j tm2 (hkey ▸ h.ne)).mpr hget
  · have hleft := (h.apart12.timers i tm hcd).mp htm
    by_cases hab : tm.callback.key = pairKey a b
    · have htwin := h.twin21.timers i
      rw [timerOf_eq_some.mpr ⟨hleft, hab⟩, h.renamed_left i (h.inv1.timerLt i tm hleft),
        Option.map_some, h.inv1.timer_congr h.renamed_left hleft] at htwin
      exact (timerOf_eq_some.mp htwin).1
    · have hold := (h.apart1.timers i tm hab).mp hleft
      rw [renamed_old s s1 s2 i (h.inv.timerLt i tm hold), h.inv.timer_congr (renamed_old s s1 s2) hold,
        Timer.rename_id, id, id]
      exact (h.apart21.timers i tm hab).mpr ((h.apart2.timers i tm hcd).mpr hold)

theorem Diamond.timers (h : Diamond a b c d s s1 s2 s12 s21) (i : Nat) :
    s21.timers.get? (renamed s s1 s2 i) =
      (s12.timers.get? i).map (Timer.rename (renamed s s1 s2)) := by
  cases htm : s12.timers.get? i with
  | some tm => exact h.armed htm
  | none =>
    cases htm' : s21.timers.get? (renamed s s1 s2 i) with
    | none => rfl
    | some tm' =>
      -- a timer armed in the second order only would be armed in the first
      have hback := h.swap.armed htm'
      rw [show renamed s s2 s1 (renamed s s1 s2 i) = i from swapBlocks_swapBlocks .., htm] at hback
      cases hback

theorem SamePair.pairLinks {x y : PeerId} (h : SamePair x y a b) (db : Db) :
    db.pairLinks x y = db.pairLinks a b := by
  rcases h with ⟨rfl, rfl⟩ | ⟨rfl, rfl⟩
  · rfl
  · exact pairLinks_comm db x y

theorem Diamond.links (h : Diamond a b c d s s1 s2 s12 s21) (x y : PeerId) :
    s21.db.pairLinks x y = s12.db.pairLinks x y := by
  by_cases hab : SamePair x y a b
  · rw [hab.pairLinks, hab.pairLinks, h.twin21.links, h.apart12.pairLinks (SamePair.swap h.disjoint)]
  · rw [h.apart21.pairLinks hab]
    by_cases hcd : SamePair x y c d
    · rw [hcd.pairLinks, hcd.pairLinks, h.twin12.links]
    · rw [h.apart2.pairLinks hcd, h.apart12.pairLinks hcd, h.apart1.pairLinks hab]

theorem Diamond.sameUpTo (h : Diamond a b c d s s1 s2 s12 s21) :
    SameUpTo (renamed s s1 s2) s12 s21 where
  health := h.health
  active := h.active
  timers := h.timers
  connections := by
    rw [h.apart21.connections, h.apart2.connections, h.apart12.connections, h.apart1.connections]
  networks := by rw [h.apart21.networks, h.apart2.networks, h.apart12.networks, h.apart1.networks]
  peers := by rw [h.apart21.peers, h.apart2.peers, h.apart12.peers, h.apart1.peers]
  ports := by rw [h.apart21.ports, h.apart2.ports, h.apart12.ports, h.apart1.ports]
  links := h.links
  ref := h.ref

end

/-! ## Events about different pairs -/

theorem SamePair.colonFree {p q : PeerId} (h : SamePair p q a b) (ha : ColonFree a)
    (hb : ColonFree b) : ColonFree p ∧ ColonFree q := by
  rcases h with ⟨rfl, rfl⟩ | ⟨rfl, rfl⟩
  · exact ⟨ha, hb⟩
  · exact ⟨hb, ha⟩

theorem Event.About.idsOk {e : Event} (h : e.About s a b) (ha : ColonFree a) (hb : ColonFree b) :
    e.idsOk := by
  cases e with
  | message ws now msg =>
    cases msg with
    | healthReport reports =>
      obtain ⟨report, -, hpair⟩ := h
      exact (hpair.colonFree ha hb).1
    | _ =>
      obtain ⟨x, -, hpair⟩ := h
      exact (hpair.colonFree ha hb).1
  | forceMode p q mode => exact SamePair.colonFree h ha hb
  | timer id => trivial
  | «open» ws => exact h.elim
  | close ws => exact h.elim
  | sweep now => exact h.elim
  | reap now deleteFails => exact h.elim
  | api write => exact h.elim
  | restart => exact h.elim

/-- An event about one pair is about it after a step on another. -/
theorem Event.About.apart {e : Event} (h : e.About s c d) (hapart : Apart a b s s')
    (hne : pairKey c d ≠ pairKey a b) : e.About s' c d := by
  cases e with
  | timer id =>
    obtain ⟨tm, htm, hkey⟩ := h
    exact ⟨tm, (hapart.timers id tm (hkey ▸ hne)).mpr htm, hkey⟩
  | message ws now msg => cases msg <;> exact h
  | forceMode p q mode => exact h
  | «open» ws => exact h.elim
  | close ws => exact h.elim
  | sweep now => exact h.elim
  | reap now deleteFails => exact h.elim
  | api write => exact h.elim
  | restart => exact h.elim

/-- The timer that an event about a pair fires keeps its name. -/
theorem Event.About.rename_shift {e : Event} (h : e.About s c d) (hi : TableInv s) (δ : Nat) :
    e.rename (shiftFrom s.nextRef δ) = e := by
  cases e with
  | timer id =>
    obtain ⟨tm, htm, -⟩ := h
    rw [Event.rename, shiftFrom_of_lt (hi.timerLt id tm htm)]
  | message ws now msg => rfl
  | forceMode p q mode => rfl
  | «open» ws => rfl
  | close ws => rfl
  | sweep now => rfl
  | reap now deleteFails => rfl
  | api write => rfl
  | restart => rfl

theorem filterMap_message?_rename (ρ : Nat → Nat) (items : List TraceItem) :
    (items.map (TraceItem.rename ρ)).filterMap TraceItem.message? =
      items.filterMap TraceItem.message? := by
  rw [List.filterMap_map]
  congr 1
  funext it
  cases it <;> rfl

/-- The same event in two states that are twins for its pair sends the same messages. -/
theorem TwinStep.sends {ρ : Nat → Nat} {t t' : ServerState} (h : TwinStep ρ a b s t s' t') :
    ∃ m, Sends s s' m ∧ Sends t t' m := by
  obtain ⟨items, hs, ht, -⟩ := h.trace
  exact ⟨_, ⟨items, hs, rfl⟩, _, ht, filterMap_message?_rename ρ items⟩

/-- **Two events about different pairs commute.** -/
theorem stepsCommute (cfg : Config) (hi : NamesInv s) {e e' : Event} (ha : ColonFree a)
    (hb : ColonFree b) (hc : ColonFree c) (hd : ColonFree d) (hdisj : ¬ SamePair c d a b)
    (he : e.About s a b) (he' : e'.About s c d) : StepsCommute cfg s e e' := by
  have hne : pairKey c d ≠ pairKey a b := pairKey_ne ha hb hc hd hdisj
  have hi1 : NamesInv (step cfg s e) := namesInv_step cfg hi (he.idsOk ha hb)
  have hi2 : NamesInv (step cfg s e') := namesInv_step cfg hi (he'.idsOk hc hd)
  have hapart1 := (apart_step cfg hi.toTableInv he).apart
  have hapart2 := (apart_step cfg hi.toTableInv he').apart
  have he1' : e'.About (step cfg s e) c d := he'.apart hapart1 hne
  have he2 : e.About (step cfg s e') a b := he.apart hapart2 hne.symm
  -- each event is taken from `s` and from the state after the other one
  have hstep' := twin_step cfg hi.toTableInv (shiftFrom_injective _ _) he'
    (hapart1.twin hi hi1.toTableInv hne hdisj)
  rw [he'.rename_shift hi.toTableInv] at hstep'
  have hstep := twin_step cfg hi.toTableInv (shiftFrom_injective _ _) he
    (hapart2.twin hi hi2.toTableInv hne.symm (SamePair.swap hdisj))
  rw [he.rename_shift hi.toTableInv] at hstep
  have hdiamond : Diamond a b c d s (step cfg s e) (step cfg s e') (step cfg (step cfg s e) e')
      (step cfg (step cfg s e') e) :=
    ⟨hi, hi1, hi2, tableInv_step cfg hi1.toTableInv (he'.idsOk hc hd),
      tableInv_step cfg hi2.toTableInv (he.idsOk ha hb), hne, hdisj, hapart1, hapart2,
      (apart_step cfg hi1.toTableInv he1').apart, (apart_step cfg hi2.toTableInv he2).apart,
      hstep.twin, hstep'.twin⟩
  obtain ⟨m, hm, hm'⟩ := hstep.sends
  obtain ⟨n, hn, hn'⟩ := hstep'.sends
  exact ⟨⟨_, swapBlocks_bijective _ _ _, hdiamond.sameUpTo⟩, m, n, hm, hn', hn, hm'⟩

end

/-! ## Top theorem -/

/-- **Pairs are isolated.** -/
theorem pairs_isolated (cfg : Config) (db : Db) (es : List Event) (hids : IdsOk es) :
    (∀ a b e, ColonFree a → ColonFree b → e.About (exec cfg db es) a b →
      LeavesPairs a b (exec cfg db es) (step cfg (exec cfg db es) e)) ∧
    (∀ ws now msg, ColonFree ws.peerId →
      SenderOnly ws.peerId (exec cfg db es) (step cfg (exec cfg db es) (.message ws now msg))) ∧
    ∀ a b c d e e', ColonFree a → ColonFree b → ColonFree c → ColonFree d → ¬ SamePair c d a b →
      e.About (exec cfg db es) a b → e'.About (exec cfg db es) c d →
      StepsCommute cfg (exec cfg db es) e e' := by
  have hi := namesInv_exec cfg db hids
  refine ⟨?_, ?_, ?_⟩
  · intro a b e ha hb he
    exact (apart_step cfg hi.toTableInv he).leavesPairs ha hb
  · intro ws now msg hp
    exact message_senderOnly cfg hi.toTableInv hp now msg
  · intro a b c d e e' ha hb hc hd hdisj he he'
    exact stepsCommute cfg hi ha hb hc hd hdisj he he'

theorem pairs_isolated_relayProbeRun :
    (∀ a b e, ColonFree a → ColonFree b → e.About (exec {} twoPeers relayProbeRun) a b →
      LeavesPairs a b (exec {} twoPeers relayProbeRun)
        (step {} (exec {} twoPeers relayProbeRun) e)) ∧
    (∀ ws now msg, ColonFree ws.peerId → SenderOnly ws.peerId (exec {} twoPeers relayProbeRun)
      (step {} (exec {} twoPeers relayProbeRun) (.message ws now msg))) ∧
    ∀ a b c d e e', ColonFree a → ColonFree b → ColonFree c → ColonFree d → ¬ SamePair c d a b →
      e.About (exec {} twoPeers relayProbeRun) a b → e'.About (exec {} twoPeers relayProbeRun) c d →
      StepsCommute {} (exec {} twoPeers relayProbeRun) e e' :=
  pairs_isolated {} twoPeers relayProbeRun (by decide)

end Meshezia
