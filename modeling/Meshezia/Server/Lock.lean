import Meshezia.Server.Handlers

/-!
# The negotiation lock and its timers

In every state a run reaches there is at most one active negotiation per pair, under
the key of the pair, and the armed timers are those of the active negotiations, one
each (`LockHeld`).  A timer callback looks its negotiation up by key only; it still
ends no other negotiation than its own (`EndsOnlyOwn`).  A sweep leaves no negotiation
older than `STALE_NEGOTIATION_MS` (`SweepsStale`).

    IdsOk es → LockHeld s ∧ EndsOnlyOwn cfg s ∧ SweepsStale cfg s, s = exec cfg db es
                                                              (lock_and_timers)
-/

namespace Meshezia

open ServerState Relation

/-! ## What is claimed of a state -/

/-- `{a, b} = {c, d}`. -/
def SamePair (a b c d : PeerId) : Prop := (a = c ∧ b = d) ∨ (a = d ∧ b = c)

/-- One negotiation a pair, one armed timer a negotiation, and no other timer. -/
structure LockHeld (s : ServerState) : Prop where
  keyed : ∀ k n, s.activeNegotiations.get? k = some n → k = pairKey n.peerA n.peerB
  one : ∀ k n k' n', s.activeNegotiations.get? k = some n →
    s.activeNegotiations.get? k' = some n' → SamePair n.peerA n.peerB n'.peerA n'.peerB →
    k = k' ∧ n = n'
  timer : ∀ k n, s.activeNegotiations.get? k = some n →
    ∃ t, n.timeoutId = some t ∧ (∃ tm, s.timers.get? t = some tm ∧ tm.owner = n.nid) ∧
      ∀ t' tm', s.timers.get? t' = some tm' → tm'.owner = n.nid → t' = t
  owner : ∀ t tm, s.timers.get? t = some tm → Active s tm.owner

/-- A timer that fires ends at most the negotiation it was armed for. -/
def EndsOnlyOwn (cfg : Config) (s : ServerState) : Prop :=
  ∀ t k n, s.activeNegotiations.get? k = some n →
    (step cfg s (.timer t)).activeNegotiations.get? k ≠ some n →
    ∃ tm, s.timers.get? t = some tm ∧ tm.owner = n.nid

/-- After a sweep no active negotiation is older than `STALE_NEGOTIATION_MS`. -/
def SweepsStale (cfg : Config) (s : ServerState) : Prop :=
  ∀ now k n, (step cfg s (.sweep now)).activeNegotiations.get? k = some n →
    now - STALE_NEGOTIATION_MS ≤ n.startedAt

/-! ## The lock -/

theorem lockHeld_of_tableInv {s : ServerState} (hi : TableInv s) : LockHeld s where
  keyed := fun k n hn => (hi.keyed k n hn).pair.symm
  one := by
    intro k n k' n' hn hn' hpair
    have hkk : k = k' := by
      rw [← (hi.keyed k n hn).pair, ← (hi.keyed k' n' hn').pair]
      rcases hpair with ⟨h1, h2⟩ | ⟨h1, h2⟩
      · rw [h1, h2]
      · rw [h1, h2, pairKey_comm]
    subst hkk
    rw [hn] at hn'
    exact ⟨rfl, Option.some.inj hn'⟩
  timer := by
    intro k n hn
    obtain ⟨t, tm, h1, h2, _, h4⟩ := hi.armed k n hn
    refine ⟨t, h1, ⟨tm, h2, h4⟩, fun t' tm' ht' howner => ?_⟩
    -- the other timer's negotiation has the same identity, so it is this one
    obtain ⟨n', hn', hnid, htimer, _⟩ := hi.owned t' tm' ht'
    have hkk := hi.nidInj _ n' k n hn' hn (by rw [hnid, howner])
    rw [hkk, hn] at hn'
    cases hn'
    rw [h1] at htimer
    exact (Option.some.inj htimer).symm
  owner := by
    intro t tm ht
    obtain ⟨n, hn, hnid, _⟩ := hi.owned t tm ht
    exact ⟨_, n, hn, hnid⟩

/-! ## Timers that fire -/

@[simp] theorem updateHealth_active (s : ServerState) (key : PairKey)
    (f : PairHealth → PairHealth) :
    (s.updateHealth key f).activeNegotiations = s.activeNegotiations := by
  unfold updateHealth
  split <;> rfl

@[simp] theorem updateHealthRef_active (s : ServerState) (r : HealthRef)
    (f : PairHealth → PairHealth) :
    (s.updateHealthRef r f).activeNegotiations = s.activeNegotiations := by
  unfold updateHealthRef
  split
  · split <;> rfl
  · rfl

theorem fireTimer_active {s : ServerState} (hi : TableInv s) {t : Nat} {tm : Timer}
    (ht : s.timers.get? t = some tm) :
    (s.fireTimer t).activeNegotiations = s.activeNegotiations.delete tm.callback.key := by
  obtain ⟨neg, hg, -⟩ := hi.owned t tm ht
  unfold fireTimer
  simp only [ht]
  cases hcb : tm.callback with
  | relayProbeTimeout key =>
    rw [hcb] at hg
    simp only [runCallback]
    rw [abortNegotiation_eq _ (n := neg) (by exact hg)]
    rfl
  | directReadyTimeout key a b ref =>
    rw [hcb] at hg
    simp only [runCallback, sendIfConnected_eq, updateHealthRef_active]
    rw [finishNegotiation_eq _ (n := neg) (by exact hg)]
    rfl
  | directResultTimeout key a b =>
    rw [hcb] at hg
    simp only [runCallback, sendMsg_eq, updateHealth_active]
    rw [finishNegotiation_eq _ (n := neg) (by exact hg)]
    rfl

theorem endsOnlyOwn_of_tableInv (cfg : Config) {s : ServerState} (hi : TableInv s) :
    EndsOnlyOwn cfg s := by
  intro t k n hn hend
  cases ht : s.timers.get? t with
  | none => simp [step, fireTimer, ht, hn] at hend
  | some tm =>
    rw [step, fireTimer_active hi ht, OMap.get?_delete] at hend
    by_cases hk : tm.callback.key = k
    · obtain ⟨n', hn', hnid, -⟩ := hi.owned t tm ht
      rw [hk, hn] at hn'
      cases hn'
      exact ⟨tm, rfl, hnid.symm⟩
    · rw [if_neg hk] at hend
      exact absurd hn hend

/-! ## The sweep -/

theorem get?_abortNegotiation (s : ServerState) (key : PairKey) (reason : AbortReason)
    (k : PairKey) :
    (s.abortNegotiation key reason).activeNegotiations.get? k =
      if key = k then none else s.activeNegotiations.get? k := by
  cases hg : s.activeNegotiations.get? key with
  | none =>
    have hsame : s.abortNegotiation key reason = s := by unfold abortNegotiation; rw [hg]
    rw [hsame]
    split
    · rename_i h; rw [← h, hg]
    · rfl
  | some neg =>
    rw [abortNegotiation_eq s hg]
    exact OMap.get?_delete _ _ _

/-- The loop over entries of the table leaves the stale ones among them out. -/
theorem get?_abortStale (now : Int) (l : List (PairKey × NegotiationState)) {s : ServerState}
    {k : PairKey} {n : NegotiationState}
    (h : (l.foldl (abortIfStale now) s).activeNegotiations.get? k = some n) :
    s.activeNegotiations.get? k = some n ∧
      ((k, n) ∈ l → now - n.startedAt ≤ STALE_NEGOTIATION_MS) := by
  induction l generalizing s with
  | nil => exact ⟨h, by simp⟩
  | cons e rest ih =>
    obtain ⟨hold, hrest⟩ := ih h
    unfold abortIfStale at hold
    split at hold
    · rw [get?_abortNegotiation] at hold
      split at hold
      · cases hold
      · rename_i hne
        refine ⟨hold, fun hin => ?_⟩
        rcases List.mem_cons.mp hin with rfl | hin
        · exact absurd rfl hne
        · exact hrest hin
    · rename_i hfresh
      refine ⟨hold, fun hin => ?_⟩
      rcases List.mem_cons.mp hin with rfl | hin
      · exact Int.not_lt.mp hfresh
      · exact hrest hin

/-- A direct probe that a sweep starts is as young as the sweep. -/
theorem get?_checkDirectProbe {now : Int} {s : ServerState} {row : PeerId × PeerId} {k : PairKey}
    {n : NegotiationState}
    (h : (checkDirectProbe now s row).activeNegotiations.get? k = some n) :
    s.activeNegotiations.get? k = some n ∨ n.startedAt = now := by
  unfold checkDirectProbe at h
  simp only [] at h
  split at h
  · exact Or.inl h
  · split at h
    · exact Or.inl h
    · split at h
      · exact Or.inl h
      · split at h
        · exact Or.inl h
        · split at h
          · exact Or.inl h
          · unfold initiateDirectProbe at h
            simp only [sendMsg_eq, armTimeout, OMap.set_set] at h
            rw [OMap.get?_set] at h
            split at h
            · cases h; exact Or.inr rfl
            · exact Or.inl h

theorem sweepsStale (cfg : Config) (s : ServerState) : SweepsStale cfg s := by
  intro now k n hn
  have hafter : ∀ k n, (s.staleSweep cfg now).activeNegotiations.get? k = some n →
      now - n.startedAt ≤ STALE_NEGOTIATION_MS := by
    unfold staleSweep checkDirectProbes
    refine foldl_invariant (I := fun t : ServerState => ∀ k n,
      t.activeNegotiations.get? k = some n → now - n.startedAt ≤ STALE_NEGOTIATION_MS) _ _ ?_ ?_
    · intro t row _ ht k n hn
      rcases get?_checkDirectProbe hn with hold | hnow
      · exact ht k n hold
      · rw [hnow]; simp [STALE_NEGOTIATION_MS]
    · intro k n hn
      obtain ⟨hold, hfresh⟩ := get?_abortStale now _ hn
      exact hfresh ((s.activeNegotiations.mem_entries k n).mpr hold)
  have := hafter k n hn
  omega

/-! ## Top theorem -/

/-- **The negotiation lock.** -/
theorem lock_and_timers (cfg : Config) (db : Db) (es : List Event) (hids : IdsOk es) :
    LockHeld (exec cfg db es) ∧ EndsOnlyOwn cfg (exec cfg db es) ∧
      SweepsStale cfg (exec cfg db es) := by
  have hi := tableInv_exec cfg db hids
  exact ⟨lockHeld_of_tableInv hi, endsOnlyOwn_of_tableInv cfg hi, sweepsStale cfg _⟩

theorem lock_and_timers_relayProbeRun :
    LockHeld (exec {} twoPeers relayProbeRun) ∧ EndsOnlyOwn {} (exec {} twoPeers relayProbeRun) ∧
      SweepsStale {} (exec {} twoPeers relayProbeRun) :=
  lock_and_timers {} twoPeers relayProbeRun (by decide)

end Meshezia
