import Meshezia.Agent.Monitor

/-!
# Interface names and listen ports (`reconciler.ts`)

A peer keeps the interface and the port it was given once.  A new peer gets the smallest
free interface index and a random free port of the range; the random numbers are an
argument (`draws`).
-/

namespace Meshezia

/-- The smallest index from `i` on that is not used, within `fuel` tries. -/
def nextFree (used : List IfName) : Nat → IfName → IfName
  | 0, i => i
  | fuel + 1, i => if i ∈ used then nextFree used fuel (i + 1) else i

/-- `getIfName`: the interface of a peer, a new one on the smallest free index. -/
def getIfName (peerToIf : OMap PeerId IfName) (peerId : PeerId) : IfName × OMap PeerId IfName :=
  match peerToIf.get? peerId with
  | some name => (name, peerToIf)
  | none =>
    let used := peerToIf.entries.map Prod.snd
    let idx := nextFree used used.length 0
    (idx, peerToIf.set peerId idx)

structure PortRange where
  start : Nat
  stop : Nat

/-- The candidates of the loop of `getPort`: a thousand draws at most. -/
def portCandidates (range : PortRange) (draws : List Nat) : List Nat :=
  (draws.take 1000).map fun d => range.start + d % (range.stop - range.start + 1)

/-- `getPort`: the port of a peer, a new one that no other peer has, or nothing when every
draw is taken. -/
def getPort (range : PortRange) (peerToPort : OMap PeerId Nat) (peerId : PeerId)
    (draws : List Nat) : Option (Nat × OMap PeerId Nat) :=
  let new := do
    let used := peerToPort.entries.map Prod.snd
    let port ← (portCandidates range draws).find? fun c => c ∉ used
    if port = 0 then none else some (port, peerToPort.set peerId port)
  match peerToPort.get? peerId with
  | some port => if port = 0 then new else some (port, peerToPort)
  | none => new

/-! ## Lemmas -/

/-- Past a used index, fewer used indices are left. -/
theorem length_filter_succ_lt {used : List Nat} {i : Nat} (h : i ∈ used) :
    (used.filter fun j => decide (i + 1 ≤ j)).length < (used.filter fun j => decide (i ≤ j)).length := by
  have hle : ∀ l : List Nat,
      (l.filter fun j => decide (i + 1 ≤ j)).length ≤ (l.filter fun j => decide (i ≤ j)).length := by
    intro l
    refine (List.monotone_filter_right l fun j hj => ?_).length_le
    simp only [decide_eq_true_eq] at hj ⊢
    omega
  induction used with
  | nil => cases h
  | cons j rest ih =>
    by_cases hj : j = i
    · subst hj
      have := hle rest
      simp only [List.filter_cons, Nat.le_refl, decide_true, if_true, List.length_cons,
        Nat.not_succ_le_self, decide_false, Bool.false_eq_true, if_false]
      omega
    · have := ih ((List.mem_cons.mp h).resolve_left fun e => hj e.symm)
      by_cases hij : i ≤ j
      · have hij' : i + 1 ≤ j := by omega
        simp only [List.filter_cons, hij, hij', decide_true, if_true, List.length_cons]
        omega
      · have hij' : ¬ i + 1 ≤ j := by omega
        simpa only [List.filter_cons, hij, hij', decide_false, Bool.false_eq_true, if_false] using this

/-- With as many tries as indices are used, the search ends at a free one. -/
theorem nextFree_not_mem (used : List IfName) (fuel i : Nat)
    (h : (used.filter fun j => decide (i ≤ j)).length ≤ fuel) : nextFree used fuel i ∉ used := by
  induction fuel generalizing i with
  | zero =>
    intro hmem
    have hpos : i ∈ used.filter fun j => decide (i ≤ j) :=
      List.mem_filter.mpr ⟨hmem, decide_eq_true (Nat.le_refl i)⟩
    have := List.length_pos_of_mem hpos
    omega
  | succ n ih =>
    simp only [nextFree]
    split
    · rename_i hmem
      have := length_filter_succ_lt hmem
      exact ih (i + 1) (by omega)
    · rename_i hmem
      exact hmem

theorem getIfName_get? (peerToIf : OMap PeerId IfName) (peerId : PeerId) :
    (getIfName peerToIf peerId).2.get? peerId = some (getIfName peerToIf peerId).1 := by
  unfold getIfName
  split
  · rename_i name hg
    exact hg
  · simp

theorem getIfName_get?_ne (peerToIf : OMap PeerId IfName) {peerId q : PeerId} (h : peerId ≠ q) :
    (getIfName peerToIf peerId).2.get? q = peerToIf.get? q := by
  unfold getIfName
  split
  · rfl
  · exact OMap.get?_set_ne _ _ h

theorem getIfName_of_some {peerToIf : OMap PeerId IfName} {peerId : PeerId} {n : IfName}
    (h : peerToIf.get? peerId = some n) : getIfName peerToIf peerId = (n, peerToIf) := by
  simp [getIfName, h]

/-- A new interface index is used by no other peer. -/
theorem getIfName_fresh {peerToIf : OMap PeerId IfName} {peerId q : PeerId} {n : IfName}
    (hnone : peerToIf.get? peerId = none) (hq : peerToIf.get? q = some n) :
    (getIfName peerToIf peerId).1 ≠ n := by
  intro he
  have hused : n ∈ peerToIf.entries.map Prod.snd :=
    List.mem_map.mpr ⟨(q, n), (OMap.mem_entries _ _ _).mpr hq, rfl⟩
  have hfree := nextFree_not_mem (peerToIf.entries.map Prod.snd)
    (peerToIf.entries.map Prod.snd).length 0 (List.length_filter_le _ _)
  simp only [getIfName, hnone] at he
  rw [he] at hfree
  exact hfree hused

/-- What the search passes over is used. -/
theorem mem_of_lt_nextFree {used : List IfName} {fuel i j : Nat} (hij : i ≤ j)
    (h : j < nextFree used fuel i) : j ∈ used := by
  induction fuel generalizing i with
  | zero =>
    simp only [nextFree] at h
    omega
  | succ n ih =>
    simp only [nextFree] at h
    split at h
    · rename_i hmem
      rcases Nat.eq_or_lt_of_le hij with rfl | hlt
      · exact hmem
      · exact ih hlt h
    · omega

/-- A new interface index is the smallest one that no peer has. -/
theorem getIfName_least {peerToIf : OMap PeerId IfName} {peerId : PeerId}
    (hnone : peerToIf.get? peerId = none) {m : IfName} (h : m < (getIfName peerToIf peerId).1) :
    ∃ q, peerToIf.get? q = some m := by
  simp only [getIfName, hnone] at h
  obtain ⟨⟨q, n⟩, hq, rfl⟩ := List.mem_map.mp (mem_of_lt_nextFree (Nat.zero_le m) h)
  exact ⟨q, (OMap.mem_entries _ _ _).mp hq⟩

theorem has_getIfName (peerToIf : OMap PeerId IfName) (peerId q : PeerId) :
    (getIfName peerToIf peerId).2.has q = true ↔ peerId = q ∨ peerToIf.has q = true := by
  by_cases hq : peerId = q
  · subst hq
    simp [OMap.has_of_get? (getIfName_get? peerToIf peerId)]
  · simp [OMap.has, getIfName_get?_ne peerToIf hq, hq]

/-- No two peers have one interface. -/
def InjectiveMap (m : OMap PeerId IfName) : Prop :=
  ∀ p q i, m.get? p = some i → m.get? q = some i → p = q

theorem getIfName_injective {m : OMap PeerId IfName} (h : InjectiveMap m) (p : PeerId) :
    InjectiveMap (getIfName m p).2 := by
  cases hget : m.get? p with
  | some i =>
    rw [getIfName_of_some hget]
    exact h
  | none =>
    -- the new interface is no other peer's
    have hfresh : ∀ q, p ≠ q → (getIfName m p).2.get? q ≠ some (getIfName m p).1 := by
      intro q hq hsome
      rw [getIfName_get?_ne m hq] at hsome
      exact getIfName_fresh hget hsome rfl
    intro q r i hq hr
    by_cases hpq : p = q
    · subst hpq
      rw [getIfName_get?] at hq
      cases hq
      by_contra hne
      exact hfresh r hne hr
    · by_cases hpr : p = r
      · subst hpr
        rw [getIfName_get?] at hr
        cases hr
        exact absurd hq (hfresh q hpq)
      · rw [getIfName_get?_ne m hpq] at hq
        rw [getIfName_get?_ne m hpr] at hr
        exact h q r i hq hr

/-- A peer keeps the port it has. -/
theorem getPort_own (range : PortRange) {peerToPort : OMap PeerId Nat} {peerId : PeerId}
    {port : Nat} (h : peerToPort.get? peerId = some port) (hne : port ≠ 0) (draws : List Nat) :
    getPort range peerToPort peerId draws = some (port, peerToPort) := by
  simp [getPort, h, hne]

/-- What `getPort` returns: a port that is not 0, which the peer had or no peer has, and is
the only thing that changes. -/
theorem getPort_spec {range : PortRange} {peerToPort peerToPort' : OMap PeerId Nat}
    {peerId : PeerId} {draws : List Nat} {port : Nat}
    (h : getPort range peerToPort peerId draws = some (port, peerToPort')) :
    port ≠ 0 ∧ peerToPort'.get? peerId = some port ∧
      (∀ q, peerId ≠ q → peerToPort'.get? q = peerToPort.get? q) ∧
      (peerToPort.get? peerId = some port ∨ ∀ q, peerToPort.get? q ≠ some port) := by
  have hnew : (do
      let port ← (portCandidates range draws).find? fun c =>
        c ∉ peerToPort.entries.map Prod.snd
      if port = 0 then none else some (port, peerToPort.set peerId port)) =
        some (port, peerToPort') →
      port ≠ 0 ∧ peerToPort'.get? peerId = some port ∧
        (∀ q, peerId ≠ q → peerToPort'.get? q = peerToPort.get? q) ∧
        ∀ q, peerToPort.get? q ≠ some port := by
    intro hdraw
    simp only [Option.bind_eq_bind, Option.bind_eq_some_iff] at hdraw
    obtain ⟨c, hc, hdraw⟩ := hdraw
    split at hdraw
    · cases hdraw
    · rename_i hne
      cases hdraw
      have hfree : port ∉ peerToPort.entries.map Prod.snd := by
        simpa using List.find?_some hc
      refine ⟨hne, OMap.get?_set_self _ _ _, fun q hq => OMap.get?_set_ne _ _ hq, ?_⟩
      intro q hq
      exact hfree (List.mem_map.mpr ⟨(q, port), (OMap.mem_entries _ _ _).mpr hq, rfl⟩)
  unfold getPort at h
  dsimp only at h
  split at h
  · rename_i own hown
    split at h
    · obtain ⟨h1, h2, h3, h4⟩ := hnew h
      exact ⟨h1, h2, h3, Or.inr h4⟩
    · rename_i hne
      cases h
      exact ⟨hne, hown, fun _ _ => rfl, Or.inl hown⟩
  · obtain ⟨h1, h2, h3, h4⟩ := hnew h
    exact ⟨h1, h2, h3, Or.inr h4⟩

end Meshezia
