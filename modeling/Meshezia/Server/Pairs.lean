import Meshezia.Server.Handlers

/-!
# What a step about one pair reads and writes

A handler that works for the pair of `a` and `b` reads and writes the health record, the
negotiation, the timers and the link rows of that pair, and sends to `a` and `b`.  Two
laws say so, operation by operation:

* locality: the state after it is `Apart` from the state before it only at the pair;
* renaming: from two states that hold the same at the pair, up to the naming `ρ` of
  records, negotiations and timers (`Twin`), it leads to two such states and sends the
  same messages.

`TwinStep` is both for one operation, `TwinStep.trans` composes them.
-/

namespace Meshezia

open ServerState

/-! ## Renaming -/

def PairHealth.rename (ρ : Nat → Nat) (h : PairHealth) : PairHealth := { h with hid := ρ h.hid }

def NegotiationState.rename (ρ : Nat → Nat) (n : NegotiationState) : NegotiationState :=
  { n with nid := ρ n.nid, timeoutId := n.timeoutId.map ρ }

def HealthRef.rename (ρ : Nat → Nat) (r : HealthRef) : HealthRef := { r with hid := ρ r.hid }

def TimerCallback.rename (ρ : Nat → Nat) : TimerCallback → TimerCallback
  | .directReadyTimeout key peerA peerB health =>
    .directReadyTimeout key peerA peerB (health.rename ρ)
  | callback => callback

def Timer.rename (ρ : Nat → Nat) (t : Timer) : Timer :=
  { t with owner := ρ t.owner, callback := t.callback.rename ρ }

def TraceItem.rename (ρ : Nat → Nat) : TraceItem → TraceItem
  | .recv p msg n => .recv p msg (n.map ρ)
  | .sent p ws msg n => .sent p ws msg (n.map ρ)
  | .started key n type now backoff => .started key (ρ n) type now backoff
  | it => it

@[simp] theorem TimerCallback.key_rename (ρ : Nat → Nat) (c : TimerCallback) :
    (c.rename ρ).key = c.key := by
  cases c <;> rfl

/-- The receiver of a message sent. -/
def TraceItem.dest? : TraceItem → Option PeerId
  | .sent p _ _ _ => some p
  | _ => none

/-! ## The part of a pair -/

def isPair (a b : PeerId) (k : PeerId × PeerId) : Bool := k = (a, b) || k = (b, a)

def Db.pairLinks (db : Db) (a b : PeerId) : List ((PeerId × PeerId) × LinkRow) :=
  db.peerLinks.entries.filter fun e => isPair a b e.1

def Db.otherLinks (db : Db) (a b : PeerId) : List ((PeerId × PeerId) × LinkRow) :=
  db.peerLinks.entries.filter fun e => !isPair a b e.1

/-- The timer `id`, if it is one of `key`. -/
def ServerState.timerOf (s : ServerState) (key : PairKey) (id : Nat) : Option Timer :=
  (s.timers.get? id).filter fun t => t.callback.key = key

/-- The peers that a negotiation sends to are the two peers. -/
structure NegotiationState.Within (n : NegotiationState) (a b : PeerId) : Prop where
  peerA : n.peerA = a ∨ n.peerA = b
  peerB : n.peerB = a ∨ n.peerB = b
  client : n.type = .relayProbe → ∃ p, n.clientNode = some p ∧ (p = a ∨ p = b)

/-- `s'` is `s` but for the pair of `a` and `b`. -/
structure Apart (a b : PeerId) (s s' : ServerState) : Prop where
  health : ∀ k, k ≠ pairKey a b → s'.pairHealthMap.get? k = s.pairHealthMap.get? k
  active : ∀ k, k ≠ pairKey a b → s'.activeNegotiations.get? k = s.activeNegotiations.get? k
  timers : ∀ i tm, tm.callback.key ≠ pairKey a b →
    (s'.timers.get? i = some tm ↔ s.timers.get? i = some tm)
  connections : s'.connections = s.connections
  networks : s'.db.networks = s.db.networks
  peers : s'.db.peers = s.db.peers
  ports : s'.db.peerPorts = s.db.peerPorts
  links : s'.db.otherLinks a b = s.db.otherLinks a b
  ref : s.nextRef ≤ s'.nextRef
  hids : ∀ h', s'.pairHealthMap.get? (pairKey a b) = some h' →
    (∃ h, s.pairHealthMap.get? (pairKey a b) = some h ∧ h'.hid = h.hid) ∨
      (s.nextRef ≤ h'.hid ∧ h'.hid < s'.nextRef)

/-- What the table holds for the pair is the pair's. -/
structure PairInv (a b : PeerId) (s : ServerState) : Prop where
  parties : ∀ n, s.activeNegotiations.get? (pairKey a b) = some n → n.Within a b
  own : ∀ n i tm, s.activeNegotiations.get? (pairKey a b) = some n → n.timeoutId = some i →
    s.timers.get? i = some tm → tm.callback.key = pairKey a b
  fresh : ∀ i tm, s.timers.get? i = some tm → i < s.nextRef

/-- `s` and `t` hold the same for the pair of `a` and `b`, up to the naming `ρ`. -/
structure Twin (ρ : Nat → Nat) (a b : PeerId) (s t : ServerState) : Prop extends PairInv a b s where
  ref : ∀ i, ρ (s.nextRef + i) = t.nextRef + i
  health : t.pairHealthMap.get? (pairKey a b) =
    (s.pairHealthMap.get? (pairKey a b)).map (PairHealth.rename ρ)
  active : t.activeNegotiations.get? (pairKey a b) =
    (s.activeNegotiations.get? (pairKey a b)).map (NegotiationState.rename ρ)
  timers : ∀ i, t.timerOf (pairKey a b) (ρ i) =
    (s.timerOf (pairKey a b) i).map (Timer.rename ρ)
  connections : t.connections = s.connections
  networks : t.db.networks = s.db.networks
  peers : t.db.peers = s.db.peers
  links : t.db.pairLinks a b = s.db.pairLinks a b

/-- An operation takes `s` to `s'` and `t` to `t'`: `s'` is `s` but for the pair, `s'` and `t'`
hold the same for it, and the same is sent, to the two peers only. -/
structure TwinStep (ρ : Nat → Nat) (a b : PeerId) (s t s' t' : ServerState) : Prop where
  apart : Apart a b s s'
  twin : Twin ρ a b s' t'
  trace : ∃ items, s'.trace = items ++ s.trace ∧ t'.trace = items.map (TraceItem.rename ρ) ++ t.trace ∧
    ∀ it ∈ items, ∀ p, it.dest? = some p → p = a ∨ p = b

/-! ## Composition -/

section
variable {a b : PeerId} {s s' s'' : ServerState}

theorem Apart.refl (a b : PeerId) (s : ServerState) : Apart a b s s where
  health := fun _ _ => rfl
  active := fun _ _ => rfl
  timers := fun _ _ _ => Iff.rfl
  connections := rfl
  networks := rfl
  peers := rfl
  ports := rfl
  links := rfl
  ref := Nat.le_refl _
  hids := fun h hh => Or.inl ⟨h, hh, rfl⟩

theorem Apart.trans (h : Apart a b s s') (h' : Apart a b s' s'') : Apart a b s s'' where
  health := fun k hk => (h'.health k hk).trans (h.health k hk)
  active := fun k hk => (h'.active k hk).trans (h.active k hk)
  timers := fun i tm hk => (h'.timers i tm hk).trans (h.timers i tm hk)
  connections := h'.connections.trans h.connections
  networks := h'.networks.trans h.networks
  peers := h'.peers.trans h.peers
  ports := h'.ports.trans h.ports
  links := h'.links.trans h.links
  ref := Nat.le_trans h.ref h'.ref
  hids := by
    intro g'' hg''
    have href := h.ref
    have href' := h'.ref
    rcases h'.hids g'' hg'' with ⟨g', hg', he⟩ | ⟨hge, hlt⟩
    · rcases h.hids g' hg' with ⟨g, hg, he'⟩ | ⟨hge, hlt⟩
      · exact Or.inl ⟨g, hg, he.trans he'⟩
      · exact Or.inr ⟨by omega, by omega⟩
    · exact Or.inr ⟨by omega, hlt⟩

end

section
variable {ρ : Nat → Nat} {a b : PeerId} {s t s' t' s'' t'' : ServerState}

theorem Twin.refl (h : Twin ρ a b s t) : TwinStep ρ a b s t s t :=
  ⟨Apart.refl a b s, h, [], by simp⟩

theorem TwinStep.trans (h : TwinStep ρ a b s t s' t') (h' : TwinStep ρ a b s' t' s'' t'') :
    TwinStep ρ a b s t s'' t'' := by
  obtain ⟨items, hs, ht, hd⟩ := h.trace
  obtain ⟨items', hs', ht', hd'⟩ := h'.trace
  refine ⟨h.apart.trans h'.apart, h'.twin, items' ++ items, ?_, ?_, ?_⟩
  · rw [hs', hs, List.append_assoc]
  · rw [ht', ht, List.map_append, List.append_assoc]
  · intro it hit
    rcases List.mem_append.mp hit with hit | hit
    · exact hd' it hit
    · exact hd it hit

/-! ## Operations on the history -/

theorem Twin.withTrace (h : Twin ρ a b s t) (l l' : List TraceItem) :
    Twin ρ a b { s with trace := l } { t with trace := l' } :=
  ⟨⟨h.parties, h.own, h.fresh⟩, h.ref, h.health, h.active, h.timers, h.connections, h.networks,
    h.peers, h.links⟩

theorem Twin.items (h : Twin ρ a b s t) (items : List TraceItem)
    (hd : ∀ it ∈ items, ∀ p, it.dest? = some p → p = a ∨ p = b) :
    TwinStep ρ a b s t { s with trace := items ++ s.trace }
      { t with trace := items.map (TraceItem.rename ρ) ++ t.trace } :=
  ⟨{ Apart.refl a b s with }, h.withTrace _ _, items, rfl, rfl, hd⟩

theorem Twin.note (h : Twin ρ a b s t) (it : TraceItem) (hit : it.dest? = none) :
    TwinStep ρ a b s t (s.note it) (t.note (it.rename ρ)) := by
  refine h.items [it] fun it' hit' p hp => ?_
  rw [List.mem_singleton.mp hit', hit] at hp
  cases hp

theorem rename_sentItems (ρ : Nat → Nat) (c : Connections) (neg : Option Nat) (p : PeerId)
    (msg : ServerMsg) :
    (sentItems c neg p msg).map (TraceItem.rename ρ) = sentItems c (neg.map ρ) p msg := by
  unfold sentItems
  split <;> rfl

theorem Twin.sendMsg (h : Twin ρ a b s t) (neg : Option Nat) {p : PeerId} (hp : p = a ∨ p = b)
    (msg : ServerMsg) :
    TwinStep ρ a b s t (s.sendMsg neg p msg) (t.sendMsg (neg.map ρ) p msg) := by
  have hsent : sentItems t.connections (neg.map ρ) p msg =
      (sentItems s.connections neg p msg).map (TraceItem.rename ρ) := by
    rw [h.connections, rename_sentItems]
  rw [sendMsg_eq, sendMsg_eq, hsent]
  refine h.items _ fun it hit q hq => ?_
  obtain ⟨ws, rfl⟩ := mem_sentItems hit
  cases hq
  exact hp

theorem Twin.sendIfConnected (h : Twin ρ a b s t) (neg : Option Nat) {p : PeerId}
    (hp : p = a ∨ p = b) (msg : ServerMsg) :
    TwinStep ρ a b s t (s.sendIfConnected neg p msg) (t.sendIfConnected (neg.map ρ) p msg) := by
  have hsend := h.sendMsg neg hp msg
  rwa [sendMsg_eq, sendMsg_eq, ← sendIfConnected_eq, ← sendIfConnected_eq] at hsend

/-! ## Operations on the health records -/

/-- A record written back under its identity. -/
theorem Twin.putHealth (h : Twin ρ a b s t) {old : PairHealth}
    (hold : s.pairHealthMap.get? (pairKey a b) = some old) (new : PairHealth)
    (hid : new.hid = old.hid) :
    TwinStep ρ a b s t (s.putHealth (pairKey a b) new)
      (t.putHealth (pairKey a b) (new.rename ρ)) where
  apart := { Apart.refl a b s with
    health := fun k hk => OMap.get?_set_ne _ _ hk.symm
    hids := by
      intro g hg
      rw [ServerState.putHealth, OMap.get?_set_self] at hg
      cases hg
      exact Or.inl ⟨old, hold, hid⟩ }
  twin := ⟨⟨h.parties, h.own, h.fresh⟩, h.ref, by simp [ServerState.putHealth], h.active,
    h.timers, h.connections, h.networks, h.peers, h.links⟩
  trace := ⟨[], by simp [ServerState.putHealth]⟩

theorem Twin.getOrCreateHealth (h : Twin ρ a b s t) (cfg : Config) :
    TwinStep ρ a b s t (getOrCreateHealth cfg s (pairKey a b)).2
        (getOrCreateHealth cfg t (pairKey a b)).2 ∧
      (getOrCreateHealth cfg t (pairKey a b)).1 =
        (getOrCreateHealth cfg s (pairKey a b)).1.rename ρ ∧
      (getOrCreateHealth cfg s (pairKey a b)).2.pairHealthMap.get? (pairKey a b) =
        some (getOrCreateHealth cfg s (pairKey a b)).1 := by
  have hhealth := h.health
  unfold ServerState.getOrCreateHealth
  cases hg : s.pairHealthMap.get? (pairKey a b) with
  | some old =>
    rw [hg, Option.map_some] at hhealth
    simp only [hhealth]
    exact ⟨h.refl, trivial, hg⟩
  | none =>
    rw [hg, Option.map_none] at hhealth
    simp only [hhealth]
    have href : ρ s.nextRef = t.nextRef := h.ref 0
    refine ⟨⟨?_, ?_, [.healthCreated (pairKey a b)], rfl, rfl, ?_⟩, ?_, OMap.get?_set_self ..⟩
    · exact { Apart.refl a b s with
        health := fun k hk => OMap.get?_set_ne _ _ hk.symm
        ref := Nat.le_succ _
        hids := by
          intro g hg'
          rw [OMap.get?_set_self] at hg'
          cases hg'
          exact Or.inr ⟨Nat.le_refl _, Nat.lt_succ_self _⟩ }
    · refine ⟨⟨h.parties, h.own, fun i tm hi => Nat.lt_succ_of_lt (h.fresh i tm hi)⟩, ?_, ?_,
        h.active, h.timers, h.connections, h.networks, h.peers, h.links⟩
      · intro i
        have := h.ref (i + 1)
        simpa [Nat.add_assoc, Nat.add_comm 1 i] using this
      · simp only [OMap.get?_set_self, Option.map_some, PairHealth.rename, href]
    · intro it hit p hp
      rw [List.mem_singleton.mp hit] at hp
      cases hp
    · rw [PairHealth.rename, href]

/-- A write of the handlers to a record: it keeps the record's identity. -/
def KeepsHid (ρ : Nat → Nat) (f : PairHealth → PairHealth) : Prop :=
  ∀ h, (f h).hid = h.hid ∧ f (h.rename ρ) = (f h).rename ρ

theorem Twin.updateHealth (h : Twin ρ a b s t) {f : PairHealth → PairHealth}
    (hf : KeepsHid ρ f) :
    TwinStep ρ a b s t (s.updateHealth (pairKey a b) f) (t.updateHealth (pairKey a b) f) := by
  have hhealth := h.health
  unfold ServerState.updateHealth
  cases hg : s.pairHealthMap.get? (pairKey a b) with
  | none =>
    rw [hg, Option.map_none] at hhealth
    simp only [hhealth]
    exact h.refl
  | some old =>
    rw [hg, Option.map_some] at hhealth
    simp only [hhealth, (hf old).2]
    exact h.putHealth hg _ (hf old).1

theorem Twin.updateHealthRef (h : Twin ρ a b s t) (hρ : Function.Injective ρ) (hid : Nat)
    {f : PairHealth → PairHealth} (hf : KeepsHid ρ f) :
    TwinStep ρ a b s t (s.updateHealthRef ⟨pairKey a b, hid⟩ f)
      (t.updateHealthRef ⟨pairKey a b, ρ hid⟩ f) := by
  have hhealth := h.health
  unfold ServerState.updateHealthRef
  cases hg : s.pairHealthMap.get? (pairKey a b) with
  | none =>
    rw [hg, Option.map_none] at hhealth
    simp only [hhealth]
    exact h.refl
  | some old =>
    rw [hg, Option.map_some] at hhealth
    simp only [hhealth]
    have hiff : (old.rename ρ).hid = ρ hid ↔ old.hid = hid := hρ.eq_iff
    by_cases he : old.hid = hid
    · rw [if_pos he, if_pos (hiff.mpr he), (hf old).2]
      exact h.putHealth hg _ (hf old).1
    · rw [if_neg he, if_neg (mt hiff.mp he)]
      exact h.refl

/-! ## Operations on the table and the timers -/

/-- The negotiation of the pair is written, its timer kept. -/
theorem Twin.setNeg (h : Twin ρ a b s t) {old new : NegotiationState}
    (hold : s.activeNegotiations.get? (pairKey a b) = some old)
    (htimer : new.timeoutId = old.timeoutId) (hnew : new.Within a b) :
    TwinStep ρ a b s t
      { s with activeNegotiations := s.activeNegotiations.set (pairKey a b) new }
      { t with activeNegotiations := t.activeNegotiations.set (pairKey a b) (new.rename ρ) } where
  apart := { Apart.refl a b s with active := fun k hk => OMap.get?_set_ne _ _ hk.symm }
  twin := by
    refine ⟨⟨?_, ?_, h.fresh⟩, h.ref, h.health, by simp, h.timers, h.connections, h.networks,
      h.peers, h.links⟩
    · intro n hn
      rw [OMap.get?_set_self] at hn
      cases hn
      exact hnew
    · intro n i tm hn hi
      rw [OMap.get?_set_self] at hn
      cases hn
      rw [htimer] at hi
      exact h.own old i tm hold hi
  trace := ⟨[], by simp⟩

/-- `setTimeout`, for a negotiation of the pair. -/
theorem Twin.armTimeout (h : Twin ρ a b s t) (hρ : Function.Injective ρ) {n : NegotiationState}
    (hn : n.Within a b) (callback : TimerCallback) (hkey : callback.key = pairKey a b)
    (delay : Int) :
    TwinStep ρ a b s t (s.armTimeout (pairKey a b) n callback delay)
      (t.armTimeout (pairKey a b) (n.rename ρ) (callback.rename ρ) delay) where
  apart := { Apart.refl a b s with
    active := fun k hk => OMap.get?_set_ne _ _ hk.symm
    timers := by
      intro i tm hk
      rw [ServerState.armTimeout, OMap.get?_set]
      split
      · rename_i he
        constructor
        · intro he'
          cases he'
          exact absurd hkey hk
        · intro hi
          have := h.fresh i tm hi
          omega
      · exact Iff.rfl
    ref := Nat.le_succ _
    hids := fun g hg => Or.inl ⟨g, hg, rfl⟩ }
  twin := by
    have href : ρ s.nextRef = t.nextRef := h.ref 0
    refine ⟨⟨?_, ?_, ?_⟩, ?_, h.health, ?_, ?_, h.connections, h.networks, h.peers, h.links⟩
    · intro m hm
      rw [ServerState.armTimeout, OMap.get?_set_self] at hm
      cases hm
      exact ⟨hn.peerA, hn.peerB, hn.client⟩
    · intro m i tm hm hi htm
      rw [ServerState.armTimeout, OMap.get?_set_self] at hm
      cases hm
      cases hi
      rw [ServerState.armTimeout, OMap.get?_set_self] at htm
      cases htm
      exact hkey
    · intro i tm hi
      rcases OMap.get?_set_cases hi with ⟨rfl, -⟩ | ⟨-, hi⟩
      · exact Nat.lt_succ_self _
      · exact Nat.lt_succ_of_lt (h.fresh i tm hi)
    · intro i
      have := h.ref (i + 1)
      simpa [ServerState.armTimeout, Nat.add_assoc, Nat.add_comm 1 i] using this
    · simp [ServerState.armTimeout, NegotiationState.rename, href]
    · intro i
      simp only [ServerState.timerOf, ServerState.armTimeout, OMap.get?_set]
      by_cases hi : s.nextRef = i
      · subst hi
        rw [if_pos rfl, if_pos href.symm]
        simp [hkey, Option.filter, Timer.rename, NegotiationState.rename]
      · rw [if_neg hi, if_neg fun e => hi (hρ (href.trans e))]
        exact h.timers i
  trace := ⟨[], by simp [ServerState.armTimeout]⟩

/-- A timer of the pair is taken out. -/
theorem Twin.deleteTimer (h : Twin ρ a b s t) (hρ : Function.Injective ρ) (id : Nat)
    (hkey : ∀ tm, s.timers.get? id = some tm → tm.callback.key = pairKey a b) :
    TwinStep ρ a b s t { s with timers := s.timers.delete id }
      { t with timers := t.timers.delete (ρ id) } where
  apart := { Apart.refl a b s with
    timers := by
      intro i tm hk
      rw [OMap.get?_delete]
      split
      · rename_i he
        subst he
        exact ⟨fun he => absurd he (by simp), fun hi => absurd (hkey tm hi) hk⟩
      · exact Iff.rfl }
  twin := by
    refine ⟨⟨h.parties, ?_, ?_⟩, h.ref, h.health, h.active, ?_, h.connections, h.networks,
      h.peers, h.links⟩
    · exact fun n i tm hn hi htm => h.own n i tm hn hi (OMap.get?_of_get?_delete htm).2
    · exact fun i tm hi => h.fresh i tm (OMap.get?_of_get?_delete hi).2
    · intro i
      simp only [ServerState.timerOf, OMap.get?_delete]
      by_cases hi : id = i
      · subst hi
        simp
      · rw [if_neg hi, if_neg fun e => hi (hρ e)]
        exact h.timers i
  trace := ⟨[], by simp⟩

/-- `clearTimeout` of the timer of the pair's negotiation. -/
theorem Twin.clearTimeout (h : Twin ρ a b s t) (hρ : Function.Injective ρ)
    {n m : NegotiationState} (hn : s.activeNegotiations.get? (pairKey a b) = some n)
    (htimer : m.timeoutId = n.timeoutId) :
    TwinStep ρ a b s t (s.clearTimeout m.timeoutId) (t.clearTimeout (m.rename ρ).timeoutId) := by
  rw [NegotiationState.rename, htimer]
  cases hid : n.timeoutId with
  | none => exact h.refl
  | some id => exact h.deleteTimer hρ id fun tm => h.own n id tm hn hid

/-- The negotiation of the pair is taken out of the table. -/
theorem Twin.deleteNeg (h : Twin ρ a b s t) :
    TwinStep ρ a b s t
      { s with activeNegotiations := s.activeNegotiations.delete (pairKey a b) }
      { t with activeNegotiations := t.activeNegotiations.delete (pairKey a b) } where
  apart := { Apart.refl a b s with active := fun k hk => OMap.get?_delete_ne _ hk.symm }
  twin := by
    refine ⟨⟨?_, ?_, h.fresh⟩, h.ref, h.health, by simp, h.timers, h.connections, h.networks,
      h.peers, h.links⟩
    · intro n hn
      rw [OMap.get?_delete_self] at hn
      cases hn
    · intro n i tm hn
      rw [OMap.get?_delete_self] at hn
      cases hn
  trace := ⟨[], by simp⟩

theorem Twin.finishNegotiation (h : Twin ρ a b s t) (hρ : Function.Injective ρ) :
    TwinStep ρ a b s t (s.finishNegotiation (pairKey a b)) (t.finishNegotiation (pairKey a b)) := by
  have hactive := h.active
  unfold ServerState.finishNegotiation
  cases hg : s.activeNegotiations.get? (pairKey a b) with
  | none =>
    rw [hg, Option.map_none] at hactive
    simp only [hactive]
    exact h.refl
  | some n =>
    rw [hg, Option.map_some] at hactive
    simp only [hactive]
    have hclear := h.clearTimeout hρ hg rfl
    exact hclear.trans hclear.twin.deleteNeg

theorem Twin.abortNegotiation (h : Twin ρ a b s t) (hρ : Function.Injective ρ)
    (reason : AbortReason) :
    TwinStep ρ a b s t (s.abortNegotiation (pairKey a b) reason)
      (t.abortNegotiation (pairKey a b) reason) := by
  have hactive := h.active
  unfold ServerState.abortNegotiation
  cases hg : s.activeNegotiations.get? (pairKey a b) with
  | none =>
    rw [hg, Option.map_none] at hactive
    simp only [hactive]
    exact h.refl
  | some n =>
    rw [hg, Option.map_some] at hactive
    simp only [hactive]
    have hwithin := h.parties n hg
    have h1 := h.sendIfConnected (some n.nid) hwithin.peerA (.negotiateAbort n.peerB reason)
    have h2 := h1.twin.sendIfConnected (some n.nid) hwithin.peerB (.negotiateAbort n.peerA reason)
    exact h1.trans (h2.trans (h2.twin.finishNegotiation hρ))

/-- A negotiation of the pair begins, with a fresh identity. -/
theorem Twin.enter (h : Twin ρ a b s t) {n : NegotiationState} (hn : n.Within a b)
    (htimer : n.timeoutId = none) (now backoff : Int) :
    TwinStep ρ a b s t
      { s with
        activeNegotiations := s.activeNegotiations.set (pairKey a b) n
        nextRef := s.nextRef + 1
        trace := .started (pairKey a b) n.nid n.type now backoff :: s.trace }
      { t with
        activeNegotiations := t.activeNegotiations.set (pairKey a b) (n.rename ρ)
        nextRef := t.nextRef + 1
        trace := .started (pairKey a b) (n.rename ρ).nid n.type now backoff :: t.trace } where
  apart := { Apart.refl a b s with
    active := fun k hk => OMap.get?_set_ne _ _ hk.symm
    ref := Nat.le_succ _
    hids := fun g hg => Or.inl ⟨g, hg, rfl⟩ }
  twin := by
    refine ⟨⟨?_, ?_, fun i tm hi => Nat.lt_succ_of_lt (h.fresh i tm hi)⟩, ?_, h.health, by simp,
      h.timers, h.connections, h.networks, h.peers, h.links⟩
    · intro m hm
      rw [OMap.get?_set_self] at hm
      cases hm
      exact hn
    · intro m i tm hm hi
      rw [OMap.get?_set_self] at hm
      cases hm
      rw [htimer] at hi
      cases hi
    · intro i
      have := h.ref (i + 1)
      simpa [Nat.add_assoc, Nat.add_comm 1 i] using this
  trace := by
    refine ⟨[.started (pairKey a b) n.nid n.type now backoff], rfl, rfl, ?_⟩
    intro it hit p hp
    rw [List.mem_singleton.mp hit] at hp
    cases hp

end

end Meshezia
