import Meshezia.Server.Handlers

/-!
# Negotiations and connections

`relay.ts` changes `connections`, `negotiate.ts` changes `activeNegotiations`; the
disconnect callback ties them together.  In every state a run reaches the two peers of
an active negotiation are connected and are the two parts of its key
(`PeersConnected`), and a close ends the negotiations of its peer, tells the other
peer of each, and leaves the rest alone (`CloseEnds`).

    IdsOk es → PeersConnected s ∧ ∀ ws, CloseEnds s ws (step cfg s (.close ws)),
      s = exec cfg db es                              (negotiations_within_connections)
-/

namespace Meshezia

open ServerState

/-! ## What is claimed of a state and of a close -/

/-- The two peers of an active negotiation are connected, distinct, and the two parts of
its key in order; a relay probe's server and client node are the two of them. -/
structure PeersConnected (s : ServerState) : Prop where
  connected : ∀ k n, s.activeNegotiations.get? k = some n →
    s.isConnected n.peerA = true ∧ s.isConnected n.peerB = true
  ne : ∀ k n, s.activeNegotiations.get? k = some n → n.peerA ≠ n.peerB
  parts : ∀ k n, s.activeNegotiations.get? k = some n →
    k = joinAt colon n.peerA n.peerB ∧ parsePairKey k = (n.peerA, n.peerB)
  roles : ∀ k n, s.activeNegotiations.get? k = some n → n.type = .relayProbe →
    (n.serverNode = some n.peerA ∧ n.clientNode = some n.peerB) ∨
      (n.serverNode = some n.peerB ∧ n.clientNode = some n.peerA)

/-- The close of `ws` takes `s` to `s'`: of its peer no negotiation is left, each of the
others is as it was and so is its timer, and the other peer of each ended one was sent
the abort, on the socket of the table. -/
structure CloseEnds (s : ServerState) (ws : Ws) (s' : ServerState) : Prop where
  left : ∀ k n, s'.activeNegotiations.get? k = some n ↔
    s.activeNegotiations.get? k = some n ∧ ¬ n.Involves ws.peerId
  timers : ∀ k n t, s.activeNegotiations.get? k = some n → ¬ n.Involves ws.peerId →
    n.timeoutId = some t → s'.timers.get? t = s.timers.get? t
  told : ∃ items, s'.trace = items ++ s.trace ∧
    ∀ k n, s.activeNegotiations.get? k = some n → n.Involves ws.peerId →
      n.other ws.peerId ≠ ws.peerId ∧ ∃ w, s.connections.get? (n.other ws.peerId) = some w ∧
        .sent (n.other ws.peerId) w (.negotiateAbort ws.peerId .wsReset) (some n.nid) ∈ items

/-! ## The invariant -/

theorem NegKeyed.key_eq {key : PairKey} {neg : NegotiationState} (h : NegKeyed key neg) :
    key = joinAt colon neg.peerA neg.peerB := by
  have hpair := h.pair
  have hparse := h.parse
  unfold pairKey at hpair
  split at hpair
  · exact hpair.symm
  · -- joined the other way round the key would be split the other way round
    rw [← hpair] at hparse
    have hsplit := splitAt2_joinAt colon h.freeB h.freeA
    unfold parsePairKey at hparse
    rw [hsplit, Prod.mk.injEq] at hparse
    exact absurd hparse.2 h.ne

theorem peersConnected_of_tableInv {s : ServerState} (hi : TableInv s) : PeersConnected s where
  connected := hi.connected
  ne := fun k n hn => (hi.keyed k n hn).ne
  parts := fun k n hn => ⟨(hi.keyed k n hn).key_eq, (hi.keyed k n hn).parse⟩
  roles := fun k n hn => (hi.keyed k n hn).roles

/-! ## The loop over the table -/

/-- The loop of `abortPeerNegotiations` over entries of the table. -/
theorem foldl_abortPeerEntry (p : PeerId) (reason : AbortReason)
    (l : List (PairKey × NegotiationState)) (hl : (l.map Prod.fst).Nodup) {s : ServerState}
    (hmem : ∀ e ∈ l, s.activeNegotiations.get? e.1 = some e.2) :
    (∀ k n, (l.foldl (abortPeerEntry p reason) s).activeNegotiations.get? k = some n ↔
      s.activeNegotiations.get? k = some n ∧ ((k, n) ∈ l → ¬ n.Involves p)) ∧
    (∀ t tm, (l.foldl (abortPeerEntry p reason) s).timers.get? t = some tm →
      s.timers.get? t = some tm) ∧
    ∃ items, (l.foldl (abortPeerEntry p reason) s).trace = items ++ s.trace ∧
      ∀ e ∈ l, e.2.Involves p → ∀ it ∈ sentItems s.connections (some e.2.nid) (e.2.other p)
        (.negotiateAbort p reason), it ∈ items := by
  induction l generalizing s with
  | nil => exact ⟨by simp, fun t tm h => h, [], by simp⟩
  | cons e rest ih =>
    obtain ⟨key, neg⟩ := e
    simp only [List.map_cons, List.nodup_cons] at hl
    have hhead : s.activeNegotiations.get? key = some neg := hmem (key, neg) (by simp)
    rw [List.foldl_cons]
    by_cases hp : neg.Involves p
    · rw [abortPeerEntry_eq s hhead hp]
      have hrest : ∀ e ∈ rest, (conclude s key neg none
          (.abortOther p reason)).activeNegotiations.get? e.1 = some e.2 := by
        intro e he
        have hne : key ≠ e.1 := fun h => hl.1 (h ▸ List.mem_map_of_mem he)
        show (s.activeNegotiations.delete key).get? e.1 = some e.2
        rw [OMap.get?_delete_ne _ hne]
        exact hmem e (List.mem_cons_of_mem _ he)
      obtain ⟨hactive, htimers, items, htrace, htold⟩ := ih hl.2 hrest
      refine ⟨fun k n => ?_, fun t tm ht => (get?_cleared (htimers t tm ht)).1, ?_⟩
      · rw [hactive k n, conclude, OMap.get?_delete]
        by_cases hk : key = k
        · subst hk
          rw [if_pos rfl, hhead]
          constructor
          · rintro ⟨h, -⟩
            cases h
          · rintro ⟨h, hnot⟩
            cases h
            exact absurd hp (hnot (by simp))
        · have hk' : (k, n) ≠ (key, neg) := fun h => hk (congrArg Prod.fst h).symm
          rw [if_neg hk, List.mem_cons, or_iff_right hk']
      · refine ⟨items ++ sentItems s.connections (some neg.nid) (neg.other p)
          (.negotiateAbort p reason), ?_, ?_⟩
        · rw [htrace]
          simp [conclude, Ending.items, receiptItems]
        · intro e he hinv it hit
          rcases List.mem_cons.mp he with rfl | he
          · exact List.mem_append_right _ hit
          · exact List.mem_append_left _ (htold e he hinv it hit)
    · rw [abortPeerEntry_of_not s reason hp]
      obtain ⟨hactive, htimers, items, htrace, htold⟩ := ih hl.2
        fun e he => hmem e (List.mem_cons_of_mem _ he)
      refine ⟨fun k n => ?_, htimers, items, htrace, ?_⟩
      · rw [hactive k n, List.mem_cons]
        constructor
        · rintro ⟨hn, hnot⟩
          refine ⟨hn, ?_⟩
          rintro (h | h)
          · cases h
            exact hp
          · exact hnot h
        · exact fun hn => ⟨hn.1, fun hin => hn.2 (Or.inr hin)⟩
      · intro e he hinv
        rcases List.mem_cons.mp he with rfl | he
        · exact absurd hinv hp
        · exact htold e he hinv

theorem NegotiationState.other_ne {neg : NegotiationState} {p : PeerId}
    (hne : neg.peerA ≠ neg.peerB) : neg.other p ≠ p := by
  unfold NegotiationState.other
  split
  · rename_i hA
    rw [← hA]
    exact hne.symm
  · assumption

theorem TableInv.connected_other {s : ServerState} (hi : TableInv s) {k : PairKey}
    {n : NegotiationState} (hn : s.activeNegotiations.get? k = some n) (p : PeerId) :
    s.isConnected (n.other p) = true := by
  unfold NegotiationState.other
  split
  · exact (hi.connected k n hn).2
  · exact (hi.connected k n hn).1

/-! ## The close -/

/-- The abort goes to the other peers, so it does not matter that the closing peer has
left the table of connections already. -/
theorem handleClose_eq {s : ServerState} (hi : TableInv s) (ws : Ws) :
    s.handleClose ws = { s.abortPeerNegotiations ws.peerId .wsReset with
      connections := s.connections.delete ws.peerId } :=
  abortPeerEntries_disconnected .wsReset s.activeNegotiations.entries fun e he =>
    (hi.keyed e.1 e.2 ((s.activeNegotiations.mem_entries _ _).mp he)).ne

theorem closeEnds_of_tableInv (cfg : Config) {s : ServerState} (hi : TableInv s) (ws : Ws)
    (hi' : TableInv (step cfg s (.close ws))) : CloseEnds s ws (step cfg s (.close ws)) := by
  have hmem : ∀ e ∈ s.activeNegotiations.entries, s.activeNegotiations.get? e.1 = some e.2 :=
    fun e he => (s.activeNegotiations.mem_entries e.1 e.2).mp he
  obtain ⟨hactive, htimers, items, htrace, htold⟩ :=
    foldl_abortPeerEntry ws.peerId .wsReset _ s.activeNegotiations.nodup hmem
  have hleft : ∀ k n, (step cfg s (.close ws)).activeNegotiations.get? k = some n ↔
      s.activeNegotiations.get? k = some n ∧ ¬ n.Involves ws.peerId := by
    intro k n
    rw [step, handleClose_eq hi]
    show (s.abortPeerNegotiations ws.peerId .wsReset).activeNegotiations.get? k = some n ↔ _
    rw [abortPeerNegotiations, hactive k n]
    exact and_congr_right fun hn =>
      ⟨fun h => h ((s.activeNegotiations.mem_entries k n).mpr hn), fun h _ => h⟩
  refine ⟨hleft, ?_, items, ?_, ?_⟩
  · intro k n t hn hnot ht
    -- the negotiation is still active, so its timer is armed and is one of before
    obtain ⟨t', tm, h1, h2, -⟩ := hi'.armed k n ((hleft k n).mpr ⟨hn, hnot⟩)
    rw [ht, Option.some.injEq] at h1
    rw [h1, h2]
    rw [step, handleClose_eq hi] at h2
    exact (htimers t' tm h2).symm
  · rw [step, handleClose_eq hi]
    exact htrace
  · intro k n hn hinv
    obtain ⟨w, hw⟩ := (OMap.has_iff _ _).mp (hi.connected_other hn ws.peerId)
    refine ⟨NegotiationState.other_ne (hi.keyed k n hn).ne, w, hw, ?_⟩
    refine htold (k, n) ((s.activeNegotiations.mem_entries k n).mpr hn) hinv _ ?_
    simp [sentItems, sendTextToPeer, hw]

/-! ## Top theorem -/

/-- **No negotiation outlives a connection.** -/
theorem negotiations_within_connections (cfg : Config) (db : Db) (es : List Event)
    (hids : IdsOk es) :
    PeersConnected (exec cfg db es) ∧ ∀ ws, ColonFree ws.peerId →
      CloseEnds (exec cfg db es) ws (step cfg (exec cfg db es) (.close ws)) := by
  have hi := tableInv_exec cfg db hids
  exact ⟨peersConnected_of_tableInv hi, fun ws hws =>
    closeEnds_of_tableInv cfg hi ws (tableInv_step cfg hi hws)⟩

theorem negotiations_within_connections_relayProbeRun :
    PeersConnected (exec {} twoPeers relayProbeRun) ∧ ∀ ws, ColonFree ws.peerId →
      CloseEnds (exec {} twoPeers relayProbeRun) ws
        (step {} (exec {} twoPeers relayProbeRun) (.close ws)) :=
  negotiations_within_connections {} twoPeers relayProbeRun (by decide)

end Meshezia
