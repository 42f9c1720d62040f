import Mathlib.Data.List.Induction

/-!
# Fixed windows

A counter that admits `M` hits a window.  A window opens with the first hit after the one
before has ended and is `W` long, both ends included; hits that are not admitted count too.
Times do not decrease.

    Times ts → at most 2 * M hits of ts are admitted in [a, a + W]          (admitted_le)
    Times (ts ++ [t]) → t is not admitted → M hits have been admitted in the window of t
                                                                       (admitted_of_refused)

`2 * M` is what two windows admit: of three, the middle one and two gaps lie between the
first and the last.
-/

namespace Meshezia

structure Window where
  count : Nat
  resetAt : Int
deriving DecidableEq, Repr

namespace Window

/-- The window of a hit at `t`, after it. -/
def hit (W : Int) (w : Option Window) (t : Int) : Window :=
  match w with
  | none => ⟨1, t + W⟩
  | some w => if t > w.resetAt then ⟨1, t + W⟩ else ⟨w.count + 1, w.resetAt⟩

/-- The window after some hits. -/
def hits (W : Int) (w : Option Window) (ts : List Int) : Option Window :=
  ts.foldl (fun w t => some (hit W w t)) w

/-- Those that were admitted. -/
def admitted (W : Int) (M : Nat) : Option Window → List Int → List Int
  | _, [] => []
  | w, t :: ts =>
    (if (hit W w t).count ≤ M then [t] else []) ++ admitted W M (some (hit W w t)) ts

/-- Times that do not decrease. -/
abbrev Times (ts : List Int) : Prop := ts.Pairwise (· ≤ ·)

variable {W : Int} {M : Nat} {w : Option Window} {ts : List Int} {t : Int}

theorem hits_concat : hits W w (ts ++ [t]) = some (hit W (hits W w ts) t) := by
  simp [hits, List.foldl_append]

theorem admitted_concat : admitted W M w (ts ++ [t]) =
    admitted W M w ts ++ if (hit W (hits W w ts) t).count ≤ M then [t] else [] := by
  induction ts generalizing w with
  | nil => exact List.append_nil _
  | cons t' ts ih =>
    rw [List.cons_append, admitted, ih, admitted, List.append_assoc]
    rfl

theorem admitted_sublist : (admitted W M w ts).Sublist ts := by
  induction ts generalizing w with
  | nil => exact List.nil_sublist _
  | cons t ts ih =>
    rw [admitted]
    split
    · exact ih.cons_cons t
    · exact ih.cons t

/-! ## Any interval -/

/-- The hits in `[a, a + W]`. -/
def within (W a : Int) (ts : List Int) : List Int :=
  ts.filter fun t => decide (a ≤ t ∧ t ≤ a + W)

theorem within_eq_nil {a : Int} (h : ∀ t ∈ ts, a + W < t) : within W a ts = [] := by
  rw [within, List.filter_eq_nil_iff]
  intro t ht
  have := h t ht
  simp only [decide_eq_true_eq]
  omega

/-- How many hits in `[a, a + W]` can still be admitted: those left in the window, and those
of the next one if it can open in the interval. -/
def room (W : Int) (M : Nat) (a : Int) : Option Window → Nat
  | none => 2 * M
  | some w =>
    if a + W ≤ w.resetAt then M - w.count
    else if a ≤ w.resetAt then (M - w.count) + M
    else 2 * M

theorem room_le (a : Int) : room W M a w ≤ 2 * M := by
  cases w with
  | none => exact Nat.le_refl _
  | some w =>
    rw [room]
    split
    · omega
    · split <;> omega

/-- A hit in the interval takes one of them, and none comes back. -/
theorem room_hit {a : Int} (ht : t ≤ a + W) :
    (within W a (if (hit W w t).count ≤ M then [t] else [])).length +
      room W M a (some (hit W w t)) ≤ room W M a w := by
  -- a window that opens at `t` reaches to the end of the interval if `t` is in it
  have hopen : (within W a (if 1 ≤ M then [t] else [])).length +
      room W M a (some ⟨1, t + W⟩) ≤ if a ≤ t then M else 2 * M := by
    by_cases hat : a ≤ t
    · have hend : a + W ≤ t + W := by omega
      by_cases hM : 1 ≤ M
      · simp only [within, room, hM, hat, ht, hend, if_true, and_self, decide_true,
          List.filter_cons_of_pos, List.filter_nil, List.length_cons, List.length_nil]
        omega
      · simp only [within, room, hM, hat, hend, if_true, if_false, List.filter_nil,
          List.length_nil]
        omega
    · have hnone : within W a (if 1 ≤ M then [t] else []) = [] := by
        split <;> simp [within, hat]
      rw [hnone, if_neg hat, List.length_nil, Nat.zero_add]
      exact room_le a
  cases w with
  | none =>
    refine Nat.le_trans hopen ?_
    rw [room]
    split <;> omega
  | some w =>
    by_cases hold : t > w.resetAt
    · have hroom : room W M a (some w) =
          if a ≤ w.resetAt then (M - w.count) + M else 2 * M := by
        rw [room, if_neg (by omega)]
      rw [hit, if_pos hold, hroom]
      refine Nat.le_trans hopen ?_
      split <;> split <;> omega
    · rw [hit, if_neg hold]
      by_cases hat : a ≤ t
      · have hcount : (within W a (if w.count + 1 ≤ M then [t] else [])).length +
            (M - (w.count + 1)) ≤ M - w.count := by
          by_cases hM : w.count + 1 ≤ M
          · simp only [within, hM, hat, ht, if_true, and_self, decide_true,
              List.filter_cons_of_pos, List.filter_nil, List.length_cons, List.length_nil]
            omega
          · simp only [within, hM, if_false, List.filter_nil, List.length_nil]
            omega
        have hin : a ≤ w.resetAt := by omega
        by_cases hend : a + W ≤ w.resetAt
        · simp only [room, hend, if_true]
          exact hcount
        · simp only [room, hend, hin, if_true, if_false]
          omega
      · have hnone : within W a (if w.count + 1 ≤ M then [t] else []) = [] := by
          split <;> simp [within, hat]
        rw [hnone, List.length_nil, Nat.zero_add]
        by_cases hend : a + W ≤ w.resetAt
        · simp only [room, hend, if_true]
          omega
        · by_cases hin : a ≤ w.resetAt
          · simp only [room, hend, hin, if_true, if_false]
            omega
          · simp only [room, hend, hin, if_false]
            exact Nat.le_refl _

theorem admitted_le_room (a : Int) (hts : Times ts) :
    (within W a (admitted W M w ts)).length ≤ room W M a w := by
  induction ts generalizing w with
  | nil => exact Nat.zero_le _
  | cons t ts ih =>
    rw [Times, List.pairwise_cons] at hts
    by_cases ht : t ≤ a + W
    · have hhit := room_hit (M := M) (w := w) ht
      have hrest := ih (w := some (hit W w t)) hts.2
      rw [admitted, within, List.filter_append, List.length_append]
      exact Nat.le_trans (Nat.add_le_add_left hrest _) hhit
    · -- the interval is over
      rw [within_eq_nil fun t' ht' => ?_]
      · exact Nat.zero_le _
      · have hmem := (admitted_sublist (M := M) (w := w)).mem ht'
        rcases List.mem_cons.mp hmem with rfl | hmem
        · omega
        · have := hts.1 t' hmem
          omega

/-- **Any interval** as long as a window has at most `2 * M` hits that are admitted. -/
theorem admitted_le (a : Int) (hts : Times ts) :
    (within W a (admitted W M w ts)).length ≤ 2 * M :=
  Nat.le_trans (admitted_le_room a hts) (room_le a)

/-! ## Refusals -/

/-- What a window says about the hits so far. -/
structure Counts (W : Int) (M : Nat) (ts : List Int) (w : Window) : Prop where
  pos : 1 ≤ w.count
  opened : ∃ t ∈ ts, w.resetAt - W ≤ t
  ended : ∀ t ∈ ts, t ≤ w.resetAt
  count : ((admitted W M none ts).filter fun t => decide (w.resetAt - W ≤ t)).length = min w.count M

theorem counts_hits (hW : 0 ≤ W) (hts : Times ts) :
    ∀ w, hits W none ts = some w → Counts W M ts w := by
  induction ts using List.reverseRecOn with
  | nil =>
    intro w h
    cases h
  | append_singleton ts t ih =>
    rw [Times, List.pairwise_append] at hts
    obtain ⟨hts, -, hle⟩ := hts
    have hlast : ∀ t' ∈ ts, t' ≤ t := fun t' ht' => hle t' ht' t (by simp)
    intro w h
    rw [hits_concat, Option.some.injEq] at h
    -- a window that opens at `t` has `t` only
    have hopen : (∀ t' ∈ ts, t' < t) → hit W (hits W none ts) t = ⟨1, t + W⟩ →
        Counts W M (ts ++ [t]) ⟨1, t + W⟩ := by
      intro hbefore hhit
      refine ⟨Nat.le_refl _, ⟨t, by simp, by simp⟩, fun t' ht' => ?_, ?_⟩
      · rcases List.mem_append.mp ht' with hmem | hmem
        · have := hlast t' hmem
          show t' ≤ t + W
          omega
        · rw [List.mem_singleton.mp hmem]
          show t ≤ t + W
          omega
      · have hnil : (admitted W M none ts).filter (fun t' => decide (t + W - W ≤ t')) = [] := by
          rw [List.filter_eq_nil_iff]
          intro t' ht'
          have := hbefore t' (admitted_sublist.mem ht')
          simp only [decide_eq_true_eq]
          omega
        rw [admitted_concat, hhit, List.filter_append, hnil]
        by_cases hM : 1 ≤ M
        · simp [hM]
        · have hzero : M = 0 := by omega
          simp [hzero]
    cases hprev : hits W none ts with
    | none =>
      have hnil : ts = [] := by
        cases ts using List.reverseRecOn with
        | nil => rfl
        | append_singleton _ _ => simp [hits_concat] at hprev
      subst hnil
      rw [hprev] at h hopen
      subst h
      exact hopen (by simp) rfl
    | some prev =>
      obtain ⟨hpos, ⟨t0, ht0, hopened⟩, hended, hcount⟩ := ih hts prev hprev
      rw [hprev] at h hopen
      by_cases hold : t > prev.resetAt
      · have hhit : hit W (some prev) t = ⟨1, t + W⟩ := by rw [hit, if_pos hold]
        rw [hhit] at h
        subst h
        exact hopen (fun t' ht' => by have := hended t' ht'; omega) hhit
      · have hhit : hit W (some prev) t = ⟨prev.count + 1, prev.resetAt⟩ := by
          rw [hit, if_neg hold]
        have hin : prev.resetAt - W ≤ t := Int.le_trans hopened (hlast t0 ht0)
        rw [hhit] at h
        subst h
        refine ⟨Nat.le_add_left 1 _, ⟨t, by simp, hin⟩, fun t' ht' => ?_, ?_⟩
        · rcases List.mem_append.mp ht' with hmem | hmem
          · exact hended t' hmem
          · rw [List.mem_singleton.mp hmem]
            show t ≤ prev.resetAt
            omega
        · rw [admitted_concat, hprev, hhit, List.filter_append, List.length_append, hcount]
          show _ + (List.filter _ (if prev.count + 1 ≤ M then [t] else [])).length =
            min (prev.count + 1) M
          by_cases hM : prev.count + 1 ≤ M
          · rw [if_pos hM, List.filter_cons_of_pos (by simpa using hin)]
            simp only [List.filter_nil, List.length_cons, List.length_nil]
            omega
          · rw [if_neg hM]
            simp only [List.filter_nil, List.length_nil]
            omega

/-- **Refusals.**  A hit is refused in a window that is open and has admitted `M` hits. -/
theorem admitted_of_refused (hW : 0 ≤ W) (hM : 0 < M) (hts : Times (ts ++ [t]))
    (h : M < (hit W (hits W none ts) t).count) :
    ∃ w, hits W none ts = some w ∧ w.resetAt - W ≤ t ∧ t ≤ w.resetAt ∧
      ((admitted W M none ts).filter fun t' => decide (w.resetAt - W ≤ t')).length = M := by
  rw [Times, List.pairwise_append] at hts
  obtain ⟨hts, -, hle⟩ := hts
  cases hw : hits W none ts with
  | none =>
    rw [hw] at h
    have h : M < 1 := h
    omega
  | some w =>
    obtain ⟨hpos, ⟨t0, ht0, hopened⟩, hended, hcount⟩ := counts_hits hW hts w hw
    rw [hw, hit] at h
    by_cases hold : t > w.resetAt
    · rw [if_pos hold] at h
      have h : M < 1 := h
      omega
    · rw [if_neg hold] at h
      have h : M < w.count + 1 := h
      refine ⟨w, rfl, Int.le_trans hopened (hle t0 ht0 t (by simp)), by omega, ?_⟩
      rw [hcount]
      omega

end Window

end Meshezia
