import Meshezia.Lib.JsString
import Meshezia.Server.Db

/-!
# Pair keys (`pairKey`, `parsePairKey` of `negotiate.ts`)

The key of a pair joins its two ids, the smaller first, with `':'`.  On colon-free
ids it does not depend on the order of the pair (`pairKey_comm`), determines the pair
(`pairKey_inj`) and is split again without loss (`parsePairKey_pairKey`).  A key made
with any string is the key of a colon-free pair only when that string is colon-free
(`colonFree_of_pairKey_eq`): an agent cannot reach another pair by a crafted id.
-/

namespace Meshezia

abbrev PairKey := JsString

/-- The character `':'`. -/
def colon : UInt16 := 58

def pairKey (a b : PeerId) : PairKey :=
  if jsLt a b then joinAt colon a b else joinAt colon b a

def parsePairKey (key : PairKey) : PeerId × PeerId := splitAt2 colon key

/-- Peer ids are UUIDs; what matters of them is that they contain no `':'`. -/
def ColonFree (id : PeerId) : Prop := colon ∉ id

instance (id : PeerId) : Decidable (ColonFree id) := by unfold ColonFree; infer_instance

/-! ## Lemmas -/

variable {a b c d : PeerId}

theorem pairKey_comm (a b : PeerId) : pairKey a b = pairKey b a := by
  unfold pairKey
  cases hab : jsLt a b with
  | true => simp [jsLt_asymm hab]
  | false =>
    cases hba : jsLt b a with
    | true => simp
    | false => rw [jsLt_total hab hba]

theorem parsePairKey_of_lt (ha : ColonFree a) (hb : ColonFree b) (h : jsLt a b = true) :
    parsePairKey (pairKey a b) = (a, b) := by
  unfold parsePairKey pairKey
  rw [if_pos h]
  exact splitAt2_joinAt colon ha hb

theorem parsePairKey_self (ha : ColonFree a) : parsePairKey (pairKey a a) = (a, a) := by
  unfold parsePairKey pairKey
  rw [if_neg (by simp)]
  exact splitAt2_joinAt colon ha ha

/-- The two parts of a pair's key are the pair, in one order or the other. -/
theorem parsePairKey_pairKey (ha : ColonFree a) (hb : ColonFree b) :
    parsePairKey (pairKey a b) = (a, b) ∨ parsePairKey (pairKey a b) = (b, a) := by
  cases hab : jsLt a b with
  | true => exact Or.inl (parsePairKey_of_lt ha hb hab)
  | false =>
    right
    unfold parsePairKey pairKey
    rw [hab]
    exact splitAt2_joinAt colon hb ha

/-- Joining the parts of a pair's key gives the key back. -/
theorem pairKey_parsePairKey (ha : ColonFree a) (hb : ColonFree b) :
    pairKey (parsePairKey (pairKey a b)).1 (parsePairKey (pairKey a b)).2 = pairKey a b := by
  rcases parsePairKey_pairKey ha hb with h | h
  · rw [h]
  · rw [h, pairKey_comm]

theorem colonFree_parsePairKey (ha : ColonFree a) (hb : ColonFree b) :
    ColonFree (parsePairKey (pairKey a b)).1 ∧ ColonFree (parsePairKey (pairKey a b)).2 := by
  rcases parsePairKey_pairKey ha hb with h | h <;> rw [h]
  · exact ⟨ha, hb⟩
  · exact ⟨hb, ha⟩

theorem pairKey_inj (ha : ColonFree a) (hb : ColonFree b) (hc : ColonFree c) (hd : ColonFree d)
    (h : pairKey a b = pairKey c d) : (a = c ∧ b = d) ∨ (a = d ∧ b = c) := by
  have h1 := parsePairKey_pairKey ha hb
  have h2 := parsePairKey_pairKey hc hd
  rw [h] at h1
  rcases h1 with h1 | h1 <;> rcases h2 with h2 | h2 <;> rw [h1] at h2 <;>
    simp only [Prod.mk.injEq] at h2
  · exact Or.inl h2
  · exact Or.inr h2
  · exact Or.inr ⟨h2.2, h2.1⟩
  · exact Or.inl ⟨h2.2, h2.1⟩

theorem count_colon_pairKey (a b : PeerId) :
    (pairKey a b).count colon = a.count colon + b.count colon + 1 := by
  unfold pairKey
  split <;> rw [count_joinAt]
  omega

/-- The key of a colon-free pair is made of colon-free parts only. -/
theorem colonFree_of_pairKey_eq (ha : ColonFree a) (hb : ColonFree b)
    (h : pairKey c d = pairKey a b) : ColonFree c ∧ ColonFree d := by
  have hcount := congrArg (List.count colon) h
  rw [count_colon_pairKey, count_colon_pairKey, List.count_eq_zero.mpr ha,
    List.count_eq_zero.mpr hb] at hcount
  exact ⟨List.count_eq_zero.mp (by omega), List.count_eq_zero.mp (by omega)⟩

end Meshezia
