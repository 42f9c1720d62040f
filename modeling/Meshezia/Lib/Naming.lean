import Mathlib.Logic.Function.Basic

/-!
# Names given out by a counter

Two steps take their names from one counter, the first `d` of them and the second `d'`,
from `n` on.  In the other order the names of each are shifted (`shiftFrom`), and the
two blocks change places (`swapBlocks`).
-/

namespace Meshezia

/-- The names from `n` on, when `d` others are given out first. -/
def shiftFrom (n d i : Nat) : Nat := if i < n then i else i + d

/-- The `d` names from `n` on change places with the `d'` names after them. -/
def swapBlocks (n d d' i : Nat) : Nat :=
  if i < n then i else if i < n + d then i + d' else if i < n + d + d' then i - d else i

variable {n d d' i : Nat}

theorem shiftFrom_of_lt (h : i < n) : shiftFrom n d i = i := if_pos h

theorem shiftFrom_of_ge (h : n ≤ i) : shiftFrom n d i = i + d := if_neg (Nat.not_lt.mpr h)

/-- The names given out before stay. -/
theorem shiftFrom_eq_id (n d : Nat) : ∀ i < n, shiftFrom n d i = id i := fun _ h => if_pos h

theorem shiftFrom_injective (n d : Nat) : Function.Injective (shiftFrom n d) := by
  intro i j h
  unfold shiftFrom at h
  split at h <;> split at h <;> omega

theorem swapBlocks_of_lt (h : i < n) : swapBlocks n d d' i = i := if_pos h

/-- On the first block the swap is the shift by the second. -/
theorem swapBlocks_of_lt_add (h : i < n + d) : swapBlocks n d d' i = shiftFrom n d' i := by
  by_cases hn : i < n
  · rw [swapBlocks_of_lt hn, shiftFrom_of_lt hn]
  · simp only [swapBlocks, shiftFrom, hn, h, if_true, if_false]

/-- On the second block it undoes the shift by the first. -/
theorem swapBlocks_shiftFrom (h : i < n + d') : swapBlocks n d d' (shiftFrom n d i) = i := by
  by_cases hn : i < n
  · rw [shiftFrom_of_lt hn, swapBlocks_of_lt hn]
  · have h1 : ¬ i + d < n := by omega
    have h2 : ¬ i + d < n + d := by omega
    have h3 : i + d < n + d + d' := by omega
    simp only [swapBlocks, shiftFrom, hn, h1, h2, h3, if_true, if_false]
    omega

theorem swapBlocks_swapBlocks (n d d' i : Nat) :
    swapBlocks n d' d (swapBlocks n d d' i) = i := by
  unfold swapBlocks
  by_cases h1 : i < n
  · simp [h1]
  · by_cases h2 : i < n + d
    · have h3 : ¬ i + d' < n := by omega
      have h4 : ¬ i + d' < n + d' := by omega
      have h5 : i + d' < n + d' + d := by omega
      simp only [h1, h2, h3, h4, h5, if_true, if_false]
      omega
    · by_cases h3 : i < n + d + d'
      · have h4 : ¬ i - d < n := by omega
        have h5 : i - d < n + d' := by omega
        simp only [h1, h2, h3, h4, h5, if_true, if_false]
        omega
      · have h4 : ¬ i < n + d' := by omega
        have h5 : ¬ i < n + d' + d := by omega
        simp only [h1, h2, h3, h4, h5, if_false]

theorem swapBlocks_bijective (n d d' : Nat) : Function.Bijective (swapBlocks n d d') :=
  Function.bijective_iff_has_inverse.mpr
    ⟨swapBlocks n d' d, swapBlocks_swapBlocks n d d', swapBlocks_swapBlocks n d' d⟩

end Meshezia
