import Mathlib.Data.List.Nodup
import Mathlib.Data.List.Perm.Basic

/-!
# Distinct values, drawn and overridden

Two ways to come by a list of distinct values, over any type with decidable equality.

* `drawDistinct reserved n`: rejection sampling.  Draws that are reserved or kept already are
  passed over, and the first `n` of the others are kept.  What is kept is distinct and not
  reserved (`drawDistinct_spec`), and `n` such draws are all kept (`drawDistinct_of_fresh`).
* `overridden l`: a list of values, some of which are given, each with its default.  The given
  values and the defaults that stay are the whole list in another order, so with distinct
  defaults the list is distinct exactly when the given values are, and none of them is a
  default that stays (`nodup_overridden_iff`).
-/

namespace Meshezia

variable {α : Type}

/-! ## Drawing -/

/-- Distinct values outside `reserved`. -/
structure Fresh (reserved values : List α) : Prop where
  nodup : values.Nodup
  free : ∀ v ∈ values, v ∉ reserved

theorem Fresh.concat {reserved kept : List α} (h : Fresh reserved kept) {v : α}
    (hfree : v ∉ reserved) (hnew : v ∉ kept) : Fresh reserved (kept ++ [v]) := by
  constructor
  · exact List.nodup_append.mpr ⟨h.nodup, List.nodup_singleton v, by
      intro a ha b hb
      rw [List.mem_singleton.mp hb]
      rintro rfl
      exact hnew ha⟩
  · intro w hw
    rcases List.mem_append.mp hw with hw | hw
    · exact h.free w hw
    · rw [List.mem_singleton.mp hw]
      exact hfree

section
variable [DecidableEq α]

/-- Keep draws until there are `n`; `none` when the draws run out before. -/
def drawDistinct (reserved : List α) (n : Nat) : List α → List α → Option (List α)
  | kept, [] => if kept.length < n then none else some kept
  | kept, v :: rest =>
    if kept.length < n then
      if v ∉ reserved ∧ v ∉ kept then drawDistinct reserved n (kept ++ [v]) rest
      else drawDistinct reserved n kept rest
    else some kept

/-- What the loop keeps is as many distinct values as it was to keep, none of them reserved. -/
theorem drawDistinct_spec {reserved kept draws out : List α} {n : Nat} (h : Fresh reserved kept)
    (hlen : kept.length ≤ n) (hout : drawDistinct reserved n kept draws = some out) :
    Fresh reserved out ∧ out.length = n := by
  induction draws generalizing kept with
  | nil =>
    unfold drawDistinct at hout
    split at hout
    · cases hout
    · cases hout
      exact ⟨h, by omega⟩
  | cons v rest ih =>
    unfold drawDistinct at hout
    split at hout
    · rename_i hmore
      split at hout
      · rename_i hv
        refine ih (h.concat hv.1 hv.2) ?_ hout
        rw [List.length_append, List.length_singleton]
        omega
      · exact ih h hlen hout
    · cases hout
      exact ⟨h, by omega⟩

/-- Draws that are all fresh are all kept. -/
theorem drawDistinct_of_fresh {reserved kept draws : List α} {n : Nat}
    (h : Fresh reserved (kept ++ draws)) (hlen : kept.length + draws.length = n) :
    drawDistinct reserved n kept draws = some (kept ++ draws) := by
  induction draws generalizing kept with
  | nil =>
    rw [List.length_nil] at hlen
    rw [drawDistinct, if_neg (by omega), List.append_nil]
  | cons v rest ih =>
    rw [List.length_cons] at hlen
    have hassoc : kept ++ v :: rest = (kept ++ [v]) ++ rest := by simp
    have hfree : v ∉ reserved := h.free v (by simp)
    have hnew : v ∉ kept := fun hv =>
      (List.nodup_append.mp h.nodup).2.2 v hv v List.mem_cons_self rfl
    rw [drawDistinct, if_pos (by omega), if_pos ⟨hfree, hnew⟩, hassoc]
    rw [hassoc] at h
    exact ih h (by rw [List.length_append, List.length_singleton]; omega)

end

/-! ## Overriding -/

/-- The given values, and the defaults where none is given. -/
def overridden (l : List (Option α × α)) : List α := l.map fun e => e.1.getD e.2

def givenValues (l : List (Option α × α)) : List α := l.filterMap Prod.fst

/-- The defaults for which no value is given. -/
def keptDefaults (l : List (Option α × α)) : List α :=
  l.filterMap fun e => if e.1.isNone then some e.2 else none

theorem perm_overridden (l : List (Option α × α)) :
    (overridden l).Perm (givenValues l ++ keptDefaults l) := by
  induction l with
  | nil => exact List.Perm.refl []
  | cons e rest ih =>
    obtain ⟨given, default⟩ := e
    cases given with
    | some v => exact List.Perm.cons v ih
    | none => exact (List.Perm.cons default ih).trans List.perm_middle.symm

theorem keptDefaults_sublist (l : List (Option α × α)) :
    (keptDefaults l).Sublist (l.map Prod.snd) := by
  induction l with
  | nil => exact List.Sublist.refl []
  | cons e rest ih =>
    obtain ⟨given, default⟩ := e
    cases given with
    | some v => exact ih.trans (List.sublist_cons_self default _)
    | none => exact ih.cons_cons default

/-- With distinct defaults, what can go wrong is among the given values or between one of
them and a default that stays. -/
theorem nodup_overridden_iff {l : List (Option α × α)} (hdefaults : (l.map Prod.snd).Nodup) :
    (overridden l).Nodup ↔
      (givenValues l).Nodup ∧ ∀ v ∈ givenValues l, v ∉ keptDefaults l := by
  rw [(perm_overridden l).nodup_iff, List.nodup_append']
  have hkept : (keptDefaults l).Nodup := (keptDefaults_sublist l).nodup hdefaults
  constructor
  · rintro ⟨hgiven, -, hdisjoint⟩
    exact ⟨hgiven, fun v hv hk => hdisjoint hv hk⟩
  · rintro ⟨hgiven, hdisjoint⟩
    exact ⟨hgiven, hkept, fun v hv hk => hdisjoint v hv hk⟩

theorem mem_overridden {l : List (Option α × α)} {v : α} (h : v ∈ overridden l) :
    v ∈ givenValues l ∨ v ∈ l.map Prod.snd := by
  rcases List.mem_append.mp ((perm_overridden l).mem_iff.mp h) with h | h
  · exact Or.inl h
  · exact Or.inr ((keptDefaults_sublist l).subset h)

end Meshezia
