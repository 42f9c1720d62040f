import Mathlib.Data.List.Sort
import Meshezia.Lib.JsString

/-!
# Rows in an order

A query with `ORDER BY` sorts its rows by a key.  Rows with different keys have one order by
these keys (`StrictOrder.pairwise_sortBy`), so the same rows are sorted to the same list
(`StrictOrder.sortBy_eq`).  A query without `ORDER BY` returns them in an order of the
database's own (`RowOrder`): some order, and the same for the same rows.
-/

namespace Meshezia

/-! ## Strict orders of keys -/

structure StrictOrder {κ : Type} (lt : κ → κ → Bool) : Prop where
  asymm : ∀ {a b}, lt a b = true → lt b a = false
  total : ∀ {a b}, lt a b = false → lt b a = false → a = b
  trans : ∀ {a b c}, lt a b = true → lt b c = true → lt a c = true

theorem jsLt_trans {a b c : JsString} (h : jsLt a b = true) (h' : jsLt b c = true) :
    jsLt a c = true := by
  induction a generalizing b c with
  | nil =>
    cases c with
    | nil => cases b <;> simp [jsLt] at h'
    | cons z zs => rfl
  | cons x xs ih =>
    cases b with
    | nil => simp [jsLt] at h
    | cons y ys =>
      cases c with
      | nil => simp [jsLt] at h'
      | cons z zs =>
        simp only [jsLt] at h h' ⊢
        by_cases hxy : x < y
        · by_cases hyz : y < z
          · rw [if_pos (UInt16.lt_trans hxy hyz)]
          · rw [if_neg hyz] at h'
            split at h'
            · cases h'
            · rename_i hzy
              have hyz' : y = z := UInt16.le_antisymm (UInt16.not_lt.mp hzy) (UInt16.not_lt.mp hyz)
              rw [if_pos (hyz' ▸ hxy)]
        · rw [if_neg hxy] at h
          split at h
          · cases h
          · rename_i hyx
            obtain rfl : x = y := UInt16.le_antisymm (UInt16.not_lt.mp hyx) (UInt16.not_lt.mp hxy)
            by_cases hxz : x < z
            · rw [if_pos hxz]
            · rw [if_neg hxz] at h' ⊢
              split at h'
              · cases h'
              · rename_i hzx
                rw [if_neg hzx]
                exact ih h h'

theorem strictOrder_jsLt : StrictOrder jsLt := ⟨jsLt_asymm, jsLt_total, jsLt_trans⟩

/-- Pairs by their first parts, then by their second ones. -/
def pairLt {κ : Type} (lt : κ → κ → Bool) (a b : κ × κ) : Bool :=
  lt a.1 b.1 || (!lt b.1 a.1 && lt a.2 b.2)

section
variable {α κ : Type} {lt : κ → κ → Bool} {key : α → κ} {l l' : List α}

theorem StrictOrder.irrefl (h : StrictOrder lt) (a : κ) : lt a a = false := by
  cases hlt : lt a a with
  | false => rfl
  | true => exact hlt.symm.trans (h.asymm hlt)

theorem StrictOrder.pair (h : StrictOrder lt) : StrictOrder (pairLt lt) := by
  -- equal first parts leave it to the second ones
  have hfirst : ∀ {a b : κ × κ}, pairLt lt a b = true ↔
      lt a.1 b.1 = true ∨ (a.1 = b.1 ∧ lt a.2 b.2 = true) := by
    intro a b
    simp only [pairLt, Bool.or_eq_true, Bool.and_eq_true, Bool.not_eq_true']
    constructor
    · rintro (h1 | ⟨h1, h2⟩)
      · exact Or.inl h1
      · cases hab : lt a.1 b.1 with
        | true => exact Or.inl rfl
        | false => exact Or.inr ⟨h.total hab h1, h2⟩
    · rintro (h1 | ⟨h1, h2⟩)
      · exact Or.inl h1
      · exact Or.inr ⟨by rw [h1]; exact h.irrefl _, h2⟩
  constructor
  case asymm =>
    intro a b hab
    rw [← Bool.not_eq_true, hfirst]
    rintro (h2 | ⟨h2, h2'⟩) <;> rcases hfirst.mp hab with h1 | ⟨h1, h1'⟩
    · rw [h.asymm h1] at h2; cases h2
    · rw [h1, h.irrefl] at h2; cases h2
    · rw [h2, h.irrefl] at h1; cases h1
    · rw [h.asymm h1'] at h2'; cases h2'
  case total =>
    intro a b hab hba
    rw [← Bool.not_eq_true, hfirst, not_or, not_and, Bool.not_eq_true, Bool.not_eq_true] at hab hba
    have h1 : a.1 = b.1 := h.total hab.1 hba.1
    exact Prod.ext h1 (h.total (hab.2 h1) (hba.2 h1.symm))
  case trans =>
    intro a b c hab hbc
    rw [hfirst] at hab hbc ⊢
    rcases hab with h1 | ⟨h1, h1'⟩ <;> rcases hbc with h2 | ⟨h2, h2'⟩
    · exact Or.inl (h.trans h1 h2)
    · exact Or.inl (h2 ▸ h1)
    · exact Or.inl (h1 ▸ h2)
    · exact Or.inr ⟨h1.trans h2, h.trans h1' h2'⟩

/-! ## Sorting by a key -/

def sortBy (key : α → κ) (lt : κ → κ → Bool) (l : List α) : List α :=
  l.insertionSort fun a b => lt (key a) (key b) = true

theorem perm_sortBy (key : α → κ) (lt : κ → κ → Bool) (l : List α) : (sortBy key lt l).Perm l :=
  List.perm_insertionSort _ l

/-- Rows with different keys end up in the order of their keys. -/
theorem StrictOrder.pairwise_sortBy (h : StrictOrder lt) (hkeys : (l.map key).Nodup) :
    (sortBy key lt l).Pairwise fun a b => lt (key a) (key b) = true := by
  have hinsert : ∀ (a : α) (s : List α), (∀ b ∈ s, key a ≠ key b) →
      s.Pairwise (fun a b => lt (key a) (key b) = true) →
      (s.orderedInsert (fun a b => lt (key a) (key b) = true) a).Pairwise
        fun a b => lt (key a) (key b) = true := by
    intro a s hne hs
    induction s with
    | nil => exact List.pairwise_singleton _ a
    | cons b rest ih =>
      obtain ⟨hb, hrest⟩ := List.pairwise_cons.mp hs
      rw [List.orderedInsert_cons]
      split
      · rename_i hab
        refine List.pairwise_cons.mpr ⟨fun c hc => ?_, hs⟩
        rcases List.mem_cons.mp hc with rfl | hc
        · exact hab
        · exact h.trans hab (hb c hc)
      · rename_i hab
        -- the keys are different, so the other one is smaller
        have hba : lt (key b) (key a) = true := by
          by_contra hba
          exact hne b (by simp) (h.total (by simpa using hab) (by simpa using hba))
        refine List.pairwise_cons.mpr ⟨fun c hc => ?_, ih (fun c hc => hne c (by simp [hc])) hrest⟩
        rcases List.mem_orderedInsert _ |>.mp hc with rfl | hc
        · exact hba
        · exact hb c hc
  induction l with
  | nil => exact List.Pairwise.nil
  | cons a rest ih =>
    rw [List.map_cons, List.nodup_cons] at hkeys
    refine hinsert a (sortBy key lt rest) (fun b hb he => hkeys.1 ?_) (ih hkeys.2)
    rw [he]
    exact List.mem_map_of_mem ((perm_sortBy key lt rest).mem_iff.mp hb)

/-- The same rows are sorted to the same list. -/
theorem StrictOrder.sortBy_eq (h : StrictOrder lt) (hkeys : (l.map key).Nodup) (hperm : l.Perm l') :
    sortBy key lt l = sortBy key lt l' := by
  have hkeys' : (l'.map key).Nodup := (hperm.map key).nodup_iff.mp hkeys
  refine List.Perm.eq_of_pairwise (fun a b _ _ hab hba => ?_) (h.pairwise_sortBy hkeys)
    (h.pairwise_sortBy hkeys') ((perm_sortBy ..).trans (hperm.trans (perm_sortBy ..).symm))
  rw [h.asymm hab] at hba
  cases hba

end

/-! ## An order of the database's own -/

/-- The order in which a query without `ORDER BY` returns its rows: the same for the same rows. -/
structure RowOrder {α κ : Type} (key : α → κ) where
  order : List α → List α
  perm : ∀ rows, (order rows).Perm rows
  rows : ∀ {rows rows'}, (rows.map key).Nodup → rows.Perm rows' → order rows = order rows'

/-- The order of the keys. -/
def RowOrder.byKey {α κ : Type} (key : α → κ) {lt : κ → κ → Bool} (h : StrictOrder lt) :
    RowOrder key where
  order := sortBy key lt
  perm := perm_sortBy key lt
  rows := h.sortBy_eq

end Meshezia
