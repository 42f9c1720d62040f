import Mathlib.Data.List.Basic

/-!
# Histories, newest first

A history is a list whose head is the newest item, so the tail of a position is what
was earlier.

* `latest f l`: what `f` reads in the newest item it reads anything in, with what is
  earlier than it.
* `each P l`: `P` holds of every item and what is earlier than it.
* `countSince reset P l`: how many items satisfy `P` since the newest reset.

Each has a lemma for new items that do not matter to it (`latest_append`, `each_append`,
`countSince_append`).
-/

namespace Meshezia

variable {α β : Type}

def latest (f : α → Option β) : List α → Option (β × List α)
  | [] => none
  | it :: earlier =>
    match f it with
    | some b => some (b, earlier)
    | none => latest f earlier

def each (P : α → List α → Bool) : List α → Bool
  | [] => true
  | it :: earlier => P it earlier && each P earlier

def countSince (reset P : α → List α → Bool) : List α → Nat
  | [] => 0
  | it :: earlier =>
    if reset it earlier then 0
    else countSince reset P earlier + if P it earlier then 1 else 0

theorem latest_cons_some {f : α → Option β} {it : α} {b : β} (h : f it = some b) (l : List α) :
    latest f (it :: l) = some (b, l) := by
  simp [latest, h]

theorem latest_cons_none {f : α → Option β} {it : α} (h : f it = none) (l : List α) :
    latest f (it :: l) = latest f l := by
  simp [latest, h]

theorem latest_append {f : α → Option β} {items : List α} (h : ∀ it ∈ items, f it = none)
    (l : List α) : latest f (items ++ l) = latest f l := by
  induction items with
  | nil => rfl
  | cons it rest ih =>
    rw [List.cons_append, latest_cons_none (h it (by simp)),
      ih fun it' hit => h it' (List.mem_cons_of_mem _ hit)]

/-- `each` by positions. -/
theorem each_iff {P : α → List α → Bool} {l : List α} :
    each P l = true ↔ ∀ later it earlier, l = later ++ it :: earlier → P it earlier = true := by
  induction l with
  | nil => simp [each]
  | cons x rest ih =>
    simp only [each, Bool.and_eq_true, ih]
    constructor
    · rintro ⟨hx, hrest⟩ later it earlier h
      cases later with
      | nil =>
        simp only [List.nil_append, List.cons.injEq] at h
        rw [← h.1, ← h.2]; exact hx
      | cons y later =>
        simp only [List.cons_append, List.cons.injEq] at h
        exact hrest later it earlier h.2
    · intro h
      exact ⟨h [] x rest rfl, fun later it earlier he => h (x :: later) it earlier (by simp [he])⟩

/-- New items that satisfy `P` whatever is earlier. -/
theorem each_append {P : α → List α → Bool} {items : List α}
    (h : ∀ it ∈ items, ∀ earlier, P it earlier = true) {l : List α} (hl : each P l = true) :
    each P (items ++ l) = true := by
  induction items with
  | nil => exact hl
  | cons it rest ih =>
    rw [List.cons_append, each, h it (by simp),
      ih fun it' hit => h it' (List.mem_cons_of_mem _ hit)]
    rfl

/-- New items that are neither counted nor resets. -/
theorem countSince_append {reset P : α → List α → Bool} {k : List α}
    (h : ∀ it ∈ k, ∀ earlier, reset it earlier = false ∧ P it earlier = false) (l : List α) :
    countSince reset P (k ++ l) = countSince reset P l := by
  induction k with
  | nil => rfl
  | cons it rest ih =>
    obtain ⟨h1, h2⟩ := h it (by simp) (rest ++ l)
    rw [List.cons_append, countSince, h1, h2,
      ih fun it' hit => h it' (List.mem_cons_of_mem _ hit)]
    rfl

end Meshezia
