import Mathlib.Data.List.Nodup
import Mathlib.Data.List.Basic

/-!
# Insertion-ordered maps

`OMap κ α` is a finite map that remembers the order in which its keys were first
set: the JavaScript `Map`, and a database table with its primary key.  The keys of
an `OMap` are distinct by construction (`nodup`), so a lookup and a membership in
`entries` say the same (`mem_entries`).

`set` replaces in place or appends, `delete` removes one key, `mapVals` rewrites
every value (`mapTo`, to another type) and `filter` keeps the entries that pass a test;
each has one lemma that says what `get?` reads afterwards.
-/

namespace Meshezia

/-- A finite map with its keys in insertion order. -/
structure OMap (κ α : Type) where
  entries : List (κ × α)
  nodup : (entries.map Prod.fst).Nodup

namespace OMap

variable {κ α : Type} [DecidableEq κ]

/-! ## Lists of entries -/

/-- The value of the first entry for `k`. -/
def assoc : List (κ × α) → κ → Option α
  | [], _ => none
  | (k', v) :: rest, k => if k' = k then some v else assoc rest k

/-- Replace the value of `k` where it stands, or append an entry for it. -/
def assocSet : List (κ × α) → κ → α → List (κ × α)
  | [], k, v => [(k, v)]
  | (k', v') :: rest, k, v =>
    if k' = k then (k, v) :: rest else (k', v') :: assocSet rest k v

theorem assoc_assocSet (l : List (κ × α)) (k : κ) (v : α) (q : κ) :
    assoc (assocSet l k v) q = if k = q then some v else assoc l q := by
  induction l with
  | nil => simp [assocSet, assoc]
  | cons e rest ih =>
    obtain ⟨k', v'⟩ := e
    simp only [assocSet]
    by_cases hk : k' = k
    · subst hk
      by_cases hq : k' = q <;> simp [assoc, hq]
    · rw [if_neg hk]
      by_cases hq : k' = q
      · have hkq : k ≠ q := fun e => hk (hq.trans e.symm)
        simp [assoc, hq, hkq]
      · simp [assoc, hq, ih]

theorem keys_assocSet (l : List (κ × α)) (k : κ) (v : α) :
    (assocSet l k v).map Prod.fst =
      if k ∈ l.map Prod.fst then l.map Prod.fst else l.map Prod.fst ++ [k] := by
  induction l with
  | nil => simp [assocSet]
  | cons e rest ih =>
    obtain ⟨k', v'⟩ := e
    simp only [assocSet]
    by_cases hk : k' = k
    · simp [hk]
    · have hk' : k ≠ k' := fun e => hk e.symm
      simp only [if_neg hk, List.map_cons, ih, List.mem_cons, hk', false_or]
      split <;> simp

theorem assoc_eq_none_iff (l : List (κ × α)) (k : κ) :
    assoc l k = none ↔ k ∉ l.map Prod.fst := by
  induction l with
  | nil => simp [assoc]
  | cons e rest ih =>
    obtain ⟨k', v'⟩ := e
    simp only [assoc, List.map_cons, List.mem_cons, not_or]
    by_cases hk : k' = k
    · simp [hk]
    · rw [if_neg hk, ih]
      exact ⟨fun h => ⟨fun e => hk e.symm, h⟩, fun h => h.2⟩

theorem mem_iff_assoc (l : List (κ × α)) (hl : (l.map Prod.fst).Nodup) (k : κ) (v : α) :
    (k, v) ∈ l ↔ assoc l k = some v := by
  induction l with
  | nil => simp [assoc]
  | cons e rest ih =>
    obtain ⟨k', v'⟩ := e
    simp only [List.map_cons, List.nodup_cons] at hl
    simp only [List.mem_cons, Prod.mk.injEq, assoc]
    by_cases hk : k' = k
    · subst hk
      have hnot : (k', v) ∉ rest := fun h => hl.1 (List.mem_map.mpr ⟨_, h, rfl⟩)
      simp [hnot, eq_comm]
    · have hk' : k ≠ k' := fun e => hk e.symm
      simp [hk, hk', ih hl.2]

theorem assoc_filter (l : List (κ × α)) (hl : (l.map Prod.fst).Nodup) (p : κ → α → Bool) (k : κ) :
    assoc (l.filter fun e => p e.1 e.2) k = (assoc l k).filter (p k) := by
  induction l with
  | nil => simp [assoc]
  | cons e rest ih =>
    obtain ⟨k', v'⟩ := e
    simp only [List.map_cons, List.nodup_cons] at hl
    simp only [List.filter_cons, assoc]
    by_cases hk : k' = k
    · subst hk
      by_cases hp : p k' v' = true
      · simp [hp, assoc, Option.filter]
      · have hrest : assoc rest k' = none := (assoc_eq_none_iff rest k').mpr hl.1
        simp [hp, ih hl.2, hrest, Option.filter]
    · by_cases hp : p k' v' = true
      · simp [hp, assoc, hk, ih hl.2]
      · simp [hp, hk, ih hl.2]

theorem assoc_map (l : List (κ × α)) (f : κ → α → α) (k : κ) :
    assoc (l.map fun e => (e.1, f e.1 e.2)) k = (assoc l k).map (f k) := by
  induction l with
  | nil => simp [assoc]
  | cons e rest ih =>
    obtain ⟨k', v'⟩ := e
    simp only [List.map_cons, assoc, ih]
    by_cases hk : k' = k
    · subst hk; simp
    · simp [hk]

/-! ## The operations -/

def empty : OMap κ α := ⟨[], by simp⟩

def get? (m : OMap κ α) (k : κ) : Option α := assoc m.entries k

def has (m : OMap κ α) (k : κ) : Bool := (m.get? k).isSome

def keys (m : OMap κ α) : List κ := m.entries.map Prod.fst

def set (m : OMap κ α) (k : κ) (v : α) : OMap κ α where
  entries := assocSet m.entries k v
  nodup := by
    rw [keys_assocSet]
    split
    · exact m.nodup
    · rename_i h
      exact List.nodup_append.mpr ⟨m.nodup, by simp, by
        intro a ha b hb; simp at hb; subst hb; exact fun e => h (e ▸ ha)⟩

/-- Keep the entries that pass `p`. -/
def filter (m : OMap κ α) (p : κ → α → Bool) : OMap κ α where
  entries := m.entries.filter fun e => p e.1 e.2
  nodup := (List.filter_sublist.map Prod.fst).nodup m.nodup

def delete (m : OMap κ α) (k : κ) : OMap κ α := m.filter fun k' _ => decide (k' ≠ k)

/-- Rewrite every value. -/
def mapVals (m : OMap κ α) (f : κ → α → α) : OMap κ α where
  entries := m.entries.map fun e => (e.1, f e.1 e.2)
  nodup := by
    rw [List.map_map]
    exact m.nodup

/-! ## What a lookup reads -/

@[simp] theorem get?_empty (k : κ) : (empty : OMap κ α).get? k = none := rfl

theorem get?_set (m : OMap κ α) (k : κ) (v : α) (q : κ) :
    (m.set k v).get? q = if k = q then some v else m.get? q :=
  assoc_assocSet m.entries k v q

@[simp] theorem get?_set_self (m : OMap κ α) (k : κ) (v : α) : (m.set k v).get? k = some v := by
  simp [get?_set]

theorem get?_set_ne (m : OMap κ α) (v : α) {k q : κ} (h : k ≠ q) :
    (m.set k v).get? q = m.get? q := by
  simp [get?_set, h]

/-- What is read after a `set`: the new value under its key, or an old one under another. -/
theorem get?_set_cases {m : OMap κ α} {k q : κ} {v w : α} (h : (m.set k v).get? q = some w) :
    (k = q ∧ w = v) ∨ (k ≠ q ∧ m.get? q = some w) := by
  rw [get?_set] at h
  split at h
  · rename_i hk
    exact Or.inl ⟨hk, (Option.some.inj h).symm⟩
  · rename_i hk
    exact Or.inr ⟨hk, h⟩

theorem get?_filter (m : OMap κ α) (p : κ → α → Bool) (k : κ) :
    (m.filter p).get? k = (m.get? k).filter (p k) :=
  assoc_filter m.entries m.nodup p k

theorem get?_delete (m : OMap κ α) (k q : κ) :
    (m.delete k).get? q = if k = q then none else m.get? q := by
  unfold delete
  rw [get?_filter]
  by_cases h : k = q
  · subst h
    cases m.get? k <;> simp [Option.filter]
  · have h' : q ≠ k := fun e => h e.symm
    cases m.get? q <;> simp [Option.filter, h, h']

@[simp] theorem get?_delete_self (m : OMap κ α) (k : κ) : (m.delete k).get? k = none := by
  simp [get?_delete]

theorem get?_delete_ne (m : OMap κ α) {k q : κ} (h : k ≠ q) :
    (m.delete k).get? q = m.get? q := by
  simp [get?_delete, h]

theorem get?_of_get?_delete {m : OMap κ α} {k q : κ} {v : α} (h : (m.delete k).get? q = some v) :
    k ≠ q ∧ m.get? q = some v := by
  rw [get?_delete] at h
  split at h
  · cases h
  · exact ⟨‹_›, h⟩

@[simp] theorem get?_mapVals (m : OMap κ α) (f : κ → α → α) (k : κ) :
    (m.mapVals f).get? k = (m.get? k).map (f k) :=
  assoc_map m.entries f k

theorem mem_entries (m : OMap κ α) (k : κ) (v : α) : (k, v) ∈ m.entries ↔ m.get? k = some v :=
  mem_iff_assoc m.entries m.nodup k v

/-- Entries that pass a test and that both maps have are the same, in some order. -/
theorem perm_filter_entries {m m' : OMap κ α} {p : κ × α → Bool}
    (h : ∀ k v, p (k, v) = true → (m.get? k = some v ↔ m'.get? k = some v)) :
    (m.entries.filter p).Perm (m'.entries.filter p) := by
  have hnodup : ∀ m : OMap κ α, (m.entries.filter p).Nodup := fun m =>
    (List.Nodup.of_map _ m.nodup).filter _
  refine (List.perm_ext_iff_of_nodup (hnodup m) (hnodup m')).mpr fun ⟨k, v⟩ => ?_
  rw [List.mem_filter, List.mem_filter, mem_entries, mem_entries]
  exact and_congr_left fun hp => h k v hp

theorem mem_keys (m : OMap κ α) (k : κ) : k ∈ m.keys ↔ m.has k = true := by
  have h := assoc_eq_none_iff m.entries k
  unfold keys has get?
  cases ha : assoc m.entries k <;> simp_all

theorem has_iff (m : OMap κ α) (k : κ) : m.has k = true ↔ ∃ v, m.get? k = some v := by
  unfold has
  exact Option.isSome_iff_exists

theorem has_eq_false_iff (m : OMap κ α) (k : κ) : m.has k = false ↔ m.get? k = none := by
  unfold has
  cases m.get? k <;> simp

theorem has_of_get? {m : OMap κ α} {k : κ} {v : α} (h : m.get? k = some v) : m.has k = true :=
  (m.has_iff k).mpr ⟨v, h⟩

/-- No value is under two keys. -/
theorem nodup_values {m : OMap κ α} : (m.entries.map Prod.snd).Nodup ↔
    ∀ k k' v, m.get? k = some v → m.get? k' = some v → k = k' := by
  constructor
  · intro h k k' v hk hk'
    have hkk := List.inj_on_of_nodup_map h ((mem_entries _ _ _).mpr hk)
      ((mem_entries _ _ _).mpr hk') rfl
    exact congrArg Prod.fst hkk
  · intro h
    refine List.Nodup.map_on ?_ (List.Nodup.of_map Prod.fst m.nodup)
    rintro ⟨k, v⟩ hk ⟨k', v'⟩ hk' rfl
    rw [h k k' v ((mem_entries _ _ _).mp hk) ((mem_entries _ _ _).mp hk')]

/-- What is in a map after entries with distinct keys have been set one after the other. -/
theorem get?_foldl_set {γ : Type} {l : List γ} {f : γ → κ} (g : γ → α) (hl : (l.map f).Nodup)
    (m : OMap κ α) (k : κ) (v : α) : (l.foldl (fun m e => m.set (f e) (g e)) m).get? k = some v ↔
      (∃ e ∈ l, f e = k ∧ g e = v) ∨ ((∀ e ∈ l, f e ≠ k) ∧ m.get? k = some v) := by
  induction l generalizing m with
  | nil => simp
  | cons e rest ih =>
    rw [List.map_cons, List.nodup_cons] at hl
    rw [List.foldl_cons, ih hl.2]
    by_cases hk : f e = k
    · subst hk
      have hrest : ∀ x ∈ rest, f x ≠ f e := fun x hx he => hl.1 (he ▸ List.mem_map_of_mem hx)
      have hnone : ¬ ∃ x ∈ rest, f x = f e ∧ g x = v := fun ⟨x, hx, he, _⟩ => hrest x hx he
      simp only [List.mem_cons, exists_eq_or_imp, forall_eq_or_imp, true_and, get?_set_self,
        Option.some.injEq, hnone, false_or, ne_eq, not_true_eq_false, false_and, or_false]
      exact ⟨fun h => h.2, fun h => ⟨hrest, h⟩⟩
    · simp [hk, get?_set_ne m (g e) hk]

theorem get?_filter_eq_some {m : OMap κ α} {p : κ → α → Bool} {k : κ} {v : α} :
    (m.filter p).get? k = some v ↔ m.get? k = some v ∧ p k v = true := by
  rw [get?_filter, Option.filter_eq_some_iff]

theorem has_set (m : OMap κ α) (k : κ) (v : α) (q : κ) :
    (m.set k v).has q = (decide (k = q) || m.has q) := by
  unfold has
  rw [get?_set]
  by_cases h : k = q <;> simp [h]

@[simp] theorem has_mapVals (m : OMap κ α) (f : κ → α → α) (k : κ) :
    (m.mapVals f).has k = m.has k := by
  simp [has]

theorem has_filter (m : OMap κ α) (p : κ → Bool) (k : κ) :
    (m.filter fun k _ => p k).has k = (m.has k && p k) := by
  unfold has
  rw [get?_filter]
  cases m.get? k <;> cases p k <;> simp [Option.filter]

/-! ## Two operations on one key -/

omit [DecidableEq κ] in
theorem ext_entries {m m' : OMap κ α} (h : m.entries = m'.entries) : m = m' := by
  cases m; cases m'; cases h; rfl

/-- A rewrite that changes no value changes nothing. -/
theorem mapVals_eq_self {m : OMap κ α} {f : κ → α → α}
    (h : ∀ k v, m.get? k = some v → f k v = v) : m.mapVals f = m := by
  refine ext_entries ?_
  show m.entries.map _ = m.entries
  conv => rhs; rw [← List.map_id m.entries]
  refine List.map_congr_left fun e he => ?_
  exact congrArg (Prod.mk e.1) (h e.1 e.2 ((m.mem_entries _ _).mp he))

/-- An entry that passes a test which only one key can pass is the entry of that key. -/
theorem countP_assoc {l : List (κ × α)} (hl : (l.map Prod.fst).Nodup) {p : κ × α → Bool} {k : κ}
    (h : ∀ e, p e = true → e.1 = k) :
    l.countP p = if (assoc l k).any fun v => p (k, v) then 1 else 0 := by
  induction l with
  | nil => rfl
  | cons e rest ih =>
    obtain ⟨k', v⟩ := e
    rw [List.map_cons, List.nodup_cons] at hl
    by_cases hk : k' = k
    · subst hk
      have hrest : rest.countP p = 0 := by
        rw [List.countP_eq_zero]
        intro e he hp
        exact hl.1 (List.mem_map.mpr ⟨e, he, h e hp⟩)
      rw [List.countP_cons, hrest, assoc, if_pos rfl, Option.any_some, Nat.zero_add]
    · have hp : ¬ p (k', v) = true := fun hp => hk (h (k', v) hp)
      rw [List.countP_cons_of_neg hp, ih hl.2, assoc, if_neg hk]

theorem assocSet_assocSet (l : List (κ × α)) (k : κ) (v w : α) :
    assocSet (assocSet l k v) k w = assocSet l k w := by
  induction l with
  | nil => simp [assocSet]
  | cons e rest ih =>
    obtain ⟨k', v'⟩ := e
    by_cases hk : k' = k
    · simp [assocSet, hk]
    · simp [assocSet, hk, ih]

@[simp] theorem set_set (m : OMap κ α) (k : κ) (v w : α) : (m.set k v).set k w = m.set k w :=
  ext_entries (assocSet_assocSet m.entries k v w)

theorem filter_assocSet (l : List (κ × α)) (k : κ) (v : α) :
    (assocSet l k v).filter (fun e => decide (e.1 ≠ k)) = l.filter fun e => decide (e.1 ≠ k) := by
  induction l with
  | nil => simp [assocSet]
  | cons e rest ih =>
    obtain ⟨k', v'⟩ := e
    by_cases hk : k' = k
    · simp [assocSet, hk]
    · simp only [assocSet, if_neg hk, List.filter_cons, ih]

@[simp] theorem delete_set (m : OMap κ α) (k : κ) (v : α) : (m.set k v).delete k = m.delete k :=
  ext_entries (filter_assocSet m.entries k v)

/-- A key that a filter drops may be set or not. -/
theorem filter_assocSet_of_not (l : List (κ × α)) (p : κ → Bool) {k : κ} (hk : p k = false)
    (v : α) : (assocSet l k v).filter (fun e => p e.1) = l.filter fun e => p e.1 := by
  induction l with
  | nil => simp [assocSet, hk]
  | cons e rest ih =>
    obtain ⟨k', v'⟩ := e
    by_cases he : k' = k
    · subst he
      simp [assocSet, hk]
    · simp only [assocSet, if_neg he, List.filter_cons, ih]

/-- A key that a filter keeps is set before or after it. -/
theorem filter_assocSet_of (l : List (κ × α)) (p : κ → Bool) {k : κ} (hk : p k = true) (v : α) :
    (assocSet l k v).filter (fun e => p e.1) = assocSet (l.filter fun e => p e.1) k v := by
  induction l with
  | nil => simp [assocSet, hk]
  | cons e rest ih =>
    obtain ⟨k', v'⟩ := e
    by_cases he : k' = k
    · subst he
      simp [assocSet, hk]
    · simp only [assocSet, if_neg he, List.filter_cons, ih]
      split
      · simp [assocSet, he]
      · rfl

/-- Of the keys a filter keeps, it keeps what a lookup reads. -/
theorem assoc_filter_of (l : List (κ × α)) (p : κ → Bool) {k : κ} (hk : p k = true) :
    assoc (l.filter fun e => p e.1) k = assoc l k := by
  induction l with
  | nil => rfl
  | cons e rest ih =>
    obtain ⟨k', v'⟩ := e
    by_cases he : k' = k
    · subst he
      simp [assoc, hk]
    · simp only [List.filter_cons, assoc, if_neg he]
      split
      · simp [assoc, he, ih]
      · exact ih

@[simp] theorem delete_delete (m : OMap κ α) (k : κ) : (m.delete k).delete k = m.delete k :=
  ext_entries (by simp [delete, filter, List.filter_filter])

theorem filter_congr {m : OMap κ α} {p q : κ → α → Bool}
    (h : ∀ k v, m.get? k = some v → p k v = q k v) : m.filter p = m.filter q :=
  ext_entries (List.filter_congr fun e he => h e.1 e.2 ((m.mem_entries e.1 e.2).mp he))

omit [DecidableEq κ] in
theorem filter_filter (m : OMap κ α) (p q : κ → α → Bool) :
    (m.filter p).filter q = m.filter fun k v => p k v && q k v := by
  refine ext_entries ?_
  show (m.entries.filter _).filter _ = m.entries.filter _
  rw [List.filter_filter]
  exact List.filter_congr fun _ _ => Bool.and_comm _ _

/-! ## Values of another type -/

section
variable {β : Type} (m : OMap κ α) (f : α → β)

/-- Rewrite every value to another type. -/
def mapTo (m : OMap κ α) (f : α → β) : OMap κ β where
  entries := m.entries.map fun e => (e.1, f e.2)
  nodup := by
    rw [List.map_map]
    exact m.nodup

theorem assoc_mapTo (l : List (κ × α)) (k : κ) :
    assoc (l.map fun e => (e.1, f e.2)) k = (assoc l k).map f := by
  induction l with
  | nil => rfl
  | cons e rest ih =>
    obtain ⟨k', v'⟩ := e
    by_cases hk : k' = k <;> simp [assoc, hk, ih]

@[simp] theorem get?_mapTo (k : κ) : (m.mapTo f).get? k = (m.get? k).map f :=
  assoc_mapTo f m.entries k

@[simp] theorem has_mapTo (k : κ) : (m.mapTo f).has k = m.has k := by
  simp [has]

theorem assocSet_mapTo (l : List (κ × α)) (k : κ) (v : α) :
    (assocSet l k v).map (fun e => (e.1, f e.2)) =
      assocSet (l.map fun e => (e.1, f e.2)) k (f v) := by
  induction l with
  | nil => rfl
  | cons e rest ih =>
    obtain ⟨k', v'⟩ := e
    by_cases hk : k' = k <;> simp [assocSet, hk, ih]

theorem mapTo_set (k : κ) (v : α) : (m.set k v).mapTo f = (m.mapTo f).set k (f v) :=
  ext_entries (assocSet_mapTo f m.entries k v)

omit [DecidableEq κ] in
theorem mapTo_filter (p : κ → Bool) :
    (m.filter fun k _ => p k).mapTo f = (m.mapTo f).filter fun k _ => p k := by
  refine ext_entries ?_
  show (m.entries.filter _).map _ = (m.entries.map _).filter _
  rw [List.filter_map]
  rfl

omit [DecidableEq κ] in
/-- A rewriting of the values, seen through `f`. -/
theorem mapTo_mapVals {g : κ → α → α} {g' : κ → β → β} (h : ∀ k v, f (g k v) = g' k (f v)) :
    (m.mapVals g).mapTo f = (m.mapTo f).mapVals g' := by
  refine ext_entries ?_
  show (m.entries.map _).map _ = (m.entries.map _).map _
  rw [List.map_map, List.map_map]
  exact List.map_congr_left fun e _ => congrArg (Prod.mk e.1) (h e.1 e.2)

omit [DecidableEq κ] in
/-- A rewriting of the values that `f` does not see. -/
theorem mapTo_mapVals_of_same {g : κ → α → α} (h : ∀ k v, f (g k v) = f v) :
    (m.mapVals g).mapTo f = m.mapTo f := by
  refine ext_entries ?_
  show (m.entries.map _).map _ = m.entries.map _
  rw [List.map_map]
  exact List.map_congr_left fun e _ => congrArg (Prod.mk e.1) (h e.1 e.2)

end

end OMap

end Meshezia
