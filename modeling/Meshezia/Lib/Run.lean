import Mathlib.Data.List.Induction

/-!
# Runs of a step function

A system is a step function `step : σ → ε → σ` (state, event, next state); a run
from `s` is a list of events.  `Along step P s es` says that every step of the run
satisfies `P`, a property of the state before the step and its event.

* `run_invariant`: what holds at the start and is kept by every step holds at the end.
* `run_invariant_along`: the same when only the steps that satisfy `P` keep it.
* `along_append`, `along_of_forall`: how `Along` composes.
* `foldl_invariant`, `foldlM_invariant`, `foldl_prefix_invariant`, `foldl_makes`: the same for a
  loop over a list.
* `Since step start P s es`: every step satisfies `P` from the beginning on, or from after some
  step that satisfies `start` on (`run_invariant_since`).
* `Occurs P es`: some event of the run satisfies `P`, a property of the events before it and
  itself (`occurs_concat`).
-/

namespace Meshezia

variable {σ ε : Type}

/-- The state after the events `es`. -/
def run (step : σ → ε → σ) (s : σ) (es : List ε) : σ := es.foldl step s

/-- Every step of the run from `s` satisfies `P`. -/
def Along (step : σ → ε → σ) (P : σ → ε → Prop) : σ → List ε → Prop
  | _, [] => True
  | s, e :: es => P s e ∧ Along step P (step s e) es

instance decidableAlong {step : σ → ε → σ} {P : σ → ε → Prop} [∀ s e, Decidable (P s e)] :
    (s : σ) → (es : List ε) → Decidable (Along step P s es)
  | _, [] => isTrue trivial
  | s, e :: es => @instDecidableAnd (P s e) _ _ (decidableAlong (step s e) es)

section
variable (step : σ → ε → σ)

@[simp] theorem run_nil (s : σ) : run step s [] = s := rfl

@[simp] theorem run_cons (s : σ) (e : ε) (es : List ε) :
    run step s (e :: es) = run step (step s e) es := rfl

theorem run_append (s : σ) (es es' : List ε) :
    run step s (es ++ es') = run step (run step s es) es' := by
  simp [run, List.foldl_append]

theorem run_concat (s : σ) (es : List ε) (e : ε) :
    run step s (es ++ [e]) = step (run step s es) e := by
  simp [run, List.foldl_append]

theorem along_append (P : σ → ε → Prop) (s : σ) (es es' : List ε) :
    Along step P s (es ++ es') ↔ Along step P s es ∧ Along step P (run step s es) es' := by
  induction es generalizing s with
  | nil => simp [Along]
  | cons e es ih => simp only [List.cons_append, Along, run_cons, ih, and_assoc]

theorem along_of_forall (P : σ → ε → Prop) (h : ∀ s e, P s e) (s : σ) (es : List ε) :
    Along step P s es := by
  induction es generalizing s with
  | nil => trivial
  | cons e es ih => exact ⟨h s e, ih _⟩

/-- A property of the events alone. -/
theorem along_of_mem (P : ε → Prop) {es : List ε} (h : ∀ e ∈ es, P e) (s : σ) :
    Along step (fun _ e => P e) s es := by
  induction es generalizing s with
  | nil => trivial
  | cons e es ih => exact ⟨h e (by simp), ih (fun x hx => h x (by simp [hx])) _⟩

theorem along_congr {P Q : σ → ε → Prop} (h : ∀ s e, P s e ↔ Q s e) (s : σ) (es : List ε) :
    Along step P s es ↔ Along step Q s es := by
  induction es generalizing s with
  | nil => exact Iff.rfl
  | cons e es ih => exact and_congr (h s e) (ih _)

theorem along_and {P Q : σ → ε → Prop} {s : σ} {es : List ε}
    (hp : Along step P s es) (hq : Along step Q s es) :
    Along step (fun s e => P s e ∧ Q s e) s es := by
  induction es generalizing s with
  | nil => trivial
  | cons e es ih => exact ⟨⟨hp.1, hq.1⟩, ih hp.2 hq.2⟩

/-- **Invariants along a run.**  Only the steps that satisfy `P` have to keep `I`. -/
theorem run_invariant_along {P : σ → ε → Prop} {I : σ → Prop}
    (hstep : ∀ s e, I s → P s e → I (step s e)) {s : σ} {es : List ε}
    (hs : I s) (hp : Along step P s es) : I (run step s es) := by
  induction es generalizing s with
  | nil => exact hs
  | cons e es ih => exact ih (hstep s e hs hp.1) hp.2

/-- What the invariant says of a step holds of every step of the run. -/
theorem along_of_invariant {P Q : σ → ε → Prop} {I : σ → Prop}
    (hstep : ∀ s e, I s → P s e → I (step s e)) (hQ : ∀ s e, I s → P s e → Q s e) {s : σ}
    {es : List ε} (hs : I s) (hp : Along step P s es) : Along step Q s es := by
  induction es generalizing s with
  | nil => trivial
  | cons e es ih => exact ⟨hQ s e hs hp.1, ih (hstep s e hs hp.1) hp.2⟩

theorem run_invariant {I : σ → Prop} (hstep : ∀ s e, I s → I (step s e)) {s : σ}
    (hs : I s) (es : List ε) : I (run step s es) :=
  run_invariant_along step (P := fun _ _ => True) (fun s e h _ => hstep s e h) hs
    (along_of_forall step _ (fun _ _ => trivial) s es)

/-- Every step satisfies `P` since the beginning, or since some step that satisfies `start`. -/
def Since (start P : σ → ε → Prop) (s : σ) (es : List ε) : Prop :=
  ∃ pre post, es = pre ++ post ∧
    (pre = [] ∨ ∃ init e, pre = init ++ [e] ∧ start (run step s init) e) ∧
    Along step P (run step s pre) post

theorem Along.since {P : σ → ε → Prop} {s : σ} {es : List ε} (h : Along step P s es)
    (start : σ → ε → Prop) : Since step start P s es :=
  ⟨[], es, rfl, Or.inl rfl, h⟩

/-- **Invariants since a step** that establishes them; `J` holds of every step of the run. -/
theorem run_invariant_since {start P J : σ → ε → Prop} {I : σ → Prop}
    (hstart : ∀ s e, J s e → start s e → I (step s e))
    (hstep : ∀ s e, J s e → I s → P s e → I (step s e)) {s : σ} {es : List ε}
    (hJ : Along step J s es) (hI : I s) (h : Since step start P s es) : I (run step s es) := by
  obtain ⟨pre, post, rfl, hfrom, halong⟩ := h
  obtain ⟨hJpre, hJpost⟩ := (along_append step J s pre post).mp hJ
  rw [run_append]
  refine run_invariant_along step (fun s e hs he => hstep s e he.1 hs he.2) ?_
    (along_and step hJpost halong)
  rcases hfrom with rfl | ⟨init, e, rfl, he⟩
  · exact hI
  · rw [run_concat]
    exact hstart _ e ((along_append step J s init [e]).mp hJpre).2.1 he

end

/-- A loop over `l` keeps what its body keeps. -/
theorem foldl_invariant {α : Type} {I : σ → Prop} (f : σ → α → σ) (l : List α)
    (hf : ∀ s, ∀ a ∈ l, I s → I (f s a)) {s : σ} (hs : I s) : I (l.foldl f s) :=
  List.foldlRecOn l f hs fun b hb a ha => hf b a ha hb

/-- The same for what is said of the part of the list that the loop has gone through. -/
theorem foldl_prefix_invariant {α : Type} {I : List α → σ → Prop} {f : σ → α → σ} {l : List α}
    (hf : ∀ s pre a post, l = pre ++ a :: post → I pre s → I (pre ++ [a]) (f s a)) {s : σ}
    (hs : I [] s) : I l (l.foldl f s) := by
  suffices h : ∀ post pre s, l = pre ++ post → I pre s → I l (post.foldl f s) from
    h l [] s rfl hs
  intro post
  induction post with
  | nil =>
    intro pre s hl hpre
    rw [hl, List.append_nil]
    exact hpre
  | cons a rest ih =>
    intro pre s hl hpre
    exact ih (pre ++ [a]) (f s a) (by rw [hl, List.append_assoc]; rfl) (hf s pre a rest hl hpre)

/-- What its body makes for one element, and keeps for all, is there at the end. -/
theorem foldl_makes {α : Type} {I : σ → Prop} {f : σ → α → σ} {l : List α} {a : α} (ha : a ∈ l)
    (hmakes : ∀ s, I (f s a)) (hkeeps : ∀ s, ∀ x ∈ l, I s → I (f s x)) (s : σ) :
    I (l.foldl f s) := by
  obtain ⟨pre, post, rfl⟩ := List.append_of_mem ha
  rw [List.foldl_append, List.foldl_cons]
  exact foldl_invariant f post (fun s x hx => hkeeps s x (by simp [hx])) (hmakes _)

/-- So does one whose body may fail, when it has come to its end. -/
theorem foldlM_invariant {α ε' : Type} {I : σ → Prop} {f : σ → α → Except ε' σ} (l : List α)
    (hf : ∀ s s', ∀ a ∈ l, I s → f s a = .ok s' → I s') {s s' : σ} (hs : I s)
    (h : l.foldlM f s = .ok s') : I s' := by
  induction l generalizing s with
  | nil =>
    cases h
    exact hs
  | cons a rest ih =>
    rw [List.foldlM_cons] at h
    cases h1 : f s a with
    | error e =>
      rw [h1] at h
      cases h
    | ok s1 =>
      rw [h1] at h
      exact ih (fun s s' b hb => hf s s' b (by simp [hb])) (hf s s1 a (by simp) hs h1) h

/-- Some event satisfies `P`, given the events before it. -/
def Occurs (P : List ε → ε → Prop) (es : List ε) : Prop :=
  ∃ pre e post, es = pre ++ e :: post ∧ P pre e

theorem not_occurs_nil (P : List ε → ε → Prop) : ¬ Occurs P [] := by
  rintro ⟨pre, e, post, he, -⟩
  cases pre <;> cases he

/-- The last event satisfies `P`, or one before it does. -/
theorem occurs_concat (P : List ε → ε → Prop) (es : List ε) (e : ε) :
    Occurs P (es ++ [e]) ↔ Occurs P es ∨ P es e := by
  constructor
  · rintro ⟨pre, x, post, he, hx⟩
    rcases List.eq_nil_or_concat post with rfl | ⟨rest, y, rfl⟩
    · obtain ⟨rfl, h⟩ := List.append_inj' he rfl
      cases h
      exact Or.inr hx
    · rw [List.concat_eq_append, ← List.cons_append, ← List.append_assoc] at he
      obtain ⟨rfl, -⟩ := List.append_inj' he rfl
      exact Or.inl ⟨pre, x, rest, rfl, hx⟩
  · rintro (⟨pre, x, post, rfl, hx⟩ | h)
    · exact ⟨pre, x, post ++ [e], by simp, hx⟩
    · exact ⟨es, e, [], rfl, h⟩

end Meshezia
