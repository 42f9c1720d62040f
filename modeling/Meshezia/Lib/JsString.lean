import Mathlib.Data.List.Basic

/-!
# JavaScript strings

A JavaScript string is a sequence of UTF-16 code units, compared code unit by code
unit (`jsLt`).  `joinAt c a b` puts `c` between two strings and `splitAt2 c` is
`const [a, b] = s.split(c)`: it returns the first two parts.  On parts that do not
contain `c` the second undoes the first (`splitAt2_joinAt`).
-/

namespace Meshezia

abbrev JsString := List UInt16

/-- `a < b` on strings: the first code unit that differs decides, a proper prefix is smaller. -/
def jsLt : JsString → JsString → Bool
  | _, [] => false
  | [], _ :: _ => true
  | a :: as, b :: bs => if a < b then true else if b < a then false else jsLt as bs

@[simp] theorem jsLt_irrefl (a : JsString) : jsLt a a = false := by
  induction a with
  | nil => rfl
  | cons c cs ih => simp [jsLt, ih]

theorem jsLt_asymm {a b : JsString} (h : jsLt a b = true) : jsLt b a = false := by
  induction a generalizing b with
  | nil => cases b <;> simp_all [jsLt]
  | cons c cs ih =>
    cases b with
    | nil => simp [jsLt] at h
    | cons d ds =>
      simp only [jsLt] at h ⊢
      by_cases h1 : c < d
      · have h2 : ¬ d < c := UInt16.lt_asymm h1
        simp [h1, h2]
      · rw [if_neg h1] at h
        by_cases h2 : d < c
        · simp [h2] at h
        · rw [if_neg h2] at h
          simp [h1, h2, ih h]

/-- Two strings neither of which is smaller are equal. -/
theorem jsLt_total {a b : JsString} (h : jsLt a b = false) (h' : jsLt b a = false) : a = b := by
  induction a generalizing b with
  | nil => cases b <;> simp_all [jsLt]
  | cons c cs ih =>
    cases b with
    | nil => simp [jsLt] at h'
    | cons d ds =>
      simp only [jsLt] at h h'
      by_cases h1 : c < d
      · simp [h1] at h
      · by_cases h2 : d < c
        · simp [h2] at h'
        · rw [if_neg h1, if_neg h2] at h
          rw [if_neg h2, if_neg h1] at h'
          have hcd : c = d := UInt16.le_antisymm (UInt16.not_lt.mp h2) (UInt16.not_lt.mp h1)
          rw [hcd, ih h h']

theorem ne_of_jsLt {a b : JsString} (h : jsLt a b = true) : a ≠ b := by
  rintro rfl
  simp at h

/-! ## Splitting at a separator -/

def joinAt (c : UInt16) (a b : JsString) : JsString := a ++ c :: b

/-- `const [a, b] = s.split(c)`; a missing second part reads as the empty string. -/
def splitAt2 (c : UInt16) (s : JsString) : JsString × JsString :=
  match s.splitOn c with
  | a :: b :: _ => (a, b)
  | [a] => (a, [])
  | [] => ([], [])

theorem splitOn_joinAt (c : UInt16) {a b : JsString} (ha : c ∉ a) (hb : c ∉ b) :
    (joinAt c a b).splitOn c = [a, b] := by
  have h : ([c].intercalate [a, b]).splitOn c = [a, b] :=
    List.splitOn_intercalate c (by simp [ha, hb]) (by simp)
  simpa [joinAt, List.intercalate] using h

theorem splitAt2_joinAt (c : UInt16) {a b : JsString} (ha : c ∉ a) (hb : c ∉ b) :
    splitAt2 c (joinAt c a b) = (a, b) := by
  unfold splitAt2
  rw [splitOn_joinAt c ha hb]

/-- How often the separator occurs in a joined string. -/
theorem count_joinAt (c : UInt16) (a b : JsString) :
    (joinAt c a b).count c = a.count c + b.count c + 1 := by
  simp [joinAt]; omega

end Meshezia
