import Meshezia.Lib.Distinct
import Meshezia.Api.Config

/-!
# The obfuscation parameters of a network (`randInt`, `generateAwgParams`)

`POST /api/networks` draws nine parameters that fit each other: `jmin ≤ jmax`, and four
headers that are distinct and none of the message types 1 to 4 of WireGuard.  These and no
others come out of the draws (`generateAwgParams_iff`).

Each of the nine is then replaced on its own by the value of the body, when it has one.  So a
given `jmin` meets a drawn `jmax`, and a given header meets drawn ones.  Of parameters that are
legal each for itself the row is consistent exactly when the given values fit each other and
the drawn ones that stay:

    accepted, drawn and legal → the row is stored, and
      (Consistent row.awg ↔ Compatible the given values the drawn ones)  (awg_consistent_iff)

Whatever is drawn, this holds of a body only when it names both of `jmin` and `jmax` or is on
the safe side of the drawn ones, and when it names all the headers or none
(`compatible_always_iff`).
-/

namespace Meshezia.Api

/-! ## What is drawn -/

/-- A value of `Math.random()`: `num / den`, from 0 on and below 1. -/
structure Fraction where
  num : Nat
  den : Nat
  lt : num < den

def randInt (min max : Int) (random : Fraction) : Int :=
  min + random.num * (max - min + 1) / random.den

/-- The random numbers of one call, and the words of the loop for the headers. -/
structure AwgRandom where
  jc : Fraction
  jmin : Fraction
  jmax : Fraction
  s1 : Fraction
  s2 : Fraction
  words : List UInt32

/-- The message types of WireGuard. -/
def reservedTypes : List UInt32 := [1, 2, 3, 4]

/-- `none` when the loop has not ended with these words. -/
def generateAwgParams (random : AwgRandom) : Option (Awg Int) :=
  let jc := randInt 3 8 random.jc
  let jmin := randInt 50 200 random.jmin
  let jmax := jmin + randInt 50 800 random.jmax
  let s1 := randInt 15 150 random.s1
  let s2 := randInt 15 150 random.s2
  match drawDistinct reservedTypes 4 [] random.words with
  | some [h1, h2, h3, h4] =>
    some { jc, jmin, jmax, s1, s2, h1 := h1.toNat, h2 := h2.toNat, h3 := h3.toNat, h4 := h4.toNat }
  | _ => none

def Awg.headers {α : Type} (a : Awg α) : List α := [a.h1, a.h2, a.h3, a.h4]

/-- A word that is not a message type. -/
def IsHeader (h : Int) : Prop := 0 ≤ h ∧ h < 4294967296 ∧ h ∉ ([1, 2, 3, 4] : List Int)

/-- What `generateAwgParams` may return. -/
structure Generated (d : Awg Int) : Prop where
  jc : 3 ≤ d.jc ∧ d.jc ≤ 8
  jmin : 50 ≤ d.jmin ∧ d.jmin ≤ 200
  jmax : d.jmin + 50 ≤ d.jmax ∧ d.jmax ≤ d.jmin + 800
  s1 : 15 ≤ d.s1 ∧ d.s1 ≤ 150
  s2 : 15 ≤ d.s2 ∧ d.s2 ≤ 150
  distinct : d.headers.Nodup
  header : ∀ h ∈ d.headers, IsHeader h

theorem randInt_bounds (min max : Int) (h : min ≤ max) (random : Fraction) :
    min ≤ randInt min max random ∧ randInt min max random ≤ max := by
  obtain ⟨num, den, hlt⟩ := random
  have hspan : 0 < max - min + 1 := by omega
  have hden : (0 : Int) < den := by omega
  have hlow : 0 ≤ (num : Int) * (max - min + 1) / den :=
    Int.ediv_nonneg (Int.mul_nonneg (by omega) (by omega)) (by omega)
  have hhigh : (num : Int) * (max - min + 1) / den < max - min + 1 := by
    refine Int.ediv_lt_of_lt_mul hden ?_
    rw [Int.mul_comm (max - min + 1) den]
    exact Int.mul_lt_mul_of_pos_right (by omega) hspan
  unfold randInt
  dsimp only
  omega

/-- Every integer of the range can be drawn. -/
theorem exists_randInt {min max v : Int} (hlow : min ≤ v) (hhigh : v ≤ max) :
    ∃ random, randInt min max random = v := by
  refine ⟨⟨(v - min).toNat, (max - min + 1).toNat, by omega⟩, ?_⟩
  unfold randInt
  dsimp only
  rw [Int.toNat_of_nonneg (by omega), Int.toNat_of_nonneg (by omega),
    Int.mul_ediv_cancel _ (by omega)]
  omega

theorem reservedTypes_toNat :
    ([1, 2, 3, 4] : List Int) = reservedTypes.map fun w => (w.toNat : Int) := rfl

theorem toNat_injective : Function.Injective fun w : UInt32 => (w.toNat : Int) := fun _ _ h =>
  UInt32.toNat_inj.mp (Int.ofNat.inj h)

theorem isHeader_toNat {w : UInt32} (h : w ∉ reservedTypes) : IsHeader (w.toNat : Int) := by
  have hlt := w.toNat_lt
  refine ⟨by omega, by omega, ?_⟩
  rw [reservedTypes_toNat, List.mem_map_of_injective toNat_injective]
  exact h

/-- The word that draws the header `h`. -/
def wordOf (h : Int) : UInt32 := UInt32.ofNat h.toNat

theorem toNat_wordOf {h : Int} (hh : IsHeader h) : ((wordOf h).toNat : Int) = h := by
  have hlt : h.toNat < 4294967296 := by
    have := hh.2.1
    omega
  rw [wordOf, UInt32.toNat_ofNat_of_lt' hlt]
  exact Int.toNat_of_nonneg hh.1

theorem fresh_wordOf {headers : List Int} (hdistinct : headers.Nodup)
    (hheader : ∀ h ∈ headers, IsHeader h) : Fresh reservedTypes (headers.map wordOf) := by
  constructor
  · refine hdistinct.map_on fun a ha b hb he => ?_
    rw [← toNat_wordOf (hheader a ha), ← toNat_wordOf (hheader b hb), he]
  · intro w hw hreserved
    obtain ⟨h, hh, rfl⟩ := List.mem_map.mp hw
    refine (hheader h hh).2.2 ?_
    rw [← toNat_wordOf (hheader h hh), reservedTypes_toNat]
    exact List.mem_map_of_mem hreserved

/-- **The draws.**  They can come out as any nine values in these ranges, and as no others. -/
theorem generateAwgParams_iff (d : Awg Int) :
    (∃ random, generateAwgParams random = some d) ↔ Generated d := by
  constructor
  · rintro ⟨random, h⟩
    unfold generateAwgParams at h
    dsimp only at h
    split at h
    · rename_i h1 h2 h3 h4 hdrawn
      obtain ⟨hfresh, -⟩ := drawDistinct_spec ⟨List.nodup_nil, fun v hv => by cases hv⟩
        (by simp) hdrawn
      have hjc := randInt_bounds 3 8 (by omega) random.jc
      have hjmin := randInt_bounds 50 200 (by omega) random.jmin
      have hjmax := randInt_bounds 50 800 (by omega) random.jmax
      have hs1 := randInt_bounds 15 150 (by omega) random.s1
      have hs2 := randInt_bounds 15 150 (by omega) random.s2
      have hmap : ∀ w ∈ [h1, h2, h3, h4], IsHeader (w.toNat : Int) := fun w hw =>
        isHeader_toNat (hfresh.free w hw)
      cases h
      refine ⟨hjc, hjmin, by dsimp only; omega, hs1, hs2, ?_, ?_⟩
      · exact hfresh.nodup.map toNat_injective
      · simpa [Awg.headers] using hmap
    · cases h
  · intro hd
    obtain ⟨r1, hr1⟩ := exists_randInt hd.jc.1 hd.jc.2
    obtain ⟨r2, hr2⟩ := exists_randInt hd.jmin.1 hd.jmin.2
    obtain ⟨r3, hr3⟩ : ∃ random, randInt 50 800 random = d.jmax - d.jmin := by
      have hjmax := hd.jmax
      exact exists_randInt (by omega) (by omega)
    obtain ⟨r4, hr4⟩ := exists_randInt hd.s1.1 hd.s1.2
    obtain ⟨r5, hr5⟩ := exists_randInt hd.s2.1 hd.s2.2
    have hdrawn : drawDistinct reservedTypes 4 [] (d.headers.map wordOf) =
        some (d.headers.map wordOf) :=
      drawDistinct_of_fresh (fresh_wordOf hd.distinct hd.header) rfl
    refine ⟨⟨r1, r2, r3, r4, r5, d.headers.map wordOf⟩, ?_⟩
    have hword : ∀ h ∈ d.headers, ((wordOf h).toNat : Int) = h := fun h hh =>
      toNat_wordOf (hd.header h hh)
    simp only [Awg.headers, List.forall_mem_cons] at hword
    obtain ⟨hw1, hw2, hw3, hw4, -⟩ := hword
    have hsum : d.jmin + (d.jmax - d.jmin) = d.jmax := by omega
    unfold generateAwgParams
    dsimp only
    rw [hdrawn]
    simp only [Awg.headers, List.map_cons, List.map_nil, hr1, hr2, hr3, hr4, hr5,
      hw1, hw2, hw3, hw4, hsum]

/-! ## What is given -/

/-- A parameter of a body that is left out, or an integer with this property. -/
def LegalParam (legal : Int → Prop) : Option Json → Prop
  | none | some .null => True
  | some (.num (.int n)) => legal n
  | some _ => False

instance {legal : Int → Prop} [DecidablePred legal] :
    (v : Option Json) → Decidable (LegalParam legal v)
  | none | some .null => isTrue trivial
  | some (.num (.int n)) => inferInstanceAs (Decidable (legal n))
  | some (.num (.frac _ _)) | some (.num (.infinity _)) | some (.num .nan) => isFalse id
  | some (.bool _) | some (.str _) | some (.arr _) | some (.obj _) => isFalse id

/-- Every parameter of the body is legal for itself. -/
structure LegalParams (given : Awg (Option Json)) : Prop where
  sizes : ∀ v ∈ [given.jc, given.jmin, given.jmax, given.s1, given.s2],
    LegalParam (fun n => 0 ≤ n) v
  headers : ∀ v ∈ given.headers, LegalParam (fun n => 5 ≤ n ∧ n ≤ 4294967295) v

def Awg.map {α β : Type} (f : α → β) (a : Awg α) : Awg β where
  jc := f a.jc
  jmin := f a.jmin
  jmax := f a.jmax
  s1 := f a.s1
  s2 := f a.s2
  h1 := f a.h1
  h2 := f a.h2
  h3 := f a.h3
  h4 := f a.h4

/-- The integer of a parameter that is not left out. -/
def suppliedInt : Option Json → Option Int
  | some (.num (.int n)) => some n
  | _ => none

def Awg.orElse (given : Awg (Option Int)) (d : Awg Int) : Awg Int where
  jc := given.jc.getD d.jc
  jmin := given.jmin.getD d.jmin
  jmax := given.jmax.getD d.jmax
  s1 := given.s1.getD d.s1
  s2 := given.s2.getD d.s2
  h1 := given.h1.getD d.h1
  h2 := given.h2.getD d.h2
  h3 := given.h3.getD d.h3
  h4 := given.h4.getD d.h4

/-- An integer in a row. -/
def Scalar.ofInt (n : Int) : Scalar := .num (.int n)

theorem bindOr_of_legal {legal : Int → Prop} {v : Option Json} (h : LegalParam legal v)
    (d : Int) : bindOr (.num (.int d)) v = some (Scalar.ofInt ((suppliedInt v).getD d)) := by
  cases v with
  | none => rfl
  | some v =>
    cases v with
    | null => rfl
    | num n =>
      cases n with
      | int n => rfl
      | frac text floor => cases h
      | infinity negative => cases h
      | nan => cases h
    | bool b => cases h
    | str s => cases h
    | arr items => cases h
    | obj fields => cases h

/-- Of legal parameters each is the given one or the drawn one. -/
theorem bindAwg_of_legal {given : Awg (Option Json)} (h : LegalParams given) (d : Awg Int) :
    bindAwg given d = some (((given.map suppliedInt).orElse d).map Scalar.ofInt) := by
  obtain ⟨hsizes, hheaders⟩ := h
  simp only [Awg.headers, List.forall_mem_cons] at hsizes hheaders
  obtain ⟨hjc, hjmin, hjmax, hs1, hs2, -⟩ := hsizes
  obtain ⟨hh1, hh2, hh3, hh4, -⟩ := hheaders
  simp only [bindAwg, bindOr_of_legal hjc, bindOr_of_legal hjmin, bindOr_of_legal hjmax,
    bindOr_of_legal hs1, bindOr_of_legal hs2, bindOr_of_legal hh1, bindOr_of_legal hh2,
    bindOr_of_legal hh3, bindOr_of_legal hh4, Option.bind_eq_bind, Option.bind_some]
  rfl

/-! ## What fits -/

structure ConsistentParams (p : Awg Int) : Prop where
  sizes : p.jmin ≤ p.jmax
  distinct : p.headers.Nodup
  types : ∀ h ∈ p.headers, h ∉ ([1, 2, 3, 4] : List Int)

/-- The parameters of a row are integers that fit each other. -/
def Consistent (awg : Awg Scalar) : Prop := ∃ p, awg = p.map Scalar.ofInt ∧ ConsistentParams p

/-- The sizes that are given, with the drawn one for the one that is left out. -/
def SizesFit : Option Int → Option Int → Awg Int → Prop
  | none, none, _ => True
  | some jmin, some jmax, _ => jmin ≤ jmax
  | some jmin, none, d => jmin ≤ d.jmax
  | none, some jmax, d => d.jmin ≤ jmax

/-- The headers that are given, each beside the one that was drawn. -/
def besideDrawn (given : Awg (Option Int)) (d : Awg Int) : List (Option Int × Int) :=
  given.headers.zip d.headers

/-- The given values fit each other and the drawn ones that stay. -/
structure Compatible (given : Awg (Option Int)) (d : Awg Int) : Prop where
  sizes : SizesFit given.jmin given.jmax d
  distinct : (givenValues (besideDrawn given d)).Nodup
  apart : ∀ h ∈ givenValues (besideDrawn given d), h ∉ keptDefaults (besideDrawn given d)

theorem mem_givenValues {given : Awg (Option Int)} {d : Awg Int} {h : Int} :
    h ∈ givenValues (besideDrawn given d) ↔ some h ∈ given.headers := by
  unfold givenValues
  rw [List.mem_filterMap]
  constructor
  · rintro ⟨⟨g, x⟩, hmem, rfl⟩
    exact (List.of_mem_zip hmem).1
  · intro hmem
    have hfst : (besideDrawn given d).map Prod.fst = given.headers := rfl
    rw [← hfst] at hmem
    obtain ⟨e, he, heq⟩ := List.mem_map.mp hmem
    exact ⟨e, he, heq⟩

/-- The given headers are no message types. -/
def LegalHeaders (given : Awg (Option Int)) : Prop :=
  ∀ h, some h ∈ given.headers → 5 ≤ h ∧ h ≤ 4294967295

theorem legalHeaders_of_legal {given : Awg (Option Json)} (h : LegalParams given) :
    LegalHeaders (given.map suppliedInt) := by
  intro n hn
  obtain ⟨v, hv, he⟩ : ∃ v ∈ given.headers, suppliedInt v = some n := List.mem_map.mp hn
  have hlegal := h.headers v hv
  unfold suppliedInt at he
  split at he
  · cases he
    exact hlegal
  · cases he

theorem consistent_orElse_iff {given : Awg (Option Int)} {d : Awg Int}
    (hlegal : LegalHeaders given) (hd : Generated d) :
    ConsistentParams (given.orElse d) ↔ Compatible given d := by
  have hheaders : (given.orElse d).headers = overridden (besideDrawn given d) := rfl
  have hdistinct := nodup_overridden_iff (l := besideDrawn given d) hd.distinct
  have hsizes : (given.orElse d).jmin ≤ (given.orElse d).jmax ↔
      SizesFit given.jmin given.jmax d := by
    show given.jmin.getD d.jmin ≤ given.jmax.getD d.jmax ↔ _
    have hdrawn := hd.jmax.1
    cases given.jmin with
    | none =>
      cases given.jmax with
      | none =>
        simp only [Option.getD_none, SizesFit, iff_true]
        omega
      | some hi => rfl
    | some lo =>
      cases given.jmax with
      | none => rfl
      | some hi => rfl
  constructor
  · rintro ⟨hs, hnodup, -⟩
    rw [hheaders, hdistinct] at hnodup
    exact ⟨hsizes.mp hs, hnodup.1, hnodup.2⟩
  · rintro ⟨hs, hnodup, hapart⟩
    refine ⟨hsizes.mpr hs, ?_, ?_⟩
    · rw [hheaders, hdistinct]
      exact ⟨hnodup, hapart⟩
    · rw [hheaders]
      intro h hh
      rcases mem_overridden hh with hgiven | hdrawn
      · have hrange := hlegal h (mem_givenValues.mp hgiven)
        simp only [List.mem_cons, List.not_mem_nil, or_false]
        omega
      · exact (hd.header h hdrawn).2.2

theorem Awg.map_ofInt_inj {p q : Awg Int} (h : p.map Scalar.ofInt = q.map Scalar.ofInt) :
    p = q := by
  cases p
  cases q
  simp only [Awg.map, Scalar.ofInt, Awg.mk.injEq, Scalar.num.injEq, JsNumber.int.injEq] at h
  simp only [Awg.mk.injEq]
  exact h

theorem consistent_map_iff (p : Awg Int) :
    Consistent (p.map Scalar.ofInt) ↔ ConsistentParams p := by
  constructor
  · rintro ⟨q, he, hq⟩
    rw [Awg.map_ofInt_inj he]
    exact hq
  · intro hp
    exact ⟨p, rfl, hp⟩

/-- What a network is stored with, of a body with legal parameters. -/
theorem consistent_bindAwg_iff {given : Awg (Option Json)} {d : Awg Int} {awg : Awg Scalar}
    (hlegal : LegalParams given) (hd : Generated d) (h : bindAwg given d = some awg) :
    Consistent awg ↔ Compatible (given.map suppliedInt) d := by
  rw [bindAwg_of_legal hlegal, Option.some.injEq] at h
  rw [← h, consistent_map_iff, consistent_orElse_iff (legalHeaders_of_legal hlegal) hd]

/-! ## Whatever is drawn -/

/-- The sizes fit the largest `jmin` and the smallest `jmax` that can be drawn. -/
def SizesAlwaysFit : Option Int → Option Int → Prop
  | none, none => True
  | some jmin, some jmax => jmin ≤ jmax
  | some jmin, none => jmin ≤ 100
  | none, some jmax => 200 ≤ jmax

/-- For every header there are three others that can be drawn beside it. -/
theorem exists_besides (h : Int) : ∃ a b c, [h, a, b, c].Nodup ∧
    IsHeader a ∧ IsHeader b ∧ IsHeader c := by
  have hsmall : ∀ n : Int, 5 ≤ n → n ≤ 10 → IsHeader n := by
    intro n hlow hhigh
    refine ⟨by omega, by omega, ?_⟩
    simp only [List.mem_cons, List.not_mem_nil, or_false]
    omega
  by_cases hle : h ≤ 7
  · refine ⟨8, 9, 10, ?_, hsmall 8 (by omega) (by omega), hsmall 9 (by omega) (by omega),
      hsmall 10 (by omega) (by omega)⟩
    simp only [List.nodup_cons, List.mem_cons, List.not_mem_nil, or_false]
    simp
    omega
  · refine ⟨5, 6, 7, ?_, hsmall 5 (by omega) (by omega), hsmall 6 (by omega) (by omega),
      hsmall 7 (by omega) (by omega)⟩
    simp only [List.nodup_cons, List.mem_cons, List.not_mem_nil, or_false]
    simp
    omega

/-- Parameters that can be drawn, with these sizes and headers. -/
theorem generated_of_headers {jmin h1 h2 h3 h4 : Int} (hjmin : 50 ≤ jmin ∧ jmin ≤ 200)
    (hdistinct : [h1, h2, h3, h4].Nodup) (hheader : ∀ h ∈ [h1, h2, h3, h4], IsHeader h) :
    Generated ⟨3, jmin, jmin + 50, 15, 15, h1, h2, h3, h4⟩ := by
  have hjc : (3 : Int) ≤ 3 ∧ (3 : Int) ≤ 8 := by decide
  have hs : (15 : Int) ≤ 15 ∧ (15 : Int) ≤ 150 := by decide
  have hjmax : jmin + 50 ≤ jmin + 50 ∧ jmin + 50 ≤ jmin + 800 := by omega
  exact ⟨hjc, hjmin, hjmax, hs, hs, hdistinct, hheader⟩

/-- A header that is left out can be drawn as any value. -/
theorem exists_kept {given : Awg (Option Int)} (hnone : none ∈ given.headers) {h : Int}
    (hh : IsHeader h) : ∃ d, Generated d ∧ h ∈ keptDefaults (besideDrawn given d) := by
  obtain ⟨a, b, c, hnodup, ha, hb, hc⟩ := exists_besides h
  have hdrawn : ∀ x y z w : Int, [x, y, z, w].Perm [h, a, b, c] →
      Generated ⟨3, 50, 100, 15, 15, x, y, z, w⟩ := by
    intro x y z w hperm
    refine generated_of_headers (by decide) (hperm.nodup_iff.mpr hnodup) fun v hv => ?_
    have hmem := hperm.mem_iff.mp hv
    simp only [List.mem_cons, List.not_mem_nil, or_false] at hmem
    rcases hmem with rfl | rfl | rfl | rfl <;> assumption
  have hkept : ∀ d : Awg Int, (none, h) ∈ besideDrawn given d →
      h ∈ keptDefaults (besideDrawn given d) := fun d hmem =>
    List.mem_filterMap.mpr ⟨_, hmem, rfl⟩
  simp only [Awg.headers, List.mem_cons, List.not_mem_nil, or_false] at hnone
  rcases hnone with hn | hn | hn | hn
  · exact ⟨_, hdrawn h a b c (List.Perm.refl _),
      hkept _ (by simp [besideDrawn, Awg.headers, ← hn])⟩
  · exact ⟨_, hdrawn a h b c (List.Perm.swap h a [b, c]),
      hkept _ (by simp [besideDrawn, Awg.headers, ← hn])⟩
  · exact ⟨_, hdrawn a b h c (@List.perm_middle Int h [a, b] [c]),
      hkept _ (by simp [besideDrawn, Awg.headers, ← hn])⟩
  · exact ⟨_, hdrawn a b c h (@List.perm_middle Int h [a, b, c] []),
      hkept _ (by simp [besideDrawn, Awg.headers, ← hn])⟩

/-- Parameters that can be drawn, with this `jmin` and the smallest `jmax` for it. -/
theorem generated_jmin (jmin : Int) (hjmin : 50 ≤ jmin ∧ jmin ≤ 200) :
    Generated ⟨3, jmin, jmin + 50, 15, 15, 5, 6, 7, 8⟩ := by
  refine generated_of_headers hjmin (by decide) fun h hh => ?_
  simp only [List.mem_cons, List.not_mem_nil, or_false] at hh
  refine ⟨by omega, by omega, ?_⟩
  simp only [List.mem_cons, List.not_mem_nil, or_false]
  omega

theorem sizesFit_always_iff {jmin jmax : Option Int} :
    (∀ d, Generated d → SizesFit jmin jmax d) ↔ SizesAlwaysFit jmin jmax := by
  cases jmin with
  | none =>
    cases jmax with
    | none => exact ⟨fun _ => trivial, fun _ _ _ => trivial⟩
    | some hi =>
      constructor
      · intro h
        exact h _ (generated_jmin 200 (by decide))
      · intro h d hd
        exact Int.le_trans hd.jmin.2 h
  | some lo =>
    cases jmax with
    | none =>
      constructor
      · intro h
        exact h _ (generated_jmin 50 (by decide))
      · intro (h : lo ≤ 100) d hd
        have hlow := hd.jmin.1
        have hstep := hd.jmax.1
        show lo ≤ d.jmax
        omega
    | some hi =>
      exact ⟨fun h => h _ (generated_jmin 50 (by decide)), fun h _ _ => h⟩

/-- **Bodies that are safe whatever is drawn.**  They give sizes that fit each other or the
ranges of the drawn ones, and four distinct headers or none. -/
theorem compatible_always_iff {given : Awg (Option Int)} (hlegal : LegalHeaders given) :
    (∀ d, Generated d → Compatible given d) ↔ SizesAlwaysFit given.jmin given.jmax ∧
      ((∀ g ∈ given.headers, g = none) ∨ none ∉ given.headers ∧ given.headers.Nodup) := by
  have hnodup : ∀ d : Awg Int, none ∉ given.headers →
      ((givenValues (besideDrawn given d)).Nodup ↔ given.headers.Nodup) := by
    intro d hall
    have hvalues : given.headers = (givenValues (besideDrawn given d)).map some := by
      simp only [Awg.headers, List.mem_cons, List.not_mem_nil, or_false, not_or] at hall
      obtain ⟨x1, h1⟩ := Option.ne_none_iff_exists'.mp (Ne.symm hall.1)
      obtain ⟨x2, h2⟩ := Option.ne_none_iff_exists'.mp (Ne.symm hall.2.1)
      obtain ⟨x3, h3⟩ := Option.ne_none_iff_exists'.mp (Ne.symm hall.2.2.1)
      obtain ⟨x4, h4⟩ := Option.ne_none_iff_exists'.mp (Ne.symm hall.2.2.2)
      simp [besideDrawn, Awg.headers, givenValues, h1, h2, h3, h4]
    rw [hvalues, List.nodup_map_iff (Option.some_injective Int)]
  constructor
  · intro h
    refine ⟨sizesFit_always_iff.mp fun d hd => (h d hd).sizes, ?_⟩
    by_cases hnone : none ∈ given.headers
    · left
      intro g hg
      cases g with
      | none => rfl
      | some v =>
        have hrange := hlegal v hg
        have hv : IsHeader v := by
          refine ⟨by omega, by omega, ?_⟩
          simp only [List.mem_cons, List.not_mem_nil, or_false]
          omega
        -- the draw that repeats the given header in a place that is left out
        obtain ⟨d, hd, hkept⟩ := exists_kept hnone hv
        exact absurd hkept ((h d hd).apart v (mem_givenValues.mpr hg))
    · have hd := h _ (generated_jmin 50 (by decide))
      exact Or.inr ⟨hnone, (hnodup _ hnone).mp hd.distinct⟩
  · rintro ⟨hsizes, hheaders⟩ d hd
    have hfit := sizesFit_always_iff.mpr hsizes d hd
    rcases hheaders with hnone | ⟨hall, hdistinct⟩
    · have hnil : givenValues (besideDrawn given d) = [] := by
        refine List.eq_nil_iff_forall_not_mem.mpr fun v hv => ?_
        exact Option.some_ne_none v (hnone _ (mem_givenValues.mp hv))
      refine ⟨hfit, ?_, ?_⟩
      · rw [hnil]
        exact List.nodup_nil
      · rw [hnil]
        exact List.forall_mem_nil _
    · have hkept : keptDefaults (besideDrawn given d) = [] := by
        refine List.eq_nil_iff_forall_not_mem.mpr fun v hv => ?_
        obtain ⟨⟨g, x⟩, hmem, he⟩ := List.mem_filterMap.mp hv
        cases g with
        | none => exact hall (List.of_mem_zip hmem).1
        | some w => cases he
      refine ⟨hfit, (hnodup d hall).mpr hdistinct, ?_⟩
      rw [hkept]
      exact fun _ _ => List.not_mem_nil

/-! ## The request -/

/-- **The parameters of a network.**  An accepted request with parameters that are legal each
for itself stores a consistent row exactly when the given values fit each other and the drawn
ones of the parameters that are left out. -/
theorem awg_consistent_iff (env : Env) (t : Tables) (authorization : Option JsString)
    (body : Json) (draws : Draws) (random : AwgRandom)
    (haccepted : (handle env t draws (.postNetworks authorization (some body))).2.status = 201)
    (hdrawn : generateAwgParams random = some draws.awg) (hlegal : LegalParams (bodyAwg body)) :
    ∃ row, (handle env t draws (.postNetworks authorization (some body))).1.networks.get?
        draws.id = some row ∧
      (Consistent row.awg ↔ Compatible ((bodyAwg body).map suppliedInt) draws.awg) := by
  obtain ⟨_, _, row, he, -, hbind, hrows⟩ := created_toRows (created_of_status t haccepted)
  cases he
  refine ⟨row, ?_, consistent_bindAwg_iff hlegal
    ((generateAwgParams_iff _).mp ⟨random, hdrawn⟩) hbind⟩
  show (postNetworks env t authorization (some body) draws).1.toRows.networks.get? draws.id = _
  rw [hrows]
  exact OMap.get?_set_self ..

/-- The body of a request for a network that names nothing but these parameters. -/
def meshBody (params : List (JsString × Json)) : Json :=
  .obj ((js "name", .str (js "mesh")) :: (js "subnet", .str (js "10.0.0.0/24")) :: params)

/-- A draw of the parameters of `drawsOf`. -/
def sampleRandom : AwgRandom where
  jc := ⟨1, 6, by decide⟩
  jmin := ⟨0, 1, by decide⟩
  jmax := ⟨0, 1, by decide⟩
  s1 := ⟨5, 136, by decide⟩
  s2 := ⟨15, 136, by decide⟩
  words := [1, 5, 5, 6, 7, 8]

/-- The network of `meshBody` after the draws of `drawsOf`, with a given `jmin`. -/
def meshRow (jmin : Int) : NetworkRecord where
  name := js "mesh"
  token := js "token"
  subnet := js "10.0.0.0/24"
  listenPort := 51820
  awg := Awg.map Scalar.ofInt ⟨4, jmin, 100, 20, 30, 5, 6, 7, 8⟩

theorem awg_consistent_iff_jmin :
    ∃ row, (handle sampleEnv .empty (drawsOf networkUuid) (.postNetworks sampleAdmin
        (some (meshBody [(js "jmin", .num (.int 90))])))).1.networks.get? networkUuid = some row ∧
      (Consistent row.awg ↔
        Compatible ((bodyAwg (meshBody [(js "jmin", .num (.int 90))])).map suppliedInt)
          (drawsOf networkUuid).awg) :=
  awg_consistent_iff sampleEnv .empty sampleAdmin (meshBody [(js "jmin", .num (.int 90))])
    (drawsOf networkUuid) sampleRandom (by decide) (by decide) ⟨by decide, by decide⟩

/-- A `jmin` of 500 beside the drawn `jmax` of 100. -/
theorem awg_inconsistent : generateAwgParams sampleRandom = some (drawsOf networkUuid).awg ∧
    LegalParams (bodyAwg (meshBody [(js "jmin", .num (.int 500))])) ∧
    (handle sampleEnv .empty (drawsOf networkUuid) (.postNetworks sampleAdmin
      (some (meshBody [(js "jmin", .num (.int 500))])))).2.status = 201 ∧
    ∃ row, (handle sampleEnv .empty (drawsOf networkUuid) (.postNetworks sampleAdmin
      (some (meshBody [(js "jmin", .num (.int 500))])))).1.networks.get? networkUuid = some row ∧
        ¬ Consistent row.awg := by
  refine ⟨by decide, ⟨by decide, by decide⟩, by decide, meshRow 500, by decide, fun h => ?_⟩
  have hparams : ConsistentParams ⟨4, 500, 100, 20, 30, 5, 6, 7, 8⟩ :=
    (consistent_map_iff _).mp h
  exact absurd hparams.sizes (by decide)

/-! ## Runs -/

/-- In a run every network keeps the parameters that the request for it stored, consistent
or not. -/
theorem network_consistent_iff (env : Env) (es : List Event) {id : NetworkId}
    {row : NetworkRecord} (hrow : (exec env es).tables.networks.get? id = some row) :
    ∃ body draws, CreatedBy env es id body draws ∧
      (LegalParams (bodyAwg body) → Generated draws.awg →
        (Consistent row.awg ↔ Compatible ((bodyAwg body).map suppliedInt) draws.awg)) := by
  obtain ⟨body, draws, hcreated, hbind⟩ := createdBy_of_network env es hrow
  exact ⟨body, draws, hcreated, fun hlegal hd => consistent_bindAwg_iff hlegal hd hbind⟩

end Meshezia.Api
