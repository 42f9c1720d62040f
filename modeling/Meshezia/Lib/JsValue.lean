import Meshezia.Lib.JsString

/-!
# JavaScript values

What `JSON.parse` returns (`Json`), with `undefined` as the `none` of `Option Json`,
and the numbers among them (`JsNumber`: an integral double, a fraction, or neither).

* `decimal n`: `String(n)` of a natural number, read back by `ofDigits` (`ofDigits_decimal`).
* `Coercions`: `Number(s)` and `String(v)`, which are the platform's.  `plainCoercions`
  reads and writes digits only.
* `toUint32`: the wrap of `>>> 0`.
-/

namespace Meshezia

/-- A string of ASCII letters. -/
def js (s : String) : JsString := s.toList.map fun c => c.toNat.toUInt16

/-! ## Numbers -/

/-- A double: an integer (also `-0`), a fraction with its text and its floor, an
infinity, or `NaN`. -/
inductive JsNumber where
  | int (n : Int)
  | frac (text : JsString) (floor : Int)
  | infinity (negative : Bool)
  | nan
deriving DecidableEq, Repr

/-- `Number.isInteger`. -/
def JsNumber.isInteger : JsNumber → Bool
  | .int _ => true
  | _ => false

/-- `n >>> 0`: towards zero to an integer, then modulo 2^32. -/
def toUint32 : JsNumber → Nat
  | .int n => (n % 4294967296).toNat
  | .frac _ floor => ((if floor < 0 then floor + 1 else floor) % 4294967296).toNat
  | .infinity _ | .nan => 0

/-! ## Decimal numbers -/

def digitUnit (c : Char) : UInt16 := c.toNat.toUInt16

/-- `String(n)`. -/
def decimal (n : Nat) : JsString := (Nat.toDigits 10 n).map digitUnit

def isDigit (c : UInt16) : Bool := 48 ≤ c && c ≤ 57

theorem bounds_of_isDigit {c : Char} (h : c.isDigit = true) : 48 ≤ c.toNat ∧ c.toNat ≤ 57 := by
  simp only [Char.isDigit, Bool.and_eq_true, decide_eq_true_eq, ge_iff_le,
    UInt32.le_iff_toNat_le] at h
  exact h

theorem toNat_digitUnit {c : Char} (h : c.isDigit = true) : (digitUnit c).toNat = c.toNat := by
  have hc := bounds_of_isDigit h
  show c.toNat % 65536 = c.toNat
  omega

theorem isDigit_digitUnit {c : Char} (h : c.isDigit = true) : isDigit (digitUnit c) = true := by
  have hu := toNat_digitUnit h
  simp only [isDigit, Bool.and_eq_true, decide_eq_true_eq, UInt16.le_iff_toNat_le, hu]
  exact bounds_of_isDigit h

theorem isDigit_of_mem_decimal {n : Nat} {c : UInt16} (h : c ∈ decimal n) : isDigit c = true := by
  obtain ⟨d, hd, rfl⟩ := List.mem_map.mp h
  exact isDigit_digitUnit (Nat.isDigit_of_mem_toDigits (by omega) (by omega) hd)

theorem decimal_ne_nil (n : Nat) : decimal n ≠ [] := by
  simp [decimal, Nat.toDigits_ne_nil]

/-- `String(n)` of an integer. -/
def decimalInt : Int → JsString
  | .ofNat n => decimal n
  | .negSucc n => 45 :: decimal (n + 1)

/-- The number a string of digits writes. -/
def ofDigits (s : JsString) : Nat := s.foldl (fun acc c => 10 * acc + (c.toNat - 48)) 0

theorem ofDigits_decimal (n : Nat) : ofDigits (decimal n) = n := by
  have hfold : ∀ (l : List Char) (acc : Nat), (∀ c ∈ l, c.isDigit = true) →
      (l.map digitUnit).foldl (fun acc c => 10 * acc + (c.toNat - 48)) acc =
        Nat.ofDigitChars 10 l acc := by
    intro l
    induction l with
    | nil => intro acc _; rfl
    | cons c rest ih =>
      intro acc hl
      rw [List.map_cons, List.foldl_cons, Nat.ofDigitChars_cons,
        toNat_digitUnit (hl c (by simp)), ih _ fun d hd => hl d (by simp [hd])]
      rfl
  show (decimal n).foldl _ 0 = n
  rw [decimal, hfold _ 0 fun c hc => Nat.isDigit_of_mem_toDigits (by omega) (by omega) hc,
    Nat.ofDigitChars_ten_toDigits]

/-! ## JSON -/

inductive Json where
  | null
  | bool (b : Bool)
  | num (n : JsNumber)
  | str (s : JsString)
  | arr (items : List Json)
  | obj (fields : List (JsString × Json))

/-- `v.key` of a value other than `null`: `none` is `undefined`.  Of a key that is
written twice the last value counts. -/
def Json.get? : Json → JsString → Option Json
  | .obj fields, key => (fields.reverse.find? fun e => e.1 == key).map Prod.snd
  | _, _ => none

/-- `v ? … : …`. -/
def Json.truthy : Json → Bool
  | .null => false
  | .bool b => b
  | .num n => n != .int 0 && n != .nan
  | .str s => !s.isEmpty
  | .arr _ | .obj _ => true

/-! ## Coercions -/

/-- `Number(s)`, and `String(v)` or `none` when it throws. -/
structure Coercions where
  number : JsString → JsNumber
  string : Json → Option JsString
  number_decimal : ∀ n < 9007199254740992, number (decimal n) = .int n
  string_str : ∀ s, string (.str s) = some s

/-- Coercions that know digits only: any other string reads as `NaN`, and what is
neither a string nor an integer is written as an object. -/
def plainCoercions : Coercions where
  number s := if s.isEmpty || !s.all isDigit then .nan else .int (ofDigits s)
  string
    | .str s => some s
    | .num (.int n) => some (decimalInt n)
    | _ => some (js "[object Object]")
  number_decimal n _ := by
    have hall : (decimal n).all isDigit = true :=
      List.all_eq_true.mpr fun c hc => isDigit_of_mem_decimal hc
    have hne : (decimal n).isEmpty = false := by
      simpa using decimal_ne_nil n
    simp [hall, hne, ofDigits_decimal]
  string_str _ := rfl

end Meshezia
