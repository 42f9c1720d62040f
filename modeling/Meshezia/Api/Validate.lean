import Meshezia.Lib.JsValue

/-!
# Validation helpers (`api.ts`)

Each `isValid…` is a type guard over a field of a request body: it returns the typed
value of a field that passes and `none` for one that does not (also for a field that is
absent).

What the two guards of addresses and keys let through is well formed in the sense the
agent's commands need:

    isValidIPv4 lang v = some s  →  CanonicalIPv4 s     (canonical_of_isValidIPv4)
    isValidPubkey v = some s     →  Base64Key s         (base64Key_of_isValidPubkey)
-/

namespace Meshezia.Api

/-! ## The regular expressions -/

def isHex (c : UInt16) : Bool := (48 ≤ c && c ≤ 57) || (65 ≤ c && c ≤ 70) || (97 ≤ c && c ≤ 102)

/-- The alphabet of base64. -/
def isBase64 (c : UInt16) : Bool :=
  (65 ≤ c && c ≤ 90) || (97 ≤ c && c ≤ 122) || (48 ≤ c && c ≤ 57) || c == 43 || c == 47

/-- Five groups of hex digits, joined by hyphens. -/
def UUID_RE (s : JsString) : Bool :=
  (s.splitOn 45).map List.length == [8, 4, 4, 4, 12] && (s.splitOn 45).all fun g => g.all isHex

/-- 43 base64 letters and `=`. -/
def PUBKEY_RE (s : JsString) : Bool :=
  (s.take 43).length == 43 && (s.take 43).all isBase64 && s.drop 43 == [61]

/-! ## Type guards -/

def isString : Option Json → Option JsString
  | some (.str s) => some s
  | _ => none

def isValidUUID (v : Option Json) : Option JsString := (isString v).filter UUID_RE

/-- One part of an address: a number from 0 to 255, written as `String` writes it. -/
def isOctet (lang : Coercions) (p : JsString) : Bool :=
  match lang.number p with
  | .int n => decide (0 ≤ n) && decide (n ≤ 255) && p == decimal n.toNat
  | _ => false

def isIPv4 (lang : Coercions) (s : JsString) : Bool :=
  (s.splitOn 46).length == 4 && (s.splitOn 46).all (isOctet lang)

def isValidIPv4 (lang : Coercions) (v : Option Json) : Option JsString :=
  (isString v).filter (isIPv4 lang)

def isPrefixLength (lang : Coercions) (s : JsString) : Bool :=
  match lang.number s with
  | .int n => decide (8 ≤ n) && decide (n ≤ 30)
  | _ => false

/-- An address, a slash and a prefix from 8 to 30. -/
def isCIDR (lang : Coercions) (s : JsString) : Bool :=
  s.contains 47 && isPrefixLength lang (s.drop (s.idxOf 47 + 1)) &&
    isIPv4 lang (s.take (s.idxOf 47))

def isValidCIDR (lang : Coercions) (v : Option Json) : Option JsString :=
  (isString v).filter (isCIDR lang)

def isValidName (v : Option Json) : Option JsString :=
  (isString v).filter fun s => decide (1 ≤ s.length) && decide (s.length ≤ 255) &&
    s.all fun c => !(c ≤ 31 || c == 127)

/-- An integer in a range. -/
def isIntegerIn (low high : Int) : Option Json → Option Int
  | some (.num (.int n)) => if decide (low ≤ n) && decide (n ≤ high) then some n else none
  | _ => none

def isValidPort (v : Option Json) : Option Int := isIntegerIn 1 65535 v

def isValidPubkey (v : Option Json) : Option JsString := (isString v).filter PUBKEY_RE

def isValidMemo (v : Option Json) : Option JsString :=
  (isString v).filter fun s => decide (s.length ≤ 1024)

def isValidTTL (v : Option Json) : Option Int := isIntegerIn 0 31536000 v

/-! ## What passes -/

/-- Numbers joined by dots. -/
def dotted (octets : List Nat) : JsString := ([46] : JsString).intercalate (octets.map decimal)

/-- Four decimal numbers from 0 to 255 without leading zeros, joined by dots. -/
def CanonicalIPv4 (s : JsString) : Prop :=
  ∃ octets : List Nat, octets.length = 4 ∧ (∀ o ∈ octets, o ≤ 255) ∧ s = dotted octets

/-- A key of 32 bytes in base64: 44 characters, the last one padding. -/
def Base64Key (s : JsString) : Prop :=
  s.length = 44 ∧ ∃ letters, (∀ c ∈ letters, isBase64 c = true) ∧ s = letters ++ [61]

theorem mem_dotted {octets : List Nat} {c : UInt16} (h : c ∈ dotted octets) :
    isDigit c = true ∨ c = 46 := by
  unfold dotted at h
  induction octets with
  | nil => cases h
  | cons a rest ih =>
    cases rest with
    | nil => exact Or.inl (isDigit_of_mem_decimal (by simpa using h))
    | cons b rest =>
      rw [List.map_cons, List.map_cons, List.intercalate_cons_cons, List.mem_append,
        List.mem_append] at h
      rcases h with (h | h) | h
      · exact Or.inl (isDigit_of_mem_decimal h)
      · exact Or.inr (List.mem_singleton.mp h)
      · exact ih h

theorem digit_or_dot_of_canonical {s : JsString} (h : CanonicalIPv4 s) {c : UInt16} (hc : c ∈ s) :
    isDigit c = true ∨ c = 46 := by
  obtain ⟨octets, -, -, rfl⟩ := h
  exact mem_dotted hc

theorem canonical_ne_nil {s : JsString} (h : CanonicalIPv4 s) : s ≠ [] := by
  obtain ⟨octets, hlen, -, rfl⟩ := h
  have hne := decimal_ne_nil
  cases octets with
  | nil => cases hlen
  | cons a rest =>
    cases rest with
    | nil => simpa [dotted] using hne a
    | cons b rest => simp [dotted, List.intercalate_cons_cons, hne a]

theorem octet_of_isOctet {lang : Coercions} {p : JsString} (h : isOctet lang p = true) :
    ∃ n ≤ 255, p = decimal n := by
  unfold isOctet at h
  split at h
  · rename_i n _
    simp only [Bool.and_eq_true, decide_eq_true_eq, beq_iff_eq] at h
    exact ⟨n.toNat, by omega, h.2⟩
  · cases h

theorem canonical_of_isIPv4 {lang : Coercions} {s : JsString} (h : isIPv4 lang s = true) :
    CanonicalIPv4 s := by
  simp only [isIPv4, Bool.and_eq_true, beq_iff_eq, List.all_eq_true] at h
  obtain ⟨hlen, hall⟩ := h
  -- the number each part writes
  have hparts : (s.splitOn 46).map (fun p => decimal (ofDigits p)) = s.splitOn 46 := by
    conv => rhs; rw [← List.map_id (s.splitOn 46)]
    apply List.map_congr_left
    intro p hp
    obtain ⟨n, _, rfl⟩ := octet_of_isOctet (hall p hp)
    simp [ofDigits_decimal]
  refine ⟨(s.splitOn 46).map ofDigits, by simpa using hlen, ?_, ?_⟩
  · intro o ho
    obtain ⟨p, hp, rfl⟩ := List.mem_map.mp ho
    obtain ⟨n, hn, rfl⟩ := octet_of_isOctet (hall p hp)
    rw [ofDigits_decimal]
    exact hn
  · have hjoin : ([46] : JsString).intercalate (s.splitOn 46) = s := List.intercalate_splitOn 46
    rw [dotted, List.map_map]
    show s = ([46] : JsString).intercalate ((s.splitOn 46).map fun p => decimal (ofDigits p))
    rw [hparts, hjoin]

theorem canonical_of_isValidIPv4 {lang : Coercions} {v : Option Json} {s : JsString}
    (h : isValidIPv4 lang v = some s) : CanonicalIPv4 s := by
  simp only [isValidIPv4, Option.filter_eq_some_iff] at h
  exact canonical_of_isIPv4 h.2

theorem base64Key_of_isValidPubkey {v : Option Json} {s : JsString}
    (h : isValidPubkey v = some s) : Base64Key s := by
  simp only [isValidPubkey, Option.filter_eq_some_iff, PUBKEY_RE, Bool.and_eq_true, beq_iff_eq,
    List.all_eq_true] at h
  obtain ⟨_, ⟨hlen, hall⟩, hlast⟩ := h
  have hs : s.take 43 ++ [61] = s := by rw [← hlast, List.take_append_drop]
  constructor
  · have := congrArg List.length hs
    simp only [List.length_append, hlen, List.length_cons, List.length_nil] at this
    omega
  · exact ⟨s.take 43, hall, hs.symm⟩

theorem port_of_isValidPort {v : Option Json} {n : Int} (h : isValidPort v = some n) :
    1 ≤ n ∧ n ≤ 65535 := by
  unfold isValidPort isIntegerIn at h
  split at h
  · split at h
    · rename_i hb
      cases h
      simpa using hb
    · cases h
  · cases h

end Meshezia.Api
