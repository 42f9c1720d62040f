import Meshezia.Api.Allocation

/-!
# The IPv4 codec (`isValidIPv4`, `isValidCIDR`, `subnet.ts`)

The guards go through `Number` and `String`, the parser splits the text, and the arithmetic is
that of JavaScript's 32-bit operators, whose results are signed.  They agree on all that the
guards let through:

    isValidIPv4 s ↔ s is four decimal numbers joined by dots; of such a text octetsToInt is
      the number below 2^32, from which intToOctets and octetsToString get it back; and
      isValidCIDR s → parseCidr s is the address and the prefix accepted       (ipv4_codec)

Of `Number` it takes that it reads decimal numbers back, and that it reads no integer from a
text with a slash (`SlashFree`).
-/

namespace Meshezia.Api

/-! ## The operators -/

/-- An operand as a signed 32-bit integer. -/
def toInt32 (n : JsNumber) : Int := (BitVec.ofNat 32 (toUint32 n)).toInt

/-- `a << n`. -/
def shl (a : Int) (n : Nat) : Int := (BitVec.ofInt 32 a <<< n).toInt

/-- `a | b`. -/
def bitor (a b : Int) : Int := (BitVec.ofInt 32 a ||| BitVec.ofInt 32 b).toInt

/-- `a & b`. -/
def bitand (a b : Int) : Int := (BitVec.ofInt 32 a &&& BitVec.ofInt 32 b).toInt

/-- `a >>> n`. -/
def ushr (a : Int) (n : Nat) : Nat := (BitVec.ofInt 32 a >>> n).toNat

/-- `octetsToInt` with these. -/
def octetsToIntSigned (o : List JsNumber) : Nat :=
  let at' := fun i => toInt32 (o.getD i .nan)
  ushr (bitor (bitor (bitor (shl (at' 0) 24) (shl (at' 1) 16)) (shl (at' 2) 8)) (at' 3)) 0

/-- `intToOctets` with these. -/
def intToOctetsSigned (n : Nat) : List Int :=
  [bitand (ushr n 24) 0xff, bitand (ushr n 16) 0xff, bitand (ushr n 8) 0xff, bitand n 0xff]

theorem octetsToIntSigned_eq (o : List JsNumber) : octetsToIntSigned o = octetsToInt o := by
  have hbyte : ∀ i, (BitVec.ofNat 32 (toUint32 (o.getD i .nan))).toNat = (octetAt o i).toNat :=
    fun i => rfl
  simp only [octetsToIntSigned, ushr, bitor, shl, toInt32, BitVec.ofInt_toInt, BitVec.toNat_or,
    BitVec.toNat_shiftLeft, BitVec.ushiftRight_zero, hbyte]
  simp only [octetsToInt, UInt32.toNat_or, UInt32.toNat_shiftLeft]
  rfl

theorem intToOctetsSigned_eq (n : Nat) :
    intToOctetsSigned n = (intToOctets n).map fun o : Nat => (o : Int) := by
  have hand : ∀ k : Nat, k < 4294967296 → bitand k 0xff = ((k &&& 255 : Nat) : Int) := by
    intro k hk
    have hbits : (BitVec.ofInt 32 (k : Int)).toNat = k := by
      rw [BitVec.ofInt_natCast, BitVec.toNat_ofNat, Nat.mod_eq_of_lt hk]
    have hnat : (BitVec.ofInt 32 (k : Int) &&& BitVec.ofInt 32 0xff).toNat = k &&& 255 := by
      rw [BitVec.toNat_and, hbits]
      rfl
    have hle : k &&& 255 ≤ 255 := Nat.and_le_right
    rw [bitand, BitVec.toInt_eq_toNat_of_lt (by rw [hnat]; omega), hnat]
  have hushr : ∀ k, ushr n k = (n % 4294967296) >>> k := by
    intro k
    rw [ushr, BitVec.toNat_ushiftRight, BitVec.ofInt_natCast, BitVec.toNat_ofNat]
  have hlt : ∀ k, ushr n k < 4294967296 := fun k => BitVec.isLt _
  have hlow : bitand n 0xff = bitand (ushr n 0) 0xff := by
    rw [bitand, bitand, ushr, BitVec.ushiftRight_zero, BitVec.ofInt_natCast, BitVec.ofInt_natCast,
      BitVec.ofNat_toNat, BitVec.setWidth_eq]
  rw [intToOctetsSigned, hlow, hand _ (hlt 24), hand _ (hlt 16), hand _ (hlt 8), hand _ (hlt 0),
    hushr, hushr, hushr, hushr]
  rfl

/-! ## The codec -/

theorem isOctet_decimal (lang : Coercions) {n : Nat} (h : n ≤ 255) :
    isOctet lang (decimal n) = true := by
  rw [isOctet, lang.number_decimal n (by omega)]
  simp only [Int.toNat_natCast, beq_self_eq_true, Bool.and_true, Bool.and_eq_true,
    decide_eq_true_eq]
  omega

theorem isIPv4_iff (lang : Coercions) (s : JsString) : isIPv4 lang s = true ↔ CanonicalIPv4 s := by
  constructor
  · exact canonical_of_isIPv4
  · rintro ⟨octets, hlen, hle, rfl⟩
    have hne : octets ≠ [] := by
      rintro rfl
      cases hlen
    rw [isIPv4, splitOn_dotted hne, List.length_map, hlen, Bool.and_eq_true, List.all_eq_true]
    refine ⟨rfl, fun p hp => ?_⟩
    obtain ⟨o, ho, rfl⟩ := List.mem_map.mp hp
    exact isOctet_decimal lang (hle o ho)

/-- `a.b.c.d` as a number. -/
def bigEndian (octets : List Nat) : Nat := octets.foldl (fun n o => n * 256 + o) 0

theorem map_number_dotted {lang : Coercions} {octets : List Nat} (hlen : octets.length = 4)
    (hle : ∀ o ∈ octets, o ≤ 255) : ((dotted octets).splitOn 46).map lang.number =
      octets.map fun o : Nat => JsNumber.int o := by
  have hne : octets ≠ [] := by
    rintro rfl
    cases hlen
  rw [splitOn_dotted hne]
  exact numbers_of_decimal hle

theorem octetsToInt_map {octets : List Nat} (hlen : octets.length = 4)
    (hle : ∀ o ∈ octets, o ≤ 255) :
    octetsToInt (octets.map fun o : Nat => JsNumber.int o) = bigEndian octets := by
  obtain ⟨a, b, c, d, rfl⟩ := List.length_eq_four.mp hlen
  have h := octetsToInt_eq (hle a (by simp)) (hle b (by simp)) (hle c (by simp)) (hle d (by simp))
  refine h.trans ?_
  show _ = (((0 * 256 + a) * 256 + b) * 256 + c) * 256 + d
  omega

theorem bigEndian_lt {octets : List Nat} (hlen : octets.length = 4) (hle : ∀ o ∈ octets, o ≤ 255) :
    bigEndian octets < 4294967296 := by
  obtain ⟨a, b, c, d, rfl⟩ := List.length_eq_four.mp hlen
  have ha := hle a (by simp)
  have hb := hle b (by simp)
  have hc := hle c (by simp)
  have hd := hle d (by simp)
  show (((0 * 256 + a) * 256 + b) * 256 + c) * 256 + d < _
  omega

theorem intToOctets_bigEndian {octets : List Nat} (hlen : octets.length = 4)
    (hle : ∀ o ∈ octets, o ≤ 255) : intToOctets (bigEndian octets) = octets := by
  obtain ⟨a, b, c, d, rfl⟩ := List.length_eq_four.mp hlen
  have ha := hle a (by simp)
  have hb := hle b (by simp)
  have hc := hle c (by simp)
  have hd := hle d (by simp)
  have hval : bigEndian [a, b, c, d] = a * 16777216 + b * 65536 + c * 256 + d := by
    show (((0 * 256 + a) * 256 + b) * 256 + c) * 256 + d = _
    omega
  rw [intToOctets_eq, hval]
  simp only [List.cons.injEq, and_true]
  omega

theorem bigEndian_intToOctets {n : Nat} (hn : n < 4294967296) : bigEndian (intToOctets n) = n := by
  rw [intToOctets_eq]
  show (((0 * 256 + n / 16777216 % 256) * 256 + n / 65536 % 256) * 256 + n / 256 % 256) * 256 +
    n % 256 = n
  omega

/-- What `isValidCIDR` accepts is parsed as it is checked. -/
theorem parseCidr_of_isCIDR {lang : Coercions} (hlang : SlashFree lang) {s : JsString}
    (h : isCIDR lang s = true) : ∃ octets, ∃ length : Nat, octets.length = 4 ∧
      (∀ o ∈ octets, o ≤ 255) ∧ s.take (s.idxOf 47) = dotted octets ∧
      8 ≤ length ∧ length ≤ 30 ∧ lang.number (s.drop (s.idxOf 47 + 1)) = .int length ∧
      parseCidr lang s = (octets.map fun o : Nat => JsNumber.int o, .int length) := by
  obtain ⟨⟨octets, hlen, hle, htext⟩, ⟨length, h8, h30, hlength⟩, hsplit⟩ := isCIDR_split h
  have hne : octets ≠ [] := by
    rintro rfl
    cases hlen
  refine ⟨octets, length, hlen, hle, htext, h8, h30, hlength, ?_⟩
  rw [htext] at hsplit
  conv => lhs; rw [hsplit]
  exact parseCidr_joinAt hlang hne hle hlength

/-- **The codec.**  What the guard accepts are the canonical addresses; the arithmetic, which
is that of the signed operators, gives each its number and back; and the parser reads what
`isValidCIDR` has checked. -/
theorem ipv4_codec {lang : Coercions} (hlang : SlashFree lang) :
    (∀ s, (isValidIPv4 lang (some (.str s))).isSome = true ↔ CanonicalIPv4 s) ∧
    (∀ s, CanonicalIPv4 s →
      let n := octetsToInt ((s.splitOn 46).map lang.number)
      (∃ octets, s = dotted octets ∧ n = bigEndian octets) ∧ n < 4294967296 ∧
        octetsToString (intToOctets n) = s) ∧
    (∀ n < 4294967296, octetsToInt ((intToOctets n).map fun o : Nat => JsNumber.int o) = n) ∧
    (∀ octets, octets.length = 4 → (∀ o ∈ octets, o ≤ 255) →
      intToOctets (octetsToInt (octets.map fun o : Nat => JsNumber.int o)) = octets) ∧
    (∀ o, octetsToInt o = octetsToIntSigned o) ∧
    (∀ n, (intToOctets n).map (fun o : Nat => (o : Int)) = intToOctetsSigned n) ∧
    ∀ s, (isValidCIDR lang (some (.str s))).isSome = true →
      ∃ octets, ∃ length : Nat, octets.length = 4 ∧ (∀ o ∈ octets, o ≤ 255) ∧
        s.take (s.idxOf 47) = dotted octets ∧ 8 ≤ length ∧ length ≤ 30 ∧
        lang.number (s.drop (s.idxOf 47 + 1)) = .int length ∧
        parseCidr lang s = (octets.map fun o : Nat => JsNumber.int o, .int length) := by
  have hguard : ∀ {p : JsString → Bool} {s : JsString},
      ((isString (some (.str s))).filter p).isSome = p s := by
    intro p s
    cases hp : p s <;> simp [isString, Option.filter, hp]
  refine ⟨fun s => ?_, ?_, fun n hn => ?_, fun octets hlen hle => ?_, fun o => ?_, fun n => ?_,
    fun s hs => ?_⟩
  · rw [isValidIPv4, hguard]
    exact isIPv4_iff lang s
  · rintro s ⟨octets, hlen, hle, rfl⟩ n
    have hn : n = bigEndian octets := by
      show octetsToInt _ = _
      rw [map_number_dotted hlen hle]
      exact octetsToInt_map hlen hle
    rw [hn]
    refine ⟨⟨octets, rfl, rfl⟩, bigEndian_lt hlen hle, ?_⟩
    rw [intToOctets_bigEndian hlen hle]
    rfl
  · rw [octetsToInt_map rfl (intToOctets_le n)]
    exact bigEndian_intToOctets hn
  · rw [octetsToInt_map hlen hle]
    exact intToOctets_bigEndian hlen hle
  · exact (octetsToIntSigned_eq o).symm
  · exact (intToOctetsSigned_eq n).symm
  · rw [isValidCIDR, hguard] at hs
    exact parseCidr_of_isCIDR hlang hs

/-- An address in the half of the space whose numbers are negative as signed ones. -/
theorem ipv4_codec_negative :
    octetsToInt [.int 200, .int 0, .int 0, .int 1] = 3355443201 ∧
      shl 200 24 = -939524096 ∧
      ((isValidIPv4 plainCoercions (some (.str (js "200.0.0.1")))).isSome = true ↔
        CanonicalIPv4 (js "200.0.0.1")) ∧
      intToOctets (octetsToInt ([200, 0, 0, 1].map fun o : Nat => JsNumber.int o)) =
        [200, 0, 0, 1] := by
  have h := ipv4_codec slashFree_plainCoercions
  exact ⟨by decide, by decide, h.1 _, h.2.2.2.1 [200, 0, 0, 1] rfl (by decide)⟩

end Meshezia.Api
