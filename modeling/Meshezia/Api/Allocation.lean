import Mathlib.Algebra.Ring.Nat
import Meshezia.Api.Subnet

/-!
# Which address is allocated

`allocateIp` starts behind the address that the CIDR has, which need not be the network
address of its subnet, and walks as many addresses as the subnet has hosts.  So it passes
over the hosts up to that address, and goes on behind the last host (`broadcast_allocated`).
It returns the lowest free host exactly when the hosts it passes over are in use, and either
one of the others is free or all that it walks behind the last host is in use (`WalkRight`):

    isValidCIDR v = some subnet → ∃ address and length that it denotes,
      ∀ used, LowestFree (allocateIp used subnet) ↔ WalkRight used         (allocation_iff)
-/

namespace Meshezia.Api

/-! ## Addresses as numbers -/

/-- `a.b.c.d` of a number below 2^32. -/
def addressText (n : Nat) : JsString :=
  dotted [n / 16777216 % 256, n / 65536 % 256, n / 256 % 256, n % 256]

theorem intToOctets_eq (n : Nat) :
    intToOctets n = [n / 16777216 % 256, n / 65536 % 256, n / 256 % 256, n % 256] := by
  have hbyte : ∀ m : Nat, m &&& 255 = m % 256 := fun m => Nat.and_two_pow_sub_one_eq_mod m 8
  have hword : (UInt32.ofNat n).toNat = n % 4294967296 := rfl
  simp only [intToOctets, UInt32.toNat_and, UInt32.toNat_shiftRight, hword,
    Nat.shiftRight_eq_div_pow]
  show [n % 4294967296 / 16777216 &&& 255, n % 4294967296 / 65536 &&& 255,
    n % 4294967296 / 256 &&& 255, n % 4294967296 &&& 255] = _
  simp only [hbyte, List.cons.injEq, and_true]
  omega

theorem octetsToString_intToOctets (n : Nat) :
    octetsToString (intToOctets n) = addressText n := by
  rw [intToOctets_eq]
  rfl

theorem addressText_mod (n : Nat) : addressText (n % 4294967296) = addressText n := by
  rw [← octetsToString_intToOctets, ← octetsToString_intToOctets, intToOctets_eq, intToOctets_eq]
  congr 1
  simp only [List.cons.injEq, and_true]
  omega

theorem decimal_injective {a b : Nat} (h : decimal a = decimal b) : a = b := by
  rw [← ofDigits_decimal a, h, ofDigits_decimal]

theorem splitOn_dotted {octets : List Nat} (h : octets ≠ []) :
    (dotted octets).splitOn 46 = octets.map decimal := by
  refine List.splitOn_intercalate 46 (fun l hl => ?_) (by simpa using h)
  obtain ⟨o, -, rfl⟩ := List.mem_map.mp hl
  intro hdot
  exact absurd (isDigit_of_mem_decimal hdot) (by decide)

theorem dotted_injective {a b : List Nat} (ha : a ≠ []) (hb : b ≠ []) (h : dotted a = dotted b) :
    a = b := by
  have hmap : a.map decimal = b.map decimal := by
    rw [← splitOn_dotted ha, h, splitOn_dotted hb]
  exact List.map_injective_iff.mpr (fun _ _ => decimal_injective) hmap

theorem addressText_injective {m n : Nat} (hm : m < 4294967296) (hn : n < 4294967296)
    (h : addressText m = addressText n) : m = n := by
  have hoctets := dotted_injective (by simp) (by simp) h
  simp only [List.cons.injEq, and_true] at hoctets
  omega

/-! ## The loop -/

theorem firstFree_eq_none {used : List JsString} {ip count : Nat} :
    firstFree used ip count = none ↔ ∀ n, ip ≤ n → n < ip + count → addressText n ∈ used := by
  induction count generalizing ip with
  | zero =>
    simp only [firstFree, true_iff]
    intro n h1 h2
    omega
  | succ count ih =>
    simp only [firstFree, octetsToString_intToOctets, List.contains_iff_mem]
    split
    · rename_i hused
      rw [ih]
      constructor
      · intro h n h1 h2
        rcases Nat.eq_or_lt_of_le h1 with rfl | h1
        · exact hused
        · exact h n h1 (by omega)
      · intro h n h1 h2
        exact h n (by omega) (by omega)
    · rename_i hfree
      simp only [reduceCtorEq, false_iff]
      intro h
      exact hfree (h ip (Nat.le_refl _) (by omega))

theorem firstFree_eq_some {used : List JsString} {ip count : Nat} {s : JsString} :
    firstFree used ip count = some s ↔ ∃ n, ip ≤ n ∧ n < ip + count ∧ s = addressText n ∧
      s ∉ used ∧ ∀ m, ip ≤ m → m < n → addressText m ∈ used := by
  induction count generalizing ip with
  | zero =>
    simp only [firstFree, reduceCtorEq, false_iff]
    rintro ⟨n, h1, h2, -⟩
    omega
  | succ count ih =>
    simp only [firstFree, octetsToString_intToOctets, List.contains_iff_mem]
    split
    · rename_i hused
      rw [ih]
      constructor
      · rintro ⟨n, h1, h2, hs, hfree, hall⟩
        refine ⟨n, by omega, by omega, hs, hfree, fun m hm1 hm2 => ?_⟩
        rcases Nat.eq_or_lt_of_le hm1 with rfl | hm1
        · exact hused
        · exact hall m hm1 hm2
      · rintro ⟨n, h1, h2, hs, hfree, hall⟩
        rcases Nat.eq_or_lt_of_le h1 with rfl | h1
        · subst hs
          exact absurd hused hfree
        · exact ⟨n, h1, by omega, hs, hfree, fun m hm1 hm2 => hall m (by omega) hm2⟩
    · rename_i hfree
      rw [Option.some.injEq]
      constructor
      · rintro rfl
        exact ⟨ip, Nat.le_refl _, by omega, rfl, hfree, fun m hm1 hm2 => by omega⟩
      · rintro ⟨n, h1, h2, rfl, -, hall⟩
        rcases Nat.eq_or_lt_of_le h1 with rfl | h1
        · rfl
        · exact absurd (hall ip (Nat.le_refl _) h1) hfree

/-! ## What a CIDR denotes -/

/-- The text is an address, a slash and the length of a prefix. -/
def Denotes (lang : Coercions) (subnet : JsString) (address length : Nat) : Prop :=
  ∃ a b c d mask, a ≤ 255 ∧ b ≤ 255 ∧ c ≤ 255 ∧ d ≤ 255 ∧
    subnet = joinAt 47 (dotted [a, b, c, d]) mask ∧ lang.number mask = .int length ∧
    address = a * 16777216 + b * 65536 + c * 256 + d

theorem Denotes.lt {lang : Coercions} {subnet : JsString} {address length : Nat}
    (h : Denotes lang subnet address length) : address < 4294967296 := by
  obtain ⟨a, b, c, d, mask, ha, hb, hc, hd, -, -, rfl⟩ := h
  omega

/-- What is accepted, at its first slash. -/
theorem isCIDR_split {lang : Coercions} {s : JsString} (h : isCIDR lang s = true) :
    CanonicalIPv4 (s.take (s.idxOf 47)) ∧
    (∃ length : Nat, 8 ≤ length ∧ length ≤ 30 ∧
      lang.number (s.drop (s.idxOf 47 + 1)) = .int length) ∧
    s = joinAt 47 (s.take (s.idxOf 47)) (s.drop (s.idxOf 47 + 1)) := by
  simp only [isCIDR, Bool.and_eq_true] at h
  obtain ⟨⟨hslash, hlength⟩, haddress⟩ := h
  refine ⟨canonical_of_isIPv4 haddress, ?_, ?_⟩
  · unfold isPrefixLength at hlength
    split at hlength
    · rename_i n hn
      simp only [Bool.and_eq_true, decide_eq_true_eq] at hlength
      refine ⟨n.toNat, by omega, by omega, ?_⟩
      rw [hn]
      congr 1
      omega
    · cases hlength
  · have hlt : s.idxOf 47 < s.length :=
      List.idxOf_lt_length_of_mem (List.contains_iff_mem.mp hslash)
    have hget : s[s.idxOf 47] = 47 := List.getElem_idxOf hlt
    rw [joinAt]
    conv => lhs; rw [← List.take_append_drop (s.idxOf 47) s]
    rw [List.drop_eq_getElem_cons hlt, hget]

theorem denotes_of_isCIDR {lang : Coercions} {subnet : JsString} (h : isCIDR lang subnet = true) :
    ∃ address length, 8 ≤ length ∧ length ≤ 30 ∧ Denotes lang subnet address length := by
  obtain ⟨⟨octets, hlen, hall, htext⟩, ⟨length, h8, h30, hlength⟩, hsplit⟩ := isCIDR_split h
  obtain ⟨a, b, c, d, rfl⟩ := List.length_eq_four.mp hlen
  rw [htext] at hsplit
  exact ⟨_, length, h8, h30, a, b, c, d, _, hall a (by simp), hall b (by simp), hall c (by simp),
    hall d (by simp), hsplit, hlength, rfl⟩

theorem octetsToInt_eq {a b c d : Nat} (ha : a ≤ 255) (hb : b ≤ 255) (hc : c ≤ 255) (hd : d ≤ 255) :
    octetsToInt [.int a, .int b, .int c, .int d] = a * 16777216 + b * 65536 + c * 256 + d := by
  have hoctet : ∀ n : Nat, n ≤ 255 → (UInt32.ofNat (toUint32 (.int n))).toNat = n := by
    intro n hn
    show ((n : Int) % 4294967296).toNat % 4294967296 = n
    omega
  simp only [octetsToInt, octetAt, List.getD_cons_zero, List.getD_cons_succ, UInt32.toNat_or,
    UInt32.toNat_shiftLeft, hoctet a ha, hoctet b hb, hoctet c hc, hoctet d hd]
  show a <<< 24 % 4294967296 ||| b <<< 16 % 4294967296 ||| c <<< 8 % 4294967296 ||| d = _
  have h8 : ∀ n : Nat, n <<< 8 = n * 256 := fun n => Nat.shiftLeft_eq n 8
  have h16 : ∀ n : Nat, n <<< 16 = n * 65536 := fun n => Nat.shiftLeft_eq n 16
  have h24 : ∀ n : Nat, n <<< 24 = n * 16777216 := fun n => Nat.shiftLeft_eq n 24
  rw [Nat.mod_eq_of_lt (by rw [h24]; omega), Nat.mod_eq_of_lt (by rw [h16]; omega),
    Nat.mod_eq_of_lt (by rw [h8]; omega)]
  -- the four bytes do not overlap
  have hcd : c <<< 8 ||| d = c * 256 + d := by
    rw [← Nat.shiftLeft_add_eq_or_of_lt (by omega), h8]
  have hbcd : b <<< 16 ||| (c * 256 + d) = b * 65536 + (c * 256 + d) := by
    rw [← Nat.shiftLeft_add_eq_or_of_lt (by omega), h16]
  have habcd : a <<< 24 ||| (b * 65536 + (c * 256 + d)) =
      a * 16777216 + (b * 65536 + (c * 256 + d)) := by
    rw [← Nat.shiftLeft_add_eq_or_of_lt (by omega), h24]
  rw [Nat.or_assoc, Nat.or_assoc, hcd, hbcd, habcd]
  omega

/-- What a string of `Number` with a slash in it is: no integer. -/
def SlashFree (lang : Coercions) : Prop :=
  ∀ s : JsString, 47 ∈ s → (lang.number s).isInteger = false

theorem numbers_of_decimal {lang : Coercions} {octets : List Nat} (hle : ∀ o ∈ octets, o ≤ 255) :
    (octets.map decimal).map lang.number = octets.map fun o : Nat => JsNumber.int o := by
  rw [List.map_map]
  refine List.map_congr_left fun o ho => lang.number_decimal o ?_
  have := hle o ho
  omega

/-- A CIDR is parsed at the slash at which it is checked. -/
theorem parseCidr_joinAt {lang : Coercions} (hlang : SlashFree lang) {octets : List Nat}
    (hne : octets ≠ []) (hle : ∀ o ∈ octets, o ≤ 255) {mask : JsString} {length : Int}
    (hmask : lang.number mask = .int length) :
    parseCidr lang (joinAt 47 (dotted octets) mask) =
      (octets.map fun o : Nat => JsNumber.int o, .int length) := by
  have hip : (47 : UInt16) ∉ dotted octets := by
    intro hmem
    rcases mem_dotted hmem with hdigit | hdot
    · exact absurd hdigit (by decide)
    · exact absurd hdot (by decide)
  have hslash : 47 ∉ mask := by
    intro hmem
    have hint := hlang mask hmem
    rw [hmask] at hint
    cases hint
  rw [parseCidr, splitOn_joinAt 47 hip hslash]
  dsimp only
  rw [splitOn_dotted hne, numbers_of_decimal hle, hmask]

theorem parseCidr_eq {lang : Coercions} (hlang : SlashFree lang) {subnet : JsString}
    {address length : Nat} (h : Denotes lang subnet address length) :
    octetsToInt (parseCidr lang subnet).1 = address ∧ (parseCidr lang subnet).2 = .int length := by
  obtain ⟨a, b, c, d, mask, ha, hb, hc, hd, rfl, hmask, rfl⟩ := h
  have hle : ∀ o ∈ [a, b, c, d], o ≤ 255 := by simp [ha, hb, hc, hd]
  rw [parseCidr_joinAt hlang (by simp) hle hmask]
  exact ⟨octetsToInt_eq ha hb hc hd, rfl⟩

theorem allocateIp_eq {lang : Coercions} (hlang : SlashFree lang) {subnet : JsString}
    {address length : Nat} (h : Denotes lang subnet address length) (h8 : 8 ≤ length)
    (h30 : length ≤ 30) (used : List JsString) : allocateIp lang used subnet =
      firstFree used (address + 1) (2 ^ (32 - length) - 2) := by
  obtain ⟨haddress, hlength⟩ := parseCidr_eq hlang h
  have hbits : hostBits (.int length) = 32 - length := by
    show ((32 - (length : Int)) % 32).toNat = 32 - length
    omega
  show firstFree used (octetsToInt (parseCidr lang subnet).1 + 1)
    (1 <<< hostBits (parseCidr lang subnet).2 - 2) = _
  rw [haddress, hlength, hbits, Nat.one_shiftLeft]

theorem Denotes.unique {lang : Coercions} (hlang : SlashFree lang) {subnet : JsString}
    {address length address' length' : Nat} (h : Denotes lang subnet address length)
    (h' : Denotes lang subnet address' length') : address = address' ∧ length = length' := by
  obtain ⟨h1, h2⟩ := parseCidr_eq hlang h
  obtain ⟨h1', h2'⟩ := parseCidr_eq hlang h'
  rw [h1] at h1'
  rw [h2, JsNumber.int.injEq] at h2'
  exact ⟨h1', by omega⟩

/-! ## Hosts -/

section
variable (address length : Nat)

/-- The address of the subnet itself. -/
def network : Nat := address / 2 ^ (32 - length) * 2 ^ (32 - length)

/-- An address of the subnet that is neither its network nor its broadcast address. -/
def Host (n : Nat) : Prop := network address length < n ∧
  n + 1 < network address length + 2 ^ (32 - length)

/-- The result is the lowest host that is not in use, and is none when all are. -/
def LowestFree (used : List JsString) (result : Option JsString) : Prop :=
  (∀ s, result = some s → s ∉ used ∧ ∃ n, Host address length n ∧ s = addressText n ∧
    ∀ m, Host address length m → m < n → addressText m ∈ used) ∧
  (result = none ↔ ∀ n, Host address length n → addressText n ∈ used)

/-- The hosts up to the address are in use, and some other host is not, or nothing is free that
the loop comes to behind the last one. -/
def WalkRight (used : List JsString) : Prop :=
  (∀ n, Host address length n → n ≤ address → addressText n ∈ used) ∧
  ((∃ n, Host address length n ∧ address < n ∧ addressText n ∉ used) ∨
    ∀ n, address < n → n < address + 1 + (2 ^ (32 - length) - 2) →
      network address length + 2 ^ (32 - length) ≤ n + 1 → addressText n ∈ used)

end

/-- The subnet has at least four addresses and lies below 2^32. -/
theorem network_bounds {address length : Nat} (haddress : address < 4294967296) (h8 : 8 ≤ length)
    (h30 : length ≤ 30) : 4 ≤ 2 ^ (32 - length) ∧ 2 ^ (32 - length) ≤ 16777216 ∧
      network address length ≤ address ∧ address < network address length + 2 ^ (32 - length) ∧
      network address length + 2 ^ (32 - length) ≤ 4294967296 := by
  have hsize : 0 < 2 ^ (32 - length) := Nat.two_pow_pos _
  have hlow : 2 ^ 2 ≤ 2 ^ (32 - length) := Nat.pow_le_pow_right (by omega) (by omega)
  have hhigh : 2 ^ (32 - length) ≤ 2 ^ 24 := Nat.pow_le_pow_right (by omega) (by omega)
  have hall : 2 ^ length * 2 ^ (32 - length) = 4294967296 := by
    rw [← Nat.pow_add, show length + (32 - length) = 32 by omega]
  have hquot : address / 2 ^ (32 - length) + 1 ≤ 2 ^ length := by
    rw [Nat.succ_le_iff, Nat.div_lt_iff_lt_mul hsize, hall]
    exact haddress
  have htop := Nat.mul_le_mul_right (2 ^ (32 - length)) hquot
  rw [hall, Nat.add_mul, Nat.one_mul] at htop
  refine ⟨hlow, hhigh, Nat.div_mul_le_self _ _, ?_, htop⟩
  have := Nat.lt_mul_div_succ address hsize
  rw [Nat.mul_add, Nat.mul_one, Nat.mul_comm] at this
  exact this

section
variable {address length : Nat} (haddress : address < 4294967296) (h8 : 8 ≤ length)
  (h30 : length ≤ 30) (used : List JsString)
include haddress h8 h30

theorem walkRight_of_lowestFree (h : LowestFree address length used
    (firstFree used (address + 1) (2 ^ (32 - length) - 2))) : WalkRight address length used := by
  obtain ⟨hsome, hnone⟩ := h
  obtain ⟨hlow, hhigh, hle, hlt, htop⟩ := network_bounds haddress h8 h30
  have hfirst : ∀ n, Host address length n → n ≤ address → addressText n ∈ used := by
    intro n hn hna
    by_contra hfree
    cases hresult : firstFree used (address + 1) (2 ^ (32 - length) - 2) with
    | none => exact hfree (hnone.mp hresult n hn)
    | some s =>
      obtain ⟨-, m, hm, rfl, hmin⟩ := hsome s hresult
      obtain ⟨w, hw1, hw2, htext, -⟩ := firstFree_eq_some.mp hresult
      have hmn : m ≤ n := by
        by_contra hlt
        exact hfree (hmin n hn (by omega))
      -- the address that is returned lies behind the one of the CIDR, also when it has wrapped
      rw [← addressText_mod w] at htext
      have hmw := addressText_injective (by have := hm.2; omega) (Nat.mod_lt _ (by omega)) htext
      have := hm.1
      have := hm.2
      omega
  refine ⟨hfirst, ?_⟩
  by_cases hfree : ∃ n, Host address length n ∧ address < n ∧ addressText n ∉ used
  · exact Or.inl hfree
  · have hall : ∀ n, Host address length n → addressText n ∈ used := by
      intro n hn
      by_contra hno
      by_cases hna : n ≤ address
      · exact hno (hfirst n hn hna)
      · exact hfree ⟨n, hn, by omega, hno⟩
    have hused := firstFree_eq_none.mp (hnone.mpr hall)
    exact Or.inr fun n h1 h2 _ => hused n (by omega) h2

theorem lowestFree_of_walkRight (h : WalkRight address length used) : LowestFree address length used
    (firstFree used (address + 1) (2 ^ (32 - length) - 2)) := by
  obtain ⟨hfirst, hrest⟩ := h
  obtain ⟨hlow, hhigh, hle, hlt, htop⟩ := network_bounds haddress h8 h30
  constructor
  · intro s hs
    obtain ⟨w, hw1, hw2, rfl, hfree, hmin⟩ := firstFree_eq_some.mp hs
    have hhost : Host address length w := by
      refine ⟨by omega, ?_⟩
      by_contra hbehind
      rcases hrest with ⟨n, hn, hna, hnfree⟩ | hbeyond
      · have := hn.2
        exact hnfree (hmin n (by omega) (by omega))
      · exact hfree (hbeyond w (by omega) hw2 (by omega))
    refine ⟨hfree, w, hhost, rfl, fun m hm hmw => ?_⟩
    by_cases hma : m ≤ address
    · exact hfirst m hm hma
    · exact hmin m (by omega) hmw
  · rw [firstFree_eq_none]
    constructor
    · intro hall n hn
      by_cases hna : n ≤ address
      · exact hfirst n hn hna
      · have := hn.2
        exact hall n (by omega) (by omega)
    · intro hall n h1 h2
      by_cases hn : n + 1 < network address length + 2 ^ (32 - length)
      · exact hall n ⟨by omega, hn⟩
      · rcases hrest with ⟨m, hm, -, hmfree⟩ | hbeyond
        · exact absurd (hall m hm) hmfree
        · exact hbeyond n (by omega) h2 (by omega)

/-- No host is passed over for any used addresses only when the address is that of the subnet. -/
theorem walkRight_forall_iff : (∀ used, WalkRight address length used) ↔
    address % 2 ^ (32 - length) = 0 := by
  obtain ⟨hlow, hhigh, hle, hlt, htop⟩ := network_bounds haddress h8 h30
  have hsplit : network address length + address % 2 ^ (32 - length) = address := by
    rw [network, Nat.mul_comm]
    exact Nat.div_add_mod _ _
  constructor
  · intro h
    by_contra hne
    have hused := (h []).1 (network address length + 1) ⟨by omega, by omega⟩ (by omega)
    cases hused
  · intro haligned used
    refine ⟨fun n hn hna => ?_, Or.inr fun n h1 h2 h3 => by omega⟩
    have := hn.1
    omega

end

/-! ## Top theorem -/

/-- **Allocation** gives the lowest free host, or throws when there is none, exactly when the walk
is right; it always is only when the CIDR has the address of its subnet. -/
theorem allocation_iff {lang : Coercions} (hlang : SlashFree lang) {v : Option Json}
    {subnet : JsString} (h : isValidCIDR lang v = some subnet) :
    (∃ address length, Denotes lang subnet address length) ∧
    ∀ address length, Denotes lang subnet address length →
      (∀ used, LowestFree address length used (allocateIp lang used subnet) ↔
        WalkRight address length used) ∧
      ((∀ used, LowestFree address length used (allocateIp lang used subnet)) ↔
        address % 2 ^ (32 - length) = 0) := by
  have hcidr := (Option.filter_eq_some_iff.mp h).2
  obtain ⟨address, length, h8, h30, hdenotes⟩ := denotes_of_isCIDR hcidr
  refine ⟨⟨address, length, hdenotes⟩, fun address' length' hdenotes' => ?_⟩
  obtain ⟨rfl, rfl⟩ := hdenotes.unique hlang hdenotes'
  have hiff : ∀ used, LowestFree address length used (allocateIp lang used subnet) ↔
      WalkRight address length used := by
    intro used
    rw [allocateIp_eq hlang hdenotes h8 h30]
    exact ⟨walkRight_of_lowestFree hdenotes.lt h8 h30 used,
      lowestFree_of_walkRight hdenotes.lt h8 h30 used⟩
  exact ⟨hiff, (forall_congr' hiff).trans (walkRight_forall_iff hdenotes.lt h8 h30)⟩

theorem slashFree_plainCoercions : SlashFree plainCoercions := by
  intro s hs
  have hall : s.all isDigit = false := by
    rw [List.all_eq_false]
    exact ⟨47, hs, by decide⟩
  have hnumber : plainCoercions.number s = .nan :=
    if_pos (by rw [hall, Bool.not_false, Bool.or_true])
  rw [hnumber]
  rfl

theorem allocation_iff_aligned : LowestFree 167772160 24 [js "10.0.0.1"]
    (allocateIp plainCoercions [js "10.0.0.1"] (js "10.0.0.0/24")) :=
  ((allocation_iff slashFree_plainCoercions (v := some (.str (js "10.0.0.0/24"))) (by decide)).2
    167772160 24 ⟨10, 0, 0, 0, js "24", by decide⟩).2.mpr (by decide) [js "10.0.0.1"]

/-- **The broadcast address is allocated** in the subnet of 10.0.0.6/30, which has no used
address. -/
theorem broadcast_allocated : ¬ ∀ (v : Option Json) (subnet : JsString) (address length : Nat)
    (used : List JsString), isValidCIDR plainCoercions v = some subnet →
    Denotes plainCoercions subnet address length →
    LowestFree address length used (allocateIp plainCoercions used subnet) := by
  intro h
  have hlowest := h (some (.str (js "10.0.0.6/30"))) (js "10.0.0.6/30") 167772166 30 [] (by decide)
    ⟨10, 0, 0, 6, js "30", by decide⟩
  obtain ⟨-, n, hn, htext, -⟩ := hlowest.1 (js "10.0.0.7") (by decide)
  -- 10.0.0.7 is no host
  have hbroadcast : addressText 167772167 = js "10.0.0.7" := by decide
  have hhigh : n + 1 < 167772168 := hn.2
  have hsame := addressText_injective (by omega) (by omega) (hbroadcast.trans htext)
  omega

end Meshezia.Api
