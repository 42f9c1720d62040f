import Meshezia.Api.Validate

/-!
# Address allocation (`subnet.ts`)

`allocateIp` walks the host addresses of a subnet and takes the first whose text is not
among the texts in use.  Whatever the subnet, what it returns is not in use and is a
canonical address (`allocateIp_spec`).
-/

namespace Meshezia.Api

/-- `"10.100.0.0/24"` as its octets and its mask. -/
def parseCidr (lang : Coercions) (cidr : JsString) : List JsNumber × JsNumber :=
  match cidr.splitOn 47 with
  | ip :: mask :: _ => ((ip.splitOn 46).map lang.number, lang.number mask)
  | [ip] => ((ip.splitOn 46).map lang.number, .nan)
  | [] => ([], .nan)

def octetsToString (octets : List Nat) : JsString := dotted octets

/-- `o[i]` as an operand of a 32-bit operator; `undefined` counts as zero. -/
def octetAt (octets : List JsNumber) (i : Nat) : UInt32 :=
  UInt32.ofNat (toUint32 (octets.getD i .nan))

def octetsToInt (o : List JsNumber) : Nat :=
  ((octetAt o 0 <<< 24) ||| (octetAt o 1 <<< 16) ||| (octetAt o 2 <<< 8) ||| octetAt o 3).toNat

def intToOctets (n : Nat) : List Nat :=
  let n := UInt32.ofNat n
  [((n >>> 24) &&& 0xff).toNat, ((n >>> 16) &&& 0xff).toNat, ((n >>> 8) &&& 0xff).toNat,
    (n &&& 0xff).toNat]

/-- By how much `1 << (32 - mask)` shifts. -/
def hostBits : JsNumber → Nat
  | .int mask => ((32 - mask) % 32).toNat
  | .frac _ floor => ((if floor ≤ 31 then 31 - floor else 32 - floor) % 32).toNat
  | .infinity _ | .nan => 0

/-- The loop of `allocateIp` over `count` addresses from `ip` on. -/
def firstFree (used : List JsString) (ip : Nat) : Nat → Option JsString
  | 0 => none
  | count + 1 =>
    let candidate := octetsToString (intToOctets ip)
    if used.contains candidate then firstFree used (ip + 1) count else some candidate

/-- The next free address of a subnet; `none` when it throws. -/
def allocateIp (lang : Coercions) (used : List JsString) (subnet : JsString) : Option JsString :=
  let (octets, mask) := parseCidr lang subnet
  let base := octetsToInt octets
  let totalHosts := 1 <<< hostBits mask
  -- `.0` is the network, the last address is the broadcast
  firstFree used (base + 1) (totalHosts - 2)

theorem intToOctets_le (n : Nat) : ∀ o ∈ intToOctets n, o ≤ 255 := by
  have hmask : ∀ m : UInt32, (m &&& 0xff).toNat ≤ 255 := by
    intro m
    rw [UInt32.toNat_and]
    exact Nat.and_le_right
  intro o ho
  simp only [intToOctets, List.mem_cons, List.not_mem_nil, or_false] at ho
  rcases ho with rfl | rfl | rfl | rfl
  · exact hmask _
  · exact hmask _
  · exact hmask _
  · exact hmask _

theorem firstFree_spec {used : List JsString} {ip count : Nat} {s : JsString}
    (h : firstFree used ip count = some s) : s ∉ used ∧ ∃ n, s = octetsToString (intToOctets n) := by
  induction count generalizing ip with
  | zero => cases h
  | succ count ih =>
    simp only [firstFree] at h
    split at h
    · exact ih h
    · rename_i hfree
      cases h
      exact ⟨by simpa using hfree, ip, rfl⟩

/-- **Allocation.**  An allocated address is free and canonical. -/
theorem allocateIp_spec {lang : Coercions} {used : List JsString} {subnet s : JsString}
    (h : allocateIp lang used subnet = some s) : s ∉ used ∧ CanonicalIPv4 s := by
  obtain ⟨hfree, n, rfl⟩ := firstFree_spec h
  exact ⟨hfree, intToOctets n, rfl, intToOctets_le n, rfl⟩

example : allocateIp plainCoercions [js "10.0.0.1"] (js "10.0.0.0/24") = some (js "10.0.0.2") := by
  decide

end Meshezia.Api
