import Meshezia.Lib.JsString

/-!
# `TextEncoder` and `TextDecoder`

UTF-8 as the platform encodes and decodes it: a string is encoded with U+FFFD in the
place of a lone surrogate; a sequence of bytes is decoded by the machine of the
standard, which never fails but writes U+FFFD for what is not UTF-8, and a byte order
mark at the start is dropped.

Both are the identity, byte for code unit, on ASCII: `encode_ascii`, `decode_encode_ascii`.
-/

namespace Meshezia

abbrev Bytes := List UInt8

/-- U+FFFD. -/
def replacement : UInt16 := 0xFFFD

/-! ## Encoding -/

def isHighSurrogate (c : UInt16) : Bool := 0xD800 ≤ c && c ≤ 0xDBFF

def isLowSurrogate (c : UInt16) : Bool := 0xDC00 ≤ c && c ≤ 0xDFFF

/-- The bytes of a code point. -/
def utf8Bytes (cp : Nat) : Bytes :=
  if cp < 0x80 then [.ofNat cp]
  else if cp < 0x800 then [.ofNat (0xC0 + cp / 64), .ofNat (0x80 + cp % 64)]
  else if cp < 0x10000 then
    [.ofNat (0xE0 + cp / 4096), .ofNat (0x80 + cp / 64 % 64), .ofNat (0x80 + cp % 64)]
  else
    [.ofNat (0xF0 + cp / 262144), .ofNat (0x80 + cp / 4096 % 64), .ofNat (0x80 + cp / 64 % 64),
      .ofNat (0x80 + cp % 64)]

/-- The code point of a surrogate pair. -/
def surrogatePair (hi lo : UInt16) : Nat :=
  0x10000 + (hi.toNat - 0xD800) * 1024 + (lo.toNat - 0xDC00)

/-- The code points of a string, a lone surrogate replaced. -/
def codePoints : JsString → List Nat
  | [] => []
  | [c] => [if isHighSurrogate c || isLowSurrogate c then replacement.toNat else c.toNat]
  | c :: d :: rest =>
    if isHighSurrogate c && isLowSurrogate d then surrogatePair c d :: codePoints rest
    else if isHighSurrogate c || isLowSurrogate c then replacement.toNat :: codePoints (d :: rest)
    else c.toNat :: codePoints (d :: rest)

def TextEncoder.encode (s : JsString) : Bytes := (codePoints s).flatMap utf8Bytes

/-! ## Decoding -/

/-- The decoder between two bytes: the bits read so far of a code point, how many bytes it
still needs, and the bounds of the next. -/
structure Utf8State where
  codePoint : Nat := 0
  needed : Nat := 0
  lower : UInt8 := 0x80
  upper : UInt8 := 0xBF

/-- The code units of a code point. -/
def utf16Units (cp : Nat) : JsString :=
  if cp < 0x10000 then [.ofNat cp]
  else [.ofNat (0xD800 + (cp - 0x10000) / 1024), .ofNat (0xDC00 + (cp - 0x10000) % 1024)]

/-- A byte at the start of a code point. -/
def utf8First (b : UInt8) : JsString × Utf8State :=
  if b ≤ 0x7F then ([b.toUInt16], {})
  else if 0xC2 ≤ b && b ≤ 0xDF then ([], { codePoint := b.toNat % 32, needed := 1 })
  else if 0xE0 ≤ b && b ≤ 0xEF then
    ([], { codePoint := b.toNat % 16, needed := 2, lower := if b = 0xE0 then 0xA0 else 0x80,
           upper := if b = 0xED then 0x9F else 0xBF })
  else if 0xF0 ≤ b && b ≤ 0xF4 then
    ([], { codePoint := b.toNat % 8, needed := 3, lower := if b = 0xF0 then 0x90 else 0x80,
           upper := if b = 0xF4 then 0x8F else 0xBF })
  else ([replacement], {})

/-- One byte.  A byte that does not continue the code point begun ends it with U+FFFD and is
read again as a first byte. -/
def utf8Next (st : Utf8State) (b : UInt8) : JsString × Utf8State :=
  match st.needed with
  | 0 => utf8First b
  | needed + 1 =>
    if st.lower ≤ b && b ≤ st.upper then
      let codePoint := st.codePoint * 64 + b.toNat % 64
      if needed = 0 then (utf16Units codePoint, {}) else ([], { codePoint, needed })
    else
      let (units, st) := utf8First b
      (replacement :: units, st)

def utf8Units (st : Utf8State) : Bytes → JsString
  | [] => if st.needed = 0 then [] else [replacement]
  | b :: rest => (utf8Next st b).1 ++ utf8Units (utf8Next st b).2 rest

/-- A byte order mark at the start is dropped. -/
def TextDecoder.decode (bytes : Bytes) : JsString :=
  match utf8Units {} bytes with
  | 0xFEFF :: rest => rest
  | units => units

/-! ## ASCII -/

def Ascii (s : JsString) : Prop := ∀ c ∈ s, c < 128

instance (s : JsString) : Decidable (Ascii s) := inferInstanceAs (Decidable (∀ c ∈ s, c < 128))

theorem isHighSurrogate_ascii {c : UInt16} (h : c < 128) : isHighSurrogate c = false := by
  simp only [isHighSurrogate, Bool.and_eq_false_iff, decide_eq_false_iff_not, UInt16.not_le]
  exact Or.inl (UInt16.lt_trans h (by decide))

theorem isLowSurrogate_ascii {c : UInt16} (h : c < 128) : isLowSurrogate c = false := by
  simp only [isLowSurrogate, Bool.and_eq_false_iff, decide_eq_false_iff_not, UInt16.not_le]
  exact Or.inl (UInt16.lt_trans h (by decide))

theorem codePoints_ascii {s : JsString} (h : Ascii s) : codePoints s = s.map UInt16.toNat := by
  induction s with
  | nil => rfl
  | cons c rest ih =>
    have hc : c < 128 := h c (by simp)
    have hrest : codePoints rest = rest.map UInt16.toNat :=
      ih fun d hd => h d (List.mem_cons_of_mem _ hd)
    cases rest with
    | nil => simp [codePoints, isHighSurrogate_ascii hc, isLowSurrogate_ascii hc]
    | cons d rest =>
      simp only [codePoints, isHighSurrogate_ascii hc, isLowSurrogate_ascii hc, Bool.false_and,
        Bool.or_false, Bool.false_eq_true, if_false, hrest, List.map_cons]

theorem encode_ascii {s : JsString} (h : Ascii s) :
    TextEncoder.encode s = s.map UInt16.toUInt8 := by
  unfold TextEncoder.encode
  rw [codePoints_ascii h, List.flatMap_map]
  induction s with
  | nil => rfl
  | cons c rest ih =>
    have hc : c.toNat < 128 := UInt16.lt_iff_toNat_lt.mp (h c (by simp))
    rw [List.flatMap_cons, ih fun d hd => h d (List.mem_cons_of_mem _ hd), utf8Bytes, if_pos hc]
    simp

theorem length_encode_ascii {s : JsString} (h : Ascii s) :
    (TextEncoder.encode s).length = s.length := by
  rw [encode_ascii h, List.length_map]

theorem utf8Units_ascii {s : JsString} (h : Ascii s) :
    utf8Units {} (s.map UInt16.toUInt8) = s := by
  induction s with
  | nil => rfl
  | cons c rest ih =>
    have hc : c.toNat < 128 := UInt16.lt_iff_toNat_lt.mp (h c (by simp))
    have hle : c.toUInt8 ≤ 0x7F := by
      rw [UInt8.le_iff_toNat_le, UInt16.toNat_toUInt8]
      have : (0x7F : UInt8).toNat = 127 := rfl
      omega
    have hback : c.toUInt8.toUInt16 = c := by
      apply UInt16.toNat_inj.mp
      rw [UInt8.toNat_toUInt16, UInt16.toNat_toUInt8]
      omega
    rw [List.map_cons, utf8Units, utf8Next, utf8First, if_pos hle]
    simp only [hback, List.singleton_append]
    rw [ih fun d hd => h d (List.mem_cons_of_mem _ hd)]

/-- **Round trip on ASCII.** -/
theorem decode_encode_ascii {s : JsString} (h : Ascii s) :
    TextDecoder.decode (TextEncoder.encode s) = s := by
  unfold TextDecoder.decode
  rw [encode_ascii h, utf8Units_ascii h]
  split
  · exact absurd (h 0xFEFF (by simp)) (by decide)
  · rfl

end Meshezia
