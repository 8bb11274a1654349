/-!
Comparing texts byte by byte, but for the case of ASCII letters. The bytes of a text have such
letters only where it has them itself: every byte of another character stands beyond ASCII. So the
main statement, `sameAscii_iff`, says that comparing bytes decides, for all texts, whether these are
equal once their ASCII letters are lowered. A text of ASCII characters has as many bytes as
characters, which tells it from all others without looking at them.
-/

namespace DynamicMembers

def isAscii (s : String) : Bool :=
  s.length == s.utf8ByteSize

/-- Do two texts have the same first bytes, so many of them, but for the case of ASCII letters? -/
def sameBytes (a b : String) : Nat → Bool
  | 0 => true
  | i + 1 =>
    if h : i < a.utf8ByteSize ∧ i < b.utf8ByteSize then
      (a.getUTF8Byte ⟨i⟩ h.1).toAsciiLower == (b.getUTF8Byte ⟨i⟩ h.2).toAsciiLower &&
        sameBytes a b i
    else false

def sameAscii (a b : String) : Bool :=
  a.utf8ByteSize == b.utf8ByteSize && sameBytes a b a.utf8ByteSize

/-! ## Texts of ASCII characters -/

theorem size_utf8Encode_singleton (c : Char) : [c].utf8Encode.size = c.utf8Size := by
  simp [List.utf8Encode]

theorem length_le_size_utf8Encode (cs : List Char) : cs.length ≤ cs.utf8Encode.size := by
  induction cs with
  | nil => simp
  | cons c cs ih =>
    have hc := size_utf8Encode_singleton c
    have hpos := Char.utf8Size_pos c
    rw [List.utf8Encode_cons, ByteArray.size_append, List.length_cons]
    omega

theorem utf8Size_eq_one_of_length_eq {cs : List Char} (h : cs.length = cs.utf8Encode.size) :
    ∀ c ∈ cs, c.utf8Size = 1 := by
  induction cs with
  | nil => simp
  | cons c cs ih =>
    rw [List.utf8Encode_cons, ByteArray.size_append, List.length_cons] at h
    have hc := size_utf8Encode_singleton c
    have hpos := Char.utf8Size_pos c
    have hle := length_le_size_utf8Encode cs
    intro d hd
    rcases List.mem_cons.mp hd with rfl | hd
    · omega
    · exact ih (by omega) d hd

theorem toNat_lt_of_utf8Size {c : Char} (h : c.utf8Size = 1) : c.toNat < 128 :=
  Nat.lt_succ_of_le (UInt32.le_iff_toNat_le.mp (Char.utf8Size_eq_one_iff.mp h))

theorem utf8Size_of_toNat_lt {c : Char} (h : c.toNat < 128) : c.utf8Size = 1 :=
  Char.utf8Size_eq_one_iff.mpr (UInt32.le_iff_toNat_le.mpr (Nat.le_of_lt_succ h))

theorem toNat_lt_of_isAscii {s : String} (h : isAscii s = true) :
    ∀ c ∈ s.toList, c.toNat < 128 := by
  have hlength : s.toList.length = s.toList.utf8Encode.size := by
    rw [String.length_toList, String.utf8Encode_toList]
    simpa [isAscii] using h
  exact fun c hc => toNat_lt_of_utf8Size (utf8Size_eq_one_of_length_eq hlength c hc)

/-! ## The bytes of a text -/

def bytesOf (cs : List Char) : List UInt8 :=
  cs.flatMap String.utf8EncodeChar

theorem toByteArray_eq (s : String) : s.toByteArray = (bytesOf s.toList).toByteArray :=
  String.utf8Encode_toList.symm

theorem utf8ByteSize_eq_length (s : String) : s.utf8ByteSize = (bytesOf s.toList).length := by
  rw [← String.size_toByteArray, toByteArray_eq, List.size_toByteArray]

theorem getUTF8Byte_eq {s : String} {i : Nat} (hi : (⟨i⟩ : String.Pos.Raw) < s.rawEndPos)
    (hl : i < (bytesOf s.toList).length) : s.getUTF8Byte ⟨i⟩ hi = (bytesOf s.toList)[i] := by
  simp only [String.getUTF8Byte, toByteArray_eq s, List.getElem_toByteArray]

theorem bytesOf_injective {as bs : List Char} (h : bytesOf as = bytesOf bs) : as = bs := by
  refine String.ofList_injective (String.toByteArray_inj.mp ?_)
  rw [toByteArray_eq, toByteArray_eq, String.toList_ofList, String.toList_ofList, h]

theorem le_toNat_of_mem_utf8EncodeChar {c : Char} (hc : 128 ≤ c.toNat) {b : UInt8}
    (hb : b ∈ String.utf8EncodeChar c) : 128 ≤ b.toNat := by
  have hcode : ¬ c.val.toNat ≤ 127 := Nat.not_le.mpr hc
  unfold String.utf8EncodeChar at hb
  simp only [hcode, if_false] at hb
  split at hb
  · simp only [List.mem_cons, List.not_mem_nil, or_false] at hb
    rcases hb with rfl | rfl <;> simp only [UInt8.toNat_ofNat'] <;> omega
  · split at hb
    · simp only [List.mem_cons, List.not_mem_nil, or_false] at hb
      rcases hb with rfl | rfl | rfl <;> simp only [UInt8.toNat_ofNat'] <;> omega
    · simp only [List.mem_cons, List.not_mem_nil, or_false] at hb
      rcases hb with rfl | rfl | rfl | rfl <;> simp only [UInt8.toNat_ofNat'] <;> omega

/-! ## Lowering bytes lowers characters -/

theorem toAsciiLower_of_ascii : ∀ n : Nat, n < 128 →
    (Char.ofNat n).val.toUInt8.toAsciiLower = (Char.ofNat n).toLower.val.toUInt8 ∧
      (Char.ofNat n).toLower.toNat < 128 := by decide

theorem toAsciiLower_of_le : ∀ n : Nat, n < 256 → 128 ≤ n →
    (UInt8.ofNat n).toAsciiLower = UInt8.ofNat n := by decide +kernel

theorem toLower_of_le {c : Char} (hc : 128 ≤ c.toNat) : c.toLower = c := by
  unfold Char.toLower
  split
  next h =>
    have hz : c.toNat ≤ 90 := UInt32.le_iff_toNat_le.mp h.2
    omega
  next => rfl

theorem map_toAsciiLower_utf8EncodeChar (c : Char) :
    (String.utf8EncodeChar c).map UInt8.toAsciiLower = String.utf8EncodeChar c.toLower := by
  by_cases hc : c.toNat < 128
  · obtain ⟨hbyte, hlower⟩ := Char.ofNat_toNat c ▸ toAsciiLower_of_ascii c.toNat hc
    rw [String.utf8EncodeChar_eq_singleton (utf8Size_of_toNat_lt hc),
      String.utf8EncodeChar_eq_singleton (utf8Size_of_toNat_lt hlower), List.map_singleton, hbyte]
  · have hc : 128 ≤ c.toNat := Nat.not_lt.mp hc
    have hbytes : ∀ b ∈ String.utf8EncodeChar c, b.toAsciiLower = b := by
      intro b hb
      have hlower := toAsciiLower_of_le b.toNat b.toNat_lt (le_toNat_of_mem_utf8EncodeChar hc hb)
      rwa [UInt8.ofNat_toNat] at hlower
    rw [toLower_of_le hc, List.map_congr_left hbytes, List.map_id']

theorem map_toAsciiLower_bytesOf (cs : List Char) :
    (bytesOf cs).map UInt8.toAsciiLower = bytesOf (cs.map Char.toLower) := by
  simp only [bytesOf, List.map_flatMap, List.flatMap_map, map_toAsciiLower_utf8EncodeChar]

/-! ## Comparing bytes compares characters -/

theorem sameBytes_iff {a b : String} (hab : a.utf8ByteSize = b.utf8ByteSize) (n : Nat)
    (hn : n ≤ a.utf8ByteSize) : sameBytes a b n = true ↔
      ((bytesOf a.toList).take n).map UInt8.toAsciiLower =
        ((bytesOf b.toList).take n).map UInt8.toAsciiLower := by
  induction n with
  | zero => simp [sameBytes]
  | succ i ih =>
    have hbounds : i < a.utf8ByteSize ∧ i < b.utf8ByteSize := ⟨hn, hab ▸ hn⟩
    have hia : i < (bytesOf a.toList).length := utf8ByteSize_eq_length a ▸ hbounds.1
    have hib : i < (bytesOf b.toList).length := utf8ByteSize_eq_length b ▸ hbounds.2
    rw [sameBytes, dif_pos hbounds, getUTF8Byte_eq _ hia, getUTF8Byte_eq _ hib, Bool.and_eq_true,
      beq_iff_eq, ih (Nat.le_of_lt hn), List.take_succ_eq_append_getElem hia,
      List.take_succ_eq_append_getElem hib, List.map_append, List.map_append]
    constructor
    · rintro ⟨hlast, hrest⟩
      simp [hlast, hrest]
    · intro h
      obtain ⟨hrest, hlast⟩ := List.append_inj' h (by simp)
      exact ⟨by simpa using hlast, hrest⟩

theorem sameAscii_iff {a b : String} :
    sameAscii a b = true ↔ a.toList.map Char.toLower = b.toList.map Char.toLower := by
  have hbytes : a.toList.map Char.toLower = b.toList.map Char.toLower ↔
      (bytesOf a.toList).map UInt8.toAsciiLower = (bytesOf b.toList).map UInt8.toAsciiLower := by
    rw [map_toAsciiLower_bytesOf, map_toAsciiLower_bytesOf]
    exact ⟨congrArg bytesOf, bytesOf_injective⟩
  rw [hbytes, sameAscii, Bool.and_eq_true, beq_iff_eq]
  constructor
  · rintro ⟨hab, h⟩
    have hall := (sameBytes_iff hab _ (Nat.le_refl _)).mp h
    rwa [utf8ByteSize_eq_length, List.take_length, ← utf8ByteSize_eq_length, hab,
      utf8ByteSize_eq_length, List.take_length] at hall
  · intro h
    have hab : a.utf8ByteSize = b.utf8ByteSize := by
      rw [utf8ByteSize_eq_length, utf8ByteSize_eq_length]
      simpa using congrArg List.length h
    refine ⟨hab, (sameBytes_iff hab _ (Nat.le_refl _)).mpr ?_⟩
    rw [List.map_take, List.map_take, h]

end DynamicMembers
