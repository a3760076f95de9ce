import PoxTokens.Text.Bytes

/-!
# PoxTokens.Proofs.Utf8

Texts and their UTF-8 bytes.  A byte below 128 is a character by itself, and the
bytes of all other characters are 128 and more.  So a class of characters that does
not tell apart those from 128 on is also a class of bytes, and a run of the class in
a text is one in its bytes (`takeWhile_utf8Bytes`).  A text begins another exactly
if its bytes do (`utf8Bytes_isPrefix_iff`), and the bytes behind an offset are those
of some text, or there is no character at the offset.  The bytes of a piece of a text
are those between the two places where it starts and stops.
-/

namespace PoxTokens

/-! ## Bytes of texts -/

/-- The UTF-8 bytes of a string. -/
def bytesOf (s : String) : List UInt8 := s.toUTF8.data.toList

theorem bytesOf_eq (s : String) : bytesOf s = utf8Bytes s.toList := by
  rw [bytesOf, ← utf8Bytes_toByteArray, List.data_toByteArray]

theorem length_bytesOf (s : String) : (bytesOf s).length = s.utf8ByteSize := by
  rw [bytesOf_eq, length_utf8Bytes, byteLength_toList]

/-- The text that bytes are, if they are one. -/
theorem fromUTF8?_eq_some_iff {bytes : ByteArray} {text : String} :
    String.fromUTF8? bytes = some text ↔ text.toUTF8 = bytes := by
  unfold String.fromUTF8?
  constructor
  · intro h
    split at h
    · rw [Option.some.injEq] at h
      subst h
      rfl
    · contradiction
  · rintro rfl
    rw [String.toUTF8_eq_toByteArray, dif_pos text.isValidUTF8]
    rfl

/-- Bytes are not decoded exactly if they are no text. -/
theorem fromUTF8?_eq_none_iff {bytes : ByteArray} :
    String.fromUTF8? bytes = none ↔ ¬∃ text : String, text.toUTF8 = bytes := by
  simp only [← fromUTF8?_eq_some_iff, ← Option.isSome_iff_exists, Option.not_isSome_iff_eq_none]

@[simp] theorem utf8Bytes_nil : utf8Bytes [] = [] := rfl

@[simp] theorem utf8Bytes_cons (c : Char) (s : List Char) :
    utf8Bytes (c :: s) = String.utf8EncodeChar c ++ utf8Bytes s := rfl

@[simp] theorem utf8Bytes_append (s t : List Char) :
    utf8Bytes (s ++ t) = utf8Bytes s ++ utf8Bytes t := List.flatMap_append

theorem utf8Bytes_eq_nil_iff {s : List Char} : utf8Bytes s = [] ↔ s = [] := by
  rw [← List.length_eq_zero_iff, length_utf8Bytes, byteLength_eq_zero_iff]

/-- The first of two characters can be read off the bytes. -/
theorem utf8EncodeChar_append_inj {c d : Char} {x y : List UInt8}
    (h : String.utf8EncodeChar c ++ x = String.utf8EncodeChar d ++ y) : c = d ∧ x = y := by
  have hread : ∀ (c : Char) (x : List UInt8),
      (String.utf8EncodeChar c ++ x).toByteArray.utf8DecodeChar? 0 = some c := by
    intro c x
    rw [List.toByteArray_append]
    exact ByteArray.utf8DecodeChar?_utf8EncodeChar_append
  have hcd : c = d := by
    have hc := hread c x
    rw [h, hread d y, Option.some.injEq] at hc
    exact hc.symm
  subst hcd
  exact ⟨rfl, List.append_cancel_left h⟩

/-- A text begins another exactly if its bytes do. -/
theorem utf8Bytes_isPrefix_iff {s t : List Char} : utf8Bytes s <+: utf8Bytes t ↔ s <+: t := by
  constructor
  · intro h
    induction s generalizing t with
    | nil => exact List.nil_prefix
    | cons c s ih =>
        obtain ⟨rest, hrest⟩ := h
        cases t with
        | nil =>
            have hne := String.utf8EncodeChar_ne_nil (c := c)
            simp [hne] at hrest
        | cons d t =>
            rw [utf8Bytes_cons, utf8Bytes_cons, List.append_assoc] at hrest
            obtain ⟨hcd, htail⟩ := utf8EncodeChar_append_inj hrest
            rw [hcd, List.cons_prefix_cons]
            exact ⟨rfl, ih ⟨rest, htail⟩⟩
  · intro h
    obtain ⟨rest, hrest⟩ := h
    exact ⟨utf8Bytes rest, by rw [← hrest, utf8Bytes_append]⟩

/-- A text can be told from its bytes. -/
theorem bytesOf_injective {s t : String} (h : bytesOf s = bytesOf t) : s = t := by
  rw [bytesOf_eq, bytesOf_eq] at h
  have hst : s.toList <+: t.toList := utf8Bytes_isPrefix_iff.mp (h ▸ List.prefix_refl _)
  have hts : t.toList <+: s.toList := utf8Bytes_isPrefix_iff.mp (h ▸ List.prefix_refl _)
  exact String.toList_inj.mp (hst.eq_of_length_le hts.length_le)

/-! ## Classes of bytes -/

/-- A byte below 128 is the code of a character. -/
theorem utf8EncodeChar_of_lt {c : Char} (h : c.toNat < 128) :
    String.utf8EncodeChar c = [c.toUInt8] := by
  refine String.utf8EncodeChar_eq_singleton (Char.utf8Size_eq_one_iff.mpr ?_)
  have hc : c.val.toNat < 128 := h
  rw [UInt32.le_iff_toNat_le]
  simp
  omega

theorem ofUInt8_toUInt8 {c : Char} (h : c.toNat < 128) : Char.ofUInt8 c.toUInt8 = c := by
  have hc : c.val.toNat < 128 := h
  refine Char.ext (UInt32.toNat_inj.mp ?_)
  show (c.val.toUInt8.toUInt32).toNat = c.val.toNat
  rw [UInt8.toNat_toUInt32, UInt32.toNat_toUInt8]
  omega

/-- Beyond the first 128 characters there is no byte below 128. -/
theorem le_of_mem_utf8EncodeChar {c : Char} (h : 128 ≤ c.toNat) :
    ∀ b ∈ String.utf8EncodeChar c, 128 ≤ b.toNat := by
  have hc : 128 ≤ c.val.toNat := h
  unfold String.utf8EncodeChar
  simp only []
  split
  · omega
  · split
    · simp
      omega
    · split
      · simp
        omega
      · simp
        omega

section
variable {p : Char → Bool} {k : Bool}

/-- A class that does not tell apart the characters from 128 on has all bytes of a
character or none. -/
theorem class_of_mem_utf8EncodeChar (hp : ∀ c : Char, 128 ≤ c.toNat → p c = k) {c : Char}
    {b : UInt8} (hb : b ∈ String.utf8EncodeChar c) : p (Char.ofUInt8 b) = p c := by
  by_cases hc : c.toNat < 128
  · rw [utf8EncodeChar_of_lt hc, List.mem_singleton] at hb
    rw [hb, ofUInt8_toUInt8 hc]
  · have hb128 := le_of_mem_utf8EncodeChar (Nat.le_of_not_lt hc) b hb
    have hcode : 128 ≤ (Char.ofUInt8 b).toNat := by
      show 128 ≤ b.toUInt32.toNat
      simpa using hb128
    rw [hp c (Nat.le_of_not_lt hc), hp _ hcode]

/-- The run of a class at the front of a text, in bytes. -/
theorem takeWhile_utf8Bytes (hp : ∀ c : Char, 128 ≤ c.toNat → p c = k) (s : List Char) :
    (utf8Bytes s).takeWhile (fun b => p (Char.ofUInt8 b)) = utf8Bytes (s.takeWhile p) := by
  induction s with
  | nil => rfl
  | cons c s ih =>
      have hclass : ∀ b ∈ String.utf8EncodeChar c, p (Char.ofUInt8 b) = p c :=
        fun b hb => class_of_mem_utf8EncodeChar hp hb
      by_cases hc : p c
      · rw [List.takeWhile_cons_of_pos hc, utf8Bytes_cons, utf8Bytes_cons,
          List.takeWhile_append_of_pos (fun b hb => by rw [hclass b hb, hc]), ih]
      · rw [List.takeWhile_cons_of_neg hc, utf8Bytes_cons]
        cases hbytes : String.utf8EncodeChar c with
        | nil => exact absurd hbytes String.utf8EncodeChar_ne_nil
        | cons b bs =>
            have hb := hclass b (by rw [hbytes]; exact List.mem_cons_self)
            rw [List.cons_append, List.takeWhile_cons_of_neg (by rw [hb]; exact hc), utf8Bytes_nil]

/-- What stands behind the run, in bytes. -/
theorem dropWhile_utf8Bytes (hp : ∀ c : Char, 128 ≤ c.toNat → p c = k) (s : List Char) :
    (utf8Bytes s).dropWhile (fun b => p (Char.ofUInt8 b)) = utf8Bytes (s.dropWhile p) := by
  have hbytes := List.takeWhile_append_dropWhile (p := fun b => p (Char.ofUInt8 b))
    (l := utf8Bytes s)
  have hchars := congrArg utf8Bytes (List.takeWhile_append_dropWhile (p := p) (l := s))
  rw [utf8Bytes_append, ← hbytes, takeWhile_utf8Bytes hp] at hchars
  exact (List.append_cancel_left hchars).symm

end

/-! ## Places -/

/-- The bytes behind a place are those of the text behind it. -/
theorem drop_utf8Bytes {offset : Nat} {s before after : List Char}
    (h : splitAtByte? offset s = some (before, after)) :
    (utf8Bytes s).drop offset = utf8Bytes after := by
  obtain ⟨heq, hlength⟩ := splitAtByte?_eq_some_iff.mp h
  rw [heq, utf8Bytes_append, ← hlength, ← length_utf8Bytes, List.drop_left]

/-- Where there is no place, no character starts. -/
theorem not_isUTF8FirstByte_of_splitAtByte? {offset : Nat} {s : List Char}
    (h : splitAtByte? offset s = none) :
    ∀ b ∈ ((utf8Bytes s).drop offset).head?, ¬b.IsUTF8FirstByte := by
  induction s generalizing offset with
  | nil => simp
  | cons c s ih =>
      have hlength := String.length_utf8EncodeChar c
      cases offset with
      | zero => contradiction
      | succ n =>
          rw [utf8Bytes_cons]
          by_cases hc : c.utf8Size ≤ n + 1
          · rw [splitAtByte?, if_pos hc, Option.map_eq_none_iff] at h
            rw [List.drop_append, List.drop_of_length_le (by omega), List.nil_append, hlength]
            exact ih h
          · have hn : n + 1 < (String.utf8EncodeChar c).length := by omega
            rw [List.drop_append_of_le_length (by omega), List.drop_eq_getElem_cons hn,
              List.cons_append, List.head?_cons]
            intro b hb
            rw [Option.mem_some_iff] at hb
            rw [← hb, UInt8.isUTF8FirstByte_getElem_utf8EncodeChar]
            omega

/-! ## Pieces of a source -/

/-- Between the sizes of what stands before it and of it and that together, a
piece of a text is found. -/
theorem extract_toUTF8_append (before piece after : String) :
    (before ++ piece ++ after).toUTF8.extract before.utf8ByteSize
      (before.utf8ByteSize + piece.utf8ByteSize) = piece.toUTF8 := by
  have hsize : before.utf8ByteSize = before.toByteArray.size := rfl
  simp only [String.toUTF8_eq_toByteArray, String.toByteArray_append, ByteArray.append_assoc]
  have hshift := ByteArray.extract_append_size_add' (i := 0) (j := piece.utf8ByteSize)
    (b := piece.toByteArray ++ after.toByteArray) hsize
  rw [Nat.add_zero] at hshift
  rw [hshift]
  exact ByteArray.extract_append_eq_left rfl

/-- The bytes of a piece are those between the places where it starts and stops. -/
theorem toUTF8_ofList_eq_extract {source : String} {before piece after : List Char}
    (h : source.toList = before ++ (piece ++ after)) :
    (String.ofList piece).toUTF8 = source.toUTF8.extract (byteLength before)
      (byteLength before + byteLength piece) := by
  have hsource : source = String.ofList before ++ String.ofList piece ++ String.ofList after := by
    rw [← String.ofList_toList (s := source), h]
    simp [String.append_assoc]
  rw [hsource, ← utf8ByteSize_ofList before, ← utf8ByteSize_ofList piece, extract_toUTF8_append]

end PoxTokens
