/-!
# PoxTokens.Text.Bytes

Byte offsets in a text.  A text is a list of characters; every offset that the
library reports counts bytes of its UTF-8 form.  This module measures a list of
characters in bytes, tells where its characters start, and splits it at an offset,
unless the offset lies inside a character (`splitAtByte?`).
-/

namespace PoxTokens

/-! ## Measure -/

/-- Number of bytes of the UTF-8 form of a list of characters. -/
def byteLength : List Char → Nat
  | [] => 0
  | c :: cs => c.utf8Size + byteLength cs

@[simp] theorem byteLength_nil : byteLength [] = 0 := rfl

@[simp] theorem byteLength_cons (c : Char) (cs : List Char) :
    byteLength (c :: cs) = c.utf8Size + byteLength cs := rfl

@[simp] theorem byteLength_append (as bs : List Char) :
    byteLength (as ++ bs) = byteLength as + byteLength bs := by
  induction as with
  | nil => simp
  | cons c cs ih => simp [ih, Nat.add_assoc]

/-- Only the empty text has no bytes. -/
theorem byteLength_eq_zero_iff {cs : List Char} : byteLength cs = 0 ↔ cs = [] := by
  cases cs with
  | nil => simp
  | cons c cs =>
    have := c.utf8Size_pos
    simp; omega

/-- The UTF-8 bytes of a list of characters. -/
def utf8Bytes (cs : List Char) : List UInt8 := cs.flatMap String.utf8EncodeChar

/-- A text is as long in bytes as its characters are together. -/
theorem length_utf8Bytes (cs : List Char) : (utf8Bytes cs).length = byteLength cs := by
  induction cs with
  | nil => rfl
  | cons c cs ih => simp [utf8Bytes] at ih ⊢; omega

/-- A string holds the bytes of its characters. -/
theorem utf8Bytes_toByteArray (s : String) : (utf8Bytes s.toList).toByteArray = s.toUTF8 := by
  rw [String.toUTF8_eq_toByteArray, ← String.ofList_toList (s := s), String.toByteArray_ofList,
    String.toList_ofList]
  rfl

/-- The size of a string is the measure of its characters. -/
theorem utf8ByteSize_ofList (cs : List Char) :
    (String.ofList cs).utf8ByteSize = byteLength cs := by
  induction cs with
  | nil => rfl
  | cons c cs ih =>
    have h : String.ofList (c :: cs) = String.singleton c ++ String.ofList cs := by
      rw [String.singleton_eq_ofList, ← String.ofList_append]; rfl
    simp [h, ih]

theorem byteLength_toList (s : String) : byteLength s.toList = s.utf8ByteSize := by
  rw [← utf8ByteSize_ofList, String.ofList_toList]

/-! ## Places -/

/-- The text before and after a byte offset; `none` when the offset lies inside
a character or past the end. -/
def splitAtByte? : Nat → List Char → Option (List Char × List Char)
  | 0, cs => some ([], cs)
  | _ + 1, [] => none
  | n + 1, c :: cs =>
    if c.utf8Size ≤ n + 1 then
      (splitAtByte? (n + 1 - c.utf8Size) cs).map fun (before, after) => (c :: before, after)
    else none

/-- The characters of a text with the byte offsets where they start, the first one at
`start`. -/
def charOffsets (start : Nat) : List Char → List (Nat × Char)
  | [] => []
  | c :: cs => (start, c) :: charOffsets (start + c.utf8Size) cs

/-- A byte offset of a source at which a character starts or the source ends. -/
def IsBoundary (source : String) (offset : Nat) : Prop :=
  String.Pos.Raw.IsValid source ⟨offset⟩

instance (source : String) (offset : Nat) : Decidable (IsBoundary source offset) :=
  inferInstanceAs (Decidable (String.Pos.Raw.IsValid source ⟨offset⟩))

/-- Goes back from a byte offset to a boundary; `none` if there is none down to 0. -/
def stepBack? (source : String) (offset : Nat) : Option Nat :=
  if IsBoundary source offset then some offset
  else
    match offset with
    | 0 => none
    | offset + 1 => stepBack? source offset

/-- A split at an offset is found exactly when a beginning of the text has that
many bytes. -/
theorem splitAtByte?_eq_some_iff {n : Nat} {cs before after : List Char} :
    splitAtByte? n cs = some (before, after) ↔ cs = before ++ after ∧ byteLength before = n := by
  fun_induction splitAtByte? n cs generalizing before after with
  | case1 cs =>
    simp only [Option.some.injEq, Prod.mk.injEq, byteLength_eq_zero_iff]
    constructor
    · rintro ⟨rfl, rfl⟩; simp
    · rintro ⟨rfl, rfl⟩; simp
  | case2 n => simp; rintro rfl rfl; simp
  | case3 n c cs h ih =>
    simp only [Option.map_eq_some_iff, Prod.exists, Prod.mk.injEq]
    constructor
    · rintro ⟨b, a, hba, rfl, rfl⟩
      obtain ⟨rfl, hb⟩ := ih.1 hba
      simp; omega
    · rintro ⟨heq, hb⟩
      cases before with
      | nil => simp at hb
      | cons d ds =>
        simp only [List.cons_append, List.cons.injEq] at heq
        obtain ⟨rfl, rfl⟩ := heq
        refine ⟨ds, after, ih.2 ⟨rfl, ?_⟩, rfl, rfl⟩
        simp at hb; omega
  | case4 n c cs h =>
    simp only [reduceCtorEq, false_iff, not_and]
    rintro heq hb
    cases before with
    | nil => simp at hb
    | cons d ds =>
      simp only [List.cons_append, List.cons.injEq] at heq
      obtain ⟨rfl, rfl⟩ := heq
      simp at hb; omega

end PoxTokens
