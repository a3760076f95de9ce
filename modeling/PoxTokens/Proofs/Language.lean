import Mathlib.Computability.Language
import PoxTokens.Proofs.Spelling
import PoxTokens.Proofs.Utf8

/-!
# PoxTokens.Proofs.Language

The regular languages of the patterns, over bytes.  A pattern takes from a text
the longest beginning that is in its language, and nothing if no nonempty beginning
is (`Pattern.isLongestPrefix_munch`): what is taken is the longest beginning in
`1 + p.language`.

The languages are put together from single symbols by products and stars, and so is
the proof: a longest beginning in a product of a star and a language that begins
differently is a run and a longest beginning of what stands behind the run.
-/

namespace PoxTokens

open Computability

/-! ## Longest beginnings -/

/-- A word that begins a text and is in a language, with no longer one. -/
structure IsLongestPrefix {α : Type} (L : Language α) (w u : List α) : Prop where
  mem : u ∈ L
  isPrefix : u <+: w
  length_le : ∀ v ∈ L, v <+: w → v.length ≤ u.length

/-- The words of one symbol. -/
def oneOf {α : Type} (p : α → Bool) : Language α := {w | ∃ a, p a ∧ w = [a]}

section
variable {α : Type} {p : α → Bool} {L M : Language α} {a : α} {u v w : List α}

/-- There is one longest beginning at most. -/
theorem IsLongestPrefix.unique (h : IsLongestPrefix L w u) (h' : IsLongestPrefix L w v) :
    v = u := by
  have hle := h.length_le v h'.mem h'.isPrefix
  have hpre := List.prefix_of_prefix_length_le h'.isPrefix h.isPrefix hle
  exact hpre.eq_of_length_le (h'.length_le u h.mem h.isPrefix)

/-- A word of the product begins with a letter of the class. -/
theorem mem_oneOf_mul_iff : u ∈ oneOf p * L ↔ ∃ a v, u = a :: v ∧ p a ∧ v ∈ L := by
  rw [Language.mem_mul]
  constructor
  · intro h
    obtain ⟨x, ⟨a, ha, hx⟩, v, hv, heq⟩ := h
    exact ⟨a, v, by rw [← heq, hx, List.singleton_append], ha, hv⟩
  · intro h
    obtain ⟨a, v, heq, ha, hv⟩ := h
    exact ⟨[a], ⟨a, ha, rfl⟩, v, hv, by rw [heq, List.singleton_append]⟩

/-- The words over a class are those of which every letter is in it. -/
theorem mem_kstar_oneOf_iff : u ∈ (oneOf p)∗ ↔ ∀ a ∈ u, p a := by
  rw [Language.mem_kstar]
  constructor
  · intro h a ha
    obtain ⟨words, heq, hwords⟩ := h
    rw [heq] at ha
    obtain ⟨x, hx, hax⟩ := List.mem_flatten.mp ha
    obtain ⟨b, hb, hxb⟩ := hwords x hx
    rw [hxb, List.mem_singleton] at hax
    rw [hax]
    exact hb
  · intro h
    refine ⟨u.map fun a => [a], by rw [← List.flatMap_def, List.flatMap_singleton'], ?_⟩
    intro x hx
    obtain ⟨a, ha, hax⟩ := List.mem_map.mp hx
    exact ⟨a, h a ha, hax.symm⟩

/-! ### Composition -/

/-- Of the empty word alone. -/
theorem isLongestPrefix_one : IsLongestPrefix (1 : Language α) w [] where
  mem := rfl
  isPrefix := List.nil_prefix
  length_le v hv _ := by rw [show v = [] from hv]

/-- The empty word is a longest beginning if there is no other. -/
theorem isLongestPrefix_one_add_nil (h : ∀ v ∈ L, v <+: w → v = []) :
    IsLongestPrefix (1 + L) w [] where
  mem := .inl rfl
  isPrefix := List.nil_prefix
  length_le v hv hpre := by
    cases hv with
    | inl hnil =>
        have hv : v = [] := hnil
        rw [hv]
    | inr hmem => rw [h v hmem hpre]

/-- Allowing for the empty word does not make a longest prefix longer. -/
theorem IsLongestPrefix.one_add (h : IsLongestPrefix L w u) : IsLongestPrefix (1 + L) w u where
  mem := .inr h.mem
  isPrefix := h.isPrefix
  length_le v hv hpre := by
    cases hv with
    | inl hnil =>
        have hv : v = [] := hnil
        simp [hv]
    | inr hmem => exact h.length_le v hmem hpre

/-- A longest beginning that is not empty is a word of the language. -/
theorem IsLongestPrefix.of_one_add (h : IsLongestPrefix (1 + L) w u) (hu : u ≠ []) :
    IsLongestPrefix L w u where
  mem := h.mem.resolve_left hu
  isPrefix := h.isPrefix
  length_le v hv := h.length_le v (.inr hv)

/-- If the longest beginning is empty, there is no other. -/
theorem IsLongestPrefix.eq_nil (h : IsLongestPrefix (1 + L) w []) (hv : v ∈ L) (hpre : v <+: w) :
    v = [] := by
  have hle := h.length_le v (.inr hv) hpre
  exact List.length_eq_zero_iff.mp (Nat.le_zero.mp hle)

/-- A symbol in front. -/
theorem IsLongestPrefix.oneOf_mul (h : IsLongestPrefix L w u) (ha : p a) :
    IsLongestPrefix (oneOf p * L) (a :: w) (a :: u) where
  mem := mem_oneOf_mul_iff.mpr ⟨a, u, rfl, ha, h.mem⟩
  isPrefix := List.cons_prefix_cons.mpr ⟨rfl, h.isPrefix⟩
  length_le v hv hpre := by
    obtain ⟨b, x, heq, -, hx⟩ := mem_oneOf_mul_iff.mp hv
    rw [heq, List.cons_prefix_cons] at hpre
    have hle := h.length_le x hx hpre.2
    rw [heq, List.length_cons, List.length_cons]
    omega

/-- A run in front of what begins differently. -/
theorem IsLongestPrefix.kstar_oneOf_mul (h : IsLongestPrefix L (w.dropWhile p) u)
    (hL : ∀ a v, a :: v ∈ L → p a = false) :
    IsLongestPrefix ((oneOf p)∗ * L) w (w.takeWhile p ++ u) where
  mem := by
    refine Language.append_mem_mul (mem_kstar_oneOf_iff.mpr fun a ha => ?_) h.mem
    exact List.mem_takeWhile_imp ha
  isPrefix := by
    obtain ⟨rest, hrest⟩ := h.isPrefix
    exact ⟨rest, by rw [List.append_assoc, hrest, List.takeWhile_append_dropWhile]⟩
  length_le v hv hpre := by
    obtain ⟨x, hx, y, hy, heq⟩ := Language.mem_mul.mp hv
    have hrun := mem_kstar_oneOf_iff.mp hx
    obtain ⟨rest, hrest⟩ := hpre
    rw [← heq, List.append_assoc] at hrest
    cases y with
    | nil =>
        rw [← heq, ← hrest, List.takeWhile_append_of_pos hrun]
        simp
    | cons a y =>
        -- the run stops where `y` begins, so `y` is a beginning of what stands behind it
        have ha : p a = false := hL a y hy
        have hstop : ∀ t, (x ++ a :: t).takeWhile p = x ∧ (x ++ a :: t).dropWhile p = a :: t := by
          intro t
          rw [List.takeWhile_append_of_pos hrun, List.dropWhile_append_of_pos hrun]
          simp [ha]
        obtain ⟨htake, hdrop⟩ := hstop (y ++ rest)
        rw [← List.cons_append, hrest] at htake hdrop
        have hle := h.length_le (a :: y) hy (by rw [hdrop]; exact List.prefix_append _ _)
        rw [htake, ← heq, List.length_append, List.length_append]
        omega

/-- A run alone. -/
theorem isLongestPrefix_kstar_oneOf : IsLongestPrefix (oneOf p)∗ w (w.takeWhile p) := by
  have hrun := (isLongestPrefix_one (w := w.dropWhile p)).kstar_oneOf_mul (p := p)
    fun a v hv => absurd hv (List.cons_ne_nil a v)
  rw [mul_one, List.append_nil] at hrun
  exact hrun

end

/-! ## Classes of characters as bytes -/

/-- The words of one byte that is the code of a character of a class. -/
def byteOf (p : Char → Bool) : Language UInt8 := oneOf fun b => p (Char.ofUInt8 b)

/-- All characters of a class are ASCII. -/
def AsciiOnly (p : Char → Bool) : Prop := ∀ c : Char, 128 ≤ c.toNat → p c = false

/-- A class that ends at 128 has no character from there on. -/
theorem AsciiOnly.toNat_lt {p : Char → Bool} {c : Char} (hp : AsciiOnly p) (hc : p c) :
    c.toNat < 128 := by
  by_contra hge
  rw [hp c (Nat.le_of_not_lt hge)] at hc
  contradiction

theorem asciiOnly_beq {q : Char} (hq : q.toNat < 128) : AsciiOnly (· == q) := by
  intro c hc
  refine beq_false_of_ne fun heq => ?_
  rw [heq] at hc
  omega

theorem asciiOnly_isDigit : AsciiOnly Char.isDigit := by
  intro c hc
  rw [← Bool.not_eq_true, Char.isDigit_iff_toNat]
  simp
  omega

theorem asciiOnly_isAlpha : AsciiOnly Char.isAlpha := by
  intro c hc
  rw [← Bool.not_eq_true, isAlpha_iff_toNat]
  omega

theorem asciiOnly_isAlphanum : AsciiOnly Char.isAlphanum := by
  intro c hc
  rw [Char.isAlphanum, asciiOnly_isAlpha c hc, asciiOnly_isDigit c hc]
  rfl

section
variable {p q : Char → Bool} {L : Language UInt8} {c : Char} {s u : List Char}

/-- A word that a character of a class opens and that begins a text. -/
theorem exists_cons_of_mem_byteOf_mul (hp : AsciiOnly p) {v : List UInt8} (hv : v ∈ byteOf p * L)
    (h : v <+: utf8Bytes s) : ∃ c t x, s = c :: t ∧ p c ∧ x ∈ L ∧ x <+: utf8Bytes t := by
  obtain ⟨b, x, heq, hb, hx⟩ := mem_oneOf_mul_iff.mp hv
  rw [heq] at h
  cases s with
  | nil => simp at h
  | cons c t =>
      cases hbytes : String.utf8EncodeChar c with
      | nil => exact absurd hbytes String.utf8EncodeChar_ne_nil
      | cons d ds =>
          rw [utf8Bytes_cons, hbytes, List.cons_append, List.cons_prefix_cons] at h
          have hmem : b ∈ String.utf8EncodeChar c := by
            rw [hbytes, h.1]
            exact List.mem_cons_self
          have hc : p c = true := by
            rw [← class_of_mem_utf8EncodeChar hp hmem]
            exact hb
          rw [utf8EncodeChar_of_lt (hp.toNat_lt hc), List.cons.injEq] at hbytes
          rw [← hbytes.2, List.nil_append] at h
          exact ⟨c, t, x, rfl, hc, hx, h.2⟩

/-- A byte of such a class is a character by itself. -/
theorem isUTF8FirstByte_of_class (hp : AsciiOnly p) {b : UInt8} (hb : p (Char.ofUInt8 b)) :
    b.IsUTF8FirstByte := by
  have hascii := hp.toNat_lt hb
  have hcode : (Char.ofUInt8 b).toUInt8 = b := UInt8.toUInt8_toUInt32 b
  have hfirst := UInt8.isUTF8FirstByte_getElem_zero_utf8EncodeChar (c := Char.ofUInt8 b)
  simp only [utf8EncodeChar_of_lt hascii, hcode, List.getElem_cons_zero] at hfirst
  exact hfirst

/-- If no character of the class leads the text, then no byte of it leads the bytes. -/
theorem isLongestPrefix_nil_utf8Bytes (hp : AsciiOnly p) (h : leads p s = false) :
    IsLongestPrefix (1 + byteOf p * L) (utf8Bytes s) [] := by
  refine isLongestPrefix_one_add_nil fun v hv hpre => ?_
  obtain ⟨c, t, x, heq, hc, -⟩ := exists_cons_of_mem_byteOf_mul hp hv hpre
  rw [heq, leads_cons, hc] at h
  contradiction

/-- A character of the class in front is a byte of it in front. -/
theorem IsLongestPrefix.cons_utf8Bytes (h : IsLongestPrefix L (utf8Bytes s) (utf8Bytes u))
    (hp : AsciiOnly p) (hc : p c) :
    IsLongestPrefix (byteOf p * L) (utf8Bytes (c :: s)) (utf8Bytes (c :: u)) := by
  have hascii := hp.toNat_lt hc
  rw [utf8Bytes_cons, utf8Bytes_cons, utf8EncodeChar_of_lt hascii]
  refine h.oneOf_mul ?_
  rw [ofUInt8_toUInt8 hascii]
  exact hc

/-- The run of a class in a text has the bytes of the run of it in the bytes. -/
theorem isLongestPrefix_takeWhile {k : Bool} (hp : ∀ c : Char, 128 ≤ c.toNat → p c = k)
    (s : List Char) : IsLongestPrefix (byteOf p)∗ (utf8Bytes s) (utf8Bytes (s.takeWhile p)) := by
  rw [← takeWhile_utf8Bytes hp]
  exact isLongestPrefix_kstar_oneOf

/-- A run of one class, and perhaps something that another class opens. -/
theorem IsLongestPrefix.takeWhile_append {k : Bool} (hp : ∀ c : Char, 128 ≤ c.toNat → p c = k)
    (hpq : ∀ c, q c → p c = false)
    (h : IsLongestPrefix (1 + byteOf q * L) (utf8Bytes (s.dropWhile p)) (utf8Bytes u)) :
    IsLongestPrefix ((byteOf p)∗ * (1 + byteOf q * L)) (utf8Bytes s)
      (utf8Bytes (s.takeWhile p ++ u)) := by
  rw [utf8Bytes_append, ← takeWhile_utf8Bytes hp]
  rw [← dropWhile_utf8Bytes hp] at h
  refine h.kstar_oneOf_mul fun b v hv => ?_
  cases hv with
  | inl hnil => exact absurd hnil (List.cons_ne_nil b v)
  | inr hmem =>
      obtain ⟨d, x, heq, hd, -⟩ := mem_oneOf_mul_iff.mp hmem
      rw [(List.cons.inj heq).1]
      exact hpq _ hd

end

/-! ## The patterns -/

namespace Pattern

/-- The words of a pattern, in bytes. -/
def language : Pattern → Language UInt8
  | literal text => {utf8Bytes text.toList}
  | string => byteOf (· == '"') * ((byteOf (· != '"'))∗ * (1 + byteOf (· == '"')))
  | number =>
    byteOf Char.isDigit * ((byteOf Char.isDigit)∗ *
      (1 + byteOf (· == '.') * (byteOf Char.isDigit * (byteOf Char.isDigit)∗)))
  | blank => byteOf (· == ' ') * (byteOf (· == ' '))∗
  | identifier => byteOf Char.isAlpha * (byteOf Char.isAlphanum)∗

/-- A word of a pattern begins where a character can start. -/
theorem isUTF8FirstByte_of_mem_language {p : Pattern} {b : UInt8} {u : List UInt8}
    (h : b :: u ∈ p.language) : b.IsUTF8FirstByte := by
  have hclass : ∀ (q : Char → Bool) (L : Language UInt8), AsciiOnly q → b :: u ∈ byteOf q * L →
      b.IsUTF8FirstByte := by
    intro q L hq hmem
    obtain ⟨d, x, heq, hd, -⟩ := mem_oneOf_mul_iff.mp hmem
    rw [(List.cons.inj heq).1]
    exact isUTF8FirstByte_of_class hq hd
  cases p with
  | literal text =>
      have heq : b :: u = utf8Bytes text.toList := h
      cases htext : text.toList with
      | nil =>
          rw [htext] at heq
          contradiction
      | cons c t =>
          have hpos : 0 < (String.utf8EncodeChar c).length :=
            List.length_pos_iff.mpr String.utf8EncodeChar_ne_nil
          rw [htext, utf8Bytes_cons] at heq
          have hb : b = (String.utf8EncodeChar c)[0] := by
            have hget := congrArg (·[0]?) heq
            simp only [List.getElem?_cons_zero, List.getElem?_append_left hpos,
              List.getElem?_eq_getElem hpos, Option.some.injEq] at hget
            exact hget
          rw [hb]
          exact UInt8.isUTF8FirstByte_getElem_zero_utf8EncodeChar
  | string => exact hclass _ _ (asciiOnly_beq (by decide)) h
  | number => exact hclass _ _ asciiOnly_isDigit h
  | blank => exact hclass _ _ (asciiOnly_beq (by decide)) h
  | identifier => exact hclass _ _ asciiOnly_isAlpha h

/-- Inside a character and past the end no word of a pattern begins. -/
theorem eq_nil_of_splitAtByte?_eq_none {p : Pattern} {offset : Nat} {s : List Char}
    {u : List UInt8} (h : splitAtByte? offset s = none) (hu : u ∈ p.language)
    (hpre : u <+: (utf8Bytes s).drop offset) : u = [] := by
  cases u with
  | nil => rfl
  | cons b u =>
      -- a word begins with a first byte, and there is none behind the offset
      obtain ⟨rest, hrest⟩ := hpre
      have hhead : b ∈ ((utf8Bytes s).drop offset).head? := by
        rw [← hrest]
        rfl
      exact absurd (isUTF8FirstByte_of_mem_language hu)
        (not_isUTF8FirstByte_of_splitAtByte? h b hhead)

/-- A string takes the closing quote, if there is one. -/
theorem isLongestPrefix_closingQuote (s : List Char) :
    IsLongestPrefix (1 + byteOf (· == '"') * 1) (utf8Bytes s) (utf8Bytes (closingQuote s)) := by
  have hone : IsLongestPrefix (1 : Language UInt8) (utf8Bytes s.tail) (utf8Bytes []) :=
    isLongestPrefix_one
  unfold closingQuote
  split
  · exact (hone.cons_utf8Bytes (asciiOnly_beq (by decide)) rfl).one_add
  · next h =>
      refine isLongestPrefix_nil_utf8Bytes (asciiOnly_beq (by decide)) ?_
      cases s with
      | nil => rfl
      | cons c s =>
          refine beq_false_of_ne fun hc => ?_
          exact h s (by rw [hc])

/-- A point counts only with a digit behind it, and then all digits do. -/
theorem isLongestPrefix_fraction (s : List Char) :
    IsLongestPrefix (1 + byteOf (· == '.') * (byteOf Char.isDigit * (byteOf Char.isDigit)∗))
      (utf8Bytes s) (utf8Bytes (fraction s)) := by
  have hpoint : AsciiOnly (· == '.') := asciiOnly_beq (by decide)
  rcases fraction_cases s with ⟨hnil, hno⟩ | ⟨es, rest, heq, hfrac, hes, hrest⟩
  · rw [hnil]
    refine isLongestPrefix_one_add_nil fun v hv hpre => ?_
    obtain ⟨c, t, x, hs, hc, hx, hxt⟩ := exists_cons_of_mem_byteOf_mul hpoint hv hpre
    obtain ⟨d, t', -, ht, hd, -⟩ := exists_cons_of_mem_byteOf_mul asciiOnly_isDigit hx hxt
    rw [hs, eq_of_beq hc, leadsFraction, ht, leads_cons, hd] at hno
    contradiction
  · rw [hfrac, heq]
    cases es with
    | nil => exact absurd rfl hes.1
    | cons d es =>
        obtain ⟨hd, hall⟩ := List.forall_mem_cons.mp hes.2
        have hrun : (es ++ rest).takeWhile Char.isDigit = es :=
          takeWhile_append_eq_left_iff.mpr ⟨hall, hrest⟩
        have hdigits := isLongestPrefix_takeWhile asciiOnly_isDigit (es ++ rest)
        rw [hrun] at hdigits
        exact ((hdigits.cons_utf8Bytes asciiOnly_isDigit hd).cons_utf8Bytes hpoint rfl).one_add

/-- **Maximal munch of a pattern**: it takes the longest beginning in its language, and
nothing if there is none. -/
theorem isLongestPrefix_munch (p : Pattern) (s : List Char) :
    IsLongestPrefix (1 + p.language) (utf8Bytes s) (utf8Bytes (p.munch s)) := by
  cases p with
  | literal text =>
      rw [munch]
      split
      · next h =>
          have hmem : IsLongestPrefix (language (literal text)) (utf8Bytes s)
              (utf8Bytes text.toList) :=
            { mem := rfl
              isPrefix := utf8Bytes_isPrefix_iff.mpr (List.isPrefixOf_iff_prefix.mp h)
              length_le := fun v hv _ => by
                rw [show v = utf8Bytes text.toList from hv] }
          exact hmem.one_add
      · next h =>
          refine isLongestPrefix_one_add_nil fun v hv hpre => ?_
          have hv : v = utf8Bytes text.toList := hv
          rw [hv, utf8Bytes_isPrefix_iff] at hpre
          exact absurd (List.isPrefixOf_iff_prefix.mpr hpre) h
  | string =>
      have hquote : AsciiOnly (· == '"') := asciiOnly_beq (by decide)
      cases s with
      | nil => exact isLongestPrefix_nil_utf8Bytes hquote rfl
      | cons c s =>
          by_cases hc : c = '"'
          · subst hc
            have hbody : ∀ c : Char, 128 ≤ c.toNat → (c != '"') = true := by
              intro c hc
              have hne : (c == '"') = false := hquote c hc
              rw [bne, hne]
              rfl
            have hclosing := isLongestPrefix_closingQuote (s.dropWhile (· != '"'))
            have hrun := hclosing.takeWhile_append hbody (by simp)
            rw [mul_one] at hrun
            exact (hrun.cons_utf8Bytes hquote rfl).one_add
          · rw [munch_string_of_ne hc]
            exact isLongestPrefix_nil_utf8Bytes hquote (beq_false_of_ne hc)
  | number =>
      cases s with
      | nil => exact isLongestPrefix_nil_utf8Bytes asciiOnly_isDigit rfl
      | cons c s =>
          by_cases hc : c.isDigit
          · have hfraction := isLongestPrefix_fraction (s.dropWhile Char.isDigit)
            have hpoint : ∀ c, (c == '.') = true → c.isDigit = false := by
              intro c hc
              rw [eq_of_beq hc]
              rfl
            have hrun := hfraction.takeWhile_append asciiOnly_isDigit hpoint
            have hmunch : number.munch (c :: s) =
                c :: (s.takeWhile Char.isDigit ++ fraction (s.dropWhile Char.isDigit)) := by
              simp [munch, hc]
            rw [hmunch]
            exact (hrun.cons_utf8Bytes asciiOnly_isDigit hc).one_add
          · have hmunch : number.munch (c :: s) = [] := by simp [munch, hc]
            rw [hmunch]
            exact isLongestPrefix_nil_utf8Bytes asciiOnly_isDigit (by simpa using hc)
  | blank =>
      have hspace := isLongestPrefix_takeWhile (asciiOnly_beq (q := ' ') (by decide)) s
      rw [language, munch, Language.one_add_self_mul_kstar_eq_kstar]
      exact hspace
  | identifier =>
      cases s with
      | nil => exact isLongestPrefix_nil_utf8Bytes asciiOnly_isAlpha rfl
      | cons c s =>
          rw [munch]
          by_cases hc : c.isAlpha
          · rw [if_pos hc]
            have hrun := isLongestPrefix_takeWhile asciiOnly_isAlphanum s
            exact (hrun.cons_utf8Bytes asciiOnly_isAlpha hc).one_add
          · rw [if_neg hc]
            exact isLongestPrefix_nil_utf8Bytes asciiOnly_isAlpha (by simpa using hc)

end Pattern

end PoxTokens
