import PoxTokens.Proofs.Language
import PoxTokens.Walk

/-!
# PoxTokens.Proofs.Walk

What a cursor passes when it walks a pattern over bytes.  It is the longest beginning of
the bytes ahead that is in the language of the pattern, and nothing if there is none
(`Pattern.passes_walk`), whether these bytes are whole characters or not.  So a pattern
matches where a word of its language stands, and takes the longest one
(`Pattern.matchBytes?_longest`).

Since there is one longest beginning at most, a walk and the pattern at the characters
agree: where a character starts the walk passes the bytes of what the pattern takes, and
inside a character, where no word of a pattern begins, it passes none.
-/

namespace PoxTokens

open Computability

/-- Behind the run of a class there is what is left of the list without it. -/
theorem drop_length_takeWhile {α : Type} (q : α → Bool) (w : List α) :
    w.drop (w.takeWhile q).length = w.dropWhile q :=
  calc w.drop (w.takeWhile q).length
    _ = (w.takeWhile q ++ w.dropWhile q).drop (w.takeWhile q).length := by
        rw [List.takeWhile_append_dropWhile]
    _ = w.dropWhile q := List.drop_left

/-! ## Questions -/

/-- The longest beginning of some bytes to which a caller says yes, asked about one byte after
the other, and the memory of the caller after the last question. -/
def yesRun {σ : Type} (ask : σ → UInt8 → Bool × σ) (memory : σ) : List UInt8 → List UInt8 × σ
  | [] => ([], memory)
  | b :: w =>
    match ask memory b with
    | (false, memory') => ([], memory')
    | (true, memory') =>
      let (u, last) := yesRun ask memory' w
      (b :: u, last)

section
variable {σ : Type} {ask : σ → UInt8 → Bool × σ} {memory memory' : σ} {b : UInt8} {w : List UInt8}

theorem yesRun_cons_of_no (h : ask memory b = (false, memory')) :
    yesRun ask memory (b :: w) = ([], memory') := by
  rw [yesRun, h]

theorem yesRun_cons_of_yes (h : ask memory b = (true, memory')) :
    yesRun ask memory (b :: w) =
      (b :: (yesRun ask memory' w).1, (yesRun ask memory' w).2) := by
  rw [yesRun, h]

/-- A caller without memory says yes to a run of a class. -/
theorem yesRun_of_no_memory (q : UInt8 → Bool) (w : List UInt8) :
    yesRun (fun _ b => (q b, ())) () w = (w.takeWhile q, ()) := by
  induction w with
  | nil => rfl
  | cons b w ih =>
      cases hq : q b with
      | false =>
          rw [yesRun_cons_of_no (by rw [hq]), List.takeWhile_cons_of_neg (by simp [hq])]
      | true => rw [yesRun_cons_of_yes (by rw [hq]), ih, List.takeWhile_cons_of_pos hq]

end

/-! ## Cursors -/

namespace Cursor

/-- The bytes that a cursor has before it. -/
def ahead (c : Cursor) : List UInt8 := c.bytes.toList.drop c.position

/-- The cursor some bytes further on. -/
def forward (c : Cursor) (count : Nat) : Cursor := { c with position := c.position + count }

/-- From one cursor to another the longest beginning in a language is passed. -/
def Passes (c : Cursor) (L : Language UInt8) (last : Cursor) : Prop :=
  ∃ u, IsLongestPrefix L c.ahead u ∧ last = c.forward u.length

section
variable {c : Cursor} {b : UInt8} {n : Nat}

@[simp] theorem forward_forward (c : Cursor) (m n : Nat) :
    (c.forward m).forward n = c.forward (m + n) := by
  rw [forward, forward, forward, Nat.add_assoc]

@[simp] theorem ahead_forward (c : Cursor) (n : Nat) : (c.forward n).ahead = c.ahead.drop n := by
  rw [ahead, ahead, forward, List.drop_drop]

theorem length_ahead (c : Cursor) : c.ahead.length = c.bytes.size - c.position := by
  rw [ahead, List.length_drop, Array.length_toList]

theorem peek?_eq (c : Cursor) (n : Nat) : c.peek? n = c.ahead[n]? := by
  rw [peek?, ahead, List.getElem?_drop, Array.getElem?_toList]

theorem current?_eq (c : Cursor) : c.current? = c.ahead.head? := by
  rw [current?, peek?_eq, List.head?_eq_getElem?]

theorem startsWith_iff {text : String} : c.startsWith text ↔ bytesOf text <+: c.ahead :=
  List.isPrefixOf_iff_prefix

/-- A step that stays in the source moves the cursor forward by as much. -/
theorem advanceBy_eq (hposition : c.position ≤ c.bytes.size) (h : n ≤ c.ahead.length) :
    c.advanceBy n = c.forward n := by
  rw [length_ahead] at h
  rw [advanceBy, forward, Nat.min_eq_left (by omega)]

theorem advance_eq (h : c.ahead ≠ []) : c.advance = c.forward 1 := by
  have hlength := List.length_pos_iff.mpr h
  rw [length_ahead] at hlength
  rw [advance, if_neg]
  · rfl
  · simp [isAtEnd]
    omega

theorem matchByte_eq (c : Cursor) (b : UInt8) :
    c.matchByte b = if c.ahead.head? = some b then (true, c.forward 1) else (false, c) := by
  rw [matchByte, current?_eq]
  rfl

/-- A caller who is asked about each byte passes those to which it says yes. -/
theorem eatWhile_eq_yesRun {σ : Type} (ask : σ → UInt8 → Bool × σ) (memory : σ) (c : Cursor) :
    c.eatWhile ask memory =
      ((yesRun ask memory c.ahead).2, c.forward (yesRun ask memory c.ahead).1.length) := by
  induction hn : c.bytes.size - c.position generalizing c memory with
  | zero =>
      have hahead : c.ahead = [] := by
        rw [← List.length_eq_zero_iff, length_ahead, hn]
      rw [eatWhile, dif_neg (by omega), hahead]
      rfl
  | succ n ih =>
      have hposition : c.position < c.bytes.size := by omega
      have hahead : c.ahead = c.bytes[c.position] :: (c.forward 1).ahead := by
        rw [ahead_forward, ahead, List.drop_drop, ← Array.getElem_toList]
        exact List.drop_eq_getElem_cons _
      rw [eatWhile, dif_pos hposition, hahead]
      cases hask : ask memory c.bytes[c.position] with
      | mk answer memory' =>
          cases answer with
          | false =>
              rw [yesRun_cons_of_no hask]
              rfl
          | true =>
              have hrest := ih memory' (c.forward 1) (by simp only [forward]; omega)
              rw [forward_forward, Nat.add_comm 1] at hrest
              rw [yesRun_cons_of_yes hask, List.length_cons]
              exact hrest

/-- A question without memory passes the run of the bytes to which it says yes. -/
theorem eatWhile_eq (q : UInt8 → Bool) (c : Cursor) :
    (c.eatWhile (fun _ b => (q b, ())) ()).2 = c.forward (c.ahead.takeWhile q).length := by
  rw [eatWhile_eq_yesRun, yesRun_of_no_memory]

/-- Eating a class moves the cursor over the run of it. -/
theorem eatClass_eq (p : Char → Bool) (c : Cursor) :
    c.eatClass p = c.forward (c.ahead.takeWhile fun b => p (Char.ofUInt8 b)).length :=
  eatWhile_eq _ c

/-- Behind that, what is ahead does not begin with the class. -/
theorem ahead_eatClass (p : Char → Bool) (c : Cursor) :
    (c.eatClass p).ahead = c.ahead.dropWhile fun b => p (Char.ofUInt8 b) := by
  rw [eatClass_eq, ahead_forward, drop_length_takeWhile]

/-- Eating up to a byte moves the cursor in front of it, or to the end. -/
theorem eatUntil_eq (c : Cursor) (needle : UInt8) :
    c.eatUntil needle = c.forward (c.ahead.takeWhile (· != needle)).length :=
  eatWhile_eq _ c

theorem ahead_eatUntil (c : Cursor) (needle : UInt8) :
    (c.eatUntil needle).ahead = c.ahead.dropWhile (· != needle) := by
  rw [eatUntil_eq, ahead_forward, drop_length_takeWhile]

/-- A cursor that is put at an offset has the bytes behind it ahead. -/
theorem ahead_startingAt (source : String) (offset : Nat) :
    (startingAt source offset).ahead = (bytesOf source).drop offset := by
  rw [ahead, startingAt, bytesOf]
  by_cases h : offset ≤ source.toUTF8.data.size
  · simp only [Nat.min_eq_left h]
  · rw [List.drop_of_length_le, List.drop_of_length_le]
    · rw [Array.length_toList]; omega
    · simp only [Array.length_toList]; omega

theorem consumed_forward (source : String) (offset n : Nat) :
    ((startingAt source offset).forward n).consumed = n := by
  simp only [consumed, forward, startingAt]
  omega

end

end Cursor

/-! ## Patterns -/

/-- A byte is the code of an ASCII character exactly if it is that character's only byte. -/
theorem ofUInt8_beq {q : Char} (hq : q.toNat < 128) (b : UInt8) :
    (Char.ofUInt8 b == q) = (b == q.toUInt8) := by
  rw [Bool.eq_iff_iff, beq_iff_eq, beq_iff_eq]
  constructor
  · rintro rfl
    exact (UInt8.toUInt8_toUInt32 b).symm
  · rintro rfl
    exact ofUInt8_toUInt8 hq

section
variable {α : Type} {p q : α → Bool} {L : Language α} {w u : List α}

/-- No word that a symbol of a class opens begins a text that opens otherwise. -/
theorem isLongestPrefix_nil_of_head? (h : w.head?.any p = false) :
    IsLongestPrefix (1 + oneOf p * L) w [] := by
  refine isLongestPrefix_one_add_nil fun v hv hpre => ?_
  obtain ⟨a, x, rfl, ha, -⟩ := mem_oneOf_mul_iff.mp hv
  obtain ⟨rest, rfl⟩ := hpre
  rw [List.cons_append, List.head?_cons, Option.any_some, ha] at h
  contradiction

/-- A run of a class that a symbol of a smaller class opens, and what stands behind it. -/
theorem IsLongestPrefix.run_append (h : IsLongestPrefix L (w.dropWhile q) u)
    (hL : ∀ a v, a :: v ∈ L → q a = false) (hpq : ∀ a, p a → q a) (hfirst : w.head?.any p) :
    IsLongestPrefix (oneOf p * ((oneOf q)∗ * L)) w (w.takeWhile q ++ u) := by
  cases w with
  | nil => contradiction
  | cons a w =>
      have ha : p a := hfirst
      rw [List.dropWhile_cons_of_pos (hpq _ ha)] at h
      rw [List.takeWhile_cons_of_pos (hpq _ ha)]
      exact (h.kstar_oneOf_mul hL).oneOf_mul ha

/-- A run of a class that a symbol of a smaller class opens. -/
theorem isLongestPrefix_run (hpq : ∀ a, p a → q a) (hfirst : w.head?.any p) :
    IsLongestPrefix (oneOf p * (oneOf q)∗) w (w.takeWhile q) := by
  have hrun := isLongestPrefix_one.run_append (fun a v hv => absurd hv (List.cons_ne_nil a v))
    hpq hfirst
  rw [mul_one, List.append_nil] at hrun
  exact hrun

end

theorem head?_any_eq_false {q : Char} (hq : q.toNat < 128) {w : List UInt8}
    (h : w.head? ≠ some q.toUInt8) : w.head?.any (fun b => Char.ofUInt8 b == q) = false := by
  cases w with
  | nil => rfl
  | cons b w =>
      rw [List.head?_cons, ne_eq, Option.some.injEq] at h
      exact (ofUInt8_beq hq b).trans (beq_false_of_ne h)

/-- Nothing is passed where a word would have to open otherwise. -/
theorem Cursor.passes_nil {c : Cursor} {p : UInt8 → Bool} {L : Language UInt8}
    (h : c.ahead.head?.any p = false) : c.Passes (1 + oneOf p * L) c :=
  ⟨[], isLongestPrefix_nil_of_head? h, rfl⟩

/-- An expected byte is passed if it is there. -/
theorem Cursor.passes_matchByte {q : Char} (hq : q.toNat < 128) (c : Cursor) :
    c.Passes (1 + byteOf (· == q)) (c.matchByte q.toUInt8).2 := by
  rw [matchByte_eq, ← mul_one (byteOf _)]
  split
  · next h =>
    obtain ⟨rest, hahead⟩ := List.head?_eq_some_iff.mp h
    have hopen : (Char.ofUInt8 q.toUInt8 == q) = true := by
      rw [ofUInt8_beq hq, beq_self_eq_true]
    have hword := (isLongestPrefix_one (w := rest)).oneOf_mul (p := fun b => Char.ofUInt8 b == q)
      hopen
    exact ⟨_, hahead ▸ hword.one_add, rfl⟩
  · next h => exact passes_nil (head?_any_eq_false hq h)

namespace Pattern

variable {c : Cursor}

/-- The walk of a literal passes it as a whole or not at all. -/
theorem passes_literal (text : String) (h : c.position ≤ c.bytes.size) :
    c.Passes (1 + (literal text).language) ((literal text).walk c) := by
  rw [walk]
  split
  · next htext =>
    have hpre := Cursor.startsWith_iff.mp htext
    have hword : IsLongestPrefix (language (literal text)) c.ahead (bytesOf text) :=
      { mem := bytesOf_eq text
        isPrefix := hpre
        length_le := fun v hv _ => by
          rw [show v = utf8Bytes text.toList from hv, bytesOf_eq] }
    exact ⟨bytesOf text, hword.one_add,
      by rw [← length_bytesOf, Cursor.advanceBy_eq h hpre.length_le]⟩
  · next htext =>
    refine ⟨[], isLongestPrefix_one_add_nil fun v hv hpre => ?_, rfl⟩
    rw [show v = utf8Bytes text.toList from hv, ← bytesOf_eq] at hpre
    exact absurd (Cursor.startsWith_iff.mpr hpre) htext

/-- The walk of a string passes its quotes and all between them. -/
theorem passes_string (c : Cursor) : c.Passes (1 + language string) (string.walk c) := by
  have hquote := ofUInt8_beq (q := '"') (by decide)
  have hbody : (fun b => Char.ofUInt8 b != '"') = (· != '"'.toUInt8) :=
    funext fun b => by rw [bne, bne, hquote]
  have hopen : (Char.ofUInt8 '"'.toUInt8 == '"') = true := by rw [hquote, beq_self_eq_true]
  rw [walk, Cursor.matchByte_eq]
  by_cases hfirst : c.ahead.head? = some '"'.toUInt8
  · obtain ⟨rest, hahead⟩ := List.head?_eq_some_iff.mp hfirst
    obtain ⟨u, hu, hclosing⟩ := Cursor.passes_matchByte (q := '"') (by decide)
      ((c.forward 1).eatUntil '"'.toUInt8)
    -- what may stand behind the content does not prolong it
    have hend : ∀ b v, b :: v ∈ 1 + byteOf (· == '"') → (Char.ofUInt8 b != '"') = false := by
      intro b v hv
      obtain ⟨d, hd, heq⟩ := hv.resolve_left (List.cons_ne_nil b v)
      rw [(List.cons.inj heq).1, eq_of_beq hd]
      rfl
    rw [Cursor.ahead_eatUntil, Cursor.ahead_forward, hahead, List.drop_one, List.tail_cons,
      ← hbody] at hu
    have hstring := ((hu.kstar_oneOf_mul hend).oneOf_mul
      (p := fun b => Char.ofUInt8 b == '"') hopen).one_add
    refine ⟨_, hahead ▸ hstring, ?_⟩
    rw [if_pos hfirst]
    dsimp only
    rw [hclosing, Cursor.eatUntil_eq, Cursor.ahead_forward, hahead, Cursor.forward_forward,
      Cursor.forward_forward, List.length_cons, List.length_append, hbody, List.drop_one,
      List.tail_cons, Nat.add_comm 1, Nat.add_right_comm]
  · rw [if_neg hfirst]
    exact Cursor.passes_nil (head?_any_eq_false (by decide) hfirst)

/-- Behind the digits of a number the longest point with digits is passed. -/
theorem passes_fraction (c : Cursor) :
    c.Passes (1 + byteOf (· == '.') * (byteOf Char.isDigit * (byteOf Char.isDigit)∗))
      (if c.current? = some '.'.toUInt8 ∧ (c.peek? 1).any fun b => (Char.ofUInt8 b).isDigit then
        c.advance.eatClass Char.isDigit else c) := by
  have hpoint := ofUInt8_beq (q := '.') (by decide)
  rw [Cursor.current?_eq, Cursor.peek?_eq]
  split
  · next h =>
    obtain ⟨hhead, hdigit⟩ := h
    obtain ⟨rest, hahead⟩ := List.head?_eq_some_iff.mp hhead
    rw [hahead, List.getElem?_cons_succ, ← List.head?_eq_getElem?] at hdigit
    have hrun := isLongestPrefix_run (fun _ hb => hb) hdigit
    have hopen : (Char.ofUInt8 '.'.toUInt8 == '.') = true := by rw [hpoint, beq_self_eq_true]
    refine ⟨_, hahead ▸ (hrun.oneOf_mul hopen).one_add, ?_⟩
    rw [Cursor.advance_eq (by rw [hahead]; exact List.cons_ne_nil _ _), Cursor.eatClass_eq,
      Cursor.ahead_forward, hahead, List.drop_one, List.tail_cons, Cursor.forward_forward,
      List.length_cons, Nat.add_comm]
  · next h =>
    refine ⟨[], isLongestPrefix_one_add_nil fun v hv hpre => ?_, rfl⟩
    obtain ⟨b, x, rfl, hb, hx⟩ := mem_oneOf_mul_iff.mp hv
    obtain ⟨d, y, rfl, hd, -⟩ := mem_oneOf_mul_iff.mp hx
    obtain ⟨rest, hrest⟩ := hpre
    have hb : b = '.'.toUInt8 := eq_of_beq ((hpoint b).symm.trans hb)
    rw [← hrest, hb] at h
    exact absurd ⟨rfl, hd⟩ h

/-- The walk of a number passes a fraction only with a digit in it. -/
theorem passes_number (c : Cursor) : c.Passes (1 + language number) (number.walk c) := by
  obtain ⟨u, hu, hfraction⟩ := passes_fraction (c.eatClass Char.isDigit)
  rw [Cursor.ahead_eatClass] at hu
  have hpoint : ∀ b v, b :: v ∈ 1 + byteOf (· == '.') *
      (byteOf Char.isDigit * (byteOf Char.isDigit)∗) → (Char.ofUInt8 b).isDigit = false := by
    intro b v hv
    obtain ⟨d, x, heq, hd, -⟩ := mem_oneOf_mul_iff.mp (hv.resolve_left (List.cons_ne_nil b v))
    have hd : Char.ofUInt8 d = '.' := eq_of_beq hd
    rw [(List.cons.inj heq).1, hd]
    rfl
  have hposition : (c.eatClass Char.isDigit).position = c.position ↔
      c.ahead.head?.any (fun b => (Char.ofUInt8 b).isDigit) = false := by
    rw [Cursor.eatClass_eq, Cursor.forward]
    cases c.ahead with
    | nil => simp
    | cons b w => simp [List.takeWhile_cons]
  -- the cursor stands still exactly where no digit is ahead
  rw [walk, hfraction]
  split
  · next h => exact Cursor.passes_nil (hposition.mp h)
  · next h =>
    have hfirst := Bool.eq_true_of_not_eq_false (mt hposition.mpr h)
    refine ⟨_, (hu.run_append hpoint (fun _ hb => hb) hfirst).one_add, ?_⟩
    rw [Cursor.eatClass_eq, Cursor.forward_forward, List.length_append]

theorem passes_blank (c : Cursor) : c.Passes (1 + language blank) (blank.walk c) := by
  refine ⟨c.ahead.takeWhile fun b => Char.ofUInt8 b == ' ', ?_, Cursor.eatClass_eq (· == ' ') c⟩
  rw [language, Language.one_add_self_mul_kstar_eq_kstar]
  exact isLongestPrefix_kstar_oneOf

/-- The walk of an identifier passes the whole word. -/
theorem passes_identifier (c : Cursor) :
    c.Passes (1 + language identifier) (identifier.walk c) := by
  have halnum : ∀ b : UInt8, (Char.ofUInt8 b).isAlpha → (Char.ofUInt8 b).isAlphanum :=
    fun b hb => by rw [Char.isAlphanum, hb, Bool.true_or]
  rw [walk, Cursor.current?_eq]
  split
  · next hfirst => exact ⟨_, (isLongestPrefix_run halnum hfirst).one_add, Cursor.eatClass_eq _ c⟩
  · next hfirst => exact Cursor.passes_nil (by simpa using hfirst)

/-- A walk passes the longest beginning in the language of the pattern, and nothing if
there is none, whatever the bytes ahead are. -/
theorem passes_walk (p : Pattern) (h : c.position ≤ c.bytes.size) :
    c.Passes (1 + p.language) (p.walk c) := by
  cases p with
  | literal text => exact passes_literal text h
  | string => exact passes_string c
  | number => exact passes_number c
  | blank => exact passes_blank c
  | identifier => exact passes_identifier c

/-- At any offset of a source the pattern matches the longest beginning of the bytes there
that is in its language; no match is empty. -/
theorem exists_matchBytes?_eq (p : Pattern) (source : String) (offset : Nat) :
    ∃ u, IsLongestPrefix (1 + p.language) ((bytesOf source).drop offset) u ∧
      p.matchBytes? source offset = if u = [] then none else some u.length := by
  have hposition : (Cursor.startingAt source offset).position ≤
      (Cursor.startingAt source offset).bytes.size := Nat.min_le_right _ _
  obtain ⟨u, hu, hwalk⟩ := passes_walk p hposition
  rw [Cursor.ahead_startingAt] at hu
  refine ⟨u, hu, ?_⟩
  rw [matchBytes?, hwalk, Cursor.consumed_forward]
  simp only [List.length_eq_zero_iff]

/-- A pattern matches the longest prefix in its language, unless that is empty. -/
theorem matchBytes?_eq {p : Pattern} {source : String} {offset : Nat} {u : List UInt8}
    (h : IsLongestPrefix (1 + p.language) ((bytesOf source).drop offset) u) :
    p.matchBytes? source offset = if u = [] then none else some u.length := by
  obtain ⟨v, hv, heq⟩ := exists_matchBytes?_eq p source offset
  rw [heq, hv.unique h]

/-- Where a character starts, what a pattern matches over bytes are the bytes of what it
takes from the text there. -/
theorem matchBytes?_of_splitAtByte? (p : Pattern) {source : String} {offset : Nat}
    {before after : List Char} (h : splitAtByte? offset source.toList = some (before, after)) :
    p.matchBytes? source offset =
      if p.munch after = [] then none else some (byteLength (p.munch after)) := by
  have hlong := p.isLongestPrefix_munch after
  rw [← drop_utf8Bytes h, ← bytesOf_eq] at hlong
  rw [matchBytes?_eq hlong, length_utf8Bytes]
  simp only [utf8Bytes_eq_nil_iff]

/-- Inside a character and past the end nothing matches. -/
theorem matchBytes?_of_splitAtByte?_eq_none (p : Pattern) {source : String} {offset : Nat}
    (h : splitAtByte? offset source.toList = none) : p.matchBytes? source offset = none := by
  have hnil : IsLongestPrefix (1 + p.language) ((bytesOf source).drop offset) [] := by
    refine isLongestPrefix_one_add_nil fun v hv hpre => ?_
    exact eq_nil_of_splitAtByte?_eq_none h hv (bytesOf_eq source ▸ hpre)
  rw [matchBytes?_eq hnil, if_pos rfl]

end Pattern

/-- A rule matches as many bytes as its pattern does. -/
theorem Rule.matchLength?_eq (rule : Rule) (source : String) (offset : Nat) :
    rule.matchLength? source offset = rule.pattern.matchBytes? source offset := by
  rw [matchLength?, token?]
  cases hplace : splitAtByte? offset source.toList with
  | none =>
      rw [rule.pattern.matchBytes?_of_splitAtByte?_eq_none hplace]
      rfl
  | some place =>
      obtain ⟨before, after⟩ := place
      rw [rule.pattern.matchBytes?_of_splitAtByte? hplace]
      simp only [Option.bind_some, lexeme?, List.isEmpty_iff]
      split
      · rfl
      · rw [Option.map_some, Option.map_some, Token.length, Lexeme.at, utf8ByteSize_ofList]

/-- **Patterns**: whatever the pattern and the offset, there is a match exactly if the bytes at
the offset begin with a word of the language of the pattern that is not empty, and then it has
the bytes of the longest one.  So the empty spelling has no match.  A rule with the pattern, of
whatever kind, matches where the pattern does. -/
theorem Pattern.matchBytes?_longest (p : Pattern) (source : String) (offset : Nat) :
    let ahead := (bytesOf source).drop offset
    ((p.matchBytes? source offset).isSome ↔ ∃ u ∈ p.language, u <+: ahead ∧ u ≠ []) ∧
    (∀ n, p.matchBytes? source offset = some n ↔
      ∃ u, IsLongestPrefix p.language ahead u ∧ u ≠ [] ∧ u.length = n) ∧
    (literal "").matchBytes? source offset = none ∧
    ∀ kind, (Rule.mk kind p).matchLength? source offset = p.matchBytes? source offset := by
  intro ahead
  have hempty : (literal "").matchBytes? source offset = none := by
    have hnil : IsLongestPrefix (1 + (literal "").language) ahead [] :=
      isLongestPrefix_one_add_nil fun v hv _ => hv
    rw [matchBytes?_eq hnil, if_pos rfl]
  obtain ⟨u, hu, hmatch⟩ := exists_matchBytes?_eq p source offset
  refine ⟨?_, fun n => ?_, hempty, fun kind => Rule.matchLength?_eq ⟨kind, p⟩ source offset⟩
  · rw [hmatch]
    by_cases hnil : u = []
    · rw [if_pos hnil]
      refine iff_of_false Bool.false_ne_true fun hword => ?_
      obtain ⟨v, hv, hpre, hne⟩ := hword
      rw [hnil] at hu
      exact hne (hu.eq_nil hv hpre)
    · rw [if_neg hnil]
      exact iff_of_true rfl ⟨u, (hu.of_one_add hnil).mem, hu.isPrefix, hnil⟩
  · constructor
    · intro hsome
      rw [hmatch] at hsome
      by_cases hnil : u = []
      · rw [if_pos hnil] at hsome
        contradiction
      · rw [if_neg hnil, Option.some.injEq] at hsome
        exact ⟨u, hu.of_one_add hnil, hnil, hsome⟩
    · intro hword
      obtain ⟨v, hv, hne, hlength⟩ := hword
      rw [matchBytes?_eq hv.one_add, if_neg hne, hlength]

end PoxTokens
