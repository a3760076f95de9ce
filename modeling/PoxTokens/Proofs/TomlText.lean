import PoxTokens.Proofs.Digits
import PoxTokens.Toml.Document

/-!
# PoxTokens.Proofs.TomlText

The parts of a plain TOML document: names without quotes, and the ways of writing a truth value,
an integer or a string without escapes on one line (`WritesValue`).  Each of them is one token if
nothing behind it goes on with it (`Stops`), blanks are one token or none, and comments none at
all.  The token of a value completes the entry in which it stands (`WritesValue.denotes`).
-/

namespace PoxTokens.Toml

/-! ## Runs -/

theorem facts_of_isBareChar {c : Char} (h : isBareChar c) :
    mark? c = none ∧ isBlank c = false ∧ c ≠ '#' ∧ ¬(c = '"' ∨ c = '\'') := by
  refine ⟨?_, ?_, ?_, ?_⟩
  · unfold mark?
    split <;> first | contradiction | rfl
  · rw [Bool.eq_false_iff]
    intro hblank
    simp only [isBlank, Bool.or_eq_true, beq_iff_eq] at hblank
    rcases hblank with rfl | rfl <;> contradiction
  · rintro rfl
    contradiction
  · rintro (rfl | rfl) <;> contradiction

theorem isBareChar_of_isDigit {c : Char} (h : c.isDigit) : isBareChar c := by
  simp [isBareChar, Char.isAlphanum, h]

/-- A run begins with no blank. -/
theorem leads_isBlank_append {run : List Char} (hne : run ≠ []) (hrun : ∀ c ∈ run, isBareChar c)
    (rest : List Char) : leads isBlank (run ++ rest) = false := by
  cases run with
  | nil => contradiction
  | cons c run => exact (facts_of_isBareChar (hrun c List.mem_cons_self)).2.1

theorem tokens?_mark {c : Char} {mark : Token} (h : mark? c = some mark) (rest : List Char) :
    tokens? (c :: rest) = (tokens? rest).map (mark :: ·) := by
  rw [tokens?, h]

/-- Nothing that could go on with a name or a value in front of it. -/
structure Stops (rest : List Char) : Prop where
  run : leads isBareChar rest = false
  quote : leads (fun c => c == '"' || c == '\'') rest = false
  time : timeFollows rest = false

/-- Blanks do not prevent that something stops what is in front of them. -/
theorem Stops.blanks {blanks rest : List Char} (hblanks : ∀ c ∈ blanks, isBlank c)
    (h : Stops rest) : Stops (blanks ++ rest) := by
  cases blanks with
  | nil => exact h
  | cons c blanks =>
      have hc : c = ' ' ∨ c = '\t' := by
        simpa [isBlank] using hblanks c List.mem_cons_self
      -- what stands behind the first blank is no digit, so it starts no time
      have hnext : leads Char.isDigit (blanks ++ rest) = false := by
        cases blanks with
        | nil =>
            cases rest with
            | nil => rfl
            | cons d rest =>
                rw [List.nil_append, leads_cons, Bool.eq_false_iff]
                intro hd
                exact absurd h.run (by simp [isBareChar_of_isDigit hd])
        | cons d blanks =>
            have hd : d = ' ' ∨ d = '\t' := by
              simpa [isBlank] using hblanks d (List.mem_cons_of_mem _ List.mem_cons_self)
            rcases hd with rfl | rfl <;> rfl
      rw [List.cons_append]
      refine ⟨?_, ?_, ?_⟩
      · rcases hc with rfl | rfl <;> rfl
      · rcases hc with rfl | rfl <;> rfl
      · unfold timeFollows
        split
        · next heq =>
          rw [(List.cons.inj heq).2, leads_cons] at hnext
          rw [hnext, Bool.false_and]
        · rfl

/-- A run in front of anything that stops it. -/
theorem tokens?_bare {run rest : List Char} (hne : run ≠ []) (hrun : ∀ c ∈ run, isBareChar c)
    (hrest : Stops rest) : tokens? (run ++ rest) = (tokens? rest).map (.bare run :: ·) := by
  have hbare : bareRun (run ++ rest) = (run, rest) := by
    rw [bareRun, takeWhile_append_eq_left_iff.mpr ⟨hrun, hrest.run⟩,
      dropWhile_append_of_not_leads hrun hrest.run]
    simp [hrest.time]
  cases run with
  | nil => contradiction
  | cons c run =>
      have hc := hrun c List.mem_cons_self
      obtain ⟨hmark, hblank, hcomment, hquote⟩ := facts_of_isBareChar hc
      rw [List.cons_append] at hbare ⊢
      rw [tokens?, hmark]
      simp only [hblank, hcomment, hquote, hc, hbare, if_false, Bool.false_eq_true, dif_pos]

/-! ## Blanks and comments -/

/-- The tokens of blanks. -/
def blankTokens (blanks : List Char) : List Token := if blanks.isEmpty then [] else [.blank]

/-- A run of blanks is kept as one token at most. -/
theorem tokens?_blanks {blanks rest : List Char} (hblanks : ∀ c ∈ blanks, isBlank c)
    (hrest : leads isBlank rest = false) :
    tokens? (blanks ++ rest) = (tokens? rest).map (blankTokens blanks ++ ·) := by
  cases blanks with
  | nil => simp [blankTokens]
  | cons c blanks =>
      obtain ⟨hc, hmore⟩ := List.forall_mem_cons.mp hblanks
      have hmark : mark? c = none := by
        have hcases : c = ' ' ∨ c = '\t' := by simpa [isBlank] using hc
        rcases hcases with rfl | rfl <;> rfl
      rw [List.cons_append, tokens?, hmark]
      simp only [hc, if_true]
      rw [dropWhile_append_of_not_leads hmore hrest]
      rfl

/-- A comment is dropped up to the end of its line. -/
theorem tokens?_comment {text rest : List Char} (htext : ∀ c ∈ text, isTextChar c)
    (hrest : leads (· != '\n') rest = false) :
    tokens? ('#' :: (text ++ rest)) = tokens? rest := by
  have hline : ∀ c ∈ text, (c != '\n') = true := by
    intro c hc
    rw [bne_iff_ne]
    rintro rfl
    have hbreak := htext '\n' hc
    contradiction
  have hmark : mark? '#' = none := rfl
  have hblank : isBlank '#' = false := rfl
  rw [tokens?, hmark]
  simp only [hblank, Bool.false_eq_true, if_false, if_true]
  rw [takeWhile_append_eq_left_iff.mpr ⟨hline, hrest⟩, dropWhile_append_of_not_leads hline hrest,
    if_pos (List.all_eq_true.mpr htext)]

/-! ## Strings -/

/-- May the character stand for itself in a string between these quotes? -/
def isPlainIn (quote c : Char) : Bool :=
  isTextChar c && c != quote && !(quote == '"' && c == '\\')

theorem facts_of_isPlainIn {quote c : Char} (h : isPlainIn quote c) :
    isTextChar c ∧ c ≠ quote ∧ ¬(c = '\\' ∧ quote = '"') := by
  simp only [isPlainIn, Bool.and_eq_true, Bool.not_eq_true', Bool.and_eq_false_iff, bne_iff_ne,
    beq_eq_false_iff_ne] at h
  obtain ⟨⟨hchar, hquote⟩, hescape⟩ := h
  refine ⟨hchar, hquote, ?_⟩
  rintro ⟨hc, hq⟩
  rcases hescape with h | h
  · exact h hq
  · exact h hc

/-- Plain characters are read up to the quote as they are. -/
theorem lineText?_plain {quote : Char} {text : List Char} (h : ∀ c ∈ text, isPlainIn quote c)
    (rest : List Char) : lineText? quote (text ++ quote :: rest) = some (text, rest) := by
  induction text with
  | nil => rw [List.nil_append, lineText?, if_pos rfl]
  | cons c text ih =>
      obtain ⟨hc, htext⟩ := List.forall_mem_cons.mp h
      obtain ⟨hchar, hquote, hescape⟩ := facts_of_isPlainIn hc
      rw [List.cons_append, lineText?, if_neg hquote, if_neg hescape, if_pos hchar, ih htext]
      rfl

/-- A string of plain characters is one token. -/
theorem tokens?_string {quote : Char} {text rest : List Char} (hquote : quote = '"' ∨ quote = '\'')
    (h : ∀ c ∈ text, isPlainIn quote c) (hrest : Stops rest) :
    tokens? (quote :: (text ++ quote :: rest)) = (tokens? rest).map (.line text :: ·) := by
  -- two quotes may begin a string in triple quotes, but nothing here goes on with one
  have hline : [quote, quote].isPrefixOf (text ++ quote :: rest) = false := by
    cases text with
    | nil =>
        cases rest with
        | nil => simp [List.isPrefixOf]
        | cons c rest =>
            have hc : c ≠ quote := by
              rintro rfl
              rcases hquote with rfl | rfl <;> exact absurd hrest.quote (by simp)
            simp [List.isPrefixOf, Ne.symm hc]
    | cons c text =>
        have hc := (facts_of_isPlainIn (h c List.mem_cons_self)).2.1
        simp [List.isPrefixOf, Ne.symm hc]
  have hstring : string? quote (text ++ quote :: rest) = some (.line text, rest) := by
    rw [string?, hline, lineText?_plain h]
    rfl
  have hmark : mark? quote = none := by rcases hquote with rfl | rfl <;> rfl
  have hblank : isBlank quote = false := by rcases hquote with rfl | rfl <;> rfl
  have hcomment : quote ≠ '#' := by rcases hquote with rfl | rfl <;> decide
  rw [tokens?, hmark]
  simp only [hblank, hcomment, hquote, Bool.false_eq_true, if_false, if_true]
  split
  · next heq => rw [hstring] at heq; contradiction
  · next heq =>
    rw [hstring] at heq
    cases heq
    rfl

/-! ## Names -/

theorem isBareChar_of_isNameChar {c : Char} (h : isNameChar c) : isBareChar c := by
  simp only [isNameChar, Bool.or_eq_true] at h
  simp only [isBareChar, Bool.or_eq_true]
  exact .inl (.inl (.inl h))

/-- A bare name is one part of a path. -/
theorem barePartsFrom?_name {name : List Char} (h : ∀ c ∈ name, isNameChar c)
    (before : List Char) (hne : before ++ name ≠ []) :
    barePartsFrom? before name = some [.name (before ++ name)] := by
  induction name generalizing before with
  | nil =>
      rw [List.append_nil] at hne ⊢
      rw [barePartsFrom?, if_neg (by simpa using hne)]
  | cons c name ih =>
      obtain ⟨hc, hname⟩ := List.forall_mem_cons.mp h
      have hpoint : c ≠ '.' := by
        rintro rfl
        contradiction
      have hnext := ih hname (before ++ [c]) (by simp)
      rw [List.append_assoc] at hnext
      rw [barePartsFrom?, if_pos hc, hnext]
      · rfl
      · exact hpoint

/-- Names that need no quotes. -/
structure IsName (name : List Char) : Prop where
  ne_nil : name ≠ []
  chars : ∀ c ∈ name, isNameChar c

theorem isName_toList (name : String) (hne : name.toList ≠ [])
    (h : name.toList.all isNameChar) : IsName name.toList :=
  ⟨hne, List.all_eq_true.mp h⟩

namespace IsName
variable {name : List Char}

/-- Blanks around a name are no part of it. -/
theorem path?_eq (h : IsName name) (before behind : List Char) :
    path? (blankTokens before ++ .bare name :: blankTokens behind) =
      some [String.ofList name] := by
  have hparts := barePartsFrom?_name h.chars [] h.ne_nil
  have hblanks : ∀ blanks, ∃ parts : List (List KeyPart),
      (blankTokens blanks).mapM keyParts? = some parts ∧ parts.flatten = [] := by
    intro blanks
    cases blanks with
    | nil => exact ⟨[], rfl, rfl⟩
    | cons c blanks => exact ⟨[[]], rfl, rfl⟩
  obtain ⟨left, hleft, hleftParts⟩ := hblanks before
  obtain ⟨right, hright, hrightParts⟩ := hblanks behind
  simp [path?, List.mapM_append, hleft, hright, keyParts?, hparts, hleftParts, hrightParts,
    pathOfParts?, nestingLimit]

theorem isBareChar (h : IsName name) : ∀ c ∈ name, isBareChar c :=
  fun c hc => isBareChar_of_isNameChar (h.chars c hc)

theorem tokens? (h : IsName name) {rest : List Char} (hrest : Stops rest) :
    Toml.tokens? (name ++ rest) = (Toml.tokens? rest).map (.bare name :: ·) :=
  tokens?_bare h.ne_nil h.isBareChar hrest

end IsName

/-! ## Integers -/

/-- A run of digits in which single underscores may stand between the digits. -/
inductive Scored : List Char → List Char → Prop where
  | last (c : Char) : Scored [c] [c]
  | next (c : Char) {digits text : List Char} (h : Scored digits text) :
      Scored (c :: digits) (c :: text)
  | score (c : Char) {digits text : List Char} (h : Scored digits text) :
      Scored (c :: digits) (c :: '_' :: text)

namespace Scored
variable {digits text : List Char}

theorem exists_cons (h : Scored digits text) :
    ∃ c digits' text', digits = c :: digits' ∧ text = c :: text' := by
  cases h with
  | last c => exact ⟨c, _, _, rfl, rfl⟩
  | next c h => exact ⟨c, _, _, rfl, rfl⟩
  | score c h => exact ⟨c, _, _, rfl, rfl⟩

theorem of_digits {digits : List Char} (h : digits ≠ []) : Scored digits digits := by
  induction digits with
  | nil => contradiction
  | cons c digits ih =>
      cases digits with
      | nil => exact .last c
      | cons d digits => exact .next c (ih (by simp))

theorem mem_cases (h : Scored digits text) : ∀ c ∈ text, c ∈ digits ∨ c = '_' := by
  induction h with
  | last c => simp
  | next c h ih =>
      intro d hd
      rcases List.mem_cons.mp hd with rfl | hd
      · exact .inl List.mem_cons_self
      · exact (ih d hd).imp_left (List.mem_cons_of_mem c)
  | score c h ih =>
      intro d hd
      rcases List.mem_cons.mp hd with rfl | hd
      · exact .inl List.mem_cons_self
      · rcases List.mem_cons.mp hd with rfl | hd
        · exact .inr rfl
        · exact (ih d hd).imp_left (List.mem_cons_of_mem c)

/-- Underscores between digits do not count. -/
theorem plainDigits?_eq {isDigit : Char → Bool} (h : Scored digits text)
    (hdigits : ∀ c ∈ digits, isDigit c) (hscore : isDigit '_' = false) :
    plainDigits? isDigit text = some digits := by
  induction h with
  | last c => rw [plainDigits?, if_pos (hdigits c List.mem_cons_self)]
  | next c h ih =>
      obtain ⟨hc, hmore⟩ := List.forall_mem_cons.mp hdigits
      obtain ⟨d, digits', text', rfl, rfl⟩ := h.exists_cons
      have hd : d ≠ '_' := by
        rintro rfl
        rw [hmore '_' List.mem_cons_self] at hscore
        contradiction
      rw [plainDigits?, if_pos hc, ih hmore]
      · rfl
      · simp
      · simp [hd]
  | score c h ih =>
      obtain ⟨hc, hmore⟩ := List.forall_mem_cons.mp hdigits
      rw [plainDigits?, if_pos hc, ih hmore]
      rfl

end Scored

/-- The number that digits are in some base. -/
def valueInBase (base : Nat) (digits : List Char) : Nat :=
  digits.foldl (fun value c => base * value + (hexDigit? c).getD 0) 0

/-- The ways of writing an integer. -/
inductive WritesInteger : List Char → Int → Prop where
  | plain {n : Nat} {cs : List Char} (h : Scored (decimal n) cs) : WritesInteger cs n
  | plus {n : Nat} {cs : List Char} (h : Scored (decimal n) cs) : WritesInteger ('+' :: cs) n
  | minus {n : Nat} {cs : List Char} (h : Scored (decimal n) cs) : WritesInteger ('-' :: cs) (-n)
  | based {mark : Char} {base : Nat} {digits cs : List Char}
      (hbase : (mark, base) ∈ [('x', 16), ('o', 8), ('b', 2)]) (h : Scored digits cs)
      (hdigits : ∀ c ∈ digits, (hexDigit? c).any (· < base)) :
      WritesInteger ('0' :: mark :: cs) (valueInBase base digits)

theorem wholeDigits?_of_scored {n : Nat} {cs : List Char} (h : Scored (decimal n) cs) :
    wholeDigits? cs = some (decimal n) := by
  rw [wholeDigits?, h.plainDigits?_eq (isDigits_decimal n).2 rfl]
  rcases decimal_cases n with hzero | ⟨c, digits, hcons, hc⟩
  · rw [hzero]
    rfl
  · rw [hcons]
    split <;> simp_all

/-- Neither a sign nor the letter of a base stands in a number without them. -/
theorem not_mem_of_scored {n : Nat} {cs : List Char} (h : Scored (decimal n) cs) {c : Char}
    (hdigit : c.isDigit = false) (hscore : c ≠ '_') : c ∉ cs := by
  intro hmem
  rcases h.mem_cases c hmem with hdecimal | rfl
  · rw [(isDigits_decimal n).2 c hdecimal] at hdigit
    contradiction
  · contradiction

/-- Is the number an integer of 64 bits? -/
def Fits (n : Int) : Prop := -(integerBound : Int) ≤ n ∧ n < integerBound

theorem filter_of_fits {n : Int} (h : Fits n) :
    (some n).filter (fun n => decide (-(integerBound : Int) ≤ n) && decide (n < integerBound)) =
      some n := by
  simp [h.1, h.2]

/-- A decimal number is read with its sign. -/
theorem integer?_of_sign {text cs : List Char} {negative : Bool} {n : Nat}
    (hsign : splitSign text = (negative, cs)) (h : Scored (decimal n) cs)
    (hbase : ∀ c ∈ text.tail, c ∉ ['x', 'o', 'b'])
    (hfits : Fits (if negative then -(n : Int) else n)) :
    integer? text = some (if negative then -(n : Int) else n) := by
  unfold integer?
  split
  · exact absurd (by simp) (hbase 'x' List.mem_cons_self)
  · exact absurd (by simp) (hbase 'o' List.mem_cons_self)
  · exact absurd (by simp) (hbase 'b' List.mem_cons_self)
  · rw [hsign]
    dsimp only
    rw [wholeDigits?_of_scored h, Option.map_some, ofDigitChars_decimal]
    exact filter_of_fits hfits

/-- A number with the mark of a base is read in this base. -/
theorem integer?_of_base {mark : Char} {base : Nat} {digits cs : List Char}
    (hbase : (mark, base) ∈ [('x', 16), ('o', 8), ('b', 2)]) (h : Scored digits cs)
    (hdigits : ∀ c ∈ digits, (hexDigit? c).any (· < base))
    (hfits : Fits (valueInBase base digits)) :
    integer? ('0' :: mark :: cs) = some (valueInBase base digits : Int) := by
  have hvalue : baseValue? base cs = some (valueInBase base digits) := by
    have hscore : (hexDigit? '_').any (· < base) = false := rfl
    rw [baseValue?, h.plainDigits?_eq hdigits hscore]
    rfl
  have hinteger : integer? ('0' :: mark :: cs) =
      ((baseValue? base cs).map Int.ofNat).filter
        (fun n => decide (-(integerBound : Int) ≤ n) && decide (n < integerBound)) := by
    simp only [List.mem_cons, Prod.mk.injEq, List.not_mem_nil, or_false] at hbase
    unfold integer?
    rcases hbase with ⟨rfl, rfl⟩ | ⟨rfl, rfl⟩ | ⟨rfl, rfl⟩
    all_goals congr 1
  rw [hinteger, hvalue, Option.map_some]
  exact filter_of_fits hfits

/-- Every way of writing a number is read as this number. -/
theorem integer?_of_writes {text : List Char} {n : Int} (h : WritesInteger text n)
    (hfits : Fits n) : integer? text = some n := by
  -- behind the first character of a decimal number stands no letter of a base
  have hbase : ∀ {n : Nat} {cs : List Char}, Scored (decimal n) cs →
      ∀ c ∈ cs, c ∉ ['x', 'o', 'b'] := by
    intro n cs h c hc hmem
    simp only [List.mem_cons, List.not_mem_nil, or_false] at hmem
    rcases hmem with rfl | rfl | rfl
    all_goals exact not_mem_of_scored h rfl (by decide) hc
  cases h with
  | plain h =>
      have hsign : splitSign text = (false, text) := by
        unfold splitSign
        split
        · exact absurd List.mem_cons_self (not_mem_of_scored h rfl (by decide))
        · exact absurd List.mem_cons_self (not_mem_of_scored h rfl (by decide))
        · rfl
      exact integer?_of_sign hsign h (fun c hc => hbase h c (List.mem_of_mem_tail hc)) hfits
  | @plus n cs h =>
      have hsign : splitSign ('+' :: cs) = (false, cs) := rfl
      exact integer?_of_sign hsign h (hbase h) hfits
  | @minus n cs h =>
      have hsign : splitSign ('-' :: cs) = (true, cs) := rfl
      exact integer?_of_sign hsign h (hbase h) hfits
  | based hmark h hdigits => exact integer?_of_base hmark h hdigits hfits

/-- A digit of any base may stand in a run. -/
theorem isBareChar_of_hexDigit? {c : Char} (h : (hexDigit? c).isSome) : isBareChar c := by
  have halphanum : c.isAlpha ∨ c.isDigit := by
    have hsmall : ('0' ≤ c ∧ c ≤ '9') ∨ ('a' ≤ c ∧ c ≤ 'f') ∨ ('A' ≤ c ∧ c ≤ 'F') := by
      unfold hexDigit? at h
      split_ifs at h with hdigit hlower hupper
      · exact .inl hdigit
      · exact .inr (.inl hlower)
      · exact .inr (.inr hupper)
      · contradiction
    simp only [Char.le_def, UInt32.le_iff_toNat_le, Char.toNat_val] at hsmall
    rw [isAlpha_iff_toNat, Char.isDigit_iff_toNat]
    simp only [Char.reduceToNat] at hsmall ⊢
    omega
  simp [isBareChar, Char.isAlphanum, halphanum]

theorem WritesInteger.exists_cons {text : List Char} {n : Int} (h : WritesInteger text n) :
    ∃ c rest, text = c :: rest ∧ c ∉ ['t', 'f'] := by
  cases h with
  | plain h =>
      obtain ⟨c, _, rest, -, rfl⟩ := h.exists_cons
      refine ⟨c, rest, rfl, fun hmem => ?_⟩
      simp only [List.mem_cons, List.not_mem_nil, or_false] at hmem
      rcases hmem with rfl | rfl
      all_goals exact not_mem_of_scored h rfl (by decide) List.mem_cons_self
  | plus h => exact ⟨_, _, rfl, by decide⟩
  | minus h => exact ⟨_, _, rfl, by decide⟩
  | based hmark h hdigits => exact ⟨_, _, rfl, by decide⟩

theorem WritesInteger.isBareChar {text : List Char} {n : Int} (h : WritesInteger text n) :
    ∀ c ∈ text, isBareChar c := by
  have hscored : ∀ {digits cs : List Char}, Scored digits cs →
      (∀ c ∈ digits, Toml.isBareChar c) → ∀ c ∈ cs, Toml.isBareChar c := by
    intro digits cs h hdigits c hc
    rcases h.mem_cases c hc with hc | rfl
    · exact hdigits c hc
    · rfl
  have hdecimal : ∀ n : Nat, ∀ c ∈ decimal n, Toml.isBareChar c :=
    fun n c hc => isBareChar_of_isDigit ((isDigits_decimal n).2 c hc)
  cases h with
  | plain h => exact hscored h (hdecimal _)
  | plus h => exact List.forall_mem_cons.mpr ⟨rfl, hscored h (hdecimal _)⟩
  | minus h => exact List.forall_mem_cons.mpr ⟨rfl, hscored h (hdecimal _)⟩
  | based hmark h hdigits =>
      have hbare : ∀ c ∈ _, Toml.isBareChar c := hscored h fun c hc => by
        refine isBareChar_of_hexDigit? ?_
        have hdigit := hdigits c hc
        cases hd : hexDigit? c with
        | none => simp [hd] at hdigit
        | some d => rfl
      simp only [List.mem_cons, Prod.mk.injEq, List.not_mem_nil, or_false] at hmark
      refine List.forall_mem_cons.mpr ⟨rfl, List.forall_mem_cons.mpr ⟨?_, hbare⟩⟩
      rcases hmark with ⟨rfl, -⟩ | ⟨rfl, -⟩ | ⟨rfl, -⟩
      all_goals rfl

/-! ## Values -/

/-- The ways of writing a truth value, an integer, or a string without escapes on one line. -/
inductive WritesValue : List Char → Value → Prop where
  | boolean (b : Bool) : WritesValue (if b then "true" else "false").toList (.boolean b)
  | integer {text : List Char} {n : Int} (h : WritesInteger text n) (hfits : Fits n) :
      WritesValue text (.integer n)
  | string {quote : Char} {text : List Char} (hquote : quote = '"' ∨ quote = '\'')
      (h : ∀ c ∈ text, isPlainIn quote c) :
      WritesValue (quote :: (text ++ [quote])) (.string (String.ofList text))

/-- The text of a value is one token, behind which the entry is complete. -/
structure Denotes (text : List Char) (v : Value) : Prop where
  unbroken : '\r' ∉ text
  leads : ∀ rest, leads isBlank (text ++ rest) = false
  reads : ∃ token,
    (∀ {rest}, Stops rest → tokens? (text ++ rest) = (tokens? rest).map (token :: ·)) ∧
    ∀ statements path, Place.stepValue? statements [.entry path] token =
      some (Place.behindStatement statements (.entry path v))

/-- A run that is a scalar value. -/
theorem denotes_bare {run : List Char} {v : Value} (hne : run ≠ [])
    (hrun : ∀ c ∈ run, isBareChar c) (h : scalar? run = some v) : Denotes run v where
  unbroken hmem := by
    have hbare := hrun _ hmem
    contradiction
  leads rest := leads_isBlank_append hne hrun rest
  reads := by
    refine ⟨.bare run, tokens?_bare hne hrun, fun statements path => ?_⟩
    simp [Place.stepValue?, h, Place.behind?]

theorem denotes_integer {text : List Char} {n : Int} (h : WritesInteger text n) (hfits : Fits n) :
    Denotes text (.integer n) := by
  obtain ⟨c, rest, htext, hc⟩ := h.exists_cons
  simp only [List.mem_cons, List.not_mem_nil, or_false, not_or] at hc
  have hne : text ≠ [] := by simp [htext]
  have htrue : text ≠ ['t', 'r', 'u', 'e'] := by simp [htext, hc.1]
  have hfalse : text ≠ ['f', 'a', 'l', 's', 'e'] := by simp [htext, hc.2]
  refine denotes_bare hne h.isBareChar ?_
  rw [scalar?, if_neg htrue, if_neg hfalse, integer?_of_writes h hfits]

/-- A string of plain characters denotes them. -/
theorem denotes_string {quote : Char} {text : List Char} (hquote : quote = '"' ∨ quote = '\'')
    (h : ∀ c ∈ text, isPlainIn quote c) :
    Denotes (quote :: (text ++ [quote])) (.string (String.ofList text)) where
  unbroken hmem := by
    rw [List.mem_cons, List.mem_append, List.mem_singleton] at hmem
    have hcarriage : '\r' ≠ quote := by rcases hquote with rfl | rfl <;> decide
    rcases hmem with heq | hmem | heq
    · exact hcarriage heq
    · have hchar := (facts_of_isPlainIn (h _ hmem)).1
      contradiction
    · exact hcarriage heq
  leads rest := by rcases hquote with rfl | rfl <;> rfl
  reads := by
    refine ⟨.line text, fun {rest} hrest => ?_, fun statements path => by
      simp [Place.stepValue?, Place.behind?]⟩
    rw [List.cons_append, List.append_assoc, List.singleton_append]
    exact tokens?_string hquote h hrest

/-- Whatever writes a value denotes it. -/
theorem WritesValue.denotes {text : List Char} {v : Value} (h : WritesValue text v) :
    Denotes text v := by
  cases h with
  | boolean b =>
      cases b with
      | true => exact denotes_bare (by decide) (List.all_eq_true.mp (by decide)) rfl
      | false => exact denotes_bare (by decide) (List.all_eq_true.mp (by decide)) rfl
  | integer h hfits => exact denotes_integer h hfits
  | string hquote h => exact denotes_string hquote h

end PoxTokens.Toml
