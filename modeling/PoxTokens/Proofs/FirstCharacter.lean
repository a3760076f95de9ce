import PoxTokens.Proofs.Selection
import PoxTokens.Proofs.Spelling

/-!
# PoxTokens.Proofs.FirstCharacter

The first character of a text decides what the table selects at its front.  The
rules are sorted by the characters that can open their matches: a quote opens a
string, a digit a number, a space a blank, a letter a word, and a symbol one or two
operators (`Policy.select_quote` and those behind it).  Nobody looks into the table
again to find a lexeme.
-/

namespace PoxTokens

/-! ## Classes of characters -/

/-- The kind of a symbol that stands alone. -/
def Kind.ofSymbol? : Char → Option Kind
  | '(' => some .leftParen | ')' => some .rightParen
  | '\x7b' => some .leftBrace | '\x7d' => some .rightBrace
  | ',' => some .comma | '.' => some .dot | '-' => some .minus | '+' => some .plus
  | ';' => some .semiColon | '/' => some .slash | '*' => some .star
  | '!' => some .bang | '=' => some .equal | '>' => some .greater | '<' => some .less
  | _ => none

/-- The operator that an equals sign makes of an operator. -/
def Kind.withEqual? : Kind → Option Kind
  | bang => some bangEqual
  | equal => some equalEqual
  | greater => some greaterEqual
  | less => some lessEqual
  | _ => none

/-- A symbol is of no other class. -/
theorem not_isAlphanum_of_ofSymbol? {c : Char} {kind : Kind} (h : Kind.ofSymbol? c = some kind) :
    c.isAlpha = false ∧ c.isDigit = false ∧ c ≠ ' ' ∧ c ≠ '"' := by
  unfold Kind.ofSymbol? at h
  split at h
  all_goals first | contradiction | decide

theorem not_isDigit_of_isAlpha {c : Char} (h : c.isAlpha) : c.isDigit = false := by
  rw [isAlpha_iff_toNat] at h
  rw [← Bool.not_eq_true, Char.isDigit_iff_toNat]
  simp
  omega

theorem not_isAlpha_of_isDigit {c : Char} (h : c.isDigit) : c.isAlpha = false := by
  cases halpha : c.isAlpha with
  | false => rfl
  | true => rw [not_isDigit_of_isAlpha halpha] at h; contradiction

/-! ## The characters that open a match -/

/-- Can a match of the pattern begin with a character? -/
def Pattern.opens : Pattern → Char → Bool
  | literal text, c => text.toList.head? == some c
  | string, c => c == '"'
  | number, c => c.isDigit
  | blank, c => c == ' '
  | identifier, c => c.isAlpha

/-- A pattern takes nothing from a text that another character begins. -/
theorem Pattern.munch_eq_nil_of_not_opens {p : Pattern} {c : Char} (h : p.opens c = false)
    (s : List Char) : p.munch (c :: s) = [] := by
  cases p with
  | literal text =>
      cases htext : text.toList with
      | nil => simp [munch, htext]
      | cons d t =>
          have hd : d ≠ c := by simpa [opens, htext] using h
          simp [munch, htext, hd]
  | string => exact munch_string_of_ne (by simpa [opens] using h) s
  | number =>
      have hc : c.isDigit = false := h
      simp [munch, hc]
  | blank =>
      have hc : (c == ' ') = false := h
      simp [munch, hc]
  | identifier =>
      have hc : c.isAlpha = false := h
      simp [munch, hc]

/-- Only rules that the first character opens find a lexeme. -/
theorem filterMap_lexeme?_cons (rules : List Rule) (c : Char) (s : List Char) :
    rules.filterMap (·.lexeme? (c :: s)) =
      (rules.filter (·.pattern.opens c)).filterMap (·.lexeme? (c :: s)) := by
  induction rules with
  | nil => rfl
  | cons rule rules ih =>
      by_cases h : rule.pattern.opens c
      · rw [List.filter_cons, if_pos h, List.filterMap_cons, List.filterMap_cons, ih]
      · have hnone : rule.lexeme? (c :: s) = none := by
          rw [Rule.lexeme?, Pattern.munch_eq_nil_of_not_opens (by simpa using h)]
          rfl
        rw [List.filter_cons, if_neg h, List.filterMap_cons, hnone, ih]

/-- Literals whose first characters are of a class are opened by no other character. -/
theorem filter_opens_eq_nil {rules : List Rule} {p : Char → Bool} {c : Char}
    (hrules : (rules.all fun rule => rule.pattern.text?.any fun text => leads p text.toList) = true)
    (hc : p c = false) : rules.filter (·.pattern.opens c) = [] := by
  refine List.filter_eq_nil_iff.mpr fun rule hmem hopens => ?_
  have hrule := List.all_eq_true.mp hrules rule hmem
  cases hp : rule.pattern with
  | literal text =>
      have hlead : leads p text.toList = true := by rw [hp] at hrule; exact hrule
      rw [hp] at hopens
      cases htext : text.toList with
      | nil => simp [htext] at hlead
      | cons d t =>
          simp only [Pattern.opens, htext, List.head?_cons, beq_iff_eq, Option.some.injEq] at hopens
          simp only [htext, leads_cons, hopens, hc] at hlead
          contradiction
  | _ =>
      rw [hp] at hrule
      contradiction

/-! ## Reserved words -/

/-- The reserved word at the front of a text. -/
def leadingWord? (s : List Char) : Option Keyword :=
  Keyword.all.find? fun w => w.spelling.toList.isPrefixOf s

/-- The lexeme of a reserved word. -/
def Keyword.lexeme (w : Keyword) : Lexeme := ⟨.keyword w, w.spelling.toList⟩

theorem Keyword.mem_all (w : Keyword) : w ∈ Keyword.all := by
  cases w <;> decide

/-- Keywords are made of letters, so nothing in them ends a run of alphanumeric characters. -/
theorem Keyword.isAlphanum_of_mem_spelling (w : Keyword) :
    ∀ c ∈ w.spelling.toList, c.isAlphanum := by
  have hall : w.spelling.toList.all Char.isAlphanum = true := by cases w <;> rfl
  exact List.all_eq_true.mp hall

/-- No reserved word begins another one, so at most one begins a text. -/
theorem Keyword.eq_of_isPrefix {v w : Keyword} {s : List Char} (hv : v.spelling.toList <+: s)
    (hw : w.spelling.toList <+: s) : v = w := by
  have hapart : ∀ v ∈ Keyword.all, ∀ w ∈ Keyword.all,
      v.spelling.toList <+: w.spelling.toList → v = w := by decide
  rcases List.prefix_or_prefix_of_prefix hv hw with h | h
  · exact hapart v v.mem_all w w.mem_all h
  · exact (hapart w w.mem_all v v.mem_all h).symm

/-- The leading word stands at the beginning of the text. -/
theorem isPrefix_of_leadingWord? {s : List Char} {w : Keyword} (h : leadingWord? s = some w) :
    w.spelling.toList <+: s := by
  rw [leadingWord?] at h
  have hp := List.find?_some h
  exact List.isPrefixOf_iff_prefix.mp hp

/-- At most one keyword begins a text, since none begins another. -/
theorem leadingWord?_eq_some_iff {s : List Char} {w : Keyword} :
    leadingWord? s = some w ↔ w.spelling.toList <+: s := by
  refine ⟨isPrefix_of_leadingWord?, fun h => ?_⟩
  cases hfind : leadingWord? s with
  | none =>
      have hno := List.find?_eq_none.mp hfind w w.mem_all
      exact absurd (List.isPrefixOf_iff_prefix.mpr h) hno
  | some v => rw [Keyword.eq_of_isPrefix (isPrefix_of_leadingWord? hfind) h]

/-- The rules for reserved words find the one at the front. -/
theorem filterMap_lexeme?_wordRules (s : List Char) :
    wordRules.filterMap (·.lexeme? s) = (leadingWord? s).toList.map Keyword.lexeme := by
  cases h : leadingWord? s with
  | none =>
      have hno : ∀ w : Keyword, (Rule.word w).lexeme? s = none := by
        intro w
        have hw : ¬w.spelling.toList <+: s := by
          intro hw
          rw [leadingWord?_eq_some_iff.mpr hw] at h
          contradiction
        simp [Rule.lexeme?, Rule.word, Rule.fixed, Pattern.munch, hw]
      simp [wordRules, hno]
  | some w =>
      obtain ⟨t, rfl⟩ := leadingWord?_eq_some_iff.mp h
      cases w <;> rfl

/-- The kind of a run of letters and digits that begins with a letter. -/
def Kind.ofRun (run : List Char) : Kind :=
  match Keyword.ofSpelling? (String.ofList run) with
  | some w => .keyword w
  | none => .identifier

/-- The look-up has the spellings of the rules, each for its own word. -/
theorem Keyword.ofSpelling?_eq_some_iff {word : String} {w : Keyword} :
    ofSpelling? word = some w ↔ w.spelling = word := by
  constructor
  · intro h
    unfold ofSpelling? at h
    split at h
    all_goals cases h
    all_goals rfl
  · intro h
    subst h
    cases w <;> rfl

/-- A run that is no reserved word makes an identifier. -/
theorem Kind.ofRun_eq_identifier {run : List Char}
    (h : ∀ w : Keyword, w.spelling.toList ≠ run) : ofRun run = .identifier := by
  unfold ofRun
  split
  · next w hw =>
      have hrun : w.spelling.toList = run := by
        rw [Keyword.ofSpelling?_eq_some_iff.mp hw, String.toList_ofList]
      exact absurd hrun (h w)
  · rfl

/-- A run that is spelled like a keyword is that keyword. -/
theorem Kind.ofRun_spelling (w : Keyword) : ofRun w.spelling.toList = .keyword w := by
  have hw : Keyword.ofSpelling? w.spelling = some w := Keyword.ofSpelling?_eq_some_iff.mpr rfl
  rw [ofRun, String.ofList_toList, hw]

/-! ## What the rules find -/

section
variable {c : Char} (s : List Char)

/-- Behind a quote only the rule for strings matches. -/
theorem filterMap_lexeme?_quote :
    ruleTable.filterMap (·.lexeme? ('"' :: s)) = [⟨.string, Pattern.string.munch ('"' :: s)⟩] :=
  rfl

/-- Behind a space only the rule for blanks matches. -/
theorem filterMap_lexeme?_space :
    ruleTable.filterMap (·.lexeme? (' ' :: s)) = [⟨.whiteSpace, Pattern.blank.munch (' ' :: s)⟩] :=
  rfl

/-- The rules that a character other than a symbol opens. -/
theorem filter_opens_ruleTable (hsymbol : Kind.ofSymbol? c = none) :
    ruleTable.filter (·.pattern.opens c) = classRules.filter (·.pattern.opens c) ++
      (wordRules.filter (·.pattern.opens c) ++
        [(⟨.identifier, .identifier⟩ : Rule)].filter (·.pattern.opens c)) := by
  have hsymbols : symbolRules.filter (·.pattern.opens c) = [] :=
    filter_opens_eq_nil (p := fun d => (Kind.ofSymbol? d).isSome) rfl (by simp [hsymbol])
  simp only [ruleTable, List.filter_append, hsymbols, List.nil_append, List.append_assoc]

/-- A letter or digit is no symbol. -/
theorem Kind.ofSymbol?_eq_none_of_isAlphanum (hc : c.isAlphanum) : ofSymbol? c = none := by
  cases h : ofSymbol? c with
  | none => rfl
  | some kind =>
      obtain ⟨halpha, hdigit, -⟩ := not_isAlphanum_of_ofSymbol? h
      simp [Char.isAlphanum, halpha, hdigit] at hc

/-- Behind a digit only the rule for numbers matches. -/
theorem filterMap_lexeme?_digit (hc : c.isDigit) :
    ruleTable.filterMap (·.lexeme? (c :: s)) = [⟨.number, Pattern.number.munch (c :: s)⟩] := by
  have halpha := not_isAlpha_of_isDigit hc
  have hsymbol := Kind.ofSymbol?_eq_none_of_isAlphanum (c := c) (by simp [Char.isAlphanum, hc])
  have hquote : c ≠ '"' := by intro h; rw [h] at hc; contradiction
  have hspace : c ≠ ' ' := by intro h; rw [h] at hc; contradiction
  have hwords : wordRules.filter (·.pattern.opens c) = [] :=
    filter_opens_eq_nil (p := Char.isAlpha) rfl halpha
  rw [filterMap_lexeme?_cons, filter_opens_ruleTable hsymbol, hwords]
  simp [classRules, Pattern.opens, hc, halpha, hquote, hspace, Rule.lexeme?, Pattern.munch]

/-- Behind a letter the rule for identifiers matches, and before it that of a keyword which begins
the text. -/
theorem filterMap_lexeme?_letter (hc : c.isAlpha) :
    ruleTable.filterMap (·.lexeme? (c :: s)) =
      (leadingWord? (c :: s)).toList.map Keyword.lexeme ++
        [⟨.identifier, c :: s.takeWhile Char.isAlphanum⟩] := by
  have hsymbol := Kind.ofSymbol?_eq_none_of_isAlphanum (c := c) (by simp [Char.isAlphanum, hc])
  have hquote : c ≠ '"' := by intro h; rw [h] at hc; contradiction
  have hspace : c ≠ ' ' := by intro h; rw [h] at hc; contradiction
  have hclasses : classRules.filter (·.pattern.opens c) = [] := by
    simp [classRules, Pattern.opens, not_isDigit_of_isAlpha hc, hquote, hspace]
  rw [filterMap_lexeme?_cons, filter_opens_ruleTable hsymbol, hclasses, List.nil_append,
    List.filterMap_append, ← filterMap_lexeme?_cons, filterMap_lexeme?_wordRules]
  simp [Pattern.opens, hc, Rule.lexeme?, Pattern.munch]

/-- The rules of a symbol: itself, and with an equals sign if there is such an
operator. -/
theorem filter_opens_symbol {kind : Kind} (h : Kind.ofSymbol? c = some kind) :
    ruleTable.filter (·.pattern.opens c) =
      ⟨kind, .literal (String.ofList [c])⟩ :: (kind.withEqual?.map fun long =>
        ⟨long, .literal (String.ofList [c, '='])⟩).toList := by
  unfold Kind.ofSymbol? at h
  split at h
  all_goals first | contradiction | (cases h; rfl)

/-- Behind a symbol its own rule matches, and behind that the rule for the symbol with an equals
sign, if there is one. -/
theorem filterMap_lexeme?_symbol {kind : Kind} (h : Kind.ofSymbol? c = some kind) :
    ruleTable.filterMap (·.lexeme? (c :: s)) =
      ⟨kind, [c]⟩ :: (kind.withEqual?.filter fun _ => leads (· == '=') s).toList.map
        fun long => ⟨long, [c, '=']⟩ := by
  rw [filterMap_lexeme?_cons, filter_opens_symbol h]
  cases hlong : kind.withEqual? with
  | none => simp [Rule.lexeme?, Pattern.munch]
  | some long =>
      cases s with
      | nil => simp [Rule.lexeme?, Pattern.munch]
      | cons d t =>
          by_cases hd : d = '='
          · simp [Rule.lexeme?, Pattern.munch, hd, Option.filter]
          · simp [Rule.lexeme?, Pattern.munch, hd, Ne.symm hd]

/-- Behind any other character no rule matches. -/
theorem filterMap_lexeme?_foreign (halpha : c.isAlpha = false) (hdigit : c.isDigit = false)
    (hspace : c ≠ ' ') (hquote : c ≠ '"') (hsymbol : Kind.ofSymbol? c = none) :
    ruleTable.filterMap (·.lexeme? (c :: s)) = [] := by
  have hwords : wordRules.filter (·.pattern.opens c) = [] :=
    filter_opens_eq_nil (p := Char.isAlpha) rfl halpha
  rw [filterMap_lexeme?_cons, filter_opens_ruleTable hsymbol, hwords]
  simp [classRules, Pattern.opens, halpha, hdigit, hspace, hquote]

end

/-! ## What is selected -/

/-- The classes of characters at the front of a text. -/
inductive CharClass (c : Char) : Prop where
  | quote (h : c = '"')
  | digit (h : c.isDigit)
  | space (h : c = ' ')
  | letter (h : c.isAlpha)
  | symbol {kind : Kind} (h : Kind.ofSymbol? c = some kind)
  /-- No token other than a string has the character. -/
  | foreign (halpha : c.isAlpha = false) (hdigit : c.isDigit = false) (hspace : c ≠ ' ')
      (hquote : c ≠ '"') (hsymbol : Kind.ofSymbol? c = none)

/-- Every character is of one of the classes. -/
theorem charClass (c : Char) : CharClass c := by
  by_cases hquote : c = '"'
  · exact .quote hquote
  by_cases hspace : c = ' '
  · exact .space hspace
  cases hdigit : c.isDigit with
  | true => exact .digit hdigit
  | false =>
      cases halpha : c.isAlpha with
      | true => exact .letter halpha
      | false =>
          cases hsymbol : Kind.ofSymbol? c with
          | some kind => exact .symbol hsymbol
          | none => exact .foreign halpha hdigit hspace hquote hsymbol

namespace Policy

/-- The operator at the front of a text that begins with a symbol. -/
def symbolLexeme (policy : Policy) (kind : Kind) (c : Char) (s : List Char) : Lexeme :=
  match kind.withEqual? with
  | some long =>
    if policy = .longest ∧ leads (· == '=') s then ⟨long, [c, '=']⟩ else ⟨kind, [c]⟩
  | none => ⟨kind, [c]⟩

/-- The reserved word or identifier at the front of a text that begins with a letter. -/
def wordLexeme (policy : Policy) (s : List Char) : Lexeme :=
  let run := s.takeWhile Char.isAlphanum
  match policy with
  | .longest => ⟨.ofRun run, run⟩
  | .firstMatch => (leadingWord? s).elim ⟨.identifier, run⟩ Keyword.lexeme

section
variable (policy : Policy) {c : Char} (s : List Char)

theorem select_quote :
    policy.select ruleTable ('"' :: s) = some ⟨.string, Pattern.string.munch ('"' :: s)⟩ := by
  rw [select, filterMap_lexeme?_quote]
  cases policy <;> rfl

theorem select_space :
    policy.select ruleTable (' ' :: s) = some ⟨.whiteSpace, Pattern.blank.munch (' ' :: s)⟩ := by
  rw [select, filterMap_lexeme?_space]
  cases policy <;> rfl

/-- A number is selected as far as it can be read. -/
theorem select_digit (hc : c.isDigit) :
    policy.select ruleTable (c :: s) = some ⟨.number, Pattern.number.munch (c :: s)⟩ := by
  rw [select, filterMap_lexeme?_digit s hc]
  cases policy <;> rfl

/-- With an equals sign behind it, a symbol is selected as the policy says. -/
theorem select_symbol {kind : Kind} (hc : Kind.ofSymbol? c = some kind) :
    policy.select ruleTable (c :: s) = some (policy.symbolLexeme kind c s) := by
  rw [select, filterMap_lexeme?_symbol s hc, symbolLexeme]
  cases kind.withEqual? with
  | none => cases policy <;> rfl
  | some long =>
      cases hlead : leads (· == '=') s with
      | true => cases policy <;> rfl
      | false => cases policy <;> rfl

/-- Under `longest` the whole run of letters and digits is selected: a reserved word
that only begins the run is shorter, one that is the run outranks the identifier. -/
theorem select_letter (hc : c.isAlpha) :
    policy.select ruleTable (c :: s) = some (policy.wordLexeme (c :: s)) := by
  have hrun : (c :: s).takeWhile Char.isAlphanum = c :: s.takeWhile Char.isAlphanum :=
    List.takeWhile_cons_of_pos (by simp [Char.isAlphanum, hc])
  rw [select, filterMap_lexeme?_letter s hc, ← hrun]
  generalize c :: s = text
  cases policy with
  | firstMatch => cases hword : leadingWord? text <;> simp [choose, wordLexeme, hword]
  | longest =>
      cases hword : leadingWord? text with
      | none =>
          have hkind : Kind.ofRun (text.takeWhile Char.isAlphanum) = .identifier := by
            refine Kind.ofRun_eq_identifier fun w hw => ?_
            have hpre : w.spelling.toList <+: text := hw ▸ List.takeWhile_prefix _
            rw [leadingWord?_eq_some_iff.mpr hpre] at hword
            contradiction
          simp [choose, longest?, wordLexeme, hkind]
      | some w =>
          obtain ⟨t, rfl⟩ := isPrefix_of_leadingWord? hword
          rw [wordLexeme.eq_def, List.takeWhile_append_of_pos w.isAlphanum_of_mem_spelling]
          cases hmore : t.takeWhile Char.isAlphanum with
          | nil => simp [choose, longest?, Keyword.lexeme, Kind.ofRun_spelling]
          | cons d ds =>
              have hkind : Kind.ofRun (w.spelling.toList ++ d :: ds) = .identifier := by
                refine Kind.ofRun_eq_identifier fun v hv => ?_
                have hvw : v = w := Keyword.eq_of_isPrefix (List.prefix_refl _) ⟨d :: ds, hv.symm⟩
                simp [hvw] at hv
              simp [choose, longest?, Keyword.lexeme, hkind]

end

end Policy

end PoxTokens
