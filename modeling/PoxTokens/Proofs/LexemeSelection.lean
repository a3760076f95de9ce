import PoxTokens.Proofs.FirstCharacter

/-!
# PoxTokens.Proofs.LexemeSelection

When exactly a given lexeme is selected from a text that begins with it.  It must
be spelled as its kind asks (`Kind.Spells`), the policy must leave the spelling to
that kind (`Policy.Yields`), and what follows must not prolong it (`Policy.Stops`).
`Policy.select_append_iff` says that these three are also enough.
-/

namespace PoxTokens

/-! ## Spellings of the kinds -/

/-- The text of the kinds that have one only. -/
def Kind.spelling? : Kind → Option String
  | leftParen => some "(" | rightParen => some ")"
  | leftBrace => some "\x7b" | rightBrace => some "\x7d"
  | comma => some "," | dot => some "." | semiColon => some ";"
  | minus => some "-" | plus => some "+" | slash => some "/" | star => some "*"
  | bang => some "!" | bangEqual => some "!="
  | equal => some "=" | equalEqual => some "=="
  | greater => some ">" | greaterEqual => some ">="
  | less => some "<" | lessEqual => some "<="
  | keyword w => some w.spelling
  | string | number | identifier | whiteSpace | eof => none

/-- The texts that a kind allows.  No text is an end marker. -/
inductive Kind.Spells : Kind → List Char → Prop where
  | fixed {kind : Kind} {text : String} (h : kind.spelling? = some text) : Spells kind text.toList
  | number {u : List Char} (h : IsNumber u) : Spells number u
  | blank {u : List Char} (h : IsBlank u) : Spells whiteSpace u
  | word {u : List Char} (h : IsWord u) : Spells identifier u
  | closedString {u : List Char} (h : IsClosedString u) : Spells string u
  | openString {u : List Char} (h : IsOpenString u) : Spells string u

namespace Policy

/-- Operators that end with an equals sign are made under `longest` only.  Under
`longest` an identifier is no reserved word, under `firstMatch` it does not even
begin with one. -/
def Yields : Policy → Kind → List Char → Prop
  | longest, kind, u => kind = .identifier → ∀ w : Keyword, w.spelling.toList ≠ u
  | firstMatch, kind, u =>
    kind ∉ [.bangEqual, .equalEqual, .greaterEqual, .lessEqual] ∧
      (kind = .identifier → ∀ w : Keyword, ¬w.spelling.toList <+: u)

/-- What follows a lexeme does not prolong it. -/
structure Stops (policy : Policy) (kind : Kind) (u rest : List Char) : Prop where
  string : IsOpenString u → rest = []
  number : kind = .number → leads Char.isDigit rest = false
  fraction : kind = .number → '.' ∉ u → Pattern.leadsFraction rest = false
  blank : kind = .whiteSpace → leads (· == ' ') rest = false
  word : kind = .identifier ∨ policy = .longest ∧ kind.isKeyword →
    leads Char.isAlphanum rest = false
  operator : policy = .longest → kind.withEqual? ≠ none → leads (· == '=') rest = false

/-- The end of the text prolongs nothing. -/
theorem stops_nil {policy : Policy} {kind : Kind} {u : List Char} : policy.Stops kind u [] :=
  ⟨fun _ => rfl, fun _ => rfl, fun _ _ => rfl, fun _ => rfl, fun _ => rfl, fun _ _ => rfl⟩

end Policy

/-! ## Kind by kind -/

/-- The pattern of a kind. -/
def Kind.pattern? : Kind → Option Pattern
  | string => some .string
  | number => some .number
  | whiteSpace => some .blank
  | identifier => some .identifier
  | kind => kind.spelling?.map .literal

/-- The table gives each kind its pattern. -/
theorem Kind.pattern?_of_mem_ruleTable :
    ∀ rule ∈ ruleTable, rule.kind.pattern? = some rule.pattern := by
  decide

/-- What sets the symbols apart from all other kinds. -/
theorem Kind.facts_of_ofSymbol? {c : Char} {kind : Kind} (h : ofSymbol? c = some kind) :
    kind.spelling? = some (String.ofList [c]) ∧
      kind ∉ [bangEqual, equalEqual, greaterEqual, lessEqual] ∧
      kind ≠ identifier ∧ kind.isKeyword = false ∧ c ≠ '"' := by
  unfold ofSymbol? at h
  split at h
  all_goals cases h
  all_goals exact ⟨rfl, by decide, by decide, rfl, by decide⟩

/-- What tells apart the kinds that end in an equals sign. -/
theorem Kind.facts_of_withEqual? {c : Char} {short kind : Kind} (h : ofSymbol? c = some short)
    (hlong : short.withEqual? = some kind) :
    kind.spelling? = some (String.ofList [c, '=']) ∧
      kind ∈ [bangEqual, equalEqual, greaterEqual, lessEqual] ∧
      kind ≠ identifier ∧ kind.isKeyword = false ∧ kind.withEqual? = none ∧ c ≠ '"' := by
  unfold ofSymbol? at h
  split at h
  all_goals cases h
  all_goals cases hlong <;> exact ⟨rfl, by decide, by decide, rfl, rfl, by decide⟩

/-- The kind of a symbol is matched by the symbol alone. -/
theorem Kind.pattern?_ofSymbol? {c : Char} {kind : Kind} (h : ofSymbol? c = some kind) :
    kind.pattern? = some (.literal (String.ofList [c])) := by
  unfold ofSymbol? at h
  split at h
  all_goals cases h <;> rfl

/-- With an equals sign it is matched by both characters. -/
theorem Kind.pattern?_withEqual? {c : Char} {short kind : Kind} (h : ofSymbol? c = some short)
    (hlong : short.withEqual? = some kind) :
    kind.pattern? = some (.literal (String.ofList [c, '='])) := by
  unfold ofSymbol? at h
  split at h
  all_goals cases h
  all_goals cases hlong <;> rfl

/-- Every keyword could be an identifier. -/
theorem Keyword.isWord_spelling (w : Keyword) : IsWord w.spelling.toList := by
  have hfirst : leads Char.isAlpha w.spelling.toList = true := by cases w <;> rfl
  have hall := w.isAlphanum_of_mem_spelling
  generalize w.spelling.toList = u at hfirst hall
  cases u with
  | nil => contradiction
  | cons c v => exact ⟨c, v, rfl, hfirst, (List.forall_mem_cons.mp hall).2⟩

section
variable {policy : Policy} {u rest : List Char} {kind : Kind}

/-- A selected lexeme was taken by the pattern of its kind. -/
theorem munch_of_select {p : Pattern} (hp : kind.pattern? = some p)
    (h : policy.select ruleTable (u ++ rest) = some ⟨kind, u⟩) :
    p.munch (u ++ rest) = u ∧ u ≠ [] := by
  obtain ⟨rule, hmem, hkind, hmunch⟩ := Policy.exists_munch_of_select h
  have hrule := Kind.pattern?_of_mem_ruleTable rule hmem
  rw [hkind, hp, Option.some.injEq] at hrule
  rw [hrule]
  exact ⟨hmunch, (Policy.select_isPrefix h).2⟩

/-- A string is selected exactly if it is closed, or if it is open up to the end of the text. -/
theorem select_string_iff :
    policy.select ruleTable (u ++ rest) = some ⟨.string, u⟩ ↔
      IsClosedString u ∨ IsOpenString u ∧ rest = [] := by
  constructor
  · intro h
    obtain ⟨hmunch, hu⟩ := munch_of_select rfl h
    exact (Pattern.munch_string_append_iff hu).mp hmunch
  · intro h
    have hfirst : ∃ v, u = '"' :: v := by
      rcases h with ⟨body, -, heq⟩ | ⟨⟨body, -, heq⟩, -⟩
      · exact ⟨_, heq⟩
      · exact ⟨_, heq⟩
    obtain ⟨v, heq⟩ := hfirst
    have hmunch := (Pattern.munch_string_append_iff (by rw [heq]; exact List.cons_ne_nil _ _)).mpr h
    rw [heq, List.cons_append] at hmunch ⊢
    rw [Policy.select_quote, hmunch]

/-- A number is selected exactly if it cannot go on, neither with a digit nor with a fraction. -/
theorem select_number_iff :
    policy.select ruleTable (u ++ rest) = some ⟨.number, u⟩ ↔
      IsNumber u ∧ leads Char.isDigit rest = false ∧
        ('.' ∉ u → Pattern.leadsFraction rest = false) := by
  constructor
  · intro h
    obtain ⟨hmunch, hu⟩ := munch_of_select rfl h
    obtain ⟨hrest, hnumber⟩ := (Pattern.munch_number_append_iff hu).mp hmunch
    rcases hnumber with ⟨hds, hfrac⟩ | ⟨ds, es, hds, hes, heq⟩
    · exact ⟨.inl hds, hrest, fun _ => hfrac⟩
    · have hpoint : '.' ∈ u := by rw [heq]; simp
      exact ⟨.inr ⟨ds, es, hds, hes, heq⟩, hrest, fun hno => absurd hpoint hno⟩
  · intro h
    obtain ⟨hnumber, hrest, hfrac⟩ := h
    obtain ⟨c, v, heq, hc⟩ := hnumber.exists_cons
    have hmunch : Pattern.number.munch (u ++ rest) = u := by
      refine (Pattern.munch_number_append_iff (by rw [heq]; exact List.cons_ne_nil _ _)).mpr ?_
      rcases hnumber with hds | hdecimal
      · exact ⟨hrest, .inl ⟨hds, hfrac hds.not_mem_point⟩⟩
      · exact ⟨hrest, .inr hdecimal⟩
    rw [heq, List.cons_append] at hmunch ⊢
    rw [Policy.select_digit _ _ hc, hmunch]

/-- A blank is selected exactly as far as the spaces go. -/
theorem select_whiteSpace_iff :
    policy.select ruleTable (u ++ rest) = some ⟨.whiteSpace, u⟩ ↔
      IsBlank u ∧ leads (· == ' ') rest = false := by
  constructor
  · intro h
    obtain ⟨hmunch, hu⟩ := munch_of_select rfl h
    obtain ⟨hall, hrest⟩ := Pattern.munch_blank_append_iff.mp hmunch
    exact ⟨⟨hu, hall⟩, hrest⟩
  · intro h
    obtain ⟨⟨hu, hall⟩, hrest⟩ := h
    have hmunch := Pattern.munch_blank_append_iff.mpr ⟨hall, hrest⟩
    cases u with
    | nil => contradiction
    | cons c v =>
        rw [hall c List.mem_cons_self, List.cons_append] at hmunch ⊢
        rw [Policy.select_space, hmunch]

/-! ### Words -/

/-- The run of letters and digits at the front is a word if nothing prolongs it. -/
theorem IsWord.takeWhile_append (h : IsWord u) (hrest : leads Char.isAlphanum rest = false) :
    (u ++ rest).takeWhile Char.isAlphanum = u :=
  takeWhile_append_eq_left_iff.mpr ⟨h.isAlphanum, hrest⟩

/-- A reserved word at the front of a text begins its run of letters and digits. -/
theorem Keyword.isPrefix_takeWhile {w : Keyword} {s : List Char} (h : w.spelling.toList <+: s) :
    w.spelling.toList <+: s.takeWhile Char.isAlphanum := by
  obtain ⟨t, heq⟩ := h
  rw [← heq, List.takeWhile_append_of_pos w.isAlphanum_of_mem_spelling]
  exact List.prefix_append _ _

/-- In front of a word the policy decides between the keyword and the identifier. -/
theorem select_of_isWord (policy : Policy) (rest : List Char) (h : IsWord u) :
    policy.select ruleTable (u ++ rest) = some (policy.wordLexeme (u ++ rest)) := by
  obtain ⟨c, v, heq, hc, -⟩ := h
  rw [heq, List.cons_append, Policy.select_letter _ _ hc]

/-- An identifier is selected exactly as a whole word, and only where no keyword is in its way. -/
theorem select_identifier_iff :
    policy.select ruleTable (u ++ rest) = some ⟨.identifier, u⟩ ↔
      IsWord u ∧ leads Char.isAlphanum rest = false ∧ policy.Yields .identifier u := by
  constructor
  · intro h
    obtain ⟨hmunch, hu⟩ := munch_of_select rfl h
    obtain ⟨hword, hrest⟩ := (Pattern.munch_identifier_append_iff hu).mp hmunch
    refine ⟨hword, hrest, ?_⟩
    rw [select_of_isWord policy rest hword, Option.some.injEq] at h
    cases policy with
    | longest =>
        intro _ w hw
        have hkind : Kind.ofRun u = .identifier := by
          have hrun := congrArg Lexeme.kind h
          simp only [Policy.wordLexeme, hword.takeWhile_append hrest] at hrun
          exact hrun
        rw [← hw, Kind.ofRun_spelling] at hkind
        contradiction
    | firstMatch =>
        refine ⟨by decide, fun _ w hw => ?_⟩
        have hlead := leadingWord?_eq_some_iff.mpr (hw.trans (List.prefix_append u rest))
        simp [Policy.wordLexeme, hlead, Keyword.lexeme] at h
  · intro h
    obtain ⟨hword, hrest, hyields⟩ := h
    have hrun := hword.takeWhile_append hrest
    rw [select_of_isWord policy rest hword, Option.some.injEq]
    cases policy with
    | longest =>
        simp only [Policy.wordLexeme, hrun]
        rw [Kind.ofRun_eq_identifier (hyields rfl)]
    | firstMatch =>
        have hlead : leadingWord? (u ++ rest) = none := by
          cases hfind : leadingWord? (u ++ rest) with
          | none => rfl
          | some w =>
              have hpre := Keyword.isPrefix_takeWhile (isPrefix_of_leadingWord? hfind)
              rw [hrun] at hpre
              exact absurd hpre (hyields.2 rfl w)
        simp only [Policy.wordLexeme, hrun, hlead, Option.elim_none]

/-- A keyword is selected exactly where its spelling leads; the longest match asks that the word
ends there, too. -/
theorem select_keyword_iff {w : Keyword} :
    policy.select ruleTable (u ++ rest) = some ⟨.keyword w, u⟩ ↔
      u = w.spelling.toList ∧ (policy = .longest → leads Char.isAlphanum rest = false) := by
  constructor
  · intro h
    obtain ⟨hmunch, hu⟩ := munch_of_select rfl h
    have heq : u = w.spelling.toList := (Pattern.munch_literal_append_iff hu).mp hmunch
    refine ⟨heq, fun hpolicy => ?_⟩
    rw [select_of_isWord policy rest (heq ▸ w.isWord_spelling), Option.some.injEq, hpolicy] at h
    have hrun : (u ++ rest).takeWhile Char.isAlphanum = u := congrArg Lexeme.text h
    exact (takeWhile_append_eq_left_iff.mp hrun).2
  · intro h
    obtain ⟨heq, hrest⟩ := h
    rw [select_of_isWord policy rest (heq ▸ w.isWord_spelling), Option.some.injEq]
    cases policy with
    | longest =>
        have hrun := (heq ▸ w.isWord_spelling : IsWord u).takeWhile_append (hrest rfl)
        simp only [Policy.wordLexeme, hrun]
        rw [heq, Kind.ofRun_spelling]
    | firstMatch =>
        have hlead : leadingWord? (u ++ rest) = some w :=
          leadingWord?_eq_some_iff.mpr ⟨rest, by rw [heq]⟩
        simp only [Policy.wordLexeme, hlead, Option.elim_some, Keyword.lexeme]
        rw [heq]

/-! ### Symbols -/

/-- A symbol is selected exactly if the longest match finds no equals sign behind it that belongs to
it. -/
theorem select_symbol_iff {c : Char} (hc : Kind.ofSymbol? c = some kind) :
    policy.select ruleTable (u ++ rest) = some ⟨kind, u⟩ ↔
      u = [c] ∧ (policy = .longest → kind.withEqual? ≠ none → leads (· == '=') rest = false) := by
  constructor
  · intro h
    obtain ⟨hmunch, hu⟩ := munch_of_select (Kind.pattern?_ofSymbol? hc) h
    have heq : u = [c] := by
      rw [(Pattern.munch_literal_append_iff hu).mp hmunch, String.toList_ofList]
    refine ⟨heq, fun hpolicy hlong => ?_⟩
    rw [heq, List.singleton_append, Policy.select_symbol _ _ hc, Option.some.injEq,
      Policy.symbolLexeme] at h
    cases hw : kind.withEqual? with
    | none => contradiction
    | some long =>
        cases hlead : leads (· == '=') rest with
        | false => rfl
        | true => simp [hw, hpolicy, hlead] at h
  · intro h
    obtain ⟨heq, hrest⟩ := h
    rw [heq, List.singleton_append, Policy.select_symbol _ _ hc, Policy.symbolLexeme]
    cases hw : kind.withEqual? with
    | none => rfl
    | some long =>
        cases policy with
        | longest => simp [hrest rfl (by rw [hw]; simp)]
        | firstMatch => rfl

/-- The symbols that end in an equals sign are selected by the longest match only. -/
theorem select_withEqual_iff {c : Char} {short : Kind} (hc : Kind.ofSymbol? c = some short)
    (hlong : short.withEqual? = some kind) :
    policy.select ruleTable (u ++ rest) = some ⟨kind, u⟩ ↔
      u = [c, '='] ∧ policy = .longest := by
  constructor
  · intro h
    obtain ⟨hmunch, hu⟩ := munch_of_select (Kind.pattern?_withEqual? hc hlong) h
    have heq : u = [c, '='] := by
      rw [(Pattern.munch_literal_append_iff hu).mp hmunch, String.toList_ofList]
    refine ⟨heq, ?_⟩
    rw [heq, List.cons_append, Policy.select_symbol _ _ hc, Policy.symbolLexeme, hlong] at h
    cases policy with
    | longest => rfl
    | firstMatch => simp at h
  · intro h
    obtain ⟨heq, hpolicy⟩ := h
    rw [heq, hpolicy, List.cons_append, Policy.select_symbol _ _ hc, Policy.symbolLexeme, hlong]
    rfl

end

/-! ## All kinds -/

/-- The kinds, sorted by how their texts are found. -/
inductive KindShape : Kind → Prop where
  | string : KindShape .string
  | number : KindShape .number
  | whiteSpace : KindShape .whiteSpace
  | identifier : KindShape .identifier
  | eof : KindShape .eof
  | keyword (w : Keyword) : KindShape (.keyword w)
  | symbol {c : Char} {kind : Kind} (hc : Kind.ofSymbol? c = some kind) : KindShape kind
  | withEqual {c : Char} {short kind : Kind} (hc : Kind.ofSymbol? c = some short)
      (hlong : short.withEqual? = some kind) : KindShape kind

/-- Every kind but the end marker has one of the shapes. -/
theorem kindShape (kind : Kind) : KindShape kind := by
  cases kind with
  | string => exact .string
  | number => exact .number
  | whiteSpace => exact .whiteSpace
  | identifier => exact .identifier
  | eof => exact .eof
  | keyword w => exact .keyword w
  | leftParen => exact .symbol (c := '(') rfl
  | rightParen => exact .symbol (c := ')') rfl
  | leftBrace => exact .symbol (c := '\x7b') rfl
  | rightBrace => exact .symbol (c := '\x7d') rfl
  | comma => exact .symbol (c := ',') rfl
  | dot => exact .symbol (c := '.') rfl
  | semiColon => exact .symbol (c := ';') rfl
  | minus => exact .symbol (c := '-') rfl
  | plus => exact .symbol (c := '+') rfl
  | slash => exact .symbol (c := '/') rfl
  | star => exact .symbol (c := '*') rfl
  | bang => exact .symbol (c := '!') rfl
  | equal => exact .symbol (c := '=') rfl
  | greater => exact .symbol (c := '>') rfl
  | less => exact .symbol (c := '<') rfl
  | bangEqual => exact .withEqual (c := '!') rfl rfl
  | equalEqual => exact .withEqual (c := '=') rfl rfl
  | greaterEqual => exact .withEqual (c := '>') rfl rfl
  | lessEqual => exact .withEqual (c := '<') rfl rfl

section
variable {policy : Policy} {u rest : List Char} {kind : Kind}

/-- A kind with a fixed spelling spells nothing else. -/
theorem Kind.spells_iff_of_spelling? {text : String} (h : kind.spelling? = some text) :
    kind.Spells u ↔ u = text.toList := by
  constructor
  · intro hu
    cases hu with
    | fixed h' =>
        rw [h, Option.some.injEq] at h'
        rw [h']
    | _ => contradiction
  · intro hu
    rw [hu]
    exact .fixed h

theorem Kind.spells_string_iff : Spells .string u ↔ IsClosedString u ∨ IsOpenString u := by
  constructor
  · intro h
    cases h with
    | fixed h => contradiction
    | closedString h => exact .inl h
    | openString h => exact .inr h
  · intro h
    exact h.elim .closedString .openString

theorem Kind.spells_number_iff : Spells .number u ↔ IsNumber u := by
  constructor
  · intro h
    cases h with
    | fixed h => contradiction
    | number h => exact h
  · exact .number

theorem Kind.spells_whiteSpace_iff : Spells .whiteSpace u ↔ IsBlank u := by
  constructor
  · intro h
    cases h with
    | fixed h => contradiction
    | blank h => exact h
  · exact .blank

theorem Kind.spells_identifier_iff : Spells .identifier u ↔ IsWord u := by
  constructor
  · intro h
    cases h with
    | fixed h => contradiction
    | word h => exact h
  · exact .word

/-- A text that is no open string and of none of the prolonged kinds stops anywhere. -/
theorem Policy.Stops.of_fixed {text : String} (h : kind.spelling? = some text)
    (hopen : ¬IsOpenString u)
    (hword : policy = .longest → kind.isKeyword → leads Char.isAlphanum rest = false)
    (hoperator : policy = .longest → kind.withEqual? ≠ none → leads (· == '=') rest = false) :
    policy.Stops kind u rest where
  string hu := absurd hu hopen
  number hk := by rw [hk] at h; contradiction
  fraction hk := by rw [hk] at h; contradiction
  blank hk := by rw [hk] at h; contradiction
  word hk := by
    rcases hk with hk | ⟨hpolicy, hk⟩
    · rw [hk] at h; contradiction
    · exact hword hpolicy hk
  operator := hoperator

/-- A policy can hide only identifiers and the symbols with an equals sign. -/
theorem Policy.yields_of_ne (hlong : kind ∉ [.bangEqual, .equalEqual, .greaterEqual, .lessEqual])
    (hword : kind ≠ .identifier) : policy.Yields kind u := by
  cases policy with
  | longest => exact fun h => absurd h hword
  | firstMatch => exact ⟨hlong, fun h => absurd h hword⟩

/-- A string stops anywhere once it is closed, and else at the end only. -/
theorem stops_string_iff :
    policy.Stops .string u rest ↔ (IsOpenString u → rest = []) := by
  refine ⟨fun h => h.string, fun h => ?_⟩
  exact { string := h, number := nofun, fraction := nofun, blank := nofun
          word := by simp [Kind.isKeyword], operator := fun _ hk => absurd rfl hk }

/-- A number stops where neither a digit nor a fraction goes on. -/
theorem stops_number_iff (hu : IsNumber u) :
    policy.Stops .number u rest ↔ leads Char.isDigit rest = false ∧
      ('.' ∉ u → Pattern.leadsFraction rest = false) := by
  refine ⟨fun h => ⟨h.number rfl, h.fraction rfl⟩, fun h => ?_⟩
  exact { string := fun ho => absurd ho hu.not_isOpenString, number := fun _ => h.1
          fraction := fun _ => h.2, blank := nofun, word := by simp [Kind.isKeyword]
          operator := fun _ hk => absurd rfl hk }

/-- A blank stops in front of anything but a space. -/
theorem stops_whiteSpace_iff (hu : IsBlank u) :
    policy.Stops .whiteSpace u rest ↔ leads (· == ' ') rest = false := by
  refine ⟨fun h => h.blank rfl, fun h => ?_⟩
  exact { string := fun ho => absurd ho hu.not_isOpenString, number := nofun, fraction := nofun
          blank := fun _ => h, word := by simp [Kind.isKeyword]
          operator := fun _ hk => absurd rfl hk }

/-- An identifier stops where the word ends. -/
theorem stops_identifier_iff (hu : IsWord u) :
    policy.Stops .identifier u rest ↔ leads Char.isAlphanum rest = false := by
  refine ⟨fun h => h.word (.inl rfl), fun h => ?_⟩
  exact { string := fun ho => absurd ho hu.not_isOpenString, number := nofun, fraction := nofun
          blank := nofun, word := fun _ => h, operator := fun _ hk => absurd rfl hk }

/-- A keyword stops where the word ends, or anywhere if the first match counts. -/
theorem stops_keyword_iff {w : Keyword} (hu : IsWord u) :
    policy.Stops (.keyword w) u rest ↔
      (policy = .longest → leads Char.isAlphanum rest = false) := by
  refine ⟨fun h hpolicy => h.word (.inr ⟨hpolicy, rfl⟩), fun h => ?_⟩
  exact { string := fun ho => absurd ho hu.not_isOpenString, number := nofun, fraction := nofun
          blank := nofun, word := by simpa [Kind.isKeyword] using h
          operator := fun _ hk => absurd rfl hk }

/-- **Selection**: a lexeme is selected from a text that begins with it exactly if its
kind allows the text, the policy yields the text to the kind, and what follows does not
prolong it. -/
theorem Policy.select_append_iff :
    policy.select ruleTable (u ++ rest) = some ⟨kind, u⟩ ↔
      kind.Spells u ∧ policy.Yields kind u ∧ policy.Stops kind u rest := by
  cases kindShape kind with
  | string =>
      have hyields : policy.Yields .string u := yields_of_ne (by decide) (by decide)
      rw [select_string_iff, stops_string_iff, Kind.spells_string_iff]
      constructor
      · intro h
        rcases h with hclosed | ⟨hopen, hrest⟩
        · exact ⟨.inl hclosed, hyields, fun ho => absurd ho hclosed.not_isOpenString⟩
        · exact ⟨.inr hopen, hyields, fun _ => hrest⟩
      · intro h
        obtain ⟨hstring, -, hstops⟩ := h
        exact hstring.imp_right fun hopen => ⟨hopen, hstops hopen⟩
  | number =>
      have hyields : policy.Yields .number u := yields_of_ne (by decide) (by decide)
      rw [select_number_iff, Kind.spells_number_iff, iff_true_intro hyields, true_and]
      exact and_congr_right fun h => (stops_number_iff h).symm
  | whiteSpace =>
      have hyields : policy.Yields .whiteSpace u := yields_of_ne (by decide) (by decide)
      rw [select_whiteSpace_iff, Kind.spells_whiteSpace_iff, iff_true_intro hyields, true_and]
      exact and_congr_right fun h => (stops_whiteSpace_iff h).symm
  | identifier =>
      rw [select_identifier_iff, Kind.spells_identifier_iff]
      refine and_congr_right fun h => ?_
      rw [stops_identifier_iff h, and_comm]
  | eof =>
      refine iff_of_false (fun h => kind_ne_eof_of_select h rfl) fun h => ?_
      cases h.1
      contradiction
  | keyword w =>
      have hyields : policy.Yields (.keyword w) u := yields_of_ne (by simp) (by simp)
      rw [select_keyword_iff, Kind.spells_iff_of_spelling? rfl, iff_true_intro hyields, true_and]
      refine and_congr_right fun h => (stops_keyword_iff ?_).symm
      rw [h]
      exact w.isWord_spelling
  | @symbol c _ hc =>
      obtain ⟨hspelling, hlong, hword, hkeyword, hquote⟩ := Kind.facts_of_ofSymbol? hc
      have hyields : policy.Yields kind u := yields_of_ne hlong hword
      rw [select_symbol_iff hc, Kind.spells_iff_of_spelling? hspelling, iff_true_intro hyields,
        true_and, String.toList_ofList]
      refine and_congr_right fun h => ⟨fun hoperator => ?_, fun hstops => hstops.operator⟩
      refine .of_fixed hspelling ?_ (fun _ hk => ?_) hoperator
      · rw [h]
        exact not_isOpenString_of_ne hquote []
      · rw [hkeyword] at hk
        contradiction
  | @withEqual c short _ hc hlong =>
      obtain ⟨hspelling, hmem, hword, hkeyword, hnone, hquote⟩ := Kind.facts_of_withEqual? hc hlong
      have hyields : policy.Yields kind u ↔ policy = .longest := by
        cases policy with
        | longest => exact iff_of_true (fun h => absurd h hword) rfl
        | firstMatch => exact iff_of_false (fun h => h.1 hmem) (by simp)
      rw [select_withEqual_iff hc hlong, Kind.spells_iff_of_spelling? hspelling, hyields,
        String.toList_ofList]
      refine and_congr_right fun h => (and_iff_left ?_).symm
      refine .of_fixed hspelling ?_ (fun _ hk => ?_) fun _ hk => absurd hnone hk
      · rw [h]
        exact not_isOpenString_of_ne hquote ['=']
      · rw [hkeyword] at hk
        contradiction

end

end PoxTokens
