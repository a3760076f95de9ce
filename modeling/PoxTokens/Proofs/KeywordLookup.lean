import PoxTokens.Proofs.FirstCharacter
import PoxTokens.Proofs.Language

/-!
# PoxTokens.Proofs.KeywordLookup

Reserved words by rules and by look-up.  Under `longest` the sixteen rules for reserved words do
what a look-up on runs of letters and digits would do: where a letter stands, the token is the
whole run, and its kind is the reserved word with this spelling or identifier; elsewhere there
is neither.  So the rules may be dropped from the table if identifiers are looked up behind it
(`classify_longest_lookup`).
-/

namespace PoxTokens

/-! ## Letters in a source -/

/-- Is the byte at an offset of a source a letter? -/
def letterAt (source : String) (offset : Nat) : Bool :=
  (bytesOf source)[offset]?.any fun b => (Char.ofUInt8 b).isAlpha

/-- The bytes of letters and digits from an offset of a source on. -/
def runAt (source : String) (offset : Nat) : List UInt8 :=
  ((bytesOf source).drop offset).takeWhile fun b => (Char.ofUInt8 b).isAlphanum

section
variable {source : String} {offset : Nat} {before after : List Char}

/-- There is a letter where a text starts with one; inside a character there is none. -/
theorem letterAt_eq (source : String) (offset : Nat) :
    letterAt source offset =
      (splitAtByte? offset source.toList).any fun (_, after) => leads Char.isAlpha after := by
  have hhead : (bytesOf source)[offset]? = ((utf8Bytes source.toList).drop offset).head? := by
    rw [bytesOf_eq, List.head?_drop]
  rw [letterAt, hhead]
  cases hplace : splitAtByte? offset source.toList with
  | none =>
      cases hbyte : ((utf8Bytes source.toList).drop offset).head? with
      | none => rfl
      | some b =>
          have hfirst := not_isUTF8FirstByte_of_splitAtByte? hplace b hbyte
          have hletter : (Char.ofUInt8 b).isAlpha = false := by
            rw [← Bool.not_eq_true]
            exact mt (isUTF8FirstByte_of_class asciiOnly_isAlpha) hfirst
          simp [hletter]
  | some place =>
      obtain ⟨before, after⟩ := place
      rw [drop_utf8Bytes hplace]
      cases after with
      | nil => rfl
      | cons c after =>
          cases hbytes : String.utf8EncodeChar c with
          | nil => exact absurd hbytes String.utf8EncodeChar_ne_nil
          | cons b bs =>
              have hmem : b ∈ String.utf8EncodeChar c := by
                rw [hbytes]
                exact List.mem_cons_self
              have hletter := class_of_mem_utf8EncodeChar asciiOnly_isAlpha hmem
              simp [hbytes, hletter]

/-- The run at a place of a source is that of the text behind it. -/
theorem runAt_eq (hplace : splitAtByte? offset source.toList = some (before, after)) :
    runAt source offset = utf8Bytes (after.takeWhile Char.isAlphanum) := by
  rw [runAt, bytesOf_eq, drop_utf8Bytes hplace, takeWhile_utf8Bytes asciiOnly_isAlphanum]

end

/-! ## Words and other lexemes -/

/-- Reserved words and identifiers are words. -/
def Kind.isWord (kind : Kind) : Bool := kind.isKeyword || kind == .identifier

theorem Kind.isWord_eq_false_iff {kind : Kind} :
    kind.isWord = false ↔ kind.isKeyword = false ∧ kind ≠ .identifier := by
  rw [isWord, Bool.or_eq_false_iff, beq_eq_false_iff_ne]

/-- A symbol makes no word. -/
theorem Kind.isWord_of_mem_symbol {c : Char} {short : Kind} (h : ofSymbol? c = some short)
    {kind : Kind} (hkind : kind = short ∨ short.withEqual? = some kind) : kind.isWord = false := by
  unfold ofSymbol? at h
  split at h
  all_goals cases h
  all_goals
    rcases hkind with rfl | hlong
    · rfl
    · cases hlong <;> rfl

/-- A text that does not begin with a letter begins with no word. -/
theorem isWord_of_mem_lexemes {c : Char} (hc : c.isAlpha = false) {s : List Char} {l : Lexeme}
    (h : l ∈ ruleTable.filterMap (·.lexeme? (c :: s))) : l.kind.isWord = false := by
  cases charClass c with
  | quote hquote =>
      rw [hquote, filterMap_lexeme?_quote, List.mem_singleton] at h
      rw [h]
      rfl
  | digit hdigit =>
      rw [filterMap_lexeme?_digit s hdigit, List.mem_singleton] at h
      rw [h]
      rfl
  | space hspace =>
      rw [hspace, filterMap_lexeme?_space, List.mem_singleton] at h
      rw [h]
      rfl
  | letter hletter =>
      rw [hc] at hletter
      contradiction
  | symbol hsymbol =>
      refine Kind.isWord_of_mem_symbol hsymbol ?_
      rw [filterMap_lexeme?_symbol s hsymbol, List.mem_cons, List.mem_map] at h
      rcases h with rfl | ⟨long, hlong, rfl⟩
      · exact .inl rfl
      · rw [Option.mem_toList, Option.filter_eq_some_iff] at hlong
        exact .inr hlong.1
  | foreign halpha hdigit hspace hquote hsymbol =>
      rw [filterMap_lexeme?_foreign s halpha hdigit hspace hquote hsymbol] at h
      contradiction

/-! ## The table without reserved words -/

/-- The rules but for those of reserved words. -/
def wordlessRules : List Rule := ruleTable.filter fun rule => !rule.kind.isKeyword

/-- An identifier that is spelled as a reserved word becomes it. -/
def Lexeme.lookUp (l : Lexeme) : Lexeme :=
  if l.kind = .identifier then { l with kind := .ofRun l.text } else l

/-- The token at a byte offset of a source, by the rules without reserved words and a look-up
of the identifiers that they find. -/
def classifyByLookup (source : String) (offset : Nat) : Option Token :=
  (splitAtByte? offset source.toList).bind fun (_, rest) =>
    (Policy.longest.select wordlessRules rest).map fun l => l.lookUp.at offset

/-- The rules of some kinds find the lexemes of these kinds. -/
theorem filterMap_lexeme?_filter (p : Kind → Bool) (rules : List Rule) (s : List Char) :
    (rules.filter fun rule => p rule.kind).filterMap (·.lexeme? s) =
      (rules.filterMap (·.lexeme? s)).filter fun l => p l.kind := by
  induction rules with
  | nil => rfl
  | cons rule rules ih =>
      rw [List.filter_cons, List.filterMap_cons]
      cases hlexeme : rule.lexeme? s with
      | none =>
          split
          · rw [List.filterMap_cons, hlexeme, ih]
          · exact ih
      | some l =>
          have hkind : l.kind = rule.kind := by rw [(Rule.lexeme?_eq_some_iff.mp hlexeme).1]
          rw [List.filter_cons, hkind]
          split
          · rw [List.filterMap_cons, hlexeme, ih]
          · exact ih

/-- Behind the table without reserved words, the look-up makes the lexeme of the table. -/
theorem lookUp_select_wordlessRules (s : List Char) :
    (Policy.longest.select wordlessRules s).map Lexeme.lookUp =
      Policy.longest.select ruleTable s := by
  cases s with
  | nil => rw [Policy.select_nil, Policy.select_nil, Option.map_none]
  | cons c s =>
      cases hc : c.isAlpha with
      | true =>
          -- of the lexemes of the table, the reserved word falls away and the run is left
          rw [Policy.select_letter .longest s hc, Policy.select, wordlessRules,
            filterMap_lexeme?_filter (fun kind => !kind.isKeyword), filterMap_lexeme?_letter s hc]
          have hrun : (c :: s).takeWhile Char.isAlphanum = c :: s.takeWhile Char.isAlphanum :=
            List.takeWhile_cons_of_pos (by simp [Char.isAlphanum, hc])
          have hwords : ((leadingWord? (c :: s)).toList.map Keyword.lexeme).filter
              (fun l => !l.kind.isKeyword) = [] := by
            simp [Keyword.lexeme, Kind.isKeyword]
          rw [List.filter_append, hwords, ← hrun]
          rfl
      | false =>
          -- no rule that is missing finds anything, and there is nothing to look up
          have hword : ∀ l ∈ ruleTable.filterMap (·.lexeme? (c :: s)), l.kind.isWord = false :=
            fun l hl => isWord_of_mem_lexemes hc hl
          have hall : (ruleTable.filterMap (·.lexeme? (c :: s))).filter
              (fun l => !l.kind.isKeyword) = ruleTable.filterMap (·.lexeme? (c :: s)) := by
            refine List.filter_eq_self.mpr fun l hl => ?_
            rw [(Kind.isWord_eq_false_iff.mp (hword l hl)).1]
            rfl
          rw [Policy.select, wordlessRules, filterMap_lexeme?_filter (fun kind => !kind.isKeyword),
            hall, ← Policy.select]
          cases hselect : Policy.longest.select ruleTable (c :: s) with
          | none => rfl
          | some l =>
              have hl := Kind.isWord_eq_false_iff.mp (hword l (Policy.choose_mem hselect))
              rw [Option.map_some, Lexeme.lookUp, if_neg hl.2]

/-- The kind of a run is what a look-up finds, or identifier. -/
theorem Kind.ofRun_eq (run : List Char) :
    ofRun run = ((Keyword.ofSpelling? (String.ofList run)).map keyword).getD identifier := by
  rw [ofRun]
  cases Keyword.ofSpelling? (String.ofList run) <;> rfl

/-- **Rules and look-up**: under `longest` the token where a letter stands is the run of letters
and digits from there on, and its kind is the reserved word with this spelling, or identifier if
there is none; where no letter stands there is no word.  So the table without the rules for
reserved words, with a look-up behind it, makes the same tokens. -/
theorem classify_longest_lookup (source : String) (offset : Nat) :
    (letterAt source offset = true →
      ∃ run, bytesOf run = runAt source offset ∧
        classify .longest source offset =
          some ⟨offset, run, ((Keyword.ofSpelling? run).map Kind.keyword).getD .identifier⟩) ∧
    (letterAt source offset = false →
      ∀ t ∈ classify .longest source offset, t.kind.isKeyword = false ∧ t.kind ≠ .identifier) ∧
    classifyByLookup source offset = classify .longest source offset := by
  rw [letterAt_eq]
  cases hplace : splitAtByte? offset source.toList with
  | none =>
      have hnone : classify .longest source offset = none := by rw [classify, hplace]; rfl
      have hnone' : classifyByLookup source offset = none := by rw [classifyByLookup, hplace]; rfl
      rw [hnone, hnone']
      exact ⟨nofun, nofun, rfl⟩
  | some place =>
      obtain ⟨before, after⟩ := place
      have hclassify : classify .longest source offset =
          (Policy.longest.select ruleTable after).map (Lexeme.at offset) := by
        rw [classify, hplace]
        rfl
      rw [Option.any_some, hclassify]
      refine ⟨fun hletter => ?_, fun hletter t ht => ?_, ?_⟩
      · cases after with
        | nil => contradiction
        | cons c after =>
            refine ⟨String.ofList ((c :: after).takeWhile Char.isAlphanum), ?_, ?_⟩
            · rw [runAt_eq hplace, bytesOf_eq, String.toList_ofList]
            · rw [Policy.select_letter .longest after hletter, ← Kind.ofRun_eq]
              rfl
      · obtain ⟨l, hselect, rfl⟩ := Option.map_eq_some_iff.mp ht
        cases after with
        | nil =>
            rw [Policy.select_nil] at hselect
            contradiction
        | cons c after =>
            exact Kind.isWord_eq_false_iff.mp
              (isWord_of_mem_lexemes hletter (Policy.choose_mem hselect))
      · rw [classifyByLookup, hplace, ← lookUp_select_wordlessRules, Option.map_map]
        rfl

/-- The middle of a word, where a reserved word starts, and the middle of a character. -/
theorem classify_longest_lookup_inside :
    let source := "é abnull"
    letterAt source 5 = true ∧
      (∃ run, bytesOf run = runAt source 5 ∧ classify .longest source 5 =
        some ⟨5, run, ((Keyword.ofSpelling? run).map Kind.keyword).getD .identifier⟩) ∧
      letterAt source 1 = false ∧
      ∀ t ∈ classify .longest source 1, t.kind.isKeyword = false ∧ t.kind ≠ .identifier := by
  intro source
  have hletter : letterAt source 5 = true := by decide +kernel
  have hinside : letterAt source 1 = false := by decide +kernel
  exact ⟨hletter, (classify_longest_lookup source 5).1 hletter, hinside,
    (classify_longest_lookup source 1).2.1 hinside⟩

end PoxTokens
