import Mathlib.Data.List.Permutation
import PoxTokens.Proofs.Cutting
import PoxTokens.Proofs.FirstCharacter

/-!
# PoxTokens.Proofs.RuleOrder

Which orders of the table matter.  Two rules of the table seldom match at one place: an operator
and the operator that an equals sign makes of it, or a reserved word and an identifier
(`lexemes_cases`).  So a table with the same rules in another order selects the same lexemes
exactly if it keeps these pairs in order, and `longest` asks this of the words only
(`classifyWith_reordered_iff`).
-/

namespace PoxTokens

/-! ## Rules in other orders -/

/-- The token at a byte offset of a source, by a list of rules. -/
def classifyWith (rules : List Rule) (policy : Policy) (source : String) (offset : Nat) :
    Option Token :=
  (splitAtByte? offset source.toList).bind fun (_, rest) =>
    (policy.select rules rest).map (Lexeme.at offset)

/-- The rule of a kind stands before the rule of another kind. -/
def Precedes (rules : List Rule) (kind other : Kind) : Prop :=
  (rules.map (·.kind)).idxOf kind < (rules.map (·.kind)).idxOf other

instance (rules : List Rule) (kind other : Kind) : Decidable (Precedes rules kind other) :=
  inferInstanceAs (Decidable (_ < _))

/-- Every reserved word stands before the identifiers. -/
def WordsFirst (rules : List Rule) : Prop := ∀ w : Keyword, Precedes rules (.keyword w) .identifier

/-- Every operator stands before the one that an equals sign makes of it. -/
def ShortFirst (rules : List Rule) : Prop :=
  ∀ short long : Kind, short.withEqual? = some long → Precedes rules short long

/-! ## Rules that match at one place -/

/-- Lexemes that two rules find at one place. -/
inductive Overlap : Lexeme → Lexeme → Prop where
  | operator {c : Char} {short long : Kind} (hc : Kind.ofSymbol? c = some short)
      (hlong : short.withEqual? = some long) : Overlap ⟨short, [c]⟩ ⟨long, [c, '=']⟩
  | word (w : Keyword) (run : List Char) : Overlap w.lexeme ⟨.identifier, run⟩

/-- At most two rules of the table match at the front of a text. -/
theorem lexemes_cases (s : List Char) :
    ruleTable.filterMap (·.lexeme? s) = [] ∨
      (∃ l, ruleTable.filterMap (·.lexeme? s) = [l]) ∨
      ∃ l m, ruleTable.filterMap (·.lexeme? s) = [l, m] ∧ Overlap l m := by
  cases s with
  | nil => exact .inl rfl
  | cons c s =>
      cases charClass c with
      | quote hquote =>
          rw [hquote]
          exact .inr (.inl ⟨_, filterMap_lexeme?_quote s⟩)
      | digit hdigit => exact .inr (.inl ⟨_, filterMap_lexeme?_digit s hdigit⟩)
      | space hspace =>
          rw [hspace]
          exact .inr (.inl ⟨_, filterMap_lexeme?_space s⟩)
      | letter hletter =>
          rw [filterMap_lexeme?_letter s hletter]
          cases leadingWord? (c :: s) with
          | none => exact .inr (.inl ⟨_, rfl⟩)
          | some w => exact .inr (.inr ⟨_, _, rfl, .word w _⟩)
      | @symbol short hsymbol =>
          rw [filterMap_lexeme?_symbol s hsymbol]
          cases hlong : short.withEqual?.filter fun _ => leads (· == '=') s with
          | none => exact .inr (.inl ⟨_, rfl⟩)
          | some long =>
              rw [Option.filter_eq_some_iff] at hlong
              exact .inr (.inr ⟨_, _, rfl, .operator hsymbol hlong.1⟩)
      | foreign halpha hdigit hspace hquote hsymbol =>
          exact .inl (filterMap_lexeme?_foreign s halpha hdigit hspace hquote hsymbol)

/-! ## Lists in order -/

/-- Of two members of a list without repetitions the one that stands first has the smaller
index. -/
theorem idxOf_lt_of_sublist {α : Type} [DecidableEq α] {xs : List α} {a b : α} (hxs : xs.Nodup)
    (h : [a, b].Sublist xs) : xs.idxOf a < xs.idxOf b := by
  obtain ⟨before, after, rfl, ha, hb⟩ := List.cons_sublist_iff.mp h
  rw [List.singleton_sublist] at hb
  have hnot : b ∉ before := fun hmem => (List.disjoint_of_nodup_append hxs) hmem hb
  have hlt := List.idxOf_lt_length_of_mem ha
  rw [List.idxOf_append_of_mem ha, List.idxOf_append_of_notMem hnot]
  omega

section
variable {rules : List Rule}

/-- However the rules are ordered, each kind has one rule. -/
theorem nodup_map_kind (hperm : rules.Perm ruleTable) : (rules.map (·.kind)).Nodup := by
  have htable : (ruleTable.map (·.kind)).Nodup := by decide
  exact (hperm.map _).nodup_iff.mpr htable

/-- Lexemes are found in the order of their rules. -/
theorem map_kind_lexemes_sublist (rules : List Rule) (s : List Char) :
    ((rules.filterMap (·.lexeme? s)).map (·.kind)).Sublist (rules.map (·.kind)) := by
  induction rules with
  | nil => exact .slnil
  | cons rule rules ih =>
      rw [List.filterMap_cons, List.map_cons]
      cases hlexeme : rule.lexeme? s with
      | none => exact ih.cons rule.kind
      | some l =>
          have hkind : l.kind = rule.kind := by rw [(Rule.lexeme?_eq_some_iff.mp hlexeme).1]
          rw [List.map_cons, hkind]
          exact ih.cons_cons rule.kind

/-- If the rules find two lexemes, the rule of the first one precedes that of the second. -/
theorem precedes_of_lexemes (hperm : rules.Perm ruleTable) {s : List Char} {l m : Lexeme}
    (h : rules.filterMap (·.lexeme? s) = [l, m]) : Precedes rules l.kind m.kind := by
  have hsublist := map_kind_lexemes_sublist rules s
  rw [h] at hsublist
  exact idxOf_lt_of_sublist (nodup_map_kind hperm) hsublist

/-- Of two rules only one precedes the other. -/
theorem Precedes.not_precedes {kind other : Kind} (h : Precedes rules kind other) :
    ¬Precedes rules other kind :=
  Nat.lt_asymm h

/-- Rules in another order find the same lexemes, but for two that overlap and whose rules are
turned around. -/
theorem lexemes_reordered (hperm : rules.Perm ruleTable) (s : List Char) :
    rules.filterMap (·.lexeme? s) = ruleTable.filterMap (·.lexeme? s) ∨
      ∃ l m, ruleTable.filterMap (·.lexeme? s) = [l, m] ∧ Overlap l m ∧
        rules.filterMap (·.lexeme? s) = [m, l] ∧ Precedes rules m.kind l.kind := by
  have hfound := hperm.filterMap (·.lexeme? s)
  rcases lexemes_cases s with hnil | ⟨l, hone⟩ | ⟨l, m, htwo, hover⟩
  · rw [hnil, List.perm_nil] at hfound
    exact .inl (hfound.trans hnil.symm)
  · rw [hone, List.perm_singleton] at hfound
    exact .inl (hfound.trans hone.symm)
  · rw [htwo, List.perm_pair] at hfound
    rcases hfound with hsame | hturned
    · exact .inl (hsame.trans htwo.symm)
    · exact .inr ⟨l, m, htwo, hover, hturned, precedes_of_lexemes hperm hturned⟩

/-! ## What is selected -/

/-- Two lists of rules make the same tokens if they select the same lexemes. -/
theorem classifyWith_eq_iff {policy : Policy} :
    (∀ source offset, classifyWith rules policy source offset = classify policy source offset) ↔
      ∀ s, policy.select rules s = policy.select ruleTable s := by
  constructor
  · intro h s
    have hstart := h (String.ofList s) 0
    simp only [classifyWith, classify, String.toList_ofList, splitAtByte?, Option.bind_some]
      at hstart
    have hlexemes := congrArg (Option.map Token.toLexeme) hstart
    simpa [Function.comp_def] using hlexemes
  · intro h source offset
    simp only [classifyWith, classify, h]

/-- Under `longest` the order of two operators does not matter, since one is longer. -/
theorem select_longest_of_wordsFirst (hperm : rules.Perm ruleTable) (hwords : WordsFirst rules)
    (s : List Char) : Policy.longest.select rules s = Policy.longest.select ruleTable s := by
  rcases lexemes_reordered hperm s with hsame | ⟨l, m, htable, hover, hturned, hprecedes⟩
  · rw [Policy.select, Policy.select, hsame]
  · cases hover with
    | operator hc hlong =>
        rw [Policy.select, Policy.select, hturned, htable]
        rfl
    | word w run => exact absurd (hwords w) hprecedes.not_precedes

/-- If the words come before the identifiers and the short symbols before the long ones, then the
first match selects what it does from the table. -/
theorem select_firstMatch_of_shortFirst (hperm : rules.Perm ruleTable) (hwords : WordsFirst rules)
    (hshort : ShortFirst rules) (s : List Char) :
    Policy.firstMatch.select rules s = Policy.firstMatch.select ruleTable s := by
  rcases lexemes_reordered hperm s with hsame | ⟨l, m, htable, hover, hturned, hprecedes⟩
  · rw [Policy.select, Policy.select, hsame]
  · cases hover with
    | operator hc hlong => exact absurd (hshort _ _ hlong) hprecedes.not_precedes
    | word w run => exact absurd (hwords w) hprecedes.not_precedes

/-- Of two lexemes the first one is chosen, unless the second one is longer. -/
theorem choose_pair (policy : Policy) {l m : Lexeme} (h : m.text.length ≤ l.text.length) :
    policy.choose [l, m] = some l := by
  cases policy with
  | longest => simp [Policy.choose, longest?, Nat.not_lt.mpr h]
  | firstMatch => rfl

/-! ### The orders that matter -/

/-- Two rules that match at the front of a text stand as in the table, if it matters for the
choice and the choice is that of the table. -/
theorem precedes_of_select {policy : Policy} (hperm : rules.Perm ruleTable) {s : List Char}
    {l m : Lexeme} (htable : ruleTable.filterMap (·.lexeme? s) = [l, m])
    (hmatters : policy.choose [m, l] ≠ policy.choose [l, m])
    (h : policy.select rules s = policy.select ruleTable s) : Precedes rules l.kind m.kind := by
  rcases lexemes_reordered hperm s with hsame | ⟨first, second, hpair, -, hturned, -⟩
  · exact precedes_of_lexemes hperm (hsame.trans htable)
  · obtain ⟨rfl, rfl⟩ : l = first ∧ m = second := by simpa [htable] using hpair
    rw [Policy.select, Policy.select, hturned, htable] at h
    exact absurd h hmatters

/-- If the identifiers stood before a reserved word, they would take it. -/
theorem wordsFirst_of_select {policy : Policy} (hperm : rules.Perm ruleTable)
    (h : ∀ s, policy.select rules s = policy.select ruleTable s) : WordsFirst rules := by
  intro w
  let identifier : Lexeme := ⟨.identifier, w.spelling.toList⟩
  have htable : ruleTable.filterMap (·.lexeme? w.spelling.toList) = [w.lexeme, identifier] := by
    cases w <;> rfl
  have hlength : w.lexeme.text.length = identifier.text.length := rfl
  have hmatters : policy.choose [identifier, w.lexeme] ≠ policy.choose [w.lexeme, identifier] := by
    rw [choose_pair policy hlength.le, choose_pair policy hlength.ge]
    intro hsame
    have hkind : Kind.identifier = .keyword w := congrArg Lexeme.kind (Option.some.inj hsame)
    contradiction
  exact precedes_of_select hperm htable hmatters (h w.spelling.toList)

theorem Kind.exists_ofSymbol? {short long : Kind} (h : short.withEqual? = some long) :
    ∃ c, ofSymbol? c = some short := by
  cases short with
  | bang => exact ⟨'!', rfl⟩
  | equal => exact ⟨'=', rfl⟩
  | greater => exact ⟨'>', rfl⟩
  | less => exact ⟨'<', rfl⟩
  | _ => contradiction

/-- Under `firstMatch`, if the longer of two operators stood before the other one, it would
take the equals sign. -/
theorem shortFirst_of_select (hperm : rules.Perm ruleTable)
    (h : ∀ s, Policy.firstMatch.select rules s = Policy.firstMatch.select ruleTable s) :
    ShortFirst rules := by
  intro short long hlong
  obtain ⟨c, hc⟩ := Kind.exists_ofSymbol? hlong
  have htable : ruleTable.filterMap (·.lexeme? [c, '=']) = [⟨short, [c]⟩, ⟨long, [c, '=']⟩] := by
    rw [filterMap_lexeme?_symbol ['='] hc, hlong]
    rfl
  have hmatters : Policy.firstMatch.choose [⟨long, [c, '=']⟩, ⟨short, [c]⟩] ≠
      Policy.firstMatch.choose [⟨short, [c]⟩, ⟨long, [c, '=']⟩] := by
    intro hsame
    have htext : [c, '='] = [c] := congrArg Lexeme.text (Option.some.inj hsame)
    simp at htext
  exact precedes_of_select hperm htable hmatters (h [c, '='])

end

/-! ## Rules that match at a place of a source -/

/-- Kinds of which two rules may match at one place: an operator and the one that an equals sign
makes of it, or a reserved word and an identifier. -/
def Kind.Overlaps (kind other : Kind) : Prop :=
  kind.withEqual? = some other ∨ kind.isKeyword = true ∧ other = identifier

/-- Only the kinds that are listed as overlapping can overlap in a text. -/
theorem Overlap.kinds {l m : Lexeme} (h : Overlap l m) : l.kind.Overlaps m.kind := by
  cases h with
  | operator hc hlong => exact .inl hlong
  | word w run => exact .inr ⟨rfl, rfl⟩

/-- The rules that match at a place make tokens of the lexemes that they find there. -/
theorem map_snd_matchingRules {source : String} {offset : Nat} {before after : List Char}
    (hplace : splitAtByte? offset source.toList = some (before, after)) :
    (matchingRules source offset).map (·.2) =
      (ruleTable.filterMap (·.lexeme? after)).map (Lexeme.at offset) := by
  have htoken : ∀ rule : Rule,
      rule.token? source offset = (rule.lexeme? after).map (Lexeme.at offset) := by
    intro rule
    rw [Rule.token?, hplace]
    rfl
  have htable : ruleTable.zipIdx.map (·.1) = ruleTable := List.zipIdx_map_fst 0 ruleTable
  rw [matchingRules, List.map_filterMap, List.map_filterMap, ← htable, List.filterMap_map, htable]
  simp [htoken, Function.comp_def]

/-- At most two rules match at a place of a source, and two only if their kinds overlap. -/
theorem matchingRules_cases (source : String) (offset : Nat) :
    (matchingRules source offset).length ≤ 2 ∧
      ∀ first second, matchingRules source offset = [first, second] →
        first.2.kind.Overlaps second.2.kind := by
  cases hplace : splitAtByte? offset source.toList with
  | none =>
      have hnil : matchingRules source offset = [] := by
        simp [matchingRules, Rule.token?, hplace]
      rw [hnil]
      exact ⟨Nat.zero_le 2, fun first second h => absurd h.symm (List.cons_ne_nil first [second])⟩
  | some place =>
      obtain ⟨before, after⟩ := place
      have hkinds : (matchingRules source offset).map (·.2.kind) =
          (ruleTable.filterMap (·.lexeme? after)).map (·.kind) := by
        have hmap := congrArg (List.map Token.kind) (map_snd_matchingRules hplace)
        rw [List.map_map, List.map_map] at hmap
        exact hmap
      have hlength : (matchingRules source offset).length =
          (ruleTable.filterMap (·.lexeme? after)).length := by
        simpa using congrArg List.length hkinds
      rw [hlength]
      rcases lexemes_cases after with hnil | ⟨l, hone⟩ | ⟨l, m, htwo, hover⟩
      · rw [hnil] at hkinds ⊢
        refine ⟨Nat.zero_le 2, fun first second h => ?_⟩
        rw [h] at hkinds
        contradiction
      · rw [hone] at hkinds ⊢
        refine ⟨Nat.le_succ 1, fun first second h => ?_⟩
        rw [h] at hkinds
        simp at hkinds
      · rw [htwo] at hkinds ⊢
        refine ⟨Nat.le_refl 2, fun first second h => ?_⟩
        rw [h] at hkinds
        simp only [List.map_cons, List.map_nil, List.cons.injEq, and_true] at hkinds
        rw [hkinds.1, hkinds.2]
        exact hover.kinds

/-- **The order of the table**: at most two rules match at a place of a source, and if two do,
they are for an operator and the one that an equals sign makes of it, or for a reserved word and
an identifier.  The same rules in another order make the same tokens under `longest` exactly if
every reserved word stands before the identifiers, and under `firstMatch` exactly if moreover
every operator stands before the one that an equals sign makes of it. -/
theorem classifyWith_reordered_iff :
    (∀ source offset, (matchingRules source offset).length ≤ 2 ∧
      ∀ first second, matchingRules source offset = [first, second] →
        first.2.kind.Overlaps second.2.kind) ∧
    ∀ rules : List Rule, rules.Perm ruleTable →
      ((∀ source offset, classifyWith rules .longest source offset =
          classify .longest source offset) ↔ WordsFirst rules) ∧
      ((∀ source offset, classifyWith rules .firstMatch source offset =
          classify .firstMatch source offset) ↔ WordsFirst rules ∧ ShortFirst rules) := by
  refine ⟨matchingRules_cases, fun rules hperm => ?_⟩
  rw [classifyWith_eq_iff, classifyWith_eq_iff]
  refine ⟨⟨wordsFirst_of_select hperm, select_longest_of_wordsFirst hperm⟩,
    fun h => ?_, fun h => ?_⟩
  · exact ⟨wordsFirst_of_select hperm h, shortFirst_of_select hperm h⟩
  · exact select_firstMatch_of_shortFirst hperm h.1 h.2

/-- The words first, then the identifiers, then all else, with the operators turned around: in
this order `!=` is one token under `firstMatch`, and `longest` keeps its tokens. -/
theorem classifyWith_reordered_iff_turned :
    let rules := wordRules ++ [⟨.identifier, .identifier⟩] ++ classRules ++ symbolRules.reverse
    rules.Perm ruleTable ∧
      (∀ source offset, classifyWith rules .longest source offset =
        classify .longest source offset) ∧
      ¬∀ source offset, classifyWith rules .firstMatch source offset =
        classify .firstMatch source offset := by
  intro rules
  have hperm : rules.Perm ruleTable := by decide +kernel
  have hwords : WordsFirst rules := by
    intro w
    cases w <;> decide +kernel
  have hshort : ¬ShortFirst rules := by
    intro h
    exact absurd (h .bang .bangEqual rfl) (by decide +kernel)
  obtain ⟨hlongest, hfirst⟩ := classifyWith_reordered_iff.2 rules hperm
  exact ⟨hperm, hlongest.mpr hwords, fun h => hshort (hfirst.mp h).2⟩

end PoxTokens
