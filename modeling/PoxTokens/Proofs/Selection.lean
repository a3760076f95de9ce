import PoxTokens.Policy

/-!
# PoxTokens.Proofs.Selection

What a policy selects from the rules at the front of a text.
-/

namespace PoxTokens

section
variable {policy : Policy} {rules : List Rule} {s : List Char} {l : Lexeme}

/-! ## Any rules -/

/-- What is selected was found by one of the rules. -/
theorem Policy.exists_rule_of_select (h : policy.select rules s = some l) :
    ∃ rule ∈ rules, rule.lexeme? s = some l :=
  List.mem_filterMap.mp (choose_mem h)

/-- The pattern of some rule of its kind takes a selected lexeme from the front of the
text. -/
theorem Policy.exists_munch_of_select (h : policy.select rules s = some l) :
    ∃ rule ∈ rules, rule.kind = l.kind ∧ rule.pattern.munch s = l.text := by
  obtain ⟨rule, hmem, hl⟩ := exists_rule_of_select h
  obtain ⟨rfl, -⟩ := Rule.lexeme?_eq_some_iff.mp hl
  exact ⟨rule, hmem, rfl, rfl⟩

/-- A selected lexeme and what follows it are the text. -/
theorem Policy.append_drop_of_select (h : policy.select rules s = some l) :
    l.text ++ s.drop l.text.length = s := by
  obtain ⟨rest, rfl⟩ := (select_isPrefix h).1
  rw [List.drop_left]

/-- Among some lexemes there is a longest one. -/
theorem longest?_eq_none_iff {found : List Lexeme} : longest? found = none ↔ found = [] := by
  cases found with
  | nil => simp [longest?]
  | cons m ms =>
      rw [longest?]
      split
      · simp
      · split <;> simp

/-- The lexemes before the first of the longest ones are shorter. -/
theorem exists_append_of_longest? {found : List Lexeme} (h : longest? found = some l) :
    ∃ before after, found = before ++ l :: after ∧
      (∀ m ∈ before, m.text.length < l.text.length) ∧
      ∀ m ∈ after, m.text.length ≤ l.text.length := by
  induction found generalizing l with
  | nil => contradiction
  | cons a found ih =>
      rw [longest?] at h
      split at h
      · next hnone =>
          rw [Option.some.injEq] at h
          rw [longest?_eq_none_iff.mp hnone, h]
          exact ⟨[], [], rfl, by simp, by simp⟩
      · next b hb =>
          obtain ⟨before, after, hfound, hbefore, hafter⟩ := ih hb
          split at h
          · next hlt =>
              rw [Option.some.injEq] at h
              rw [h] at hfound hbefore hafter hlt
              exact ⟨a :: before, after, by rw [hfound, List.cons_append],
                List.forall_mem_cons.mpr ⟨hlt, hbefore⟩, hafter⟩
          · next hle =>
              rw [Option.some.injEq] at h
              rw [h] at hle
              refine ⟨[], found, by rw [h, List.nil_append], by simp, fun m hm => ?_⟩
              rw [hfound, List.mem_append, List.mem_cons] at hm
              rcases hm with hm | hm | hm
              · have hlt := hbefore m hm
                omega
              · rw [hm]
                omega
              · have hmb := hafter m hm
                omega

/-- Under `longest` the rules before the one that is selected find shorter lexemes, those
behind it no longer ones. -/
theorem Policy.exists_append_of_select_longest (h : longest.select rules s = some l) :
    ∃ before rule after, rules = before ++ rule :: after ∧ rule.lexeme? s = some l ∧
      (∀ r ∈ before, ∀ m ∈ r.lexeme? s, m.text.length < l.text.length) ∧
      ∀ r ∈ after, ∀ m ∈ r.lexeme? s, m.text.length ≤ l.text.length := by
  obtain ⟨shorter, others, hfound, hshorter, hothers⟩ := exists_append_of_longest? h
  obtain ⟨first, last, hrules, hfirst, hlast⟩ := List.filterMap_eq_append_iff.mp hfound
  obtain ⟨unused, rule, after, hsplit, hunused, hrule, hafter⟩ :=
    List.filterMap_eq_cons_iff.mp hlast
  refine ⟨first ++ unused, rule, after, ?_, hrule, fun r hr m hm => ?_, fun r hr m hm => ?_⟩
  · rw [hrules, hsplit, List.append_assoc]
  · rcases List.mem_append.mp hr with hr | hr
    · exact hshorter m (hfirst ▸ List.mem_filterMap.mpr ⟨r, hr, hm⟩)
    · rw [hunused r hr] at hm
      contradiction
  · exact hothers m (hafter ▸ List.mem_filterMap.mpr ⟨r, hr, hm⟩)

/-- Under `firstMatch` the rules before the one that is selected find nothing. -/
theorem Policy.exists_append_of_select_firstMatch (h : firstMatch.select rules s = some l) :
    ∃ before rule after, rules = before ++ rule :: after ∧ rule.lexeme? s = some l ∧
      ∀ r ∈ before, r.lexeme? s = none := by
  obtain ⟨others, hfound⟩ := List.head?_eq_some_iff.mp h
  obtain ⟨before, rule, after, hrules, hbefore, hrule, -⟩ := List.filterMap_eq_cons_iff.mp hfound
  exact ⟨before, rule, after, hrules, hrule, hbefore⟩

/-- Nothing is selected exactly if no rule finds anything. -/
theorem Policy.select_eq_none_iff :
    policy.select rules s = none ↔ ∀ rule ∈ rules, rule.lexeme? s = none := by
  have hchoose : ∀ found, policy.choose found = none ↔ found = [] := by
    intro found
    cases policy with
    | longest => exact longest?_eq_none_iff
    | firstMatch => exact List.head?_eq_none_iff
  rw [select, hchoose, List.filterMap_eq_nil_iff]

/-- No rule matches the empty text. -/
theorem Policy.select_nil (policy : Policy) (rules : List Rule) :
    policy.select rules [] = none := by
  cases h : policy.select rules [] with
  | none => rfl
  | some l =>
      obtain ⟨hp, hne⟩ := select_isPrefix h
      exact absurd (List.prefix_nil.mp hp) hne

/-! ## The table -/

/-- No rule makes the end marker. -/
theorem kind_ne_eof_of_select (h : policy.select ruleTable s = some l) : l.kind ≠ .eof := by
  have htable : ∀ rule ∈ ruleTable, rule.kind ≠ .eof := by decide
  obtain ⟨rule, hmem, hkind, -⟩ := Policy.exists_munch_of_select h
  rw [← hkind]
  exact htable rule hmem

end

end PoxTokens
