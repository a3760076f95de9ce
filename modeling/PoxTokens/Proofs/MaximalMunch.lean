import PoxTokens.Proofs.Language
import PoxTokens.Proofs.LexemeSelection

/-!
# PoxTokens.Proofs.MaximalMunch

What the table selects at a byte offset of a source, in terms of the languages of the
kinds only.  Under `longest` it is the longest beginning of the bytes behind the
offset that is in any of the languages, and the kind is the first one in table order
that has it.  Under `firstMatch` it is the longest beginning in the language of the
first kind that has any.
-/

namespace PoxTokens

/-! ## The first member with a property -/

/-- A member of a list has a property, and none before it does. -/
def IsFirst {α : Type} (P : α → Prop) (xs : List α) (x : α) : Prop :=
  ∃ before after, xs = before ++ x :: after ∧ P x ∧ ∀ y ∈ before, ¬P y

theorem IsFirst.unique {α : Type} {P : α → Prop} {xs : List α} {x y : α} (hx : IsFirst P xs x)
    (hy : IsFirst P xs y) : y = x := by
  obtain ⟨before, after, heq, hPx, hbefore⟩ := hx
  obtain ⟨before', after', heq', hPy, hbefore'⟩ := hy
  rw [heq] at heq'
  rcases List.append_eq_append_iff.mp heq' with ⟨t, hsplit, hrest⟩ | ⟨t, hsplit, hrest⟩
  · cases t with
    | nil => exact (List.cons.inj hrest).1.symm
    | cons z t =>
        rw [List.cons_append, List.cons.injEq] at hrest
        exact absurd hPx (hbefore' x (by rw [hsplit, hrest.1]; simp))
  · cases t with
    | nil => exact (List.cons.inj hrest).1
    | cons z t =>
        rw [List.cons_append, List.cons.injEq] at hrest
        exact absurd hPy (hbefore y (by rw [hsplit, hrest.1]; simp))

/-- A map that keeps the property keeps what is first. -/
theorem IsFirst.map {α β : Type} {P : α → Prop} {Q : β → Prop} {f : α → β} {xs : List α} {x : α}
    (h : IsFirst P xs x) (hPQ : ∀ y ∈ xs, Q (f y) ↔ P y) : IsFirst Q (xs.map f) (f x) := by
  obtain ⟨before, after, heq, hx, hbefore⟩ := h
  refine ⟨before.map f, after.map f, by rw [heq, List.map_append, List.map_cons], ?_, ?_⟩
  · exact (hPQ x (by rw [heq]; simp)).mpr hx
  · intro z hz
    obtain ⟨y, hy, hyz⟩ := List.mem_map.mp hz
    rw [← hyz, hPQ y (by rw [heq]; simp [hy])]
    exact hbefore y hy

/-! ## Rules and languages -/

section
variable {rule : Rule} {rules : List Rule} {s : List Char} {l : Lexeme}

/-- A rule finds the longest beginning in the language of its pattern. -/
theorem Rule.isLongestPrefix_of_lexeme? (h : rule.lexeme? s = some l) :
    IsLongestPrefix rule.pattern.language (utf8Bytes s) (utf8Bytes l.text) := by
  obtain ⟨heq, hne⟩ := Rule.lexeme?_eq_some_iff.mp h
  rw [heq] at hne ⊢
  exact (rule.pattern.isLongestPrefix_munch s).of_one_add (mt utf8Bytes_eq_nil_iff.mp hne)

/-- A rule that finds nothing has no beginning in the language of its pattern. -/
theorem Rule.eq_nil_of_lexeme?_eq_none (h : rule.lexeme? s = none) :
    ∀ u ∈ rule.pattern.language, u <+: utf8Bytes s → u = [] := by
  intro u hu hpre
  have hmunch := rule.pattern.isLongestPrefix_munch s
  have hnil : rule.pattern.munch s = [] := by
    by_contra hne
    have hsome := Rule.lexeme?_eq_some_iff.mpr ⟨rfl, hne⟩
    rw [h] at hsome
    contradiction
  rw [hnil] at hmunch
  exact hmunch.eq_nil hu hpre

/-- Of two beginnings of a text the one with fewer characters has fewer bytes. -/
theorem length_utf8Bytes_le_iff {u v : List Char} (hu : u <+: s) (hv : v <+: s) :
    (utf8Bytes u).length ≤ (utf8Bytes v).length ↔ u.length ≤ v.length := by
  constructor
  · intro h
    have hbytes := List.prefix_of_prefix_length_le (utf8Bytes_isPrefix_iff.mpr hu)
      (utf8Bytes_isPrefix_iff.mpr hv) h
    exact (utf8Bytes_isPrefix_iff.mp hbytes).length_le
  · intro h
    have hchars := List.prefix_of_prefix_length_le hu hv h
    exact (utf8Bytes_isPrefix_iff.mpr hchars).length_le

theorem Rule.isPrefix_of_lexeme? (h : rule.lexeme? s = some l) : l.text <+: s :=
  utf8Bytes_isPrefix_iff.mp (isLongestPrefix_of_lexeme? h).isPrefix

/-- Nothing is selected exactly if no rule has a word other than the empty one in front of the
bytes. -/
theorem Policy.select_eq_none_iff_language {policy : Policy} :
    policy.select rules s = none ↔
      ∀ rule ∈ rules, ∀ u ∈ rule.pattern.language, u <+: utf8Bytes s → u = [] := by
  rw [select_eq_none_iff]
  constructor
  · intro h rule hrule
    exact Rule.eq_nil_of_lexeme?_eq_none (h rule hrule)
  · intro h rule hrule
    cases hl : rule.lexeme? s with
    | none => rfl
    | some l =>
        have hlong := Rule.isLongestPrefix_of_lexeme? hl
        have hnil := h rule hrule _ hlong.mem hlong.isPrefix
        exact absurd (utf8Bytes_eq_nil_iff.mp hnil) (Rule.lexeme?_eq_some_iff.mp hl).2

/-- Under `longest` the longest beginning in any of the languages is selected, for the
first rule that has it in its language. -/
theorem Policy.isFirst_of_select_longest (h : longest.select rules s = some l) :
    IsLongestPrefix {u | ∃ rule ∈ rules, u ∈ rule.pattern.language} (utf8Bytes s)
        (utf8Bytes l.text) ∧
      ∃ rule, rule.kind = l.kind ∧
        IsFirst (fun r => utf8Bytes l.text ∈ r.pattern.language) rules rule := by
  obtain ⟨before, rule, after, hrules, hrule, hbefore, hafter⟩ :=
    exists_append_of_select_longest h
  have hlong := Rule.isLongestPrefix_of_lexeme? hrule
  have hpre := Rule.isPrefix_of_lexeme? hrule
  have hkind : rule.kind = l.kind := by rw [(Rule.lexeme?_eq_some_iff.mp hrule).1]
  have hle : ∀ r ∈ rules, ∀ m ∈ r.lexeme? s, m.text.length ≤ l.text.length := by
    intro r hr m hm
    rw [hrules, List.mem_append, List.mem_cons] at hr
    rcases hr with hr | hr | hr
    · exact Nat.le_of_lt (hbefore r hr m hm)
    · rw [hr, hrule, Option.mem_some_iff] at hm
      rw [hm]
    · exact hafter r hr m hm
  refine ⟨⟨⟨rule, by rw [hrules]; simp, hlong.mem⟩, hlong.isPrefix, ?_⟩,
    rule, hkind, before, after, hrules, hlong.mem, ?_⟩
  · intro v hv hv_pre
    obtain ⟨r, hr, hvr⟩ := hv
    cases hm : r.lexeme? s with
    | none =>
        rw [Rule.eq_nil_of_lexeme?_eq_none hm v hvr hv_pre]
        exact Nat.zero_le _
    | some m =>
        have hvm := (Rule.isLongestPrefix_of_lexeme? hm).length_le v hvr hv_pre
        have hml := (length_utf8Bytes_le_iff (Rule.isPrefix_of_lexeme? hm) hpre).mpr (hle r hr m hm)
        omega
  · intro r hr hmem
    cases hm : r.lexeme? s with
    | none =>
        have hnil := Rule.eq_nil_of_lexeme?_eq_none hm _ hmem hlong.isPrefix
        exact (Rule.lexeme?_eq_some_iff.mp hrule).2 (utf8Bytes_eq_nil_iff.mp hnil)
    | some m =>
        have hlm := (Rule.isLongestPrefix_of_lexeme? hm).length_le _ hmem hlong.isPrefix
        have hlen := (length_utf8Bytes_le_iff hpre (Rule.isPrefix_of_lexeme? hm)).mp hlm
        have hlt := hbefore r hr m hm
        omega

/-- Under `firstMatch` the first rule with a beginning in its language is selected. -/
theorem Policy.isFirst_of_select_firstMatch (h : firstMatch.select rules s = some l) :
    ∃ rule, rule.kind = l.kind ∧
      IsFirst (fun r => ∃ u ∈ r.pattern.language, u ≠ [] ∧ u <+: utf8Bytes s) rules rule ∧
      IsLongestPrefix rule.pattern.language (utf8Bytes s) (utf8Bytes l.text) := by
  obtain ⟨before, rule, after, hrules, hrule, hbefore⟩ := exists_append_of_select_firstMatch h
  have hlong := Rule.isLongestPrefix_of_lexeme? hrule
  obtain ⟨hl, hne⟩ := Rule.lexeme?_eq_some_iff.mp hrule
  refine ⟨rule, by rw [hl], ⟨before, after, hrules, ?_, fun r hr hsome => ?_⟩, hlong⟩
  · exact ⟨utf8Bytes l.text, hlong.mem, fun hnil => hne (utf8Bytes_eq_nil_iff.mp hnil),
      hlong.isPrefix⟩
  · obtain ⟨u, hu, hune, hpre⟩ := hsome
    exact hune (Rule.eq_nil_of_lexeme?_eq_none (hbefore r hr) u hu hpre)

end

/-! ## The kinds of the table -/

/-- The words of a kind, in bytes. -/
def Kind.language (kind : Kind) : Language UInt8 := kind.pattern?.elim 0 Pattern.language

/-- The kinds in table order. -/
def tableKinds : List Kind := ruleTable.map (·.kind)

/-- The words of all kinds of the table. -/
def tableLanguage : Language UInt8 := {u | ∃ kind ∈ tableKinds, u ∈ kind.language}

/-- What the languages ask of the kind and the bytes of a token at the front of some
bytes. -/
def Policy.Munches : Policy → List UInt8 → Kind → List UInt8 → Prop
  | longest, w, kind, u =>
    u ≠ [] ∧ IsLongestPrefix tableLanguage w u ∧ IsFirst (u ∈ ·.language) tableKinds kind
  | firstMatch, w, kind, u =>
    IsFirst (fun k => ∃ v ∈ k.language, v ≠ [] ∧ v <+: w) tableKinds kind ∧
      IsLongestPrefix kind.language w u

/-- The language of a kind is that of its rule. -/
theorem Kind.language_of_mem_ruleTable {rule : Rule} (h : rule ∈ ruleTable) :
    rule.kind.language = rule.pattern.language := by
  rw [language, pattern?_of_mem_ruleTable rule h, Option.elim_some]

/-- The words of the table are those of its rules. -/
theorem mem_tableLanguage_iff {u : List UInt8} :
    u ∈ tableLanguage ↔ ∃ rule ∈ ruleTable, u ∈ rule.pattern.language := by
  constructor
  · intro h
    obtain ⟨kind, hkind, hu⟩ := h
    obtain ⟨rule, hrule, heq⟩ := List.mem_map.mp hkind
    rw [← heq, Kind.language_of_mem_ruleTable hrule] at hu
    exact ⟨rule, hrule, hu⟩
  · intro h
    obtain ⟨rule, hrule, hu⟩ := h
    refine ⟨rule.kind, List.mem_map.mpr ⟨rule, hrule, rfl⟩, ?_⟩
    rw [Kind.language_of_mem_ruleTable hrule]
    exact hu

namespace Policy

/-- What is selected is the munch of the bytes. -/
theorem munches_of_select {policy : Policy} {s : List Char} {l : Lexeme}
    (h : policy.select ruleTable s = some l) :
    policy.Munches (utf8Bytes s) l.kind (utf8Bytes l.text) := by
  cases policy with
  | longest =>
      obtain ⟨hlong, rule, hkind, hfirst⟩ := isFirst_of_select_longest h
      have htable : tableLanguage = {u | ∃ rule ∈ ruleTable, u ∈ rule.pattern.language} :=
        Language.ext fun u => mem_tableLanguage_iff
      refine ⟨fun hnil => ?_, by rw [htable]; exact hlong, ?_⟩
      · exact (select_isPrefix h).2 (utf8Bytes_eq_nil_iff.mp hnil)
      · rw [← hkind]
        exact hfirst.map fun r hr => by rw [Kind.language_of_mem_ruleTable hr]
  | firstMatch =>
      obtain ⟨rule, hkind, hfirst, hlong⟩ := isFirst_of_select_firstMatch h
      obtain ⟨before, after, heq, -⟩ := id hfirst
      have hrule : rule ∈ ruleTable := by rw [heq]; simp
      rw [← hkind]
      refine ⟨hfirst.map fun r hr => by rw [Kind.language_of_mem_ruleTable hr], ?_⟩
      rw [Kind.language_of_mem_ruleTable hrule]
      exact hlong

section
variable {policy : Policy} {w u v : List UInt8} {kind other : Kind}

/-- The languages ask for one token at most. -/
theorem Munches.unique (h : policy.Munches w kind u) (h' : policy.Munches w other v) :
    other = kind ∧ v = u := by
  cases policy with
  | longest =>
      obtain ⟨-, hlong, hfirst⟩ := h
      obtain ⟨-, hlong', hfirst'⟩ := h'
      have huv : v = u := hlong.unique hlong'
      rw [huv] at hfirst'
      exact ⟨hfirst.unique hfirst', huv⟩
  | firstMatch =>
      obtain ⟨hfirst, hlong⟩ := h
      obtain ⟨hfirst', hlong'⟩ := h'
      have hkind : other = kind := hfirst.unique hfirst'
      rw [hkind] at hlong'
      exact ⟨hkind, hlong.unique hlong'⟩

/-- Where the languages ask for a token there is a word. -/
theorem Munches.exists_word (h : policy.Munches w kind u) :
    ∃ v ∈ tableLanguage, v <+: w ∧ v ≠ [] := by
  cases policy with
  | longest =>
      obtain ⟨hne, hlong, -⟩ := h
      exact ⟨u, hlong.mem, hlong.isPrefix, hne⟩
  | firstMatch =>
      obtain ⟨⟨before, after, heq, ⟨v, hv, hne, hpre⟩, -⟩, -⟩ := h
      exact ⟨v, ⟨kind, by rw [heq]; simp, hv⟩, hpre, hne⟩

end

end Policy

/-! ## Places in a source -/

section
variable {policy : Policy} {source : String} {offset : Nat} {token : Token}

/-- A token is a lexeme that was selected behind a boundary, in its place. -/
theorem exists_of_classify (h : classify policy source offset = some token) :
    ∃ before after l, splitAtByte? offset source.toList = some (before, after) ∧
      policy.select ruleTable after = some l ∧ token = l.at offset := by
  obtain ⟨⟨before, after⟩, hplace, htoken⟩ := Option.bind_eq_some_iff.mp h
  obtain ⟨l, hl, heq⟩ := Option.map_eq_some_iff.mp htoken
  exact ⟨before, after, l, hplace, hl, heq.symm⟩

/-- So a token is the munch of the bytes behind its offset. -/
theorem munches_of_classify (h : classify policy source offset = some token) :
    token.position = offset ∧
      policy.Munches ((bytesOf source).drop offset) token.kind (bytesOf token.lexeme) := by
  obtain ⟨before, after, l, hplace, hselect, heq⟩ := exists_of_classify h
  have hbytes : bytesOf (l.at offset).lexeme = utf8Bytes l.text := by
    rw [bytesOf_eq, Lexeme.at, String.toList_ofList]
  rw [heq, hbytes, bytesOf_eq, drop_utf8Bytes hplace]
  exact ⟨rfl, Policy.munches_of_select hselect⟩

/-- There is no token exactly if the bytes begin with no word of the table. -/
theorem classify_eq_none_iff :
    classify policy source offset = none ↔
      ∀ u ∈ tableLanguage, u <+: (bytesOf source).drop offset → u = [] := by
  rw [bytesOf_eq]
  cases hplace : splitAtByte? offset source.toList with
  | none =>
      refine iff_of_true (by rw [classify, hplace]; rfl) fun u hu hpre => ?_
      obtain ⟨rule, -, hword⟩ := mem_tableLanguage_iff.mp hu
      exact Pattern.eq_nil_of_splitAtByte?_eq_none hplace hword hpre
  | some place =>
      obtain ⟨before, after⟩ := place
      rw [classify, hplace, Option.bind_some, Option.map_eq_none_iff, drop_utf8Bytes hplace,
        Policy.select_eq_none_iff_language]
      constructor
      · intro h u hu
        obtain ⟨rule, hrule, hword⟩ := mem_tableLanguage_iff.mp hu
        exact h rule hrule u hword
      · intro h rule hrule u hu
        exact h u (mem_tableLanguage_iff.mpr ⟨rule, hrule, hu⟩)

end

/-- **Maximal munch**: the token at an offset is the one that the languages of the
kinds ask for.  There is none where they have no word, and none but where a character
starts. -/
theorem classify_munches (policy : Policy) (source : String) (offset : Nat) :
    (classify policy source offset = none ↔
      ∀ u ∈ tableLanguage, u <+: (bytesOf source).drop offset → u = []) ∧
    (∀ token, classify policy source offset = some token ↔
      token.position = offset ∧
        policy.Munches ((bytesOf source).drop offset) token.kind (bytesOf token.lexeme)) ∧
    (classify policy source offset = none ∨
      ∃ before c after, source.toList = before ++ c :: after ∧ byteLength before = offset) := by
  refine ⟨classify_eq_none_iff, fun token => ⟨munches_of_classify, fun h => ?_⟩, ?_⟩
  · obtain ⟨hposition, hmunches⟩ := h
    cases hclassify : classify policy source offset with
    | none =>
        obtain ⟨v, hv, hpre, hne⟩ := hmunches.exists_word
        exact absurd (classify_eq_none_iff.mp hclassify v hv hpre) hne
    | some other =>
        obtain ⟨hposition', hmunches'⟩ := munches_of_classify hclassify
        obtain ⟨hkind, hbytes⟩ := hmunches.unique hmunches'
        rw [Option.some.injEq, Token.mk.injEq]
        exact ⟨hposition'.trans hposition.symm, bytesOf_injective hbytes, hkind⟩
  · cases hclassify : classify policy source offset with
    | none => exact .inl rfl
    | some token =>
        obtain ⟨before, after, l, hplace, hselect, -⟩ := exists_of_classify hclassify
        obtain ⟨heq, hlength⟩ := splitAtByte?_eq_some_iff.mp hplace
        cases after with
        | nil =>
            rw [Policy.select_nil] at hselect
            contradiction
        | cons c after => exact .inr ⟨before, c, after, heq, hlength⟩

end PoxTokens
