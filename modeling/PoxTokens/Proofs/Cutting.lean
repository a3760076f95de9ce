import PoxTokens.Proofs.Selection
import PoxTokens.Scan

/-!
# PoxTokens.Proofs.Cutting

Cutting a text into lexemes, as a relation.  `Cuts policy s ls left` says that
the lexemes `ls` are selected one behind the other from the front of `s`, and
that no rule matches at the front of what is left.  The relation is the graph of
`lexemes` (`cuts_iff_lexemes_eq`); all facts about whole scans are proved by
induction on it, so no other module unfolds the recursion of `lexemes`.

`tokenize_eq_ok_iff` and `tokenize_eq_error_iff` say what a scan answers in terms
of a cut: it succeeds exactly if the cut leaves nothing, and the options but for
the policy have no part in where the cut ends.
-/

namespace PoxTokens

/-- Lexemes are selected from the front of a text until no rule matches. -/
inductive Cuts (policy : Policy) : List Char → List Lexeme → List Char → Prop where
  | stop {s : List Char} (h : policy.select ruleTable s = none) : Cuts policy s [] s
  | step {l : Lexeme} {rest left : List Char} {ls : List Lexeme}
      (h : policy.select ruleTable (l.text ++ rest) = some l) (hr : Cuts policy rest ls left) :
      Cuts policy (l.text ++ rest) (l :: ls) left

section
variable {policy : Policy} {s left : List Char} {ls : List Lexeme}

/-! ## The relation is the graph of the function -/

/-- The function finds a cut. -/
theorem cuts_lexemes (policy : Policy) (s : List Char) :
    Cuts policy s (lexemes policy s).1 (lexemes policy s).2 := by
  induction s using lexemes.induct policy with
  | case1 s h =>
      rw [lexemes]
      split
      · exact .stop h
      · next l hl => rw [h] at hl; contradiction
  | case2 s l h ls rest heq ih =>
      rw [lexemes]
      split
      · next hn => rw [h] at hn; contradiction
      · next l' hl' =>
          rw [h, Option.some.injEq] at hl'
          subst hl'
          have happ : l.text ++ s.drop l.text.length = s := Policy.append_drop_of_select h
          have hsel : policy.select ruleTable (l.text ++ s.drop l.text.length) = some l := by
            rw [happ]; exact h
          have hcut := Cuts.step hsel ih
          rw [happ] at hcut
          exact hcut

/-- Every text can be cut, possibly with something left over. -/
theorem exists_cuts (policy : Policy) (s : List Char) : ∃ ls left, Cuts policy s ls left :=
  ⟨_, _, cuts_lexemes policy s⟩

/-- A text has one cut only. -/
theorem Cuts.unique {ls' : List Lexeme} {left' : List Char} (h : Cuts policy s ls left)
    (h' : Cuts policy s ls' left') : ls' = ls ∧ left' = left := by
  induction h generalizing ls' left' with
  | stop hn =>
      cases h' with
      | stop => exact ⟨rfl, rfl⟩
      | step hs => rw [hn] at hs; contradiction
  | @step l rest left ls hs hr ih =>
      generalize htext : l.text ++ rest = text at h'
      cases h' with
      | stop hn => rw [← htext, hs] at hn; contradiction
      | @step l' rest' _ ls' hs' hr' =>
          rw [← htext, hs, Option.some.injEq] at hs'
          subst hs'
          have hrest : rest = rest' := List.append_cancel_left htext
          subst hrest
          obtain ⟨hls, hleft⟩ := ih hr'
          exact ⟨by rw [hls], hleft⟩

/-- Cutting is what the scan over the characters does. -/
theorem cuts_iff_lexemes_eq : Cuts policy s ls left ↔ lexemes policy s = (ls, left) := by
  constructor
  · intro h
    obtain ⟨hls, hleft⟩ := h.unique (cuts_lexemes policy s)
    exact Prod.ext hls hleft
  · intro h
    have hcut := cuts_lexemes policy s
    rw [h] at hcut
    exact hcut

/-- The first lexeme is the one that is selected, and the others are cut from the text behind it. -/
theorem cuts_cons_iff {l : Lexeme} :
    Cuts policy s (l :: ls) left ↔
      ∃ rest, s = l.text ++ rest ∧ policy.select ruleTable s = some l ∧
        Cuts policy rest ls left := by
  constructor
  · intro h
    cases h with
    | @step _ rest _ _ hs hr => exact ⟨rest, rfl, hs, hr⟩
  · intro h
    obtain ⟨rest, heq, hs, hr⟩ := h
    rw [heq] at hs ⊢
    exact .step hs hr

/-! ## What a cut keeps -/

/-- Nothing is lost: the lexemes and what is left are the text. -/
theorem Cuts.flatMap_append (h : Cuts policy s ls left) : ls.flatMap (·.text) ++ left = s := by
  induction h with
  | stop => rfl
  | step hs hr ih => rw [List.flatMap_cons, List.append_assoc, ih]

/-- A cut that leaves nothing gives back the text. -/
theorem Cuts.flatMap_text (h : Cuts policy s ls []) : ls.flatMap (·.text) = s := by
  rw [← h.flatMap_append, List.append_nil]

/-- A property of whatever is selected holds of all lexemes of a cut. -/
theorem Cuts.forall_mem {P : Lexeme → Prop} (h : Cuts policy s ls left)
    (hP : ∀ s l, policy.select ruleTable s = some l → P l) : ∀ l ∈ ls, P l := by
  induction h with
  | stop => simp
  | step hs hr ih => exact List.forall_mem_cons.mpr ⟨hP _ _ hs, ih⟩

/-- The lexemes of a cut have text. -/
theorem Cuts.text_ne_nil (h : Cuts policy s ls left) : ∀ l ∈ ls, l.text ≠ [] :=
  h.forall_mem fun _ _ hs => (Policy.select_isPrefix hs).2

end

/-! ## Scans -/

/-- What closes a complete scan of a source: an empty token at its end, if asked
for. -/
def endMarker (emitEof : Bool) (source : String) : List Token :=
  if emitEof then [⟨source.utf8ByteSize, "", .eof⟩] else []

theorem eofToken_toList (source : String) :
    eofToken source.toList = ⟨source.utf8ByteSize, "", .eof⟩ := by
  rw [eofToken, byteLength_toList]

/-- Behind a token, collecting succeeds exactly if it does for the rest. -/
theorem collect_cons_token_eq_ok_iff {t : Token} {results : List Item} {tokens : List Token} :
    Item.collect (.token t :: results) = .ok tokens ↔
      ∃ ts, Item.collect results = .ok ts ∧ tokens = t :: ts := by
  rw [Item.collect]
  cases Item.collect results with
  | error e => simp [Except.map]
  | ok ts => simp [Except.map, eq_comm]

/-- A token in front does not hide a failure. -/
theorem collect_cons_token_eq_error_iff {t : Token} {results : List Item} {e : LexError} :
    Item.collect (.token t :: results) = .error e ↔ Item.collect results = .error e := by
  rw [Item.collect]
  cases Item.collect results <;> simp [Except.map]

/-- A scan is complete if all of its results are tokens. -/
theorem collect_eq_ok_iff {results : List Item} {tokens : List Token} :
    Item.collect results = .ok tokens ↔ results = tokens.map .token := by
  induction results generalizing tokens with
  | nil => simp [Item.collect, eq_comm]
  | cons item results ih =>
      cases item with
      | failure e => cases tokens <;> simp [Item.collect]
      | token t =>
          simp only [collect_cons_token_eq_ok_iff, ih]
          constructor
          · rintro ⟨ts, rfl, rfl⟩
            rfl
          · intro h
            obtain ⟨u, ts, rfl, hu, rfl⟩ := List.map_eq_cons_iff.mp h.symm
            cases hu
            exact ⟨ts, rfl, rfl⟩

/-- Tokens in front of other items are collected in front of theirs. -/
theorem collect_map_token (tokens : List Token) (rest : List Item) :
    Item.collect (tokens.map .token ++ rest) = (Item.collect rest).map (tokens ++ ·) := by
  induction tokens with
  | nil => cases h : Item.collect rest <;> simp [h, Except.map]
  | cons t ts ih =>
      simp only [List.map_cons, List.cons_append, Item.collect, ih]
      cases Item.collect rest <;> rfl

section
variable {options : ScanOptions} {source : String} {left : List Char} {ls : List Lexeme}

/-- The results of a scan are the lexemes of the cut in their places, and the end marker
or the report on what is left. -/
theorem items_of_cuts (h : Cuts options.policy source.toList ls left) :
    items options source = (place 0 ls).map .token ++
      if left = [] then (endMarker options.emitEof source).map .token
      else [.failure
        (LexError.at source.toList (byteLength (ls.flatMap (·.text))) options.contextWidth)] := by
  have hlexemes := cuts_iff_lexemes_eq.mp h
  cases left with
  | nil =>
      cases hemit : options.emitEof <;>
        simp [items, hlexemes, endMarker, eofToken_toList, hemit]
  | cons c left => simp [items, hlexemes]

/-- If the cut leaves nothing, the scan answers its lexemes in their places. -/
theorem tokenize_of_cuts_nil (h : Cuts options.policy source.toList ls []) :
    tokenize options source = .ok (place 0 ls ++ endMarker options.emitEof source) := by
  rw [tokenize, items_of_cuts h, if_pos rfl, collect_map_token, endMarker]
  cases options.emitEof <;> rfl

/-- If the cut leaves something, the scan reports on the place where it stops. -/
theorem tokenize_of_cuts_ne_nil (h : Cuts options.policy source.toList ls left) (hne : left ≠ []) :
    tokenize options source = .error
      (LexError.at source.toList (byteLength (ls.flatMap (·.text))) options.contextWidth) := by
  rw [tokenize, items_of_cuts h, if_neg hne, collect_map_token]
  rfl

/-- A scan succeeds exactly if the whole source can be cut, and then the lexemes in their places are
its tokens. -/
theorem tokenize_eq_ok_iff {tokens : List Token} :
    tokenize options source = .ok tokens ↔
      ∃ ls, Cuts options.policy source.toList ls [] ∧
        tokens = place 0 ls ++ endMarker options.emitEof source := by
  obtain ⟨ls, left, hcut⟩ := exists_cuts options.policy source.toList
  constructor
  · intro h
    by_cases hleft : left = []
    · subst hleft
      rw [tokenize_of_cuts_nil hcut, Except.ok.injEq] at h
      exact ⟨ls, hcut, h.symm⟩
    · rw [tokenize_of_cuts_ne_nil hcut hleft] at h
      contradiction
  · intro h
    obtain ⟨ls', hcut', heq⟩ := h
    rw [heq]
    exact tokenize_of_cuts_nil hcut'

/-- Without an end marker the tokens are the lexemes in their places. -/
theorem tokenize_unmarked_eq_ok_iff {policy : Policy} {contextWidth : Nat} {tokens : List Token} :
    tokenize ⟨policy, false, contextWidth⟩ source = .ok tokens ↔
      ∃ ls, Cuts policy source.toList ls [] ∧ tokens = place 0 ls := by
  simp only [tokenize_eq_ok_iff, endMarker, Bool.false_eq_true, if_false, List.append_nil]

/-- A scan fails exactly if something is left over, and the failure is where this begins. -/
theorem tokenize_eq_error_iff {e : LexError} :
    tokenize options source = .error e ↔
      ∃ ls left, Cuts options.policy source.toList ls left ∧ left ≠ [] ∧
        e = LexError.at source.toList (byteLength (ls.flatMap (·.text))) options.contextWidth := by
  obtain ⟨ls, left, hcut⟩ := exists_cuts options.policy source.toList
  constructor
  · intro h
    by_cases hleft : left = []
    · subst hleft
      rw [tokenize_of_cuts_nil hcut] at h
      contradiction
    · rw [tokenize_of_cuts_ne_nil hcut hleft, Except.error.injEq] at h
      exact ⟨ls, left, hcut, hleft, h.symm⟩
  · intro h
    obtain ⟨ls', left', hcut', hne, heq⟩ := h
    rw [heq]
    exact tokenize_of_cuts_ne_nil hcut' hne

end

/-! ## Tokens without their places -/

/-- A token taken out of its place. -/
def Token.toLexeme (t : Token) : Lexeme := ⟨t.kind, t.lexeme.toList⟩

@[simp] theorem Lexeme.toLexeme_at (position : Nat) (l : Lexeme) :
    (l.at position).toLexeme = l := by
  rw [Lexeme.at, Token.toLexeme, String.toList_ofList]

/-- Placing lexemes loses nothing of them. -/
theorem map_toLexeme_place (position : Nat) (ls : List Lexeme) :
    (place position ls).map Token.toLexeme = ls := by
  induction ls generalizing position with
  | nil => rfl
  | cons l ls ih => rw [place, List.map_cons, Lexeme.toLexeme_at, ih]

theorem map_toLexeme_getLast?_place (position : Nat) (ls : List Lexeme) :
    (place position ls).getLast?.map Token.toLexeme = ls.getLast? := by
  rw [← List.getLast?_map, map_toLexeme_place]

/-- The lexemes that a scan answers are those of the cut that leaves nothing. -/
theorem map_toLexeme_tokenize_eq_ok_iff {policy : Policy} {contextWidth : Nat} {source : String}
    {ls : List Lexeme} :
    (tokenize ⟨policy, false, contextWidth⟩ source).map (·.map Token.toLexeme) = .ok ls ↔
      Cuts policy source.toList ls [] := by
  constructor
  · intro h
    cases htokens : tokenize ⟨policy, false, contextWidth⟩ source with
    | error e =>
        rw [htokens] at h
        contradiction
    | ok tokens =>
        obtain ⟨ls', hcuts, heq⟩ := tokenize_unmarked_eq_ok_iff.mp htokens
        rw [htokens, Except.map, heq, map_toLexeme_place, Except.ok.injEq] at h
        rw [← h]
        exact hcuts
  · intro h
    rw [tokenize_unmarked_eq_ok_iff.mpr ⟨ls, h, rfl⟩, Except.map, map_toLexeme_place]

end PoxTokens
