import PoxTokens.Proofs.Boundary
import PoxTokens.Proofs.Cutting
import PoxTokens.Proofs.FirstCharacter
import PoxTokens.Proofs.Utf8

/-!
# PoxTokens.Proofs.Acceptance

Which sources are scanned to the end.  An automaton reads the source character by
character and only remembers whether it stands inside a string.  A scan succeeds
exactly if the automaton meets no character that offends it, and otherwise the
report is on the first one that does (`tokenize_accepts_iff`).  The automaton knows
neither rules nor policies, so both policies succeed on the same sources and report
the same errors.

The two sides meet at the ends of lexemes: a selected lexeme takes the automaton
from outside to outside, except for a string without closing quote, which ends
inside but also ends the source (`foldlM_step_text`).
-/

namespace PoxTokens

/-! ## The automaton -/

/-- Where the automaton stands. -/
inductive QuoteState where
  | outside
  | inside
  deriving DecidableEq, Repr

/-- The characters of punctuation and operators. -/
def symbolChars : List Char :=
  ['(', ')', '\x7b', '\x7d', ',', '.', '-', '+', ';', '/', '*', '!', '=', '>', '<']

/-- Can a character stand outside of strings?  The quote itself is not meant. -/
def isPlain (c : Char) : Bool :=
  c.isAlpha || c.isDigit || c == ' ' || symbolChars.contains c

namespace QuoteState

/-- Reads a character; there is no next state if the character offends. -/
def step : QuoteState → Char → Option QuoteState
  | outside, c => if c = '"' then some inside else if isPlain c then some outside else none
  | inside, c => if c = '"' then some outside else some inside

/-- The first offending character, behind the text before it. -/
def firstOffending? (q : QuoteState) : List Char → Option (List Char × Char)
  | [] => none
  | c :: s =>
    match q.step c with
    | none => some ([], c)
    | some q' => (q'.firstOffending? s).map fun (before, d) => (c :: before, d)

/-- Behind a text that the automaton reads, it looks for an offending character from
the state that it has come to. -/
theorem firstOffending?_append {q q' : QuoteState} {u : List Char} (h : u.foldlM step q = some q')
    (s : List Char) :
    q.firstOffending? (u ++ s) =
      (q'.firstOffending? s).map fun (before, d) => (u ++ before, d) := by
  induction u generalizing q with
  | nil =>
      simp only [List.foldlM_nil, pure, Option.some.injEq] at h
      simp [h]
  | cons c u ih =>
      rw [List.foldlM_cons] at h
      obtain ⟨q₁, hq₁, hu⟩ := Option.bind_eq_some_iff.mp h
      rw [List.cons_append, firstOffending?, hq₁]
      simp only [ih hu, Option.map_map]
      rfl

/-- A plain character neither opens a string nor is foreign. -/
theorem step_outside_of_isPlain {c : Char} (h : isPlain c) : outside.step c = some outside := by
  have hquote : c ≠ '"' := by
    intro heq
    rw [heq] at h
    contradiction
  simp [step, hquote, h]

/-- Plain characters leave the automaton outside. -/
theorem foldlM_step_outside {u : List Char} (h : ∀ c ∈ u, isPlain c) :
    u.foldlM step outside = some outside := by
  induction u with
  | nil => rfl
  | cons c u ih =>
      obtain ⟨hc, hu⟩ := List.forall_mem_cons.mp h
      rw [List.foldlM_cons, step_outside_of_isPlain hc]
      exact ih hu

/-- A quote takes the automaton inside, and characters other than the quote leave it
there. -/
theorem foldlM_step_openString {u : List Char} (h : IsOpenString u) :
    u.foldlM step outside = some inside := by
  obtain ⟨body, hbody, heq⟩ := h
  have hinside : ∀ v : List Char, '"' ∉ v → v.foldlM step inside = some inside := by
    intro v hv
    induction v with
    | nil => rfl
    | cons c v ih =>
        rw [List.mem_cons, not_or] at hv
        obtain ⟨hc, hv⟩ := hv
        rw [List.foldlM_cons, step, if_neg (Ne.symm hc)]
        exact ih hv
  rw [heq]
  exact hinside body hbody

/-- Behind a closed string the automaton is where it was before. -/
theorem foldlM_step_closedString {u : List Char} (h : IsClosedString u) :
    u.foldlM step outside = some outside := by
  obtain ⟨body, hbody, heq⟩ := h
  have hopen := foldlM_step_openString ⟨body, hbody, rfl⟩
  rw [heq, ← List.cons_append, List.foldlM_append, hopen]
  rfl

end QuoteState

/-! ## Lexemes -/

section
variable {policy : Policy} {s rest left : List Char} {l : Lexeme} {ls : List Lexeme}

/-- Digits are plain. -/
theorem isPlain_of_isDigits {u : List Char} (h : IsDigits u) : ∀ c ∈ u, isPlain c := by
  intro c hc
  simp [isPlain, h.2 c hc]

/-- The fixed spellings of the table have plain characters only. -/
theorem isPlain_of_literal {rule : Rule} {text : String} (hmem : rule ∈ ruleTable)
    (hp : rule.pattern = .literal text) : ∀ c ∈ text.toList, isPlain c := by
  have htable : (ruleTable.all fun rule =>
      rule.pattern.text?.all fun text => text.toList.all isPlain) = true := by decide
  have hrule := List.all_eq_true.mp htable rule hmem
  rw [hp] at hrule
  exact List.all_eq_true.mp hrule

/-- A selected lexeme takes the automaton from outside to outside, or else it is a
string that ends with the text and leaves the automaton inside. -/
theorem foldlM_step_text (h : policy.select ruleTable (l.text ++ rest) = some l) :
    l.text.foldlM QuoteState.step .outside = some .outside ∨
      rest = [] ∧ l.text.foldlM QuoteState.step .outside = some .inside := by
  obtain ⟨rule, hmem, -, hmunch⟩ := Policy.exists_munch_of_select h
  have hne : l.text ≠ [] := (Policy.select_isPrefix h).2
  cases hp : rule.pattern with
  | literal text =>
      rw [hp, Pattern.munch_literal_append_iff hne] at hmunch
      rw [hmunch]
      exact .inl (QuoteState.foldlM_step_outside (isPlain_of_literal hmem hp))
  | number =>
      rw [hp, Pattern.munch_number_append_iff hne] at hmunch
      refine .inl (QuoteState.foldlM_step_outside ?_)
      obtain ⟨-, ⟨hds, -⟩ | ⟨ds, es, hds, hes, heq⟩⟩ := hmunch
      · exact isPlain_of_isDigits hds
      · rw [heq, List.forall_mem_append, List.forall_mem_cons]
        exact ⟨isPlain_of_isDigits hds, rfl, isPlain_of_isDigits hes⟩
  | blank =>
      rw [hp, Pattern.munch_blank_append_iff] at hmunch
      refine .inl (QuoteState.foldlM_step_outside fun c hc => ?_)
      rw [hmunch.1 c hc]
      rfl
  | identifier =>
      rw [hp, Pattern.munch_identifier_append_iff hne] at hmunch
      obtain ⟨⟨c, w, heq, hc, hw⟩, -⟩ := hmunch
      refine .inl (QuoteState.foldlM_step_outside ?_)
      rw [heq, List.forall_mem_cons]
      refine ⟨by simp [isPlain, hc], fun d hd => ?_⟩
      have hd : d.isAlphanum := hw d hd
      rw [Char.isAlphanum] at hd
      simp [isPlain, hd]
  | string =>
      rw [hp, Pattern.munch_string_append_iff hne] at hmunch
      rcases hmunch with hclosed | ⟨hopen, hrest⟩
      · exact .inl (QuoteState.foldlM_step_closedString hclosed)
      · exact .inr ⟨hrest, QuoteState.foldlM_step_openString hopen⟩

/-- Where no rule matches a nonempty text, its first character offends. -/
theorem step_eq_none_of_select {c : Char} (h : policy.select ruleTable (c :: s) = none) :
    QuoteState.outside.step c = none := by
  cases charClass c with
  | quote hc => rw [hc, Policy.select_quote] at h; contradiction
  | digit hc => rw [Policy.select_digit _ _ hc] at h; contradiction
  | space hc => rw [hc, Policy.select_space] at h; contradiction
  | letter hc => rw [Policy.select_letter _ _ hc] at h; contradiction
  | symbol hc => rw [Policy.select_symbol _ _ hc] at h; contradiction
  | foreign halpha hdigit hspace hquote hsymbol =>
      have hsymbols : (symbolChars.all fun d => (Kind.ofSymbol? d).isSome) = true := rfl
      have hc : symbolChars.contains c = false := by
        cases hmem : symbolChars.contains c with
        | false => rfl
        | true =>
            have hsome := List.all_eq_true.mp hsymbols c (List.contains_iff_mem.mp hmem)
            rw [hsymbol] at hsome
            contradiction
      have hplain : isPlain c = false := by
        rw [isPlain, halpha, hdigit, beq_false_of_ne hspace, hc]
        rfl
      rw [QuoteState.step, if_neg hquote, hplain]
      rfl

/-! ## Scans -/

/-- The first offending character of a text is the one where its cut stops. -/
theorem Cuts.firstOffending?_eq (h : Cuts policy s ls left) :
    QuoteState.outside.firstOffending? s =
      left.head?.map fun c => (ls.flatMap (·.text), c) := by
  induction h with
  | @stop s hn =>
      cases s with
      | nil => rfl
      | cons c s => rw [QuoteState.firstOffending?, step_eq_none_of_select hn]; rfl
  | @step l rest left ls hs hr ih =>
      rcases foldlM_step_text hs with hrun | ⟨hrest, hrun⟩
      · rw [QuoteState.firstOffending?_append hrun, ih, Option.map_map]
        rfl
      · -- An open string ends the text, so the cut of what follows it is empty.
        subst hrest
        obtain ⟨hls, hleft⟩ := hr.unique (.stop (Policy.select_nil _ _))
        rw [QuoteState.firstOffending?_append hrun, ← hleft]
        rfl

end

/-- The report on the character behind some text. -/
theorem LexError.at_byteLength (before after : List Char) (c : Char) (width : Nat) :
    LexError.at (before ++ c :: after) (byteLength before) width =
      { offset := byteLength before
        context := String.ofList (before.drop (before.length - min width before.length))
        found := c } := by
  have hwidth : before.length - min width before.length = before.length - width := by omega
  rw [LexError.at_append, LexError.lastChars, hwidth]
  rfl

section
variable (options : ScanOptions) {source : String}

/-- A source that the automaton goes through is accepted, whatever the policy. -/
theorem tokenize_of_firstOffending?_eq_none
    (h : QuoteState.outside.firstOffending? source.toList = none) :
    ∃ tokens, tokenize options source = .ok tokens := by
  have hcut := cuts_lexemes options.policy source.toList
  have hleft : (lexemes options.policy source.toList).2 = [] := by
    rw [hcut.firstOffending?_eq, Option.map_eq_none_iff] at h
    exact List.head?_eq_none_iff.mp h
  rw [hleft] at hcut
  exact ⟨_, tokenize_of_cuts_nil hcut⟩

/-- Where the automaton stops, the scan fails, and it reports this character and what is before
it. -/
theorem tokenize_of_firstOffending?_eq_some {before : List Char} {c : Char}
    (h : QuoteState.outside.firstOffending? source.toList = some (before, c)) :
    tokenize options source = .error
      { offset := byteLength before
        context := String.ofList
          (before.drop (before.length - min options.contextWidth before.length))
        found := c } := by
  obtain ⟨ls, left, hcut⟩ := exists_cuts options.policy source.toList
  rw [hcut.firstOffending?_eq] at h
  cases left with
  | nil => contradiction
  | cons d after =>
      rw [List.head?_cons, Option.map_some, Option.some.injEq, Prod.mk.injEq] at h
      obtain ⟨hbefore, hd⟩ := h
      have hsource := hcut.flatMap_append
      rw [tokenize_of_cuts_ne_nil hcut (List.cons_ne_nil d after), ← hsource, hbefore, hd,
        LexError.at_byteLength]

end

/-- **Exact acceptance**: a scan succeeds exactly if the automaton meets no offending
character, and otherwise reports on the first one.  Neither the policy nor the end
marker has a part in the report. -/
theorem tokenize_accepts_iff (options : ScanOptions) (source : String) :
    ((∃ tokens, tokenize options source = .ok tokens) ↔
      QuoteState.outside.firstOffending? source.toList = none) ∧
    (∀ e, tokenize options source = .error e ↔
      ∃ before c, QuoteState.outside.firstOffending? source.toList = some (before, c) ∧
        e = { offset := byteLength before
              context := String.ofList
                (before.drop (before.length - min options.contextWidth before.length))
              found := c }) ∧
    ∀ policy emitEof e, tokenize { options with policy, emitEof } source = .error e ↔
      tokenize options source = .error e := by
  cases h : QuoteState.outside.firstOffending? source.toList with
  | none =>
      have hok : ∀ o : ScanOptions, ∃ tokens, tokenize o source = .ok tokens :=
        fun o => tokenize_of_firstOffending?_eq_none o h
      have hno : ∀ (o : ScanOptions) (e : LexError), tokenize o source ≠ .error e := by
        intro o e he
        obtain ⟨tokens, ht⟩ := hok o
        rw [he] at ht
        contradiction
      refine ⟨by simp [hok], fun e => by simp [hno], fun policy emitEof e => ?_⟩
      exact iff_of_false (hno _ e) (hno _ e)
  | some p =>
      obtain ⟨before, c⟩ := p
      have herror := fun o : ScanOptions => tokenize_of_firstOffending?_eq_some o h
      refine ⟨by simp [herror], fun e => ?_, fun policy emitEof e => by rw [herror, herror]⟩
      rw [herror, Except.error.injEq]
      constructor
      · intro he
        exact ⟨before, c, rfl, he.symm⟩
      · intro he
        obtain ⟨before', c', heq, he⟩ := he
        rw [Option.some.injEq, Prod.mk.injEq] at heq
        rw [he, heq.1, heq.2]

end PoxTokens
