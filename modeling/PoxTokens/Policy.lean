import PoxTokens.Rule

/-!
# PoxTokens.Policy

Which of the rules that match wins.  Under `longest` the longest match wins and
the earlier rule on a tie; under `firstMatch` the first rule that matches at
all.  So `!=` is one token under `longest` and two under `firstMatch`.
-/

namespace PoxTokens

/-- How a rule is chosen among those that match. -/
inductive Policy where
  | longest
  | firstMatch
  deriving DecidableEq, Repr

/-- The first of the longest lexemes. -/
def longest? : List Lexeme → Option Lexeme
  | [] => none
  | l :: ls =>
    match longest? ls with
    | none => some l
    | some m => if l.text.length < m.text.length then some m else some l

namespace Policy

/-- Both policies. -/
def all : List Policy := [longest, firstMatch]

/-- The policy as the command line spells it. -/
def name : Policy → String
  | longest => "longest"
  | firstMatch => "first-match"

/-- The policy with exactly this name. -/
def ofName? : String → Option Policy
  | "longest" => some longest
  | "first-match" => some firstMatch
  | _ => none

/-- The policy as stored settings spell it. -/
def storedName : Policy → String
  | longest => "longest"
  | firstMatch => "first-match"

/-- The policy that is stored under exactly this name. -/
def ofStoredName? (name : String) : Option Policy :=
  all.find? (·.storedName == name)

/-- A policy is found by its name. -/
theorem ofName?_name (policy : Policy) : ofName? policy.name = some policy := by
  cases policy <;> rfl

/-- Settings and the command line spell every policy alike. -/
theorem storedName_eq_name (policy : Policy) : policy.storedName = policy.name := by
  cases policy <;> rfl

/-- Settings and the command line know the same names of policies. -/
theorem ofStoredName?_eq_ofName? (name : String) : ofStoredName? name = ofName? name := by
  simp only [ofStoredName?, all, List.find?_cons, storedName, List.find?_nil, ofName?]
  grind

/-- What is said of a name that is no policy. -/
def unknownMessage (name : String) : String :=
  s!"unknown policy '{name}' (expected '{longest.name}' or '{firstMatch.name}')"

/-- Chooses among the lexemes that the rules found, given in rule order. -/
def choose : Policy → List Lexeme → Option Lexeme
  | longest, found => longest? found
  | firstMatch, found => found.head?

/-- The lexeme that the rules find at the front of a text. -/
def select (policy : Policy) (rules : List Rule) (s : List Char) : Option Lexeme :=
  policy.choose (rules.filterMap (·.lexeme? s))

end Policy

/-- The token at a byte offset of a source; `none` where no rule of the table
matches, past the end, and inside a character. -/
def classify (policy : Policy) (source : String) (offset : Nat) : Option Token :=
  (splitAtByte? offset source.toList).bind fun (_, rest) =>
    (policy.select ruleTable rest).map (Lexeme.at offset)

/-! ## A chosen lexeme begins the text -/

/-- The longest lexeme is one of those to choose from. -/
theorem longest?_mem {ls : List Lexeme} {l : Lexeme} (h : longest? ls = some l) : l ∈ ls := by
  induction ls generalizing l with
  | nil => simp [longest?] at h
  | cons a as ih =>
    unfold longest? at h
    split at h
    · simp_all
    · next m hm =>
      split at h <;> simp_all

/-- Whichever policy chooses, it makes up no lexeme of its own. -/
theorem Policy.choose_mem {policy : Policy} {ls : List Lexeme} {l : Lexeme}
    (h : policy.choose ls = some l) : l ∈ ls := by
  cases policy with
  | longest => exact longest?_mem h
  | firstMatch => exact List.mem_of_head? h

/-- A rule finds a lexeme of its kind, with text, where the text begins. -/
theorem Rule.lexeme?_eq_some_iff {rule : Rule} {s : List Char} {l : Lexeme} :
    rule.lexeme? s = some l ↔ l = ⟨rule.kind, rule.pattern.munch s⟩ ∧ l.text ≠ [] := by
  unfold Rule.lexeme?
  cases h : rule.pattern.munch s <;> simp
  · rintro rfl; simp
  · constructor
    · rintro rfl; simp
    · rintro ⟨rfl, -⟩; rfl

/-- What a policy selects stands at the front of the text and is not empty. -/
theorem Policy.select_isPrefix {policy : Policy} {rules : List Rule} {s : List Char} {l : Lexeme}
    (h : policy.select rules s = some l) : l.text <+: s ∧ l.text ≠ [] := by
  obtain ⟨rule, -, hl⟩ := List.mem_filterMap.1 (choose_mem h)
  obtain ⟨rfl, hne⟩ := Rule.lexeme?_eq_some_iff.1 hl
  exact ⟨rule.pattern.munch_isPrefix s, hne⟩

/-- Behind a selected lexeme there is less text. -/
theorem Policy.length_drop_lt {policy : Policy} {rules : List Rule} {s : List Char} {l : Lexeme}
    (h : policy.select rules s = some l) : (s.drop l.text.length).length < s.length := by
  obtain ⟨hp, hne⟩ := select_isPrefix h
  have := hp.length_le
  have := List.length_pos_iff.2 hne
  rw [List.length_drop]; omega

end PoxTokens
