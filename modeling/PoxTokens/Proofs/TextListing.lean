import PoxTokens.Proofs.Cutting
import PoxTokens.Proofs.KindCounts
import PoxTokens.Proofs.Quoted
import PoxTokens.Proofs.Writing

/-!
# PoxTokens.Proofs.TextListing

The text listing can be read back.  Its rows are the lines of the text, since no column
holds a line feed (`lines?_flatMap`), and each row says which token it lists
(`readTokenRow?_tokenRow`).  The columns have no fixed place: the number of a row may be
longer than its column, and a lexeme may look like anything.  So the reader takes the words
of a row one after the other and lets the quotation marks say where the lexeme ends.
-/

namespace PoxTokens

/-! ## Lines -/

/-- The lines of a text, each without the line feed that ends it; `none` if the last one
has no end. -/
def lines? : List Char → Option (List (List Char))
  | [] => some []
  | '\n' :: cs => (lines? cs).map ([] :: ·)
  | c :: cs =>
    match lines? cs with
    | some (line :: lines) => some ((c :: line) :: lines)
    | _ => none

/-- A line in front of a text. -/
theorem lines?_append {line : List Char} (h : '\n' ∉ line) (cs : List Char) :
    lines? (line ++ '\n' :: cs) = (lines? cs).map (line :: ·) := by
  induction line with
  | nil => rfl
  | cons c line ih =>
      rw [List.mem_cons, not_or] at h
      obtain ⟨hc, hline⟩ := h
      rw [List.cons_append, lines?, ih hline]
      · cases lines? cs <;> rfl
      · exact Ne.symm hc

/-- Texts have the lines of which they are made, and no others. -/
theorem lines?_eq_some_iff {text : List Char} {lines : List (List Char)} :
    lines? text = some lines ↔
      text = lines.flatMap (· ++ ['\n']) ∧ ∀ line ∈ lines, '\n' ∉ line := by
  constructor
  · intro h
    fun_induction lines? text generalizing lines with
    | case1 =>
        rw [Option.some.injEq] at h
        subst h
        simp
    | case2 cs ih =>
        obtain ⟨others, hcs, rfl⟩ := Option.map_eq_some_iff.mp h
        obtain ⟨rfl, hothers⟩ := ih hcs
        exact ⟨rfl, List.forall_mem_cons.mpr ⟨List.not_mem_nil, hothers⟩⟩
    | case3 c cs hc line others hcs ih =>
        rw [Option.some.injEq] at h
        subst h
        obtain ⟨rfl, hothers⟩ := ih hcs
        obtain ⟨hline, hothers⟩ := List.forall_mem_cons.mp hothers
        have hnew : '\n' ∉ c :: line := by
          rw [List.mem_cons, not_or]
          exact ⟨fun heq => hc heq.symm, hline⟩
        exact ⟨rfl, List.forall_mem_cons.mpr ⟨hnew, hothers⟩⟩
    | case4 => contradiction
  · intro h
    obtain ⟨rfl, hlines⟩ := h
    induction lines with
    | nil => rfl
    | cons line others ih =>
        obtain ⟨hline, hothers⟩ := List.forall_mem_cons.mp hlines
        rw [List.flatMap_cons, List.append_assoc, List.singleton_append, lines?_append hline,
          ih hothers]
        rfl

/-! ## Columns -/

/-- The next word of a row and what follows it. -/
def nextWord (cs : List Char) : List Char × List Char :=
  let cs := cs.dropWhile (· == ' ')
  (cs.takeWhile (· != ' '), cs.dropWhile (· != ' '))

/-- The number that digits are. -/
def numberOfDigits? (cs : List Char) : Option Nat :=
  if cs ≠ [] ∧ cs.all Char.isDigit then some (Nat.ofDigitChars 10 cs 0) else none

/-- What the row of a token says: the number of the row and the token. -/
def readTokenRow? (row : List Char) : Option (Nat × Token) := do
  let (digits, cs) := nextWord row
  let index ← numberOfDigits? digits
  let (name, cs) := nextWord cs
  let kind ← Kind.ofName? (String.ofList name)
  match cs.dropWhile (· == ' ') with
  | '"' :: cs =>
    let (lexeme, cs) ← unquote? cs
    match cs with
    | ' ' :: '@' :: digits =>
      let position ← numberOfDigits? digits
      pure (index, ⟨position, String.ofList lexeme, kind⟩)
    | _ => none
  | _ => none

/-- What the row of a count says. -/
def readCountRow? (row : List Char) : Option (Kind × Nat) := do
  let (name, cs) := nextWord row
  let kind ← Kind.ofName? (String.ofList name)
  let count ← numberOfDigits? (nextWord cs).1
  pure (kind, count)

/-- The next word of a row is read over the spaces in front of it. -/
theorem nextWord_append {word : List Char} (hword : ∀ c ∈ word, c ≠ ' ') {rest : List Char}
    (hrest : leads (· != ' ') rest = false) (hne : word ≠ []) (n : Nat) :
    nextWord (List.replicate n ' ' ++ (word ++ rest)) = (word, rest) := by
  have hmem : ∀ c ∈ word, (c != ' ') = true := by simpa using hword
  have hlead : leads (· == ' ') (word ++ rest) = false := by
    cases word with
    | nil => exact absurd rfl hne
    | cons c word => simpa using hword c List.mem_cons_self
  rw [nextWord, dropWhile_append_of_not_leads (by simp) hlead]
  exact Prod.ext (takeWhile_append_eq_left_iff.mpr ⟨hmem, hrest⟩)
    (dropWhile_append_of_not_leads hmem hrest)

theorem numberOfDigits?_decimal (n : Nat) : numberOfDigits? (decimal n) = some n := by
  have h := isDigits_decimal n
  rw [numberOfDigits?, if_pos ⟨h.1, by simpa using h.2⟩, ofDigitChars_decimal]

theorem Kind.name_ne_nil (kind : Kind) : kind.name.toList ≠ [] := by
  cases kind with
  | keyword word => cases word <;> decide
  | _ => decide

theorem ne_space_of_mem_decimal {n : Nat} {c : Char} (h : c ∈ decimal n) : c ≠ ' ' := by
  have hc := (isDigits_decimal n).2 c h
  rintro rfl
  contradiction

theorem Kind.isAlpha_of_mem_name {kind : Kind} {c : Char} (h : c ∈ kind.name.toList) :
    c.isAlpha := by
  have hall : kind.name.toList.all Char.isAlpha := by
    cases kind with
    | keyword word => cases word <;> decide
    | _ => decide
  exact List.all_eq_true.mp hall c h

/-! ## Rows -/

/-- The line of a token without its end. -/
def tokenRow (index : Nat) (t : Token) : List Char :=
  padLeft 4 (decimal index) ++ ' ' :: (padRight 12 t.kind.name.toList ++
    ' ' :: (quoteText t.lexeme.toList ++ ' ' :: '@' :: decimal t.position))

/-- The line of a count without its end. -/
def countRow (count : Kind × Nat) : List Char :=
  padRight 12 count.1.name.toList ++ ' ' :: decimal count.2

theorem tokenLine_eq (index : Nat) (t : Token) :
    Listing.tokenLine index t = tokenRow index t ++ ['\n'] := by
  simp [Listing.tokenLine, tokenRow]

theorem countLine_eq (count : Kind × Nat) : Listing.countLine count = countRow count ++ ['\n'] := by
  simp [Listing.countLine, countRow]

/-- The spaces that fill a column up and the one behind it stand together. -/
theorem padRight_append (width : Nat) (cs rest : List Char) :
    padRight width cs ++ ' ' :: rest =
      cs ++ (List.replicate (width - cs.length + 1) ' ' ++ rest) := by
  rw [padRight, List.replicate_succ', List.append_assoc, List.append_assoc]
  rfl

/-- A number that was padded on its left is read back. -/
theorem nextWord_decimal (width n : Nat) (rest : List Char) :
    nextWord (padLeft width (decimal n) ++ ' ' :: rest) = (decimal n, ' ' :: rest) := by
  rw [padLeft, List.append_assoc]
  exact nextWord_append (fun c hc => ne_space_of_mem_decimal hc) rfl (isDigits_decimal n).1 _

/-- The name of a kind that was padded on its right is read back. -/
theorem nextWord_name (width n : Nat) (kind : Kind) (rest : List Char) :
    nextWord (List.replicate n ' ' ++ (padRight width kind.name.toList ++ ' ' :: rest)) =
      (kind.name.toList, List.replicate (width - kind.name.toList.length + 1) ' ' ++ rest) := by
  rw [padRight_append]
  refine nextWord_append (fun c hc => ?_) rfl kind.name_ne_nil n
  rintro rfl
  have hspace := Kind.isAlpha_of_mem_name hc
  contradiction

/-- A row says which token it lists. -/
theorem readTokenRow?_tokenRow (index : Nat) (t : Token) :
    readTokenRow? (tokenRow index t) = some (index, t) := by
  have hname := nextWord_name 12 1 t.kind
    (quoteText t.lexeme.toList ++ ' ' :: '@' :: decimal t.position)
  rw [List.replicate_one, List.singleton_append] at hname
  have hquote := unquote?_flatMap t.lexeme.toList (' ' :: '@' :: decimal t.position)
  rw [readTokenRow?, tokenRow, nextWord_decimal]
  simp only [hname, String.ofList_toList, Kind.ofName?_name, numberOfDigits?_decimal]
  rw [dropWhile_append_of_not_leads (by simp) rfl]
  simp [quoteText, hquote, numberOfDigits?_decimal]

/-- A row says what it counts, and how often. -/
theorem readCountRow?_countRow (count : Kind × Nat) :
    readCountRow? (countRow count) = some count := by
  have hname := nextWord_name 12 0 count.1 (decimal count.2)
  rw [List.replicate_zero, List.nil_append] at hname
  have hdigits : ∀ n,
      nextWord (List.replicate n ' ' ++ decimal count.2) = (decimal count.2, []) := by
    intro n
    have hword := nextWord_append (fun c hc => ne_space_of_mem_decimal hc)
      (leads_nil _) (isDigits_decimal count.2).1 n
    rwa [List.append_nil] at hword
  rw [readCountRow?, countRow, hname]
  simp [hdigits, Kind.ofName?_name, numberOfDigits?_decimal]

/-! ## Printable rows -/

theorem isPrintable_of_isAlphanum {c : Char} (h : c.isAlphanum) : isPrintable c := by
  have hrange : 0x20 ≤ c.toNat ∧ c.toNat < 0x7f := by
    rw [Char.isAlphanum, Bool.or_eq_true] at h
    rcases h with halpha | hdigit
    · have hletter := isAlpha_iff_toNat.mp halpha
      omega
    · have hdigit : '0'.val ≤ c.val ∧ c.val ≤ '9'.val := by simpa [Char.isDigit] using hdigit
      have hlow : 48 ≤ c.toNat := UInt32.le_iff_toNat_le.mp hdigit.1
      have hhigh : c.toNat ≤ 57 := UInt32.le_iff_toNat_le.mp hdigit.2
      omega
  simp [isPrintable, hrange]

theorem isPrintable_of_mem_decimal {n : Nat} {c : Char} (h : c ∈ decimal n) : isPrintable c :=
  isPrintable_of_isAlphanum (by simp [Char.isAlphanum, (isDigits_decimal n).2 c h])

theorem isPrintable_of_mem_name {kind : Kind} {c : Char} (h : c ∈ kind.name.toList) :
    isPrintable c :=
  isPrintable_of_isAlphanum (by simp [Char.isAlphanum, Kind.isAlpha_of_mem_name h])

theorem isPrintable_of_mem_padRight {width : Nat} {kind : Kind} {c : Char}
    (h : c ∈ padRight width kind.name.toList) : isPrintable c := by
  rcases List.mem_append.mp h with hname | hspace
  · exact isPrintable_of_mem_name hname
  · rw [List.eq_of_mem_replicate hspace]
    decide

/-- Whatever is listed, a row holds printable characters only. -/
theorem isPrintable_of_mem_tokenRow {index : Nat} {t : Token} {c : Char}
    (h : c ∈ tokenRow index t) : isPrintable c := by
  simp only [tokenRow, padLeft, List.mem_append, List.mem_cons] at h
  rcases h with (hspace | hdigit) | rfl | hname | rfl | hquote | rfl | rfl | hdigit
  · rw [List.eq_of_mem_replicate hspace]
    decide
  · exact isPrintable_of_mem_decimal hdigit
  · decide
  · exact isPrintable_of_mem_padRight hname
  · decide
  · exact isPrintable_of_mem_quoteText hquote
  · decide
  · decide
  · exact isPrintable_of_mem_decimal hdigit

/-- Nothing in the row of a count breaks it. -/
theorem isPrintable_of_mem_countRow {count : Kind × Nat} {c : Char} (h : c ∈ countRow count) :
    isPrintable c := by
  simp only [countRow, List.mem_append, List.mem_cons] at h
  rcases h with hname | rfl | hdigit
  · exact isPrintable_of_mem_padRight hname
  · decide
  · exact isPrintable_of_mem_decimal hdigit

/-! ## Listings -/

namespace Listing

/-- The rows of tokens, numbered from 0. -/
def tokenRows (tokens : List Token) : List (List Char) :=
  tokens.zipIdx.map fun (t, index) => tokenRow index t

/-- The rows of a listing: those of the tokens and, behind an empty one, those of the
counts. -/
def rows (listing : Listing) : List (List Char) :=
  tokenRows listing.tokens ++
    match listing.counts with
    | none => []
    | some counts => [] :: counts.map countRow

/-- The lines of the tokens are their rows, numbered from the first. -/
theorem tokenLines_eq (index : Nat) (tokens : List Token) :
    tokenLines index tokens =
      (tokens.zipIdx index).flatMap fun (t, i) => tokenRow i t ++ ['\n'] := by
  induction tokens generalizing index with
  | nil => rfl
  | cons t tokens ih =>
      rw [tokenLines, ih, tokenLine_eq, List.zipIdx_cons, List.flatMap_cons]

/-- The text of a listing are its rows, each with a line break behind it. -/
theorem textChars_eq (listing : Listing) :
    listing.textChars = listing.rows.flatMap (· ++ ['\n']) := by
  obtain ⟨tokens, counts⟩ := listing
  rw [textChars, rows, List.flatMap_append, tokenLines_eq, tokenRows, List.flatMap_map]
  cases counts with
  | none => rfl
  | some counts => rw [List.flatMap_cons, List.flatMap_map, ← funext countLine_eq]; rfl

/-- The lines of a listing are its rows. -/
theorem lines?_textChars (listing : Listing) : lines? listing.textChars = some listing.rows := by
  refine lines?_eq_some_iff.mpr ⟨listing.textChars_eq, fun row hrow hbreak => ?_⟩
  have hprintable : isPrintable '\n' := by
    rcases List.mem_append.mp hrow with htoken | hcount
    · obtain ⟨⟨t, index⟩, -, rfl⟩ := List.mem_map.mp htoken
      exact isPrintable_of_mem_tokenRow hbreak
    · split at hcount
      · contradiction
      · rcases List.mem_cons.mp hcount with rfl | hcount
        · contradiction
        · obtain ⟨count, -, rfl⟩ := List.mem_map.mp hcount
          exact isPrintable_of_mem_countRow hbreak
  revert hprintable
  decide

/-- Every row of a token is read back, with its number. -/
theorem map_readTokenRow?_tokenRows (tokens : List Token) :
    (tokenRows tokens).map readTokenRow? = tokens.zipIdx.map fun (t, index) => some (index, t) := by
  rw [tokenRows, List.map_map]
  exact List.map_congr_left fun p _ => readTokenRow?_tokenRow p.2 p.1

theorem map_readCountRow?_countRow (counts : List (Kind × Nat)) :
    (counts.map countRow).map readCountRow? = counts.map some := by
  rw [List.map_map]
  exact List.map_congr_left fun count _ => readCountRow?_countRow count

/-- So all tokens are read back in order. -/
theorem filterMap_tokenRows (tokens : List Token) :
    (tokenRows tokens).filterMap (fun row => (readTokenRow? row).map Prod.snd) = tokens := by
  have hread : (fun p : Token × Nat => (readTokenRow? (tokenRow p.2 p.1)).map Prod.snd) =
      some ∘ Prod.fst := by
    funext p
    rw [readTokenRow?_tokenRow]
    rfl
  rw [tokenRows, List.filterMap_map]
  exact (congrArg (tokens.zipIdx.filterMap ·) hread).trans
    (by rw [List.filterMap_eq_map, List.zipIdx_map_fst])

/-- The tokens of a listing can be told from its text. -/
theorem textChars_injective :
    Function.Injective fun tokens : List Token => textChars ⟨tokens, none⟩ := by
  intro tokens others h
  have hlines : lines? (textChars ⟨tokens, none⟩) = lines? (textChars ⟨others, none⟩) :=
    congrArg lines? h
  rw [lines?_textChars, lines?_textChars, Option.some.injEq, rows, rows, List.append_nil,
    List.append_nil] at hlines
  rw [← filterMap_tokenRows tokens, hlines, filterMap_tokenRows]

end Listing

/-! ## The command -/

/-- The blanks are shown on request only. -/
theorem ListingRequest.shown_eq_filter (request : ListingRequest) (tokens : List Token) :
    request.shown tokens =
      tokens.filter fun t => request.keepBlanks || t.kind != .whiteSpace := by
  have htrivia : ∀ t : Token, (!t.kind.isTrivia) = (t.kind != .whiteSpace) := by
    intro t
    cases t.kind <;> rfl
  cases hkeep : request.keepBlanks with
  | true =>
      rw [shown, if_pos hkeep]
      exact (List.filter_eq_self.mpr fun _ _ => rfl).symm
  | false => simp [shown, significant, hkeep, htrivia]

/-- The text run of a source that can be scanned: what it writes, and its lines. -/
theorem ListingRequest.value_run_text (request : ListingRequest) {tokens : List Token}
    (h : tokenize request.options request.source = .ok tokens) :
    ∃ text,
      ({ request with format := .text }.run { limit := none }).value =
        (.ok (request.shown tokens).length, { limit := none, written := utf8Bytes text }) ∧
      lines? text = some (request.listing tokens).rows := by
  have hsink : Sink.limit { limit := none } = none := rfl
  have hrun := ListingRequest.value_run_of_unlimited { request with format := .text } hsink
  simp only [h] at hrun
  exact ⟨_, hrun, Listing.lines?_textChars _⟩

/-- **Text listings can be read back**: the lines of a listing without counts say which
tokens it lists, line `i` with the number `i`, so no two lists of tokens have the same text.
A source that can be scanned is listed so, without its blanks unless they are asked for;
where counts are asked for, they follow behind one empty line. -/
theorem textListing_decodes :
    (∀ tokens, ∃ rows, lines? (Listing.textChars ⟨tokens, none⟩) = some rows ∧
      rows.map readTokenRow? = tokens.zipIdx.map fun (t, index) => some (index, t)) ∧
    (Function.Injective fun tokens : List Token => Listing.textChars ⟨tokens, none⟩) ∧
    ∀ (request : ListingRequest) (tokens : List Token),
      tokenize request.options request.source = .ok tokens →
        let listed := tokens.filter fun t => request.keepBlanks || t.kind != .whiteSpace
        ∃ text rows,
          ({ request with format := .text }.run { limit := none }).value =
            (.ok listed.length, { limit := none, written := utf8Bytes text }) ∧
          (rows.map readTokenRow? = listed.zipIdx.map fun (t, index) => some (index, t)) ∧
          if request.stats then
            ∃ counts, lines? text = some (rows ++ [] :: counts) ∧
              counts.map readCountRow? = (kindCounts listed).map some
          else lines? text = some rows := by
  refine ⟨fun tokens => ⟨_, Listing.lines?_textChars _, ?_⟩, Listing.textChars_injective,
    fun request tokens htokens => ?_⟩
  · rw [Listing.rows, List.append_nil, Listing.map_readTokenRow?_tokenRows]
  · intro listed
    have hlisted : request.shown tokens = listed := request.shown_eq_filter tokens
    obtain ⟨text, hrun, hlines⟩ := request.value_run_text htokens
    rw [hlisted] at hrun
    rw [Listing.rows, ListingRequest.listing, hlisted] at hlines
    refine ⟨text, Listing.tokenRows listed, hrun, Listing.map_readTokenRow?_tokenRows listed, ?_⟩
    rw [hlines]
    cases request.stats with
    | true => exact ⟨_, rfl, Listing.map_readCountRow?_countRow _⟩
    | false => exact congrArg some (List.append_nil _)

/-- A string with a line feed and a letter outside of ASCII, and blanks that are left out. -/
theorem textListing_decodes_string :
    let source := "a \"é\n\" 1"
    let tokens : List Token := [⟨0, "a", .identifier⟩, ⟨1, " ", .whiteSpace⟩,
      ⟨2, "\"é\n\"", .string⟩, ⟨7, " ", .whiteSpace⟩, ⟨8, "1", .number⟩]
    let listed : List Token := [⟨0, "a", .identifier⟩, ⟨2, "\"é\n\"", .string⟩, ⟨8, "1", .number⟩]
    tokenize {} source = .ok tokens ∧
      ∃ text rows,
        (ListingRequest.run { source, stats := true } { limit := none }).value =
          (.ok 3, { limit := none, written := utf8Bytes text }) ∧
        (rows.map readTokenRow? = listed.zipIdx.map fun (t, index) => some (index, t)) ∧
        ∃ counts, lines? text = some (rows ++ [] :: counts) ∧
          counts.map readCountRow? = (kindCounts listed).map some := by
  intro source tokens listed
  have hitems : items {} source = tokens.map .token := by decide +kernel
  have h : tokenize {} source = .ok tokens := by rw [tokenize, hitems]; rfl
  exact ⟨h, textListing_decodes.2.2 { source, stats := true } tokens h⟩

end PoxTokens
