import Mathlib.Data.List.TakeDrop
import PoxTokens.Json.Printer
import PoxTokens.Json.Reader
import PoxTokens.Proofs.Digits

/-!
# PoxTokens.Proofs.JsonText

A JSON document can be read back from its indented text (`read?_pretty`).  Reading has two
halves, and the induction carries a statement about each.  The tokens of the document stand
at the front of those of any text that begins with it, provided that what follows does not
prolong a number; and they take the reader from a place where a value is expected to the
place behind that value, whatever is open around it.
-/

namespace PoxTokens.Json

/-- A document with a text of its own: its numbers are numbers of JSON, and its strings and
names have a content. -/
inductive Value.Writable : Value → Prop where
  | null : Writable .null
  | bool (b : Bool) : Writable (.bool b)
  | number {literal : String} (h : isNumber literal.toList) : Writable (.number literal)
  | text (s : String) : Writable (.text s)
  | array {items : List Value} (h : ∀ v ∈ items, Writable v) : Writable (.array items)
  | record {fields : List (String × Value)} (h : ∀ f ∈ fields, Writable f.2) :
      Writable (.record fields)

/-! ## Blanks and marks -/

/-- Blanks between the tokens of a document do not count. -/
theorem tokens?_blank {c : Char} (h : isBlank c) (cs : List Char) :
    tokens? (c :: cs) = tokens? cs := by
  rw [tokens?, if_pos h]

theorem tokens?_newline (depth : Nat) (cs : List Char) :
    tokens? (newline depth ++ cs) = tokens? cs := by
  have hspaces : ∀ n, tokens? (List.replicate n ' ' ++ cs) = tokens? cs := by
    intro n
    induction n with
    | zero => rfl
    | succ n ih => rw [List.replicate_succ, List.cons_append, tokens?_blank rfl, ih]
  rw [newline, List.cons_append, tokens?_blank rfl, hspaces]

theorem tokens?_mark {c : Char} {mark : Token} (h : mark? c = some mark) (cs : List Char) :
    tokens? (c :: cs) = (tokens? cs).map (mark :: ·) := by
  have hblank : isBlank c = false := by
    unfold mark? at h
    split at h <;> first | rfl | contradiction
  rw [tokens?, hblank, h]
  rfl

/-! ## Strings -/

/-- The escape of a control character can be read, as both of its digits are hexadecimal. -/
theorem hexValue?_of_lt {n : Nat} (h : n < 0x20) :
    hexValue? ['0', '0', Nat.digitChar (n / 16), Nat.digitChar (n % 16)] = some n := by
  revert n
  decide

theorem stringPieces?_simpleEscape {letter c : Char} (h : simpleEscape? letter = some c)
    (cs : List Char) :
    stringPieces? ('\\' :: letter :: cs) = (stringPieces? cs).map (Prod.map (.char c :: ·) id) := by
  have hunit : letter ≠ 'u' := by
    rintro rfl
    contradiction
  rw [stringPieces?, h]
  · cases stringPieces? cs <;> rfl
  · intro _ _ _ _ _ hu _
    exact hunit hu

/-- A character is written as a letter behind a backslash, as its code point, or as itself. -/
theorem escapeChar_cases (c : Char) :
    (∃ letter, simpleEscape? letter = some c ∧ escapeChar c = ['\\', letter]) ∨
      (c.toNat < 0x20 ∧ escapeChar c =
        ['\\', 'u', '0', '0', Nat.digitChar (c.toNat / 16), Nat.digitChar (c.toNat % 16)]) ∨
      (¬c.toNat < 0x20 ∧ c ≠ '"' ∧ c ≠ '\\' ∧ escapeChar c = [c]) := by
  unfold escapeChar
  split
  · next h => exact .inl ⟨'"', by rw [h]; rfl, rfl⟩
  split
  · next h => exact .inl ⟨'\\', by rw [h]; rfl, rfl⟩
  split
  · next h => exact .inl ⟨'b', by rw [h]; rfl, rfl⟩
  split
  · next h => exact .inl ⟨'t', by rw [h]; rfl, rfl⟩
  split
  · next h => exact .inl ⟨'n', by rw [h]; rfl, rfl⟩
  split
  · next h => exact .inl ⟨'f', by rw [h]; rfl, rfl⟩
  split
  · next h => exact .inl ⟨'r', by rw [h]; rfl, rfl⟩
  split
  · next hlow => exact .inr (.inl ⟨hlow, rfl⟩)
  · next hquote hslash _ _ _ _ _ hlow => exact .inr (.inr ⟨hlow, hquote, hslash, rfl⟩)

/-- One character is read back, whatever follows it. -/
theorem stringPieces?_escapeChar (c : Char) (cs : List Char) :
    stringPieces? (escapeChar c ++ cs) = (stringPieces? cs).map (Prod.map (.char c :: ·) id) := by
  rcases escapeChar_cases c with ⟨letter, hescape, heq⟩ | ⟨hlow, heq⟩ | ⟨hlow, hquote, hslash, heq⟩
  · rw [heq]
    exact stringPieces?_simpleEscape hescape cs
  · have hunit : Piece.ofUnit c.toNat = .char c := by
      rw [Piece.ofUnit, if_neg (by omega), Char.ofNat_toNat]
    simp only [heq, List.cons_append, List.nil_append, stringPieces?, hexValue?_of_lt hlow]
    cases stringPieces? cs <;> simp [hunit, Prod.map]
  · rw [heq, List.singleton_append, stringPieces?, if_neg hlow]
    · cases stringPieces? cs <;> rfl
    · simpa using hquote
    · simp_all
    · simp_all

/-- The escaped characters of a string are read back up to its closing quote. -/
theorem stringPieces?_flatMap (s cs : List Char) :
    stringPieces? (s.flatMap escapeChar ++ '"' :: cs) = some (s.map .char, cs) := by
  induction s with
  | nil => simp [stringPieces?]
  | cons c s ih =>
      rw [List.flatMap_cons, List.append_assoc, stringPieces?_escapeChar, ih]
      rfl

/-- Pieces that are all plain characters join to a text. -/
theorem joinPieces_map_char (s : List Char) : joinPieces (s.map .char) = some s := by
  induction s with
  | nil => rfl
  | cons c s ih => rw [List.map_cons, joinPieces, ih, Option.map_some]

/-- A quote begins a token that is the whole string. -/
theorem tokens?_quote {cs last : List Char} {pieces : List Piece}
    (h : stringPieces? cs = some (pieces, last)) :
    tokens? ('"' :: cs) =
      (tokens? last).map (.scalar (.string ((joinPieces pieces).map String.ofList)) :: ·) := by
  have hblank : isBlank '"' = false := rfl
  have hmark : mark? '"' = none := rfl
  rw [tokens?, hblank, hmark]
  simp only [Bool.false_eq_true, if_false, if_true]
  split
  · next heq => rw [h] at heq; contradiction
  · next heq =>
    rw [h] at heq
    cases heq
    rfl

/-- A string as it is written is one token, and is the text that was written. -/
theorem tokens?_writeString (s : String) (cs : List Char) :
    tokens? (writeString (some s) ++ cs) = (tokens? cs).map (.scalar (.text s) :: ·) := by
  have hwrite : writeString (some s) = '"' :: (s.toList.flatMap escapeChar ++ ['"']) := rfl
  have htokens := tokens?_quote (stringPieces?_flatMap s.toList cs)
  rw [joinPieces_map_char, Option.map_some, String.ofList_toList] at htokens
  rw [hwrite, List.cons_append, List.append_assoc, List.singleton_append]
  exact htokens

/-! ## Numbers and words -/

theorem facts_of_isBareChar {c : Char} (h : isBareChar c) :
    isBlank c = false ∧ mark? c = none ∧ c ≠ '"' := by
  refine ⟨?_, ?_, ?_⟩
  · rw [Bool.eq_false_iff]
    intro hblank
    simp only [isBlank, Bool.or_eq_true, beq_iff_eq] at hblank
    rcases hblank with ((rfl | rfl) | rfl) | rfl <;> contradiction
  · unfold mark?
    split <;> first | contradiction | rfl
  · rintro rfl
    contradiction

/-- A run of bare characters is one token, up to the first character that is none of them. -/
theorem tokens?_bare {run cs : List Char} {v : Value} (hne : run ≠ [])
    (hrun : ∀ c ∈ run, isBareChar c) (hcs : leads isBareChar cs = false) (h : bare? run = some v) :
    tokens? (run ++ cs) = (tokens? cs).map (.scalar v :: ·) := by
  cases run with
  | nil => contradiction
  | cons c run =>
    obtain ⟨hc, htail⟩ := List.forall_mem_cons.mp hrun
    obtain ⟨hblank, hmark, hquote⟩ := facts_of_isBareChar hc
    rw [List.cons_append, tokens?, hblank, hmark]
    simp only [hquote, hc, if_false, if_true]
    rw [takeWhile_append_eq_left_iff.mpr ⟨htail, hcs⟩, dropWhile_append_of_not_leads htail hcs, h]
    rfl

/-! ### The characters of numbers -/

theorem isNumberChar_of_isDigits {cs : List Char} (h : isDigits cs) :
    ∀ c ∈ cs, isNumberChar c := by
  intro c hc
  rw [isDigits, Bool.and_eq_true, List.all_eq_true] at h
  simp [isNumberChar, h.2 c hc]

theorem isNumberChar_of_isExponent {cs : List Char} (h : isExponent cs) :
    ∀ c ∈ cs, isNumberChar c := by
  unfold isExponent at h
  split at h
  · exact List.forall_mem_cons.mpr ⟨rfl, isNumberChar_of_isDigits h⟩
  · exact List.forall_mem_cons.mpr ⟨rfl, isNumberChar_of_isDigits h⟩
  · exact isNumberChar_of_isDigits h

/-- The characters of a run of digits and of what follows it. -/
theorem forall_mem_of_span {cs : List Char}
    (h : ∀ c ∈ cs.dropWhile Char.isDigit, isNumberChar c) : ∀ c ∈ cs, isNumberChar c := by
  intro c hc
  rw [← List.takeWhile_append_dropWhile (p := Char.isDigit) (l := cs), List.mem_append] at hc
  rcases hc with hdigit | hrest
  · simp [isNumberChar, List.mem_takeWhile_imp hdigit]
  · exact h c hrest

theorem isNumberChar_of_exponent {c : Char} {cs : List Char}
    (h : ((c == 'e' || c == 'E') && isExponent cs) = true) : ∀ d ∈ c :: cs, isNumberChar d := by
  simp only [Bool.and_eq_true, Bool.or_eq_true, beq_iff_eq] at h
  obtain ⟨rfl | rfl, hexponent⟩ := h
  · exact List.forall_mem_cons.mpr ⟨rfl, isNumberChar_of_isExponent hexponent⟩
  · exact List.forall_mem_cons.mpr ⟨rfl, isNumberChar_of_isExponent hexponent⟩

theorem isNumberChar_of_isNumberTail {cs : List Char} (h : isNumberTail cs) :
    ∀ c ∈ cs, isNumberChar c := by
  unfold isNumberTail at h
  split at h
  · simp
  · next cs =>
    rw [List.span_eq_takeWhile_dropWhile] at h
    simp only [Bool.and_eq_true] at h
    refine List.forall_mem_cons.mpr ⟨rfl, forall_mem_of_span ?_⟩
    have hexponent := h.2
    split at hexponent
    · next heq => simp [heq]
    · next heq =>
      rw [heq]
      exact isNumberChar_of_exponent hexponent
  · exact isNumberChar_of_exponent h

theorem isNumberChar_of_isUnsigned {cs : List Char} (h : isUnsigned cs) :
    ∀ c ∈ cs, isNumberChar c := by
  unfold isUnsigned at h
  split at h
  · exact List.forall_mem_cons.mpr ⟨rfl, isNumberChar_of_isNumberTail h⟩
  · rw [List.span_eq_takeWhile_dropWhile] at h
    simp only [Bool.and_eq_true] at h
    exact forall_mem_of_span (isNumberChar_of_isNumberTail h.2)

/-- Whatever is a number consists of the characters of numbers, so it is read as one token. -/
theorem isNumberChar_of_isNumber {cs : List Char} (h : isNumber cs) :
    ∀ c ∈ cs, isNumberChar c := by
  unfold isNumber at h
  split at h
  · exact List.forall_mem_cons.mpr ⟨rfl, isNumberChar_of_isUnsigned h⟩
  · exact isNumberChar_of_isUnsigned h

/-- A decimal form is a number as documents have them. -/
theorem isNumber_decimal (n : Nat) : isNumber (decimal n) := by
  have hdigits := (isDigits_decimal n).2
  rcases decimal_cases n with hzero | ⟨c, cs, hcons, hc⟩
  · rw [hzero]
    decide
  · rw [hcons] at hdigits ⊢
    obtain ⟨hdigit, htail⟩ := List.forall_mem_cons.mp hdigits
    have hall : (c :: cs).dropWhile Char.isDigit = [] :=
      List.dropWhile_eq_nil_iff.mpr hdigits
    have hminus : c ≠ '-' := by
      rintro rfl
      contradiction
    simp [isNumber, isUnsigned, List.span_eq_takeWhile_dropWhile, hall, hminus, hc, hdigit,
      isNumberTail]

/-- So a natural number can be written. -/
theorem Value.Writable.natural (n : Nat) : Value.Writable (.natural n) :=
  .number (by rw [toList_toString]; exact isNumber_decimal n)

/-! ## Values -/

/-- Where a value is expected, or the end of an array just begun, a token that is no such end
begins a value. -/
theorem Place.step_beginValue {stack : List Frame} {expected : Expected} {token : Token}
    (h : expected = .value ∨ expected = .firstItem) (htoken : token ≠ .endArray) :
    Place.step ⟨stack, expected⟩ token = beginValue stack token := by
  rcases h with rfl | rfl
  · rfl
  · cases token with
    | endArray => contradiction
    | _ => cases stack with
      | nil => rfl
      | cons frame stack => cases frame <;> rfl

/-- Tokens that a text has in front of those of what follows it, and that lead the reader
from some places to others: behind the stack of what is open there stands a value. -/
structure Reads (text : List Char) (ts : List Token) (v : Value) : Prop where
  tokens : ∀ rest, leads isBareChar rest = false →
    tokens? (text ++ rest) = (tokens? rest).map (ts ++ ·)
  run : ∀ stack expected, expected = .value ∨ expected = .firstItem →
    ts.foldlM Place.step ⟨stack, expected⟩ = Place.behind stack v

/-- A text that always begins with the token of a scalar is read as that scalar. -/
theorem reads_scalar {text : List Char} {v : Value}
    (h : ∀ rest, leads isBareChar rest = false →
      tokens? (text ++ rest) = (tokens? rest).map (.scalar v :: ·)) :
    Reads text [.scalar v] v where
  tokens := h
  run stack expected hexpected := by
    rw [List.foldlM_cons, Place.step_beginValue hexpected (by simp)]
    exact bind_pure _

/-- A bare word is read as the value that it names. -/
theorem reads_bare {run : List Char} {v : Value} (hne : run ≠ [])
    (hrun : run.all isBareChar) (h : bare? run = some v) : Reads run [.scalar v] v :=
  reads_scalar fun _ hrest => tokens?_bare hne (List.all_eq_true.mp hrun) hrest h

/-- Behind the tokens of a value the reader goes on from the place behind it. -/
theorem Reads.foldlM_append {text : List Char} {ts : List Token} {v : Value} (h : Reads text ts v)
    {stack : List Frame} {expected : Expected} {place : Place}
    (hexpected : expected = .value ∨ expected = .firstItem)
    (hplace : Place.behind stack v = some place) (us : List Token) :
    (ts ++ us).foldlM Place.step ⟨stack, expected⟩ = us.foldlM Place.step place := by
  rw [List.foldlM_append, h.run stack expected hexpected, hplace]
  rfl

/-- What stands behind an item begins with no bare character, so a bare item ends where it
should. -/
theorem leads_prettyItems (depth : Nat) (vs : List Value) (rest : List Char) :
    leads isBareChar (prettyItems depth vs ++ rest) = false := by
  cases vs <;> rfl

theorem leads_prettyFields (depth : Nat) (fields : List (Content × Value)) (rest : List Char) :
    leads isBareChar (prettyFields depth fields ++ rest) = false := by
  cases fields with
  | nil => rfl
  | cons field fields => rfl

/-- The items behind some others of an array are read up to its end. -/
theorem exists_tokens_items {vs : List Value} (depth : Nat)
    (h : ∀ v ∈ vs, ∃ ts, Reads (prettyChars (depth + 1) v) ts v) :
    ∃ ts, (∀ rest, tokens? (prettyItems depth vs ++ rest) = (tokens? rest).map (ts ++ ·)) ∧
      ∀ stack items, ts.foldlM Place.step ⟨.array items :: stack, .separator⟩ =
        Place.behind stack (.array (items.reverse ++ vs)) := by
  induction vs with
  | nil =>
      refine ⟨[.endArray], fun rest => ?_, fun stack items => ?_⟩
      · rw [prettyItems, List.append_assoc, tokens?_newline]
        exact tokens?_mark rfl rest
      · rw [List.append_nil, List.foldlM_cons]
        exact bind_pure _
  | cons v vs ih =>
      obtain ⟨hv, hvs⟩ := List.forall_mem_cons.mp h
      obtain ⟨ts, hts⟩ := hv
      obtain ⟨us, htokens, hrun⟩ := ih hvs
      refine ⟨.comma :: (ts ++ us), fun rest => ?_, fun stack items => ?_⟩
      · rw [prettyItems, List.cons_append, tokens?_mark rfl, List.append_assoc, tokens?_newline,
          List.append_assoc, hts.tokens _ (leads_prettyItems depth vs rest), htokens]
        cases tokens? rest <;> simp
      · have hrest := hrun stack (v :: items)
        rw [List.reverse_cons, List.append_assoc, List.singleton_append] at hrest
        rw [← hrest]
        exact hts.foldlM_append (.inl rfl) rfl us

/-- The fields behind some others of an object are read up to its end. -/
theorem exists_tokens_fields {fields : List (String × Value)} (depth : Nat)
    (h : ∀ f ∈ fields, ∃ ts, Reads (prettyChars (depth + 1) f.2) ts f.2) :
    ∃ ts, (∀ rest, tokens?
        (prettyFields depth (fields.map fun (name, v) => (some name, v)) ++ rest) =
          (tokens? rest).map (ts ++ ·)) ∧
      ∀ stack others, ts.foldlM Place.step ⟨.object others :: stack, .separator⟩ =
        Place.behind stack
          (.object (others.reverse ++ fields.map fun (name, v) => (some name, v))) := by
  induction fields with
  | nil =>
      refine ⟨[.endObject], fun rest => ?_, fun stack others => ?_⟩
      · rw [List.map_nil, prettyFields, List.append_assoc, tokens?_newline]
        exact tokens?_mark rfl rest
      · rw [List.map_nil, List.append_nil, List.foldlM_cons]
        exact bind_pure _
  | cons field fields ih =>
      obtain ⟨name, v⟩ := field
      obtain ⟨hv, hfields⟩ := List.forall_mem_cons.mp h
      obtain ⟨ts, hts⟩ := hv
      obtain ⟨us, htokens, hrun⟩ := ih hfields
      refine ⟨.comma :: .scalar (.text name) :: .colon :: (ts ++ us), fun rest => ?_,
        fun stack others => ?_⟩
      · simp only [List.map_cons, prettyFields, List.cons_append, List.append_assoc]
        rw [tokens?_mark rfl, tokens?_newline, tokens?_writeString, tokens?_mark rfl,
          tokens?_blank rfl, hts.tokens _ (leads_prettyFields depth _ rest), htokens]
        cases tokens? rest <;> simp
      · have hrest := hrun stack ((some name, v) :: others)
        rw [List.reverse_cons, List.append_assoc, List.singleton_append] at hrest
        rw [List.map_cons, ← hrest]
        exact hts.foldlM_append (.inl rfl) rfl us

/-- An array is read back if its items are. -/
theorem exists_reads_array {items : List Value} (depth : Nat)
    (h : ∀ v ∈ items, ∃ ts, Reads (prettyChars (depth + 1) v) ts v) :
    ∃ ts, Reads (prettyChars depth (.array items)) ts (.array items) := by
  cases items with
  | nil =>
      refine ⟨[.beginArray, .endArray], fun rest _ => ?_, fun stack expected hexpected => ?_⟩
      · simp only [prettyChars, List.cons_append, List.nil_append]
        rw [tokens?_mark rfl, tokens?_mark rfl]
        cases tokens? rest <;> simp
      · rw [List.foldlM_cons, Place.step_beginValue hexpected (by simp)]
        exact bind_pure (Place.behind stack (.array []))
  | cons v vs =>
      obtain ⟨⟨ts, hts⟩, hvs⟩ := List.forall_mem_cons.mp h
      obtain ⟨us, htokens, hrun⟩ := exists_tokens_items depth hvs
      refine ⟨.beginArray :: (ts ++ us), fun rest _ => ?_, fun stack expected hexpected => ?_⟩
      · simp only [prettyChars, List.cons_append, List.append_assoc]
        rw [tokens?_mark rfl, tokens?_newline, hts.tokens _ (leads_prettyItems depth vs rest),
          htokens]
        cases tokens? rest <;> simp
      · rw [List.foldlM_cons, Place.step_beginValue hexpected (by simp)]
        exact (hts.foldlM_append (.inr rfl) rfl us).trans (hrun stack [v])

/-- A record is read back if its fields are. -/
theorem exists_reads_record {fields : List (String × Value)} (depth : Nat)
    (h : ∀ f ∈ fields, ∃ ts, Reads (prettyChars (depth + 1) f.2) ts f.2) :
    ∃ ts, Reads (prettyChars depth (.record fields)) ts (.record fields) := by
  unfold Value.record
  cases fields with
  | nil =>
      refine ⟨[.beginObject, .endObject], fun rest _ => ?_, fun stack expected hexpected => ?_⟩
      · simp only [List.map_nil, prettyChars, List.cons_append, List.nil_append]
        rw [tokens?_mark rfl, tokens?_mark rfl]
        cases tokens? rest <;> simp
      · rw [List.foldlM_cons, Place.step_beginValue hexpected (by simp)]
        exact bind_pure (Place.behind stack (.object []))
  | cons field fields =>
      obtain ⟨name, v⟩ := field
      obtain ⟨⟨ts, hts⟩, hfields⟩ := List.forall_mem_cons.mp h
      obtain ⟨us, htokens, hrun⟩ := exists_tokens_fields depth hfields
      refine ⟨.beginObject :: .scalar (.text name) :: .colon :: (ts ++ us), fun rest _ => ?_,
        fun stack expected hexpected => ?_⟩
      · simp only [List.map_cons, prettyChars, List.cons_append, List.append_assoc]
        rw [tokens?_mark rfl, tokens?_newline, tokens?_writeString, tokens?_mark rfl,
          tokens?_blank rfl, hts.tokens _ (leads_prettyFields depth _ rest), htokens]
        cases tokens? rest <;> simp
      · rw [List.foldlM_cons, Place.step_beginValue hexpected (by simp)]
        exact (hts.foldlM_append (.inl rfl) rfl us).trans (hrun stack [(some name, v)])

/-- A document that has a text of its own is read back from it. -/
theorem Value.Writable.exists_reads {v : Value} (h : v.Writable) (depth : Nat) :
    ∃ ts, Reads (prettyChars depth v) ts v := by
  induction h generalizing depth with
  | null => exact ⟨_, reads_bare (by simp [prettyChars]) rfl rfl⟩
  | bool b => cases b <;> exact ⟨_, reads_bare (by simp [prettyChars]) rfl rfl⟩
  | @number literal hliteral =>
      have hchars := isNumberChar_of_isNumber hliteral
      refine ⟨_, reads_bare ?_ ?_ ?_⟩
      · intro hnil
        rw [prettyChars] at hnil
        rw [hnil] at hliteral
        contradiction
      · rw [prettyChars, List.all_eq_true]
        exact fun c hc => by simp [isBareChar, hchars c hc]
      · rw [prettyChars, bare?, if_pos hliteral, String.ofList_toList]
  | text s => exact ⟨_, reads_scalar fun rest _ => tokens?_writeString s rest⟩
  | array _ ih => exact exists_reads_array depth fun v hv => ih v hv (depth + 1)
  | record _ ih => exact exists_reads_record depth fun f hf => ih f hf (depth + 1)

/-- **Reading back**: a document that has a text of its own is read back from it. -/
theorem read?_pretty {v : Value} (h : v.Writable) : read? (pretty v) = some v := by
  obtain ⟨ts, htokens, hrun⟩ := h.exists_reads 0
  have hend := htokens [] rfl
  rw [List.append_nil] at hend
  rw [read?, pretty, String.toList_ofList, hend]
  simp [tokens?, Value.ofTokens?, hrun, Place.behind, Place.document?]

end PoxTokens.Json
