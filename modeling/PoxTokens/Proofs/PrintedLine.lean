import PoxTokens.LexError
import PoxTokens.Proofs.TextListing

/-!
# PoxTokens.Proofs.PrintedLine

A token or a report is printed as one line, and the line says which one it is
(`printed_lines_tell_apart`).

The line is put together from codes that end by themselves (`SelfDelimiting`): whatever stands
behind such a word, the word and its end can be told.  The escapes of characters are such a code
for either quotation mark, so quoted texts and quoted characters are; names and numbers are up to
a mark that does not occur in them.
-/

namespace PoxTokens

/-! ## One line -/

/-- The characters at which a line may end. -/
def lineBreaks : List Char :=
  ['\n', '\x0b', '\x0c', '\r', '\u0085', '\u2028', '\u2029']

/-- No line break is printable. -/
theorem not_mem_lineBreaks {c : Char} (h : isPrintable c) : c ∉ lineBreaks := by
  have hnone : lineBreaks.filter isPrintable = [] := by decide +kernel
  intro hmem
  have hboth : c ∈ lineBreaks.filter isPrintable := List.mem_filter.mpr ⟨hmem, h⟩
  rw [hnone] at hboth
  exact List.not_mem_nil hboth

/-- Is a text fit for a line: are all its characters printable? -/
def isLine (text : String) : Bool := text.toList.all isPrintable

theorem isLine_append {before after : String} :
    isLine (before ++ after) = (isLine before && isLine after) := by
  rw [isLine, String.toList_append, List.all_append]
  rfl

theorem isLine_quotedChar (c : Char) : isLine (quotedChar c) := by
  rw [isLine, quotedChar, String.toList_ofList, List.all_eq_true]
  exact fun d hd => isPrintable_of_mem_quoteChar hd

/-- A quoted text is a line, since whatever would break it is escaped. -/
theorem isLine_quotedString (s : String) : isLine (quotedString s) := by
  rw [isLine, quotedString, String.toList_ofList, List.all_eq_true]
  exact fun d hd => isPrintable_of_mem_quoteText hd

theorem isLine_toString (n : Nat) : isLine (toString n) := by
  rw [isLine, toList_toString, List.all_eq_true]
  exact fun d hd => isPrintable_of_mem_decimal hd

theorem isLine_name (kind : Kind) : isLine kind.name := by
  rw [isLine, List.all_eq_true]
  exact fun d hd => isPrintable_of_mem_name hd

/-- A line has no break inside. -/
theorem not_mem_of_isLine {text : String} (h : isLine text) {c : Char} (hc : c ∈ lineBreaks) :
    c ∉ text.toList :=
  fun hmem => not_mem_lineBreaks (List.all_eq_true.mp h c hmem) hc

theorem Token.render_eq (t : Token) :
    t.render = t.kind.name ++ "(" ++ quotedString t.lexeme ++ ")@" ++ toString t.position := by
  unfold render
  rfl

/-- A token is printed on one line, whatever its lexeme holds. -/
theorem Token.isLine_render (t : Token) : isLine t.render := by
  have hmarks : isLine "(" ∧ isLine ")@" := by decide
  simp only [render_eq, isLine_append, isLine_name, isLine_quotedString, isLine_toString, hmarks,
    Bool.and_self]

theorem LexError.message_eq (e : LexError) :
    e.message = "unrecognized character " ++ quotedChar e.found ++ " at offset " ++
      toString e.offset ++ " " ++ ("(after " ++ quotedString e.context ++ ")") := by
  unfold message
  rfl

/-- The report on a place of a source is one line, whatever stands around the place. -/
theorem LexError.isLine_message (e : LexError) : isLine e.message := by
  have hwords : isLine "unrecognized character " ∧ isLine " at offset " ∧ isLine " " ∧
      isLine "(after " ∧ isLine ")" := by
    decide
  simp only [message_eq, isLine_append, isLine_quotedChar, isLine_quotedString, isLine_toString,
    hwords, Bool.and_self]

/-! ## Codes that end by themselves -/

/-- From any text that begins with a word of the code it can be told which word it is, and so
where it ends. -/
def SelfDelimiting {α : Type} (code : α → List Char) : Prop :=
  ∀ ⦃a b : α⦄ ⦃x y : List Char⦄, code a ++ x = code b ++ y → a = b ∧ x = y

section
variable {α : Type} {code : α → List Char} {stop : Char}

/-- Words that are different are still so up to a mark that occurs in none of them. -/
theorem selfDelimiting_append_stop (hcode : Function.Injective code) (hstop : ∀ a, stop ∉ code a) :
    SelfDelimiting fun a => code a ++ [stop] := by
  have htake : ∀ a x, (code a ++ [stop] ++ x).takeWhile (· != stop) = code a := by
    intro a x
    rw [List.append_assoc]
    refine takeWhile_append_eq_left_iff.mpr ⟨fun c hc => ?_, by simp⟩
    rw [bne_iff_ne]
    rintro rfl
    exact hstop a hc
  intro a b x y h
  have hab : a = b := by
    have hrun := congrArg (List.takeWhile (· != stop)) h
    rw [htake, htake] at hrun
    exact hcode hrun
  subst hab
  exact ⟨rfl, List.append_cancel_left h⟩

/-- Texts of words end by themselves at a mark with which no word begins. -/
theorem SelfDelimiting.flatMap (hcode : SelfDelimiting code)
    (hstop : ∀ a, ∃ c word, code a = c :: word ∧ c ≠ stop) :
    SelfDelimiting fun as : List α => as.flatMap code ++ [stop] := by
  -- a text that has ended is not the beginning of one that goes on
  have hend : ∀ a as x y, [stop] ++ x ≠ (a :: as).flatMap code ++ [stop] ++ y := by
    intro a as x y h
    obtain ⟨c, word, hword, hc⟩ := hstop a
    rw [List.flatMap_cons, hword] at h
    exact hc (List.cons.inj h).1.symm
  intro as bs
  induction as generalizing bs with
  | nil =>
      intro x y h
      cases bs with
      | nil => exact ⟨rfl, List.append_cancel_left h⟩
      | cons b bs => exact absurd h (hend b bs x y)
  | cons a as ih =>
      intro x y h
      cases bs with
      | nil => exact absurd h.symm (hend a as y x)
      | cons b bs =>
          simp only [List.flatMap_cons, List.append_assoc] at h ih
          obtain ⟨rfl, hrest⟩ := hcode h
          obtain ⟨rfl, hxy⟩ := ih hrest
          exact ⟨rfl, hxy⟩

end

/-! ### Escapes -/

/-- Numbers can be told apart by their decimal form. -/
theorem decimal_injective : Function.Injective decimal := by
  intro m n h
  rw [← ofDigitChars_decimal m, h, ofDigitChars_decimal]

/-- Characters can be told apart by the hexadecimal digits of their code. -/
theorem toDigits_toNat_injective : Function.Injective fun c : Char => Nat.toDigits 16 c.toNat := by
  intro c d h
  have hread : ∀ c : Char, unquoteCode? 0 (Nat.toDigits 16 c.toNat ++ ['}', '"']) =
      some ([c], []) := by
    intro c
    rw [unquoteCode?_toDigits, unquoteCode?, unquote?, Char.ofNat_toNat]
    rfl
  have hc := hread c
  simp only at h
  rw [h, hread, Option.some.injEq, Prod.mk.injEq, List.cons.injEq] at hc
  exact hc.1.1.symm

/-- The closing brace tells where a code ends. -/
theorem selfDelimiting_escapeCode : SelfDelimiting escapeCode := by
  have hbrace : ∀ c : Char, '}' ∉ Nat.toDigits 16 c.toNat := by
    intro c hmem
    obtain ⟨d, hd, heq⟩ := exists_of_mem_toDigits (by decide) hmem
    revert d
    decide
  intro c d x y h
  simp only [escapeCode, List.cons_append, List.cons.injEq, true_and] at h
  exact selfDelimiting_append_stop toDigits_toNat_injective hbrace h

/-- The escapes of characters end by themselves, if the letters behind a backslash are told
apart from each other and from the one that opens a code point. -/
theorem selfDelimiting_escapeChar {mark : Char}
    (hletters : ('u' :: (escapeLetters mark).map Prod.fst).Nodup) :
    SelfDelimiting (escapeChar mark) := by
  obtain ⟨hunit, hnodup⟩ := List.nodup_cons.mp hletters
  have hcode : ∀ {letter c}, (letter, c) ∈ escapeLetters mark → letter ≠ 'u' := by
    intro letter c hmem heq
    exact hunit (heq ▸ List.mem_map_of_mem hmem)
  -- a word with a backslash is not mistaken for one without, nor a letter for a code point
  intro c d x y h
  rcases escapeChar_cases mark c with ⟨letter, hl, hc⟩ | hc | ⟨hc, hslash, -⟩
  · rcases escapeChar_cases mark d with ⟨other, ho, hd⟩ | hd | ⟨hd, hslash, -⟩
    · simp only [hc, hd, List.cons_append, List.nil_append, List.cons.injEq, true_and] at h
      obtain ⟨rfl, rfl⟩ := h
      exact ⟨congrArg Prod.snd (List.inj_on_of_nodup_map hnodup hl ho rfl), rfl⟩
    · simp only [hc, hd, escapeCode, List.cons_append, List.cons.injEq, true_and] at h
      exact absurd h.1 (hcode hl)
    · simp only [hc, hd, List.cons_append, List.cons.injEq] at h
      exact absurd h.1.symm hslash
  · rcases escapeChar_cases mark d with ⟨other, ho, hd⟩ | hd | ⟨hd, hslash, -⟩
    · simp only [hc, hd, escapeCode, List.cons_append, List.cons.injEq, true_and] at h
      exact absurd h.1.symm (hcode ho)
    · rw [hc, hd] at h
      exact selfDelimiting_escapeCode h
    · simp only [hc, hd, escapeCode, List.cons_append, List.cons.injEq] at h
      exact absurd h.1.symm hslash
  · rcases escapeChar_cases mark d with ⟨other, ho, hd⟩ | hd | ⟨hd, -⟩
    · simp only [hc, hd, List.cons_append, List.cons.injEq] at h
      exact absurd h.1 hslash
    · simp only [hc, hd, escapeCode, List.cons_append, List.cons.injEq] at h
      exact absurd h.1 hslash
    · rw [hc, hd] at h
      exact List.cons.inj h

/-- No escape begins with the mark itself. -/
theorem exists_cons_escapeChar {mark : Char} (hmark : '\\' ≠ mark) (c : Char) :
    ∃ d word, escapeChar mark c = d :: word ∧ d ≠ mark := by
  rcases escapeChar_cases mark c with ⟨letter, -, hc⟩ | hc | ⟨hc, -, hne, -⟩
  · exact ⟨_, _, hc, hmark⟩
  · exact ⟨_, _, hc, hmark⟩
  · exact ⟨_, _, hc, hne⟩

/-- The closing quote tells where a quoted text ends, as every quote inside is escaped. -/
theorem selfDelimiting_quoteText : SelfDelimiting quoteText := by
  have hescape : SelfDelimiting (escapeChar '"') := selfDelimiting_escapeChar (by decide)
  intro cs ds x y h
  exact hescape.flatMap (exists_cons_escapeChar (by decide)) (List.cons.inj h).2

theorem selfDelimiting_quoteChar : SelfDelimiting quoteChar := by
  have hescape : SelfDelimiting (escapeChar '\'') := selfDelimiting_escapeChar (by decide)
  intro c d x y h
  simp only [quoteChar, List.cons_append, List.append_assoc, List.cons.injEq, true_and] at h
  obtain ⟨hcd, hrest⟩ := hescape h
  exact ⟨hcd, (List.cons.inj hrest).2⟩

/-! ## Lines -/

/-- The parts of a printed token, each of which tells where it ends. -/
theorem Token.toList_render (t : Token) :
    t.render.toList = t.kind.name.toList ++ ['('] ++
      (quoteText t.lexeme.toList ++ ([')', '@'] ++ decimal t.position)) := by
  simp [render_eq, quotedString, decimal]

/-- A line says which token it is. -/
theorem Token.render_injective : Function.Injective Token.render := by
  have hname : SelfDelimiting fun kind : Kind => kind.name.toList ++ ['('] := by
    refine selfDelimiting_append_stop (fun kind other h => ?_) fun kind hmem => ?_
    · exact Kind.name_injective (String.toList_inj.mp h)
    · have halpha := Kind.isAlpha_of_mem_name hmem
      contradiction
  intro t u h
  have hline := congrArg String.toList h
  rw [toList_render, toList_render] at hline
  obtain ⟨hkind, hline⟩ := hname hline
  obtain ⟨hlexeme, hline⟩ := selfDelimiting_quoteText hline
  have hposition := decimal_injective (List.append_cancel_left hline)
  rw [Token.mk.injEq]
  exact ⟨hposition, String.toList_inj.mp hlexeme, hkind⟩

/-- The parts of a message, each of which tells where it ends. -/
theorem LexError.toList_message (e : LexError) :
    e.message.toList = "unrecognized character ".toList ++ (quoteChar e.found ++
      (" at offset ".toList ++ (decimal e.offset ++ [' '] ++
        ("(after ".toList ++ (quoteText e.context.toList ++ [')']))))) := by
  simp [message_eq, quotedChar, quotedString, decimal]

/-- A line says which report it is. -/
theorem LexError.message_injective : Function.Injective LexError.message := by
  have hoffset : SelfDelimiting fun n => decimal n ++ [' '] :=
    selfDelimiting_append_stop decimal_injective fun n hmem => ne_space_of_mem_decimal hmem rfl
  intro e f h
  have hline := congrArg String.toList h
  rw [toList_message, toList_message] at hline
  obtain ⟨hfound, hline⟩ := selfDelimiting_quoteChar (List.append_cancel_left hline)
  obtain ⟨hplace, hline⟩ := hoffset (List.append_cancel_left hline)
  obtain ⟨hcontext, -⟩ := selfDelimiting_quoteText (List.append_cancel_left hline)
  rw [LexError.mk.injEq]
  exact ⟨hplace, String.toList_inj.mp hcontext, hfound⟩

/-- **Printed lines**: a token or a report is printed without a line feed or a carriage return,
and different ones are printed differently, whatever their lexemes and contexts hold. -/
theorem printed_lines_tell_apart :
    (∀ t u : Token, t.render = u.render ↔ t = u) ∧
    (∀ e f : LexError, e.message = f.message ↔ e = f) ∧
    (∀ t : Token, '\n' ∉ t.render.toList ∧ '\r' ∉ t.render.toList) ∧
    ∀ e : LexError, '\n' ∉ e.message.toList ∧ '\r' ∉ e.message.toList := by
  have hfeed : '\n' ∈ lineBreaks := by decide
  have hreturn : '\r' ∈ lineBreaks := by decide
  refine ⟨fun t u => Token.render_injective.eq_iff, fun e f => LexError.message_injective.eq_iff,
    fun t => ?_, fun e => ?_⟩
  · exact ⟨not_mem_of_isLine t.isLine_render hfeed, not_mem_of_isLine t.isLine_render hreturn⟩
  · exact ⟨not_mem_of_isLine e.isLine_message hfeed, not_mem_of_isLine e.isLine_message hreturn⟩

end PoxTokens
