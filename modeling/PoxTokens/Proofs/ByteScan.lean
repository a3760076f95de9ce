import PoxTokens.Proofs.Boundary
import PoxTokens.Proofs.MaximalMunch
import PoxTokens.Proofs.StreamIndex
import PoxTokens.Proofs.Walk

/-!
# PoxTokens.Proofs.ByteScan

Scanning by bytes cuts no character.  What a rule or the table finds at an offset is a
number of bytes; these bytes are a piece of the source (`Slices`), at any offset and
whatever the rule is, and the token is made of that piece.  So a stream only comes to
boundaries, and a report of it is on the place where it stands
(`scan_cuts_no_character`).

Where a character starts a find counts the bytes of a lexeme; of lexemes that begin the
same text the one with more characters has more bytes, so the table finds by bytes what
it selects by characters.  Elsewhere nothing is found.
-/

namespace PoxTokens

/-- A find at an offset of a source, and the token that is made of it: the bytes found
are a piece of the source, and the lexeme is this piece. -/
def Slices (source : String) (offset : Nat) : Option (Kind × Nat) → Option Token → Prop
  | none, token? => token? = none
  | some (kind, size), token? =>
    offset < source.utf8ByteSize ∧
      ∃ piece, IsPiece source offset (offset + size) piece ∧ piece ≠ "" ∧
        token? = some ⟨offset, piece, kind⟩

/-- The find whose bytes are those of a lexeme. -/
def Lexeme.find (l : Lexeme) : Kind × Nat := (l.kind, byteLength l.text)

section
variable {source : String} {offset : Nat} {before after s : List Char}

/-! ## Finds -/

/-- At a boundary a rule finds in the bytes what it finds in the text behind it. -/
theorem Rule.matchBytes?_of_splitAtByte? (rule : Rule)
    (h : splitAtByte? offset source.toList = some (before, after)) :
    rule.matchBytes? source offset = (rule.lexeme? after).map Lexeme.find := by
  rw [matchBytes?, rule.pattern.matchBytes?_of_splitAtByte? h, lexeme?]
  simp only [List.isEmpty_iff]
  split <;> rfl

/-- Inside of a character no rule matches. -/
theorem Rule.matchBytes?_of_splitAtByte?_eq_none (rule : Rule)
    (h : splitAtByte? offset source.toList = none) : rule.matchBytes? source offset = none := by
  rw [matchBytes?, rule.pattern.matchBytes?_of_splitAtByte?_eq_none h]
  rfl

/-- Of two lexemes in front the one that is not chosen can be left out. -/
theorem longest?_cons_cons (l m : Lexeme) (ls : List Lexeme) :
    longest? (l :: m :: ls) =
      if l.text.length < m.text.length then longest? (m :: ls) else longest? (l :: ls) := by
  rw [longest?, longest?, longest?]
  cases longest? ls with
  | none => rfl
  | some n =>
      dsimp only
      by_cases hmn : m.text.length < n.text.length
      · -- among the others `m` is not chosen
        by_cases hlm : l.text.length < m.text.length
        · simp only [if_pos hmn, if_pos hlm, if_pos (Nat.lt_trans hlm hmn)]
        · simp only [if_pos hmn, if_neg hlm]
      · by_cases hlm : l.text.length < m.text.length
        · simp only [if_neg hmn, if_pos hlm]
        · simp only [if_neg hmn, if_neg hlm, if_neg (show ¬l.text.length < n.text.length by omega)]

/-- Lexemes that begin the same text are compared by bytes as by characters. -/
theorem foldl_longerFind {l : Lexeme} {ls : List Lexeme} (h : ∀ m ∈ l :: ls, m.text <+: s) :
    (ls.map Lexeme.find).foldl longerFind (some l.find) = (longest? (l :: ls)).map Lexeme.find := by
  induction ls generalizing l with
  | nil => rfl
  | cons m ls ih =>
      obtain ⟨hl, hm, hls⟩ := by simpa only [List.forall_mem_cons] using h
      have hlt : byteLength l.text < byteLength m.text ↔ l.text.length < m.text.length := by
        have hle := length_utf8Bytes_le_iff hm hl
        rw [length_utf8Bytes, length_utf8Bytes] at hle
        omega
      rw [List.map_cons, List.foldl_cons, longest?_cons_cons, longerFind]
      simp only [Lexeme.find, hlt]
      split
      · exact ih (List.forall_mem_cons.mpr ⟨hm, hls⟩)
      · exact ih (List.forall_mem_cons.mpr ⟨hl, hls⟩)

namespace Policy

/-- The choice needs the lengths of the lexemes only, so it can be made in bytes. -/
theorem chooseFind_map (policy : Policy) {ls : List Lexeme} (h : ∀ l ∈ ls, l.text <+: s) :
    policy.chooseFind (ls.map Lexeme.find) = (policy.choose ls).map Lexeme.find := by
  cases policy with
  | firstMatch => exact List.head?_map
  | longest =>
      cases ls with
      | nil => rfl
      | cons l ls => exact foldl_longerFind h

/-- At a boundary the byte walk selects what the rules select in the text behind it. -/
theorem matchBytes?_of_splitAtByte? (policy : Policy)
    (h : splitAtByte? offset source.toList = some (before, after)) :
    policy.matchBytes? source offset = (policy.select ruleTable after).map Lexeme.find := by
  obtain ⟨heq, hlength⟩ := splitAtByte?_eq_some_iff.mp h
  rw [matchBytes?]
  split
  · next hend =>
    have hafter : after = [] := by
      rw [← byteLength_toList, heq, byteLength_append] at hend
      exact byteLength_eq_zero_iff.mp (by omega)
    rw [hafter, select_nil]
    rfl
  · -- all that the rules find begins the same text, so bytes and characters choose the same
    have hpre : ∀ l ∈ ruleTable.filterMap (·.lexeme? after), l.text <+: after := by
      intro l hl
      obtain ⟨rule, -, hrule⟩ := List.mem_filterMap.mp hl
      exact Rule.isPrefix_of_lexeme? hrule
    simp only [Rule.matchBytes?_of_splitAtByte? _ h]
    rw [select, ← chooseFind_map policy hpre, List.map_filterMap]

/-- Inside of a character the byte walk selects nothing. -/
theorem matchBytes?_of_splitAtByte?_eq_none (policy : Policy)
    (h : splitAtByte? offset source.toList = none) : policy.matchBytes? source offset = none := by
  rw [matchBytes?]
  split
  · rfl
  · simp only [Rule.matchBytes?_of_splitAtByte?_eq_none _ h, List.filterMap_none]
    cases policy <;> rfl

end Policy

/-! ## Pieces -/

/-- The bytes of a lexeme in its place are a piece of the source. -/
theorem slices_of_splitAtByte? (h : splitAtByte? offset source.toList = some (before, after))
    {found : Option Lexeme} (hfound : ∀ l ∈ found, l.text <+: after ∧ l.text ≠ []) :
    Slices source offset (found.map Lexeme.find) (found.map (Lexeme.at offset)) := by
  cases found with
  | none => rfl
  | some l =>
      obtain ⟨heq, hlength⟩ := splitAtByte?_eq_some_iff.mp h
      obtain ⟨⟨rest, rfl⟩, hne⟩ := hfound l rfl
      have hpiece : IsPiece source offset (offset + byteLength l.text) (String.ofList l.text) := by
        refine isPiece_iff.mpr ⟨before, rest, ?_, hlength, ?_⟩
        · rw [String.toList_ofList, heq]
        · rw [String.toList_ofList]
      have hpos : 0 < byteLength l.text := Nat.pos_of_ne_zero (mt byteLength_eq_zero_iff.mp hne)
      refine ⟨?_, _, hpiece, ?_, rfl⟩
      · have hstop := hpiece.stop_le
        omega
      · intro hempty
        exact hne (String.ofList_eq_empty_iff.mp hempty)

/-- Finds that are lexemes where a character starts, and nothing elsewhere, are pieces. -/
theorem slices_bind {find : Option (Kind × Nat)} {lexeme? : List Char → Option Lexeme}
    (hout : splitAtByte? offset source.toList = none → find = none)
    (hin : ∀ before after, splitAtByte? offset source.toList = some (before, after) →
      find = (lexeme? after).map Lexeme.find)
    (hfront : ∀ s, ∀ l ∈ lexeme? s, l.text <+: s ∧ l.text ≠ []) :
    Slices source offset find ((splitAtByte? offset source.toList).bind fun (_, rest) =>
      (lexeme? rest).map (Lexeme.at offset)) := by
  cases hplace : splitAtByte? offset source.toList with
  | none =>
      rw [hout hplace]
      rfl
  | some place =>
      obtain ⟨before, after⟩ := place
      rw [hin before after hplace]
      exact slices_of_splitAtByte? hplace (hfront after)

/-- The token of a rule is cut out of the source where the rule matched in the bytes. -/
theorem Rule.slices (rule : Rule) (source : String) (offset : Nat) :
    Slices source offset (rule.matchBytes? source offset) (rule.token? source offset) :=
  slices_bind rule.matchBytes?_of_splitAtByte?_eq_none
    (fun _ _ => rule.matchBytes?_of_splitAtByte?)
    fun _ _ hl => ⟨isPrefix_of_lexeme? hl, (lexeme?_eq_some_iff.mp hl).2⟩

theorem slices_classify (policy : Policy) (source : String) (offset : Nat) :
    Slices source offset (policy.matchBytes? source offset) (classify policy source offset) :=
  slices_bind policy.matchBytes?_of_splitAtByte?_eq_none
    (fun _ _ => policy.matchBytes?_of_splitAtByte?) fun _ _ => Policy.select_isPrefix

/-- A report on a boundary stays there. -/
theorem LexError.offset_at_of_isBoundary (h : IsBoundary source offset) (width : Nat) :
    (LexError.at source.toList offset width).offset = offset := by
  obtain ⟨before, after, heq, rfl⟩ := isBoundary_iff.mp h
  rw [heq, LexError.at_append]

end

/-! ## Streams -/

/-- What a scan yields at an offset of a source, and the offset where it stands then. -/
inductive Item.FoundAt (options : ScanOptions) (source : String) (offset : Nat) :
    Item → Nat → Prop where
  | token {t : Token} (h : classify options.policy source offset = some t) :
      FoundAt options source offset (.token t) t.stop
  | endMarker (h : offset = source.utf8ByteSize) :
      FoundAt options source offset (.token ⟨offset, "", .eof⟩) offset
  | failure {e : LexError} (h : classify options.policy source offset = none)
      (he : LexError.at source.toList offset options.contextWidth = e) (hstays : e.offset = offset) :
      FoundAt options source offset (.failure e) offset

namespace TokenStream

/-- The streams that a scan of a source comes to, one result after the other. -/
inductive Reached (options : ScanOptions) (source : String) : TokenStream → Prop where
  | start : Reached options source (start options source)
  | next {st st' : TokenStream} {item : Item} (hst : Reached options source st)
      (h : st.next? = some (item, st')) : Reached options source st'

/-- A stream knows what it scans, and stands where the text that is left begins. -/
structure Scans (options : ScanOptions) (source : String) (st : TokenStream) : Prop where
  options_eq : st.options = options
  source_eq : st.source = source.toList
  exists_before : ∃ before, splitAtByte? st.position source.toList = some (before, st.rest)

section
variable {options : ScanOptions} {source : String} {st st' slot : TokenStream} {item : Item}

theorem scans_start (options : ScanOptions) (source : String) :
    Scans options source (start options source) where
  options_eq := rfl
  source_eq := rfl
  exists_before := ⟨[], splitAtByte?_eq_some_iff.mpr ⟨rfl, rfl⟩⟩

/-- One result is what is found where the stream stands, and the stream scans on behind it. -/
theorem Scans.next? (hst : Scans options source st) (h : st.next? = some (item, st')) :
    Scans options source st' ∧ item.FoundAt options source st.position st'.position := by
  obtain ⟨rfl, hsource, before, hplace⟩ := hst
  obtain ⟨heq, hlength⟩ := splitAtByte?_eq_some_iff.mp hplace
  have hclassify : classify st.options.policy source st.position =
      (st.options.policy.select ruleTable st.rest).map (Lexeme.at st.position) := by
    rw [classify, hplace]
    rfl
  rcases next?_cases h with ⟨hrest, rfl, rfl⟩ | ⟨l, hselect, rfl, rfl⟩ | ⟨-, hselect, rfl, rfl⟩
  · have hend : byteLength st.source = st.position := by
      rw [hsource, heq, hrest, List.append_nil, hlength]
    refine ⟨⟨rfl, hsource, before, hplace⟩, ?_⟩
    rw [eofToken, hend]
    refine .endMarker ?_
    rw [← hend, hsource, byteLength_toList]
  · refine ⟨⟨rfl, hsource, before ++ l.text, splitAtByte?_eq_some_iff.mpr ⟨?_, ?_⟩⟩, ?_⟩
    · rw [heq, List.append_assoc, Policy.append_drop_of_select hselect]
    · rw [byteLength_append, hlength]
    · have hstop : st.position + byteLength l.text = (l.at st.position).stop := by
        rw [Token.stop, Token.length, Lexeme.lexeme_at, utf8ByteSize_ofList]
        rfl
      rw [hselect] at hclassify
      exact hstop ▸ .token hclassify
  · rw [hselect] at hclassify
    refine ⟨⟨rfl, hsource, before, hplace⟩, .failure hclassify (by rw [hsource]) ?_⟩
    rw [hsource, LexError.offset_at_of_isBoundary (isBoundary_of_splitAtByte? hplace)]

/-- Every stream that is reached still belongs to the source it started from. -/
theorem Reached.scans (h : Reached options source st) : Scans options source st := by
  induction h with
  | start => exact scans_start options source
  | next _ hnext ih => exact (ih.next? hnext).1

/-- Every stream that is reached stands at a boundary. -/
theorem Reached.isBoundary (h : Reached options source st) : IsBoundary source st.position := by
  obtain ⟨-, -, before, hplace⟩ := h.scans
  exact isBoundary_of_splitAtByte? hplace

/-! ### Scripts -/

theorem Reached.drain (h : Reached options source st) : Reached options source st.drain.2 := by
  induction st using results_induction with
  | stop st hnone =>
      rw [drain_of_next?_eq_none hnone]
      exact h
  | next st item st' hnext ih =>
      rw [drain_of_next?_eq_some hnext]
      exact ih (h.next hnext)

/-- An operation leaves reached streams, and shows the position of the one in use. -/
theorem Reached.step (h : Reached options source st) (hslot : Reached options source slot)
    (op : StreamOp) :
    ∃ answer taken st' slot', StreamOp.step st slot op = (⟨answer, st'.position, taken⟩, st', slot') ∧
      Reached options source st' ∧ Reached options source slot' := by
  cases op with
  | next =>
      cases hnext : st.next? with
      | none => exact ⟨.nothing, [], st, slot, by rw [StreamOp.step_eq, hnext], h, hslot⟩
      | some p =>
          obtain ⟨item, st'⟩ := p
          exact ⟨.item item, [item], st', slot, by rw [StreamOp.step_eq, hnext],
            h.next hnext, hslot⟩
  | rest => exact ⟨_, _, st.drain.2, slot, StreamOp.step_eq st slot .rest, h.drain, hslot⟩
  | count => exact ⟨_, _, st.drain.2, slot, StreamOp.step_eq st slot .count, h.drain, hslot⟩
  | position => exact ⟨_, _, st, slot, StreamOp.step_eq st slot .position, h, hslot⟩
  | save => exact ⟨_, _, st, st, StreamOp.step_eq st slot .save, h, h⟩
  | restore => exact ⟨_, _, slot, slot, StreamOp.step_eq st slot .restore, hslot, hslot⟩

/-- Whatever the operations do, each position that they show is a boundary. -/
theorem Reached.isBoundary_of_mem_runFrom (h : Reached options source st)
    (hslot : Reached options source slot) {ops : List StreamOp} {shown : StreamStep}
    (hshown : shown ∈ StreamOp.runFrom st slot ops) : IsBoundary source shown.position := by
  induction ops generalizing st slot with
  | nil => contradiction
  | cons op ops ih =>
      obtain ⟨answer, taken, st', slot', hstep, hst', hslot'⟩ := h.step hslot op
      rw [StreamOp.runFrom_cons, hstep] at hshown
      rcases List.mem_cons.mp hshown with rfl | hmem
      · exact hst'.isBoundary
      · exact ih hst' hslot' hmem

end

end TokenStream

/-- **Whole characters**: the bytes that a rule or the table finds at any offset of a source
are a piece of it, and the token is made of them.  A scan only comes to boundaries: what it
yields is what the table finds there, and a report stays there.  From any offset the search
for a boundary finds one. -/
theorem scan_cuts_no_character (source : String) :
    (∀ (rule : Rule) offset,
      Slices source offset (rule.matchBytes? source offset) (rule.token? source offset)) ∧
    (∀ policy offset,
      Slices source offset (Policy.matchBytes? policy source offset)
        (classify policy source offset)) ∧
    (∀ options st, TokenStream.Reached options source st →
      IsBoundary source st.position ∧
        ∀ item st', st.next? = some (item, st') →
          item.FoundAt options source st.position st'.position) ∧
    (∀ options ops, ∀ shown ∈ StreamOp.run options source ops,
      IsBoundary source shown.position) ∧
    ∀ offset width, stepBack? source (min offset source.utf8ByteSize) =
      some (LexError.at source.toList offset width).offset := by
  refine ⟨fun rule => rule.slices source, fun policy => slices_classify policy source,
    fun options st h => ⟨h.isBoundary, fun item st' hnext => (h.scans.next? hnext).2⟩,
    fun options ops shown hshown => ?_, fun offset width => ?_⟩
  · exact TokenStream.Reached.start.isBoundary_of_mem_runFrom .start hshown
  · obtain ⟨place, hplace⟩ := exists_stepBack?_eq_some source (min offset source.utf8ByteSize)
    have hboundary := (stepBack?_eq_some_iff.mp hplace).1.1
    rw [LexError.at_of_stepBack? width hplace, LexError.offset_at_of_isBoundary hboundary, hplace]

/-- A string with a character of two bytes, and a character behind it that no rule matches. -/
theorem scan_cuts_no_character_string :
    let source := "\"é\"@"
    let behind : TokenStream :=
      { TokenStream.start {} source with rest := source.toList.drop 3, position := 4 }
    TokenStream.Reached {} source behind ∧ IsBoundary source 4 ∧
      ∃ e st', behind.next? = some (.failure e, st') ∧ e = ⟨4, "\"é\"", '@'⟩ ∧
        Item.FoundAt {} source 4 (.failure e) 4 := by
  intro source behind
  obtain ⟨-, -, hstreams, -⟩ := scan_cuts_no_character source
  have hselect : (TokenStream.start {} source).options.policy.select ruleTable
      (TokenStream.start {} source).rest = some ⟨.string, ['"', 'é', '"']⟩ := by decide +kernel
  have hfirst := TokenStream.next?_of_select_eq_some rfl hselect
  have hreached : TokenStream.Reached {} source behind := .next .start hfirst
  have hsecond := TokenStream.next?_of_select_eq_none (show behind.ended = false from rfl)
    (show source.toList.drop 3 ≠ [] by decide +kernel)
    (show Policy.longest.select ruleTable (source.toList.drop 3) = none by decide +kernel)
  obtain ⟨hboundary, hfound⟩ := hstreams _ _ hreached
  exact ⟨hreached, hboundary, _, _, hsecond, by decide +kernel, hfound _ _ hsecond⟩

end PoxTokens
