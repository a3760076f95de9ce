import PoxTokens.Proofs.TomlText

/-!
# PoxTokens.Proofs.TomlLayout

The layout of a plain TOML document.  A line is empty, opens a table or gives a name a value;
blanks may stand between its parts and around them, and a comment behind them.  Lines end with
either line break, and the last one may do without (`Written`).  Whatever the layout, the text is
read as the table that its statements build up (`Written.read_eq`); and statements that open
tables with different names, each with entries of different names, build up these tables
(`ofStatements?_sections`).
-/

namespace PoxTokens.Toml

/-! ## Lines -/

/-- Spaces and tabs. -/
def Blanks (cs : List Char) : Prop := ∀ c ∈ cs, isBlank c

theorem blanks_nil : Blanks [] := fun _ h => nomatch h

theorem blanks_space : Blanks [' '] := fun _ h => List.mem_singleton.mp h ▸ rfl

/-- What may stand on a line behind all else: blanks, and perhaps a comment. -/
inductive LineEnd : List Char → Prop where
  | blanks {blanks : List Char} (h : Blanks blanks) : LineEnd blanks
  | comment {blanks text : List Char} (h : Blanks blanks) (htext : ∀ c ∈ text, isTextChar c) :
      LineEnd (blanks ++ '#' :: text)

theorem lineEnd_nil : LineEnd [] := .blanks blanks_nil

/-- A line without its line break, and the statements that it makes. -/
inductive Line : List Char → List Statement → Prop where
  | empty {last : List Char} (hlast : LineEnd last) : Line last []
  | header {b₁ b₂ b₃ name last : List Char} (h₁ : Blanks b₁) (h₂ : Blanks b₂) (h₃ : Blanks b₃)
      (hname : IsName name) (hlast : LineEnd last) :
      Line (b₁ ++ '[' :: (b₂ ++ (name ++ (b₃ ++ ']' :: last)))) [.header [String.ofList name]]
  | entry {b₁ b₂ b₃ name text last : List Char} {v : Value} (h₁ : Blanks b₁) (h₂ : Blanks b₂)
      (h₃ : Blanks b₃) (hname : IsName name) (hvalue : WritesValue text v)
      (hlast : LineEnd last) :
      Line (b₁ ++ (name ++ (b₂ ++ '=' :: (b₃ ++ (text ++ last))))) [.entry [String.ofList name] v]

/-- A header without blanks. -/
theorem Line.plainHeader {name : String} (hname : IsName name.toList) :
    Line ('[' :: (name.toList ++ [']'])) [.header [name]] := by
  have h := Line.header blanks_nil blanks_nil blanks_nil hname lineEnd_nil
  rwa [String.ofList_toList] at h

/-- An entry with a space on either side of the equals sign. -/
theorem Line.plainEntry {name : String} {text : List Char} {v : Value}
    (hname : IsName name.toList) (hvalue : WritesValue text v) :
    Line (name.toList ++ " = ".toList ++ text) [.entry [name] v] := by
  have h := Line.entry blanks_nil blanks_space blanks_space hname hvalue lineEnd_nil
  rw [String.ofList_toList, List.append_nil] at h
  rw [List.append_assoc]
  exact h

/-- The end of a text, or a line break. -/
def EndsLine (rest : List Char) : Prop := leads (· != '\n') rest = false

theorem endsLine_nil : EndsLine [] := rfl

theorem endsLine_newline (rest : List Char) : EndsLine ('\n' :: rest) := rfl

theorem EndsLine.stops {rest : List Char} (h : EndsLine rest) : Stops rest := by
  cases rest with
  | nil => exact ⟨rfl, rfl, rfl⟩
  | cons c rest =>
      have hc : c = '\n' := by simpa [EndsLine] using h
      subst hc
      exact ⟨rfl, rfl, rfl⟩

theorem EndsLine.leads_isBlank {rest : List Char} (h : EndsLine rest) :
    leads isBlank rest = false := by
  cases rest with
  | nil => rfl
  | cons c rest =>
      have hc : c = '\n' := by simpa [EndsLine] using h
      subst hc
      rfl

namespace LineEnd
variable {last rest : List Char}

/-- The end of a line leaves the token of its blanks. -/
theorem exists_tokens (h : LineEnd last) : ∃ blanks, ∀ {rest}, EndsLine rest →
    tokens? (last ++ rest) = (tokens? rest).map (blankTokens blanks ++ ·) := by
  cases h with
  | blanks h => exact ⟨last, fun hrest => tokens?_blanks h hrest.leads_isBlank⟩
  | @comment blanks text h htext =>
      refine ⟨blanks, fun hrest => ?_⟩
      rw [List.append_assoc, List.cons_append, tokens?_blanks h rfl, tokens?_comment htext hrest]

theorem stops (h : LineEnd last) (hrest : EndsLine rest) : Stops (last ++ rest) := by
  cases h with
  | blanks h => exact hrest.stops.blanks h
  | comment h htext =>
      rw [List.append_assoc]
      exact Stops.blanks h ⟨rfl, rfl, rfl⟩

end LineEnd

/-! ## Places -/

/-- Tokens lead from a place in a document to another one. -/
def Reaches (place : Place) (tokens : List Token) (last : Place) : Prop :=
  tokens.foldlM Place.step? place = some last

namespace Reaches
variable {place middle last : Place} {token : Token} {tokens tokens' : List Token}

theorem nil (place : Place) : Reaches place [] place := rfl

theorem cons (h : place.step? token = some middle) (h' : Reaches middle tokens last) :
    Reaches place (token :: tokens) last := by
  rw [Reaches, List.foldlM_cons, h]
  exact h'

theorem append (h : Reaches place tokens middle) (h' : Reaches middle tokens' last) :
    Reaches place (tokens ++ tokens') last := by
  rw [Reaches, List.foldlM_append, h]
  exact h'

/-- Blanks change nothing where one blank changes nothing. -/
theorem blanks (h : place.step? .blank = some place) (blanks : List Char) :
    Reaches place (blankTokens blanks) place := by
  cases blanks with
  | nil => exact nil place
  | cons c blanks => exact cons h (nil place)

/-- In a header and in a key, blanks are kept until it is complete. -/
theorem keptBlanks {mode : List Token → Mode} {statements : List Statement}
    (h : ∀ tokens, Place.step? ⟨statements, mode tokens⟩ .blank =
      some ⟨statements, mode (.blank :: tokens)⟩) (blanks : List Char) (tokens : List Token) :
    Reaches ⟨statements, mode tokens⟩ (blankTokens blanks)
      ⟨statements, mode (blankTokens blanks ++ tokens)⟩ := by
  cases blanks with
  | nil => exact nil _
  | cons c blanks => exact cons (h tokens) (nil _)

end Reaches

theorem reverse_blankTokens (blanks : List Char) :
    (blankTokens blanks).reverse = blankTokens blanks := by
  cases blanks <;> rfl

/-- A line is read: from the start of a line it leads behind its statements, to the start or
the end of a line. -/
structure LineReads (line : List Char) (statements : List Statement) : Prop where
  unbroken : '\r' ∉ line
  unmarked : leads (· == '\ufeff') line = false
  reads : ∃ tokens,
    (∀ {rest}, EndsLine rest → tokens? (line ++ rest) = (tokens? rest).map (tokens ++ ·)) ∧
    ∀ before, ∃ mode, (mode = .lineStart ∨ mode = .lineEnd) ∧
      Reaches ⟨before, .lineStart⟩ tokens ⟨statements.reverse ++ before, mode⟩

theorem Blanks.unbroken {blanks : List Char} (h : Blanks blanks) : '\r' ∉ blanks := by
  intro hmem
  have hblank := h _ hmem
  contradiction

/-- What may stand at the end of a line has no carriage return in it. -/
theorem LineEnd.unbroken {last : List Char} (h : LineEnd last) : '\r' ∉ last := by
  cases h with
  | blanks h => exact h.unbroken
  | comment h htext =>
      intro hmem
      rw [List.mem_append, List.mem_cons] at hmem
      rcases hmem with hmem | heq | hmem
      · exact h.unbroken hmem
      · contradiction
      · have hchar := htext _ hmem
        contradiction

theorem IsName.unbroken {name : List Char} (h : IsName name) : '\r' ∉ name := by
  intro hmem
  have hchar := h.chars _ hmem
  contradiction

theorem Blanks.unmarked {blanks rest : List Char} (h : Blanks blanks)
    (hrest : leads (· == '\ufeff') rest = false) :
    leads (· == '\ufeff') (blanks ++ rest) = false := by
  cases blanks with
  | nil => exact hrest
  | cons c blanks =>
      rw [List.cons_append, leads_cons, beq_eq_false_iff_ne]
      rintro rfl
      have hblank := h _ List.mem_cons_self
      contradiction

theorem IsName.unmarked {name : List Char} (h : IsName name) (rest : List Char) :
    leads (· == '\ufeff') (name ++ rest) = false := by
  cases name with
  | nil => exact absurd rfl h.ne_nil
  | cons c name =>
      rw [List.cons_append, leads_cons, beq_eq_false_iff_ne]
      rintro rfl
      have hchar := h.chars _ List.mem_cons_self
      contradiction

theorem lineReads_empty {last : List Char} (hlast : LineEnd last) : LineReads last [] where
  unbroken := hlast.unbroken
  unmarked := by
    cases hlast with
    | blanks h => exact List.append_nil last ▸ Blanks.unmarked h rfl
    | comment h htext => exact h.unmarked rfl
  reads := by
    obtain ⟨blanks, htokens⟩ := hlast.exists_tokens
    exact ⟨blankTokens blanks, htokens, fun before =>
      ⟨.lineStart, .inl rfl, .blanks rfl blanks⟩⟩

/-- A header is read, however its name is spaced. -/
theorem lineReads_header {b₁ b₂ b₃ name last : List Char} (h₁ : Blanks b₁) (h₂ : Blanks b₂)
    (h₃ : Blanks b₃) (hname : IsName name) (hlast : LineEnd last) :
    LineReads (b₁ ++ '[' :: (b₂ ++ (name ++ (b₃ ++ ']' :: last)))) [.header [String.ofList name]]
    where
  unbroken := by
    simp [h₁.unbroken, h₂.unbroken, h₃.unbroken, hname.unbroken, hlast.unbroken]
  unmarked := h₁.unmarked rfl
  reads := by
    obtain ⟨blanks, htokens⟩ := hlast.exists_tokens
    refine ⟨blankTokens b₁ ++ .openBracket :: (blankTokens b₂ ++ .bare name ::
      (blankTokens b₃ ++ .closeBracket :: blankTokens blanks)), fun {rest} hrest => ?_,
      fun before => ⟨.lineEnd, .inr rfl, ?_⟩⟩
    · simp only [List.append_assoc, List.cons_append]
      rw [tokens?_blanks h₁ rfl, tokens?_mark rfl,
        tokens?_blanks h₂ (leads_isBlank_append hname.ne_nil hname.isBareChar _),
        hname.tokens? (Stops.blanks h₃ ⟨rfl, rfl, rfl⟩), tokens?_blanks h₃ rfl, tokens?_mark rfl,
        htokens hrest]
      cases tokens? rest <;> simp
    · have hclose : Place.step?
          ⟨before, .header false (blankTokens b₃ ++ .bare name :: (blankTokens b₂ ++ []))⟩
          .closeBracket = some ⟨.header [String.ofList name] :: before, .lineEnd⟩ := by
        simp [Place.step?, Place.stepHeader?, reverse_blankTokens, hname.path?_eq,
          Place.behindStatement]
      exact (Reaches.blanks rfl b₁).append (.cons rfl ((Reaches.keptBlanks (fun _ => rfl) b₂
        []).append (.cons rfl ((Reaches.keptBlanks (fun _ => rfl) b₃ _).append (.cons hclose
          (.blanks rfl blanks))))))

/-- An entry is read, however its name and its value are spaced. -/
theorem lineReads_entry {b₁ b₂ b₃ name text last : List Char} {v : Value} (h₁ : Blanks b₁)
    (h₂ : Blanks b₂) (h₃ : Blanks b₃) (hname : IsName name) (hvalue : Denotes text v)
    (hlast : LineEnd last) :
    LineReads (b₁ ++ (name ++ (b₂ ++ '=' :: (b₃ ++ (text ++ last)))))
      [.entry [String.ofList name] v] where
  unbroken := by
    simp [h₁.unbroken, h₂.unbroken, h₃.unbroken, hname.unbroken, hvalue.unbroken, hlast.unbroken]
  unmarked := h₁.unmarked (hname.unmarked _)
  reads := by
    obtain ⟨blanks, htokens⟩ := hlast.exists_tokens
    obtain ⟨token, htoken, hstep⟩ := hvalue.reads
    refine ⟨blankTokens b₁ ++ .bare name :: (blankTokens b₂ ++ .equals :: (blankTokens b₃ ++
      token :: blankTokens blanks)), fun {rest} hrest => ?_,
      fun before => ⟨.lineEnd, .inr rfl, ?_⟩⟩
    · simp only [List.append_assoc, List.cons_append]
      rw [tokens?_blanks h₁ (leads_isBlank_append hname.ne_nil hname.isBareChar _),
        hname.tokens? (Stops.blanks h₂ ⟨rfl, rfl, rfl⟩), tokens?_blanks h₂ rfl, tokens?_mark rfl,
        tokens?_blanks h₃ (hvalue.leads _), htoken (hlast.stops hrest), htokens hrest]
      cases tokens? rest <;> simp
    · have hequals : Place.step? ⟨before, .key (blankTokens b₂ ++ [.bare name])⟩ .equals =
          some ⟨before, .value [.entry [String.ofList name]]⟩ := by
        have hpath : path? (.bare name :: blankTokens b₂) = some [String.ofList name] :=
          hname.path?_eq [] b₂
        simp [Place.step?, Place.stepKey?, reverse_blankTokens, hpath]
      exact (Reaches.blanks rfl b₁).append (.cons rfl ((Reaches.keptBlanks (fun _ => rfl) b₂
        _).append (.cons hequals ((Reaches.blanks rfl b₃).append (.cons (hstep before _)
          (.blanks rfl blanks))))))

/-- Every line is read as the statements that it writes. -/
theorem Line.reads {line : List Char} {statements : List Statement} (h : Line line statements) :
    LineReads line statements := by
  cases h with
  | empty hlast => exact lineReads_empty hlast
  | header h₁ h₂ h₃ hname hlast => exact lineReads_header h₁ h₂ h₃ hname hlast
  | entry h₁ h₂ h₃ hname hvalue hlast =>
      exact lineReads_entry h₁ h₂ h₃ hname hvalue.denotes hlast

/-! ## Texts -/

/-- A text of lines, and the statements that they make. -/
inductive Written : List Char → List Statement → Prop where
  | last {line : List Char} {statements : List Statement} (h : Line line statements) :
      Written line statements
  | next {line lineBreak rest : List Char} {statements more : List Statement}
      (h : Line line statements) (hbreak : lineBreak ∈ [['\n'], ['\r', '\n']])
      (hrest : Written rest more) : Written (line ++ (lineBreak ++ rest)) (statements ++ more)

theorem plainLines?_append {line : List Char} (h : '\r' ∉ line) (rest : List Char) :
    plainLines? (line ++ rest) = (plainLines? rest).map (line ++ ·) := by
  induction line with
  | nil => simp
  | cons c line ih =>
      rw [List.mem_cons, not_or] at h
      rw [List.cons_append, plainLines?, ih h.2, Option.map_map]
      · rfl
      · simp [Ne.symm h.1]
      · simp [Ne.symm h.1]

/-- A written text begins with no mark of the byte order. -/
theorem Written.unmarked {text : List Char} {statements : List Statement}
    (h : Written text statements) : leads (· == '\ufeff') text = false := by
  have hline : ∀ {line lineBreak rest : List Char}, leads (· == '\ufeff') line = false →
      lineBreak ∈ [['\n'], ['\r', '\n']] →
        leads (· == '\ufeff') (line ++ (lineBreak ++ rest)) = false := by
    intro line lineBreak rest hline hbreak
    cases line with
    | nil =>
        simp only [List.mem_cons, List.not_mem_nil, or_false] at hbreak
        rcases hbreak with rfl | rfl <;> rfl
    | cons c line => exact hline
  cases h with
  | last h => exact h.reads.unmarked
  | next h hbreak hrest => exact hline h.reads.unmarked hbreak

/-- A text is read line by line. -/
theorem Written.exists_tokens {text : List Char} {statements : List Statement}
    (h : Written text statements) :
    ∃ plain tokens, plainLines? text = some plain ∧ tokens? plain = some tokens ∧
      ∀ before, ∃ mode, (mode = .lineStart ∨ mode = .lineEnd) ∧
        Reaches ⟨before, .lineStart⟩ tokens ⟨statements.reverse ++ before, mode⟩ := by
  induction h with
  | @last line statements h =>
      obtain ⟨tokens, htokens, hreaches⟩ := h.reads.reads
      have hplain := plainLines?_append h.reads.unbroken []
      have hall := htokens endsLine_nil
      rw [List.append_nil] at hplain hall
      refine ⟨line, tokens, ?_, ?_, hreaches⟩
      · simpa [plainLines?] using hplain
      · simpa [tokens?] using hall
  | @next line lineBreak rest statements more h hbreak hrest ih =>
      obtain ⟨tokens, htokens, hreaches⟩ := h.reads.reads
      obtain ⟨plain, tokens', hplain, htokens', hreaches'⟩ := ih
      have hline : plainLines? (lineBreak ++ rest) = some ('\n' :: plain) := by
        simp only [List.mem_cons, List.not_mem_nil, or_false] at hbreak
        rcases hbreak with rfl | rfl
        · simp [plainLines?, hplain]
        · simp [plainLines?, hplain]
      refine ⟨line ++ '\n' :: plain, tokens ++ .newline :: tokens', ?_, ?_, fun before => ?_⟩
      · rw [plainLines?_append h.reads.unbroken, hline]
        rfl
      · rw [htokens (endsLine_newline plain), tokens?_mark rfl, htokens']
        rfl
      · obtain ⟨mode, hmode, hfirst⟩ := hreaches before
        obtain ⟨mode', hmode', hlater⟩ := hreaches' (statements.reverse ++ before)
        rw [← List.append_assoc, ← List.reverse_append] at hlater
        have hbreak : Place.step? ⟨statements.reverse ++ before, mode⟩ .newline =
            some ⟨statements.reverse ++ before, .lineStart⟩ := by
          rcases hmode with rfl | rfl <;> rfl
        exact ⟨mode', hmode', hfirst.append (.cons hbreak hlater)⟩

/-- A text is read as the table that its statements build up, whatever its layout. -/
theorem Written.read_eq {text : List Char} {statements : List Statement}
    (h : Written text statements) {table : Table}
    (htable : Table.ofStatements? statements = some table) :
    read (String.ofList text) = .ok table := by
  obtain ⟨plain, tokens, hplain, htokens, hreaches⟩ := h.exists_tokens
  obtain ⟨mode, hmode, hrun⟩ := hreaches []
  have hmark : dropByteOrderMark text = text := by
    unfold dropByteOrderMark
    split
    · have hunmarked := h.unmarked
      contradiction
    · rfl
  have hstatements : statements? tokens = some statements := by
    rw [Reaches, List.append_nil] at hrun
    rw [statements?, hrun]
    rcases hmode with rfl | rfl <;> simp [Place.finish?]
  rw [read, String.toList_ofList, hmark, hplain, Option.bind_some, htokens]
  dsimp only
  rw [hstatements]
  dsimp only
  rw [htable]

/-! ## Tables -/

/-- What opens a table and gives it its entries. -/
def tableStatements : String × Table → List Statement
  | (name, entries) => .header [name] :: entries.map fun (key, v) => .entry [key] v

/-- A table that its own header opens. -/
def headerTable : String × Table → String × Value
  | (name, entries) => (name, .table .header entries)

theorem alter_append_of_not_mem {name : String} {before : Table} (h : name ∉ before.map (·.1))
    (f : Option Value → Option Value) (rest : Table) :
    Table.alter name f (before ++ rest) = (Table.alter name f rest).map (before ++ ·) := by
  induction before with
  | nil => simp
  | cons entry before ih =>
      obtain ⟨key, v⟩ := entry
      rw [List.map_cons, List.mem_cons, not_or] at h
      rw [List.cons_append, Table.alter, if_neg (Ne.symm h.1), ih h.2, Option.map_map]
      rfl

/-- A new name comes last. -/
theorem alter_of_not_mem {name : String} {table : Table} (h : name ∉ table.map (·.1))
    (f : Option Value → Option Value) :
    Table.alter name f table = (f none).map fun v => table ++ [(name, v)] := by
  have halter := alter_append_of_not_mem h f []
  rw [List.append_nil, Table.alter, Option.map_map] at halter
  exact halter

/-- A new name is inserted behind the others. -/
theorem insert?_of_not_mem {name : String} {table : Table} (h : name ∉ table.map (·.1))
    (v : Value) : insert? [name] v table = some (table ++ [(name, v)]) := by
  rw [insert?, alter_of_not_mem h]
  rfl

section
variable {before : Table} {name : String} (hname : name ∉ before.map (·.1))
include hname

/-- A header that is new opens an empty table. -/
theorem add?_header (header : Path) :
    Draft.add? ⟨before, header⟩ (.header [name]) =
      some ⟨before ++ [headerTable (name, [])], [name]⟩ := by
  rw [Draft.add?, Table.openHeader?, Table.alterAt?, alter_of_not_mem hname]
  rfl

/-- A new key is entered at the end of the open table. -/
theorem add?_entry {table : Table} {key : String} (hkey : key ∉ table.map (·.1)) (v : Value) :
    Draft.add? ⟨before ++ [headerTable (name, table)], [name]⟩ (.entry [key] v) =
      some ⟨before ++ [headerTable (name, table ++ [(key, v)])], [name]⟩ := by
  have hinsert : Table.insertUnder? [name] [key] v (before ++ [headerTable (name, table)]) =
      some (before ++ [headerTable (name, table ++ [(key, v)])]) := by
    rw [Table.insertUnder?, Table.alterAt?, alter_append_of_not_mem hname, headerTable,
      Table.alter, if_pos rfl]
    · dsimp only
      rw [insert?_of_not_mem hkey]
      rfl
    · simp
  rw [Draft.add?]
  dsimp only
  rw [hinsert]
  rfl

/-- **The entries of a table** are entered one by one. -/
theorem foldlM_entries {table entries : Table}
    (hkeys : ((table ++ entries).map (·.1)).Nodup) :
    (entries.map fun (key, v) => Statement.entry [key] v).foldlM Draft.add?
        ⟨before ++ [headerTable (name, table)], [name]⟩ =
      some ⟨before ++ [headerTable (name, table ++ entries)], [name]⟩ := by
  induction entries generalizing table with
  | nil => rw [List.append_nil]; rfl
  | cons entry entries ih =>
      obtain ⟨key, v⟩ := entry
      have hkey : key ∉ table.map (·.1) := by
        rw [List.map_append, List.nodup_append] at hkeys
        intro hmem
        exact hkeys.2.2 key hmem key List.mem_cons_self rfl
      have hassoc : table ++ (key, v) :: entries = (table ++ [(key, v)]) ++ entries := by simp
      rw [hassoc] at hkeys ⊢
      rw [List.map_cons, List.foldlM_cons, add?_entry hname hkey]
      exact ih hkeys

end

/-- **The tables of a document** are entered one by one. -/
theorem foldlM_sections {before : Table} {sections : List (String × Table)} {header : Path}
    (hnames : (before.map (·.1) ++ sections.map (·.1)).Nodup)
    (hkeys : ∀ table ∈ sections, (table.2.map (·.1)).Nodup) :
    ((sections.flatMap tableStatements).foldlM Draft.add? ⟨before, header⟩).map (·.root) =
      some (before ++ sections.map headerTable) := by
  induction sections generalizing before header with
  | nil => simp
  | cons first sections ih =>
      obtain ⟨name, entries⟩ := first
      obtain ⟨hfirst, hmore⟩ := List.forall_mem_cons.mp hkeys
      have hname : name ∉ before.map (·.1) := by
        rw [List.nodup_append] at hnames
        intro hmem
        exact hnames.2.2 name hmem name List.mem_cons_self rfl
      have hrest : ((before ++ [headerTable (name, entries)]).map (·.1) ++
          sections.map (·.1)).Nodup := by
        simpa [headerTable] using hnames
      have hentries := @foldlM_entries before name hname [] entries hfirst
      rw [List.nil_append] at hentries
      rw [List.flatMap_cons, tableStatements, List.cons_append, List.foldlM_cons,
        add?_header hname, Option.bind_eq_bind, Option.bind_some, List.foldlM_append,
        hentries, Option.bind_eq_bind, Option.bind_some, ih hrest hmore, List.map_cons,
        List.append_assoc, List.singleton_append]

/-- Headers and entries of different names build up the tables that they say. -/
theorem ofStatements?_sections {sections : List (String × Table)}
    (hnames : (sections.map (·.1)).Nodup)
    (hkeys : ∀ table ∈ sections, (table.2.map (·.1)).Nodup) :
    Table.ofStatements? (sections.flatMap tableStatements) = some (sections.map headerTable) :=
  @foldlM_sections [] sections [] hnames hkeys

end PoxTokens.Toml
