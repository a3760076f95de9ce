import PoxTokens.Toml.Key
import PoxTokens.Toml.Scalar

/-!
# PoxTokens.Toml.Statement

The statements of a TOML document: headers and entries.  The reader goes through
the tokens once.  It remembers the part of a statement that it is in and, inside
of a value, a stack of frames, one for each array or inline table that is still
open; the entry itself lies at the bottom of the stack.
-/

namespace PoxTokens.Toml

/-- A statement of a document. -/
inductive Statement where
  /-- `[path]`: the entries that follow belong to this table. -/
  | header (path : Path)
  /-- `[[path]]`: the entries that follow belong to one more table of this
  name. -/
  | arrayHeader (path : Path)
  /-- `path = value`. -/
  | entry (path : Path) (value : Value)

/-! ## Entries with dotted keys -/

/-- Adds an entry to a table.  The names before the last one lead through tables
that dotted keys have made, and make those that are missing; they may lead
further through a table that only headers imply, or the last of an array of
tables, but not add to it directly.  The last name must be new. -/
def insert? : Path → Value → Table → Option Table
  | [], _, _ => none
  | [name], v, table => Table.alter name (fun old => if old.isSome then none else some v) table
  | name :: next :: path, v, table =>
    Table.alter name (fun old =>
      match old with
      | none => (insert? (next :: path) v []).map (.table .dotted)
      | some (.table .dotted inner) => (insert? (next :: path) v inner).map (.table .dotted)
      | some (.table .implied inner) =>
        if path.isEmpty then none else (insert? (next :: path) v inner).map (.table .implied)
      | some (.tables earlier last) =>
        if path.isEmpty then none else (insert? (next :: path) v last).map (.tables earlier)
      | some _ => none) table

/-! ## Places in a document -/

/-- What is open around a value; what is complete in it stands in reverse, but
for the entries of an inline table. -/
inductive Frame where
  | entry (path : Path)
  | array (items : List Value)
  | inline (entries : Table)
  /-- An inline table with the key whose value is next. -/
  | inlineEntry (entries : Table) (path : Path)

/-- The part of a statement in which a token may stand.  Tokens of a key stand in
reverse until the key is complete. -/
inductive Mode where
  | lineStart
  /-- Behind a complete statement. -/
  | lineEnd
  /-- Inside the brackets of a header. -/
  | header (double : Bool) (tokens : List Token)
  /-- Between the closing brackets of a header in double brackets. -/
  | headerEnd (path : Path)
  | key (tokens : List Token)
  /-- Where a value may start. -/
  | value (stack : List Frame)
  /-- Behind a value inside of an array or inline table. -/
  | behindValue (stack : List Frame)
  /-- In the key of an entry of an inline table, which may also end here if it
  has no entry yet. -/
  | inlineKey (first : Bool) (tokens : List Token) (entries : Table) (stack : List Frame)

/-- The statements so far, in reverse, and the part of the next one. -/
structure Place where
  statements : List Statement
  mode : Mode

namespace Place

/-- The place behind a complete statement. -/
def behindStatement (statements : List Statement) (s : Statement) : Place :=
  ⟨s :: statements, .lineEnd⟩

/-- The place behind a complete value. -/
def behind? (statements : List Statement) : List Frame → Value → Option Place
  | .entry path :: _, v => some (behindStatement statements (.entry path v))
  | .array items :: stack, v => some ⟨statements, .behindValue (.array (v :: items) :: stack)⟩
  | .inlineEntry entries path :: stack, v =>
    (insert? path v entries).map fun entries =>
      ⟨statements, .behindValue (.inline entries :: stack)⟩
  | _, _ => none

/-- Opens one more array or inline table, if the nesting allows it. -/
def open? (statements : List Statement) (stack : List Frame) (mode : Mode) : Option Place :=
  if stack.length < nestingLimit then some ⟨statements, mode⟩ else none

/-- The place behind a token where a statement may start. -/
def stepLineStart? (statements : List Statement) : Token → Option Place
  | .newline => some ⟨statements, .lineStart⟩
  | .blank => some ⟨statements, .lineStart⟩
  | .openBracket => some ⟨statements, .header false []⟩
  | .bare text => some ⟨statements, .key [.bare text]⟩
  | .line text => some ⟨statements, .key [.line text]⟩
  | _ => none

/-- The place behind a token behind a complete statement. -/
def stepLineEnd? (statements : List Statement) : Token → Option Place
  | .newline => some ⟨statements, .lineStart⟩
  | .blank => some ⟨statements, .lineEnd⟩
  | _ => none

/-- The place behind a token inside of the brackets of a header.  A second
bracket must touch the first one. -/
def stepHeader? (statements : List Statement) (double : Bool) (tokens : List Token) :
    Token → Option Place
  | .openBracket =>
    if !double && tokens.isEmpty then some ⟨statements, .header true []⟩ else none
  | .closeBracket => do
    let path ← path? tokens.reverse
    if double then some ⟨statements, .headerEnd path⟩
    else some (behindStatement statements (.header path))
  | token => some ⟨statements, .header double (token :: tokens)⟩

/-- The place behind a token between the closing brackets of a header. -/
def stepHeaderEnd? (statements : List Statement) (path : Path) : Token → Option Place
  | .closeBracket => some (behindStatement statements (.arrayHeader path))
  | _ => none

/-- The place behind a token of a key. -/
def stepKey? (statements : List Statement) (tokens : List Token) : Token → Option Place
  | .equals => (path? tokens.reverse).map fun path => ⟨statements, .value [.entry path]⟩
  | token => some ⟨statements, .key (token :: tokens)⟩

/-- The place behind a token where a value may start.  Inside of an array, lines
may end and the array may be closed. -/
def stepValue? (statements : List Statement) (stack : List Frame) (token : Token) :
    Option Place :=
  match token, stack with
  | .blank, _ => some ⟨statements, .value stack⟩
  | .newline, .array _ :: _ => some ⟨statements, .value stack⟩
  | .closeBracket, .array items :: outer => behind? statements outer (.array items.reverse)
  | .bare text, _ => do
    let v ← scalar? text
    behind? statements stack v
  | .line text, _ => behind? statements stack (.string (String.ofList text))
  | .block text, _ => behind? statements stack (.string (String.ofList text))
  | .openBracket, _ => open? statements stack (.value (.array [] :: stack))
  | .openBrace, _ => open? statements stack (.inlineKey true [] [] stack)
  | _, _ => none

/-- The place behind a token behind a value of an array or inline table. -/
def stepBehindValue? (statements : List Statement) (stack : List Frame) (token : Token) :
    Option Place :=
  match token, stack with
  | .blank, _ => some ⟨statements, .behindValue stack⟩
  | .newline, .array _ :: _ => some ⟨statements, .behindValue stack⟩
  | .comma, .array _ :: _ => some ⟨statements, .value stack⟩
  | .closeBracket, .array items :: outer => behind? statements outer (.array items.reverse)
  | .comma, .inline entries :: outer => some ⟨statements, .inlineKey false [] entries outer⟩
  | .closeBrace, .inline entries :: outer => behind? statements outer (.table .inline entries)
  | _, _ => none

/-- The place behind a token of a key of an inline table. -/
def stepInlineKey? (statements : List Statement) (first : Bool) (tokens : List Token)
    (entries : Table) (stack : List Frame) : Token → Option Place
  | .equals =>
    (path? tokens.reverse).map fun path =>
      ⟨statements, .value (.inlineEntry entries path :: stack)⟩
  | .closeBrace =>
    if first && tokens.all (· == .blank) then behind? statements stack (.table .inline entries)
    else none
  | token => some ⟨statements, .inlineKey first (token :: tokens) entries stack⟩

/-- The place behind a token; `none` if it may not stand here. -/
def step? (place : Place) (token : Token) : Option Place :=
  match place.mode with
  | .lineStart => stepLineStart? place.statements token
  | .lineEnd => stepLineEnd? place.statements token
  | .header double tokens => stepHeader? place.statements double tokens token
  | .headerEnd path => stepHeaderEnd? place.statements path token
  | .key tokens => stepKey? place.statements tokens token
  | .value stack => stepValue? place.statements stack token
  | .behindValue stack => stepBehindValue? place.statements stack token
  | .inlineKey first tokens entries stack =>
    stepInlineKey? place.statements first tokens entries stack token

/-- The statements, if none is unfinished. -/
def finish? (place : Place) : Option (List Statement) :=
  match place.mode with
  | .lineStart => some place.statements.reverse
  | .lineEnd => some place.statements.reverse
  | _ => none

end Place

/-- The statements that a list of tokens is. -/
def statements? (tokens : List Token) : Option (List Statement) := do
  let place ← tokens.foldlM Place.step? ⟨[], .lineStart⟩
  place.finish?

end PoxTokens.Toml
