import PoxTokens.Toml.Statement

/-!
# PoxTokens.Toml.Document

The table that the statements of a document build up.  An entry belongs to the
table of the header before it, or to the document itself before any header.
-/

namespace PoxTokens.Toml

/-- Why a text is no TOML document. -/
inductive Fault where
  /-- It holds something that is no token. -/
  | token
  /-- Its tokens are no statements. -/
  | statement
  /-- Its statements contradict each other: a name is defined twice, or a value
  is used as a table. -/
  | definition
  deriving DecidableEq, Repr

/-- The fault in words. -/
def Fault.message : Fault → String
  | token => "unexpected character or unfinished string"
  | statement => "malformed header, key or value"
  | definition => "name defined twice or used as a table"

namespace Table

/-- Changes the value that a header path names.  The names before the last one
lead through tables, of an array of tables through the last one; a missing table
is implied. -/
def alterAt? (f : Option Value → Option Value) : Path → Table → Option Table
  | [], _ => none
  | [name], table => alter name f table
  | name :: next :: path, table =>
    alter name (fun old =>
      match old with
      | none => (alterAt? f (next :: path) []).map (.table .implied)
      | some (.table .inline _) => none
      | some (.table origin inner) => (alterAt? f (next :: path) inner).map (.table origin)
      | some (.tables earlier last) => (alterAt? f (next :: path) last).map (.tables earlier)
      | some _ => none) table

/-- Opens a table by its own header: it must be new or only implied so far. -/
def openHeader? (path : Path) (table : Table) : Option Table :=
  alterAt? (fun old =>
    match old with
    | none => some (.table .header [])
    | some (.table .implied inner) => some (.table .header inner)
    | some _ => none) path table

/-- Opens one more table of an array of tables. -/
def openArrayHeader? (path : Path) (table : Table) : Option Table :=
  alterAt? (fun old =>
    match old with
    | none => some (.tables [] [])
    | some (.tables earlier last) => some (.tables (earlier ++ [last]) [])
    | some _ => none) path table

/-- Adds an entry to the table that a header has opened. -/
def insertUnder? (header path : Path) (v : Value) (table : Table) : Option Table :=
  match header with
  | [] => insert? path v table
  | _ =>
    alterAt? (fun old =>
      match old with
      | some (.table .header inner) => (insert? path v inner).map (.table .header)
      | some (.tables earlier last) => (insert? path v last).map (.tables earlier)
      | _ => none) header table

end Table

/-- What the statements so far have built, and the path of the last header. -/
structure Draft where
  root : Table
  header : Path

/-- Adds a statement. -/
def Draft.add? (draft : Draft) : Statement → Option Draft
  | .header path => (draft.root.openHeader? path).map (⟨·, path⟩)
  | .arrayHeader path => (draft.root.openArrayHeader? path).map (⟨·, path⟩)
  | .entry path v => (draft.root.insertUnder? draft.header path v).map ({ draft with root := · })

/-- The table that statements build up. -/
def Table.ofStatements? (statements : List Statement) : Option Table :=
  (statements.foldlM Draft.add? ⟨[], []⟩).map (·.root)

/-- Drops the mark of the byte order, which may start a text. -/
def dropByteOrderMark : List Char → List Char
  | '\ufeff' :: cs => cs
  | cs => cs

/-- The document that a text is. -/
def read (text : String) : Except Fault Table :=
  match (plainLines? (dropByteOrderMark text.toList)).bind tokens? with
  | none => .error .token
  | some tokens =>
    match statements? tokens with
    | none => .error .statement
    | some statements =>
      match Table.ofStatements? statements with
      | none => .error .definition
      | some table => .ok table

end PoxTokens.Toml
