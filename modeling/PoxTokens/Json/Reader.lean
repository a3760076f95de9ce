import PoxTokens.Json.Token

/-!
# PoxTokens.Json.Reader

The second half of reading JSON: the document that a list of tokens is.  The
reader goes through the tokens once.  What encloses the place it has reached is
a stack of frames, one for each array or object that is still open, so a
document may be nested as deeply as it likes.
-/

namespace PoxTokens.Json

/-- An array or object that is still open; what is complete in it stands in
reverse. -/
inductive Frame where
  | array (items : List Value)
  | object (fields : List (Content × Value))
  /-- An object with the name of the field whose value is next. -/
  | field (fields : List (Content × Value)) (name : Content)

/-- What may come next. -/
inductive Expected where
  | value
  /-- A value, or the end of the array just begun. -/
  | firstItem
  | name
  /-- A name, or the end of the object just begun. -/
  | firstName
  | colon
  /-- A comma, or the end of what is open. -/
  | separator
  /-- Nothing: the document is complete. -/
  | nothing (document : Value)

/-- A place in a document. -/
structure Place where
  stack : List Frame
  expected : Expected

/-- The place behind a complete value. -/
def Place.behind : List Frame → Value → Option Place
  | [], v => some ⟨[], .nothing v⟩
  | .array items :: stack, v => some ⟨.array (v :: items) :: stack, .separator⟩
  | .field fields name :: stack, v => some ⟨.object ((name, v) :: fields) :: stack, .separator⟩
  | .object _ :: _, _ => none

/-- The place behind a token where a value may start. -/
def Place.beginValue (stack : List Frame) : Token → Option Place
  | .scalar v => behind stack v
  | .beginArray => some ⟨.array [] :: stack, .firstItem⟩
  | .beginObject => some ⟨.object [] :: stack, .firstName⟩
  | _ => none

/-- The place behind the name of a field. -/
def Place.behindName (fields : List (Content × Value)) (stack : List Frame) :
    Token → Option Place
  | .scalar (.string name) => some ⟨.field fields name :: stack, .colon⟩
  | _ => none

/-- The place behind a token; `none` if it may not stand here. -/
def Place.step (place : Place) (token : Token) : Option Place :=
  match place.expected, place.stack, token with
  | .value, stack, token => beginValue stack token
  | .firstItem, .array _ :: stack, .endArray => behind stack (.array [])
  | .firstItem, stack, token => beginValue stack token
  | .name, .object fields :: stack, token => behindName fields stack token
  | .firstName, .object _ :: stack, .endObject => behind stack (.object [])
  | .firstName, .object fields :: stack, token => behindName fields stack token
  | .colon, stack, .colon => some ⟨stack, .value⟩
  | .separator, .array items :: stack, .comma => some ⟨.array items :: stack, .value⟩
  | .separator, .array items :: stack, .endArray => behind stack (.array items.reverse)
  | .separator, .object fields :: stack, .comma => some ⟨.object fields :: stack, .name⟩
  | .separator, .object fields :: stack, .endObject => behind stack (.object fields.reverse)
  | _, _, _ => none

/-- The document, if the place is behind a complete one. -/
def Place.document? (place : Place) : Option Value :=
  match place.expected with
  | .nothing v => some v
  | _ => none

/-- The document that a list of tokens is. -/
def Value.ofTokens? (tokens : List Token) : Option Value := do
  let place ← tokens.foldlM Place.step ⟨[], .value⟩
  place.document?

/-- The document that a text is. -/
def read? (text : String) : Option Value := do
  let tokens ← tokens? text.toList
  Value.ofTokens? tokens

end PoxTokens.Json
