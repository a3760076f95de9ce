import PoxTokens.Log.Event

/-!
# PoxTokens.Log.Line

Events as lines of a log: the time, the level in five columns, the message and
the fields.  With colours, the time is dim, the level blue, the name of a field
in italics and its equals sign dim.
-/

namespace PoxTokens

/-- Puts a text between a mode of the terminal and its reset. -/
def styled (colours : Bool) (mode text : String) : String :=
  if colours then s!"\x1b[{mode}m{text}\x1b[0m" else text

/-- The value of a field; a text is quoted. -/
def FieldValue.render : FieldValue → String
  | number n => toString n
  | text s => quotedString s
  | verbatim s => s

/-- A field with the space before it. -/
def renderField (colours : Bool) (field : String × FieldValue) : String :=
  " " ++ styled colours "3" field.1 ++ styled colours "2" "=" ++ field.2.render

/-- The colour of a level. -/
def Level.colour : Level → String
  | trace => "35"
  | debug => "34"

/-- The line of an event at a time. -/
def Event.line (colours : Bool) (time : String) (event : Event) : String :=
  styled colours "2" time ++ " " ++ styled colours event.level.colour event.level.name ++ " "
    ++ event.message ++ String.join (event.fields.map (renderField colours)) ++ "\n"

/-- The lines of the events that someone who looks for a fault wants to see. -/
def debugLines (colours : Bool) (time : String) (events : List Event) : String :=
  String.join ((events.filter (·.level = .debug)).map (Event.line colours time))

end PoxTokens
