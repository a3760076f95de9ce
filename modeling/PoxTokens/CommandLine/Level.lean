import PoxTokens.CommandLine.Given

/-!
# PoxTokens.CommandLine.Level

The two levels of the command line: the program itself, whose arguments end with
the name of a command, and the commands.  Some names are known at both levels.
A long name may carry a value behind an equals sign; short names may stand
together behind one dash, and what follows the short name of an option is its
value.  Behind two dashes nothing is a name any more.
-/

namespace PoxTokens.CommandLine

/-- The commands of the program. -/
inductive CommandName where
  | tokenize
  | rules
  deriving DecidableEq, Repr

/-- The command with exactly this name. -/
def CommandName.ofName? : String → Option CommandName
  | "tokenize" => some .tokenize
  | "rules" => some .rules
  | _ => none

/-- A level of the command line. -/
inductive Level where
  | program
  | command (name : CommandName)
  deriving DecidableEq, Repr

/-- The level as the program names itself there. -/
def Level.title : Level → String
  | program => "poxt"
  | command .tokenize => "poxt-tokenize"
  | command .rules => "poxt-rules"

/-- Why the reading of the command line ends early. -/
inductive Stop where
  | usage (e : UsageError)
  | version (level : Level)
  | help (level : Level)
  deriving DecidableEq, Repr

namespace Level

/-- What a long name stands for. -/
def long? (level : Level) (name : String) : Option Switch :=
  match name with
  | "verbose" => some (.flag .verbose)
  | "config" => some (.choice .config)
  | "no-color" => some (.flag .noColour)
  | "help" => some .help
  | "version" => some .version
  | _ =>
    if level = command .tokenize then
      match name with
      | "policy" => some (.choice .policy)
      | "format" => some (.choice .format)
      | "keep-whitespace" => some (.flag .keepBlanks)
      | "eof" => some (.flag .emitEof)
      | "stats" => some (.flag .stats)
      | _ => none
    else none

/-- What a short name stands for. -/
def short? (level : Level) (name : Char) : Option Switch :=
  match name with
  | 'v' => some (.flag .verbose)
  | 'c' => some (.choice .config)
  | 'h' => some .help
  | 'V' => some .version
  | _ =>
    if level = command .tokenize then
      match name with
      | 'p' => some (.choice .policy)
      | 'F' => some (.choice .format)
      | 'w' => some (.flag .keepBlanks)
      | _ => none
    else none

/-- A mistake ends the reading. -/
def orStop {α : Type} : Except UsageError α → Except Stop α
  | .ok a => .ok a
  | .error e => .error (.usage e)

/-- Takes up a name without a value.  An option then waits for its value; what
was pending before is recorded first. -/
def switchOn (level : Level) (given : Given) (switch : Switch) : Except Stop Given := do
  let given ← orStop given.settle
  match switch with
  | .flag flag => orStop (given.raise flag)
  | .choice choice => .ok { given with pending := some ⟨choice, none⟩ }
  | .help => .error (.help level)
  | .version => .error (.version level)

/-- Records the value of an option that came together with its name. -/
def attach (given : Given) (choice : Choice) (value : String) : Except Stop Given := do
  let given ← orStop given.settle
  orStop (given.choose choice value)

/-- Reads a long name, written without its dashes. -/
def readLong (level : Level) (given : Given) (text : List Char) : Except Stop Given :=
  let name := text.takeWhile (· != '=')
  match level.long? (String.ofList name), text.dropWhile (· != '=') with
  | none, _ => .error (.usage (.unknownArgument (String.ofList ('-' :: '-' :: text))))
  | some switch, [] => level.switchOn given switch
  | some (.choice choice), _ :: value => attach given choice (String.ofList value)
  | some _, _ :: value => .error (.usage (.unwantedValue (String.ofList value)))

/-- Drops an equals sign before a value. -/
def dropEquals : List Char → List Char
  | '=' :: value => value
  | value => value

/-- Reads short names that stand together, written without their dash. -/
def readShort (level : Level) (given : Given) : List Char → Except Stop Given
  | [] => .ok given
  | name :: rest =>
    match level.short? name, rest with
    | none, _ => .error (.usage (.unknownArgument (String.ofList ['-', name])))
    | some (.choice choice), _ :: _ => attach given choice (String.ofList (dropEquals rest))
    | some switch, _ => do
      let given ← level.switchOn given switch
      readShort level given rest

/-- Takes up an argument that is no name: only one, the source of a command that
has one. -/
def readPlain (level : Level) (given : Given) (text : String) : Except Stop Given := do
  let given ← orStop given.settle
  if level = command .tokenize ∧ given.source = none then
    .ok { given with source := some text }
  else .error (.usage (.unknownArgument text))

/-- Reads one argument in front of two dashes. -/
def readArgument (level : Level) (given : Given) (text : String) : Except Stop Given :=
  match text.toList with
  | '-' :: '-' :: name => level.readLong given name
  | '-' :: c :: names => level.readShort given (c :: names)
  | _ =>
    match given.awaitsValue with
    | some choice => .ok { given with pending := some ⟨choice, some text⟩ }
    | none => level.readPlain given text

/-- The command that an argument names, at the level of the program and unless
the argument is the value of an option. -/
def commandName? (level : Level) (given : Given) (text : String) : Option CommandName :=
  if level = program ∧ given.awaitsValue = none then CommandName.ofName? text else none

/-- Does the argument ask for help at the level of the program? -/
def asksHelp (level : Level) (given : Given) (text : String) : Bool :=
  level == program && given.awaitsValue.isNone && text == "help"

/-- The help that is asked for by the arguments behind the word: at most the name
of one command. -/
def helpOn : List String → Stop
  | [] => .help program
  | text :: rest =>
    match CommandName.ofName? text, rest with
    | some name, [] => .help (command name)
    | some _, more :: _ => .usage (.unknownArgument more)
    | none, [] => if text = "help" then .help program else .usage (.unknownArgument text)
    | none, _ :: _ => .usage (.unknownArgument text)

/-- Reads arguments up to the name of a command, if there is one.  The result is
what was given, and the command with the arguments behind its name. -/
def readArguments (level : Level) (given : Given) :
    List String → Except Stop (Given × Option (CommandName × List String))
  | [] => .ok (given, none)
  | text :: rest =>
    match level.commandName? given text with
    | some name => .ok (given, some (name, rest))
    | none =>
      if level.asksHelp given text then .error (helpOn rest)
      else if text = "--" then do
        let given ← rest.foldlM level.readPlain given
        pure (given, none)
      else do
        let given ← level.readArgument given text
        readArguments level given rest

end Level

end PoxTokens.CommandLine
