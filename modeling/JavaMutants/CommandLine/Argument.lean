import JavaMutants.CommandLine.Markup

/-!
# Arguments and commands

What a command can be given, and the texts that tell a user about it: the
usage line, and the help with a line for each argument.
-/

namespace JavaMutants.CommandLine

/-- What the value of an argument is. -/
inductive ValueKind where
  /-- A path, which is not empty. -/
  | path
  /-- Any text. -/
  | text
  /-- A whole number. -/
  | number
deriving DecidableEq, Repr

/-- **An argument of a command.** -/
structure Argument where
  /-- Its long name. -/
  long : String
  /-- Its short name. -/
  short : Option Char := none
  /-- The name and the kind of its value, if it takes one. -/
  value : Option (String × ValueKind) := none
  /-- What it is for. -/
  help : String
  /-- Whether it has to be given. -/
  required : Bool := false
  /-- Whether it can be given more than once. -/
  repeatable : Bool := false
  /-- What its value is if it is not given. -/
  default : Option String := none
deriving DecidableEq, Repr

namespace Argument

/-- The name of the value in a message. -/
def valueText (a : Argument) : String :=
  match a.value with
  | some (name, _) => " <" ++ name ++ ">"
  | none => ""

/-- The argument as it is named in messages. -/
def name (a : Argument) : String := "--" ++ a.long ++ a.valueText

/-- The argument in a usage line. -/
def markup (a : Argument) : Markup := [literal ("--" ++ a.long), plain a.valueText]

/-- The names of the argument in its line of the help. -/
def names (a : Argument) : Markup :=
  match a.short with
  | some c => [literal ("-" ++ String.singleton c), plain ", "] ++ a.markup
  | none => plain "    " :: a.markup

/-- What the help says about the argument. -/
def helpText (a : Argument) : String :=
  match a.default with
  | some value => a.help ++ " [default: " ++ value ++ "]"
  | none => a.help

end Argument

/-- The argument that asks for help. -/
def helpArgument : Argument := { long := "help", short := some 'h', help := "Print help" }

/-- The argument that asks for the version. -/
def versionArgument : Argument :=
  { long := "version", short := some 'V', help := "Print version" }

/-- **A command.** -/
structure Command where
  /-- Its name, as it is called. -/
  name : String
  /-- What it does. -/
  about : String
  /-- Its arguments, apart from the one that asks for help. -/
  arguments : List Argument := []
deriving DecidableEq, Repr

namespace Command

/-- The arguments that have to be given. -/
def required (c : Command) : List Argument := c.arguments.filter (·.required)

/-- All arguments. -/
def allArguments (c : Command) : List Argument := c.arguments ++ [helpArgument]

/-- The argument with a long name. -/
def long? (c : Command) (name : String) : Option Argument :=
  c.allArguments.find? fun a => a.long == name

/-- The argument with a short name. -/
def short? (c : Command) (name : Char) : Option Argument :=
  c.allArguments.find? fun a => a.short == some name

end Command

/-- Arguments in a usage line, each once. -/
def usageArguments (arguments : List Argument) : Markup :=
  arguments.eraseDups.flatMap fun a => plain " " :: a.markup

/-- The usage line of a command of a program. If arguments have been given
it shows them and the ones that have to be given. -/
def usage (program : String) (c : Command) (used : List Argument) : Markup :=
  let start := [heading "Usage:", plain " ", literal (program ++ " " ++ c.name)]
  if used.isEmpty then
    let options := c.arguments.any fun a => !a.required
    start ++ (if options then [plain " [OPTIONS]"] else []) ++ usageArguments c.required
  else start ++ usageArguments (c.required ++ used)

/-- The usage line of a program of commands. -/
def programUsage (program : String) : Markup :=
  [heading "Usage:", plain " ", literal program, plain " <COMMAND>"]

/-! ## Help -/

/-- A table of entries and what is said about each. -/
def table (rows : List (Markup × String)) : Markup :=
  let width := (rows.map fun (entry, _) => Markup.length entry).foldl max 0
  rows.flatMap fun (entry, text) =>
    let gap := String.ofList (List.replicate (width + 2 - Markup.length entry) ' ')
    plain "  " :: entry ++ [plain (gap ++ text ++ "\n")]

/-- The lines of the help on arguments. -/
def optionTable (arguments : List Argument) : Markup :=
  [heading "Options:", plain "\n"] ++ table (arguments.map fun a => (a.names, a.helpText))

/-- **The help on a command.** -/
def Command.help (program : String) (c : Command) : Markup :=
  [plain (c.about ++ "\n\n")] ++ usage program c [] ++ [plain "\n\n"]
    ++ optionTable c.allArguments

/-- The command that asks for help on another one. -/
def helpCommand : Command :=
  { name := "help", about := "Print this message or the help of the given subcommand(s)" }

/-- The help on the command that asks for help. -/
def helpOnHelp (program : String) : Markup :=
  [plain (helpCommand.about ++ "\n\n"), heading "Usage:", plain " ",
    literal (program ++ " " ++ helpCommand.name), plain " [COMMAND]...\n\n",
    heading "Arguments:", plain "\n  [COMMAND]...  Print help for the subcommand(s)\n"]

/-- **The help on a program of commands.** -/
def programHelp (program about : String) (commands : List Command) : Markup :=
  [plain (about ++ "\n\n")] ++ programUsage program
    ++ [plain "\n\n", heading "Commands:", plain "\n"]
    ++ table ((commands ++ [helpCommand]).map fun c => ([literal c.name], c.about))
    ++ [plain "\n"] ++ optionTable [helpArgument, versionArgument]

end JavaMutants.CommandLine
