import JavaMutants.CommandLine.Read
import JavaMutants.Path

/-!
# The command line

The commands of the program and how a call is understood. A call names a
command first, or asks for help or for the version; a call without
arguments is answered with the help as well, but counts as a wrong one.
-/

namespace JavaMutants.CommandLine

/-- The name of the program. -/
def programName : String := "mutagen-java"

/-- The version of the program. -/
def programVersion : String := "0.1.0"

/-- What the program does. -/
def programAbout : String := "Generate mutated variants of @Mutate-annotated Java declarations"

/-- The arguments that tell what the sources are. -/
def sourceArguments : List Argument := [
  { long := "config", short := some 'c', value := some ("CONFIG", .path)
    help := "Config file (defaults to mutagen.yaml when present)" },
  { long := "source-root", short := some 's', value := some ("SOURCE_ROOTS", .path)
    help := "Source root to scan; may be repeated", required := true, repeatable := true },
  { long := "threads", short := some 't', value := some ("THREADS", .number)
    help := "Worker threads (0 = all cores)" },
  { long := "verbose", short := some 'v', help := "Enable debug logging" } ]

/-- Where mutants are written unless something else is said. -/
def defaultOutput : String := "target/generated-sources/mutations"

/-- The command that writes mutants. -/
def generateCommand : Command :=
  { name := "generate"
    about := "Generate mutated source files"
    arguments := sourceArguments ++ [
      { long := "output", short := some 'o', value := some ("OUTPUT", .path)
        help := "Directory receiving the generated files", default := some defaultOutput },
      { long := "operator", value := some ("OPERATORS", .text)
        help := "Only run these operators; may be repeated", repeatable := true },
      { long := "fail-fast"
        help := "Stop scheduling files after the first fatal file error" } ] }

/-- The command that lists targets. -/
def inspectCommand : Command :=
  { name := "inspect"
    about := "List the marked declarations found in each file"
    arguments := sourceArguments }

/-- The command that lists operators. -/
def operatorsCommand : Command :=
  { name := "operators", about := "List the available mutation operators" }

/-- The command that shows a configuration. -/
def exampleCommand : Command := { name := "example", about := "Show example configuration" }

/-- All commands. -/
def commands : List Command :=
  [generateCommand, inspectCommand, operatorsCommand, exampleCommand]

/-- What the sources are. -/
structure Sources where
  /-- The file of the configuration. -/
  config : Option Path
  /-- The source roots. -/
  roots : List Path
  /-- How many files are worked on at once. -/
  threads : Option Nat
deriving DecidableEq, Repr

/-- **What a call asks for.** -/
inductive Request where
  /-- Mutants are to be written. -/
  | generate (sources : Sources) (output : Path) (operators : List String) (failFast : Bool)
  /-- Targets are to be listed. -/
  | inspect (sources : Sources)
  /-- Operators are to be listed. -/
  | operators
  /-- A configuration is to be shown. -/
  | example
  /-- Help is asked for. -/
  | help (text : Markup)
  /-- The version is asked for. -/
  | version
  /-- The call is wrong. -/
  | wrong (message : Markup)
deriving DecidableEq, Repr

/-- The value of a number that has been found to be one. -/
def numberOf (text : String) : Nat :=
  (text.toList.filter Char.isDigit).foldl (fun n d => n * 10 + (d.toNat - '0'.toNat)) 0

/-- The sources among the arguments. -/
def Sources.ofGiven (g : Given) : Sources :=
  { config := (g.values "config").head?.map Path.mk
    roots := (g.values "source-root").map Path.mk
    threads := (g.values "threads").head?.map numberOf }

namespace Request

/-- What a call of a command asks for, given its arguments. -/
def ofGiven (c : Command) (g : Given) : Request :=
  if c.name == generateCommand.name then
    .generate (.ofGiven g) ⟨(g.values "output").head?.getD defaultOutput⟩ (g.values "operator")
      (g.any fun (a, _) => a.long == "fail-fast")
  else if c.name == inspectCommand.name then .inspect (.ofGiven g)
  else if c.name == operatorsCommand.name then .operators
  else .example

/-- What a call of a command asks for. -/
def ofCommand (c : Command) (words : List String) : Request :=
  match c.read programName words with
  | .ok given => ofGiven c given
  | .error .help => .help (c.help programName)
  | .error (.misuse m) => .wrong m.message

/-- The help on the program. -/
def overview : Markup := programHelp programName programAbout commands

/-- The command with a name. -/
def command? (name : String) : Option Command := commands.find? fun c => c.name == name

/-- A command that is not known. -/
def unknownCommand (word : String) (similar : List String) : Request :=
  .wrong (Misuse.unknownCommand word similar (programUsage programName)).message

/-- A call for help on commands. -/
def ofHelp : List String → Request
  | [] => .help overview
  | word :: rest =>
    if word == helpCommand.name then .help (helpOnHelp programName)
    else
      match command? word with
      | none => unknownCommand word []
      | some c =>
        match rest with
        | [] => .help (c.help programName)
        | further :: _ =>
          .wrong (Misuse.unknownCommand further [] (usage programName c [])).message

/-- The names of all commands. -/
def commandNames : List String := commands.map (·.name) ++ [helpCommand.name]

/-- The advice on a long name that is not known before a command: a
similar one of the program, or of a command that is named later. -/
def adviceBefore (name : String) (later : List String) : Option Advice :=
  match (Text.similarTo name [helpArgument.long, versionArgument.long]).getLast? with
  | some similar => some (.similar similar)
  | none =>
    let found := commands.filterMap fun c =>
      match (Text.similarTo name (c.allArguments.map (·.long))).getLast?,
          later.idxOf? c.name with
      | some similar, some place => some (place, Advice.ofCommand c.name similar)
      | _, _ => none
    found.foldl (fun best (place, advice) =>
      match best with
      | some (nearest, _) => if place < nearest then some (place, advice) else best
      | none => some (place, advice)) none |>.map (·.2)

/-- The usage line for a long name that is not known before a command. -/
def usageBefore : Option Advice → Markup
  | some (.similar long) =>
    [heading "Usage:", plain " ", literal programName, plain " ", literal ("--" ++ long),
      plain " <COMMAND>"]
  | _ => programUsage programName

/-- A word that is not known before a command. -/
def unknownBefore (word : String) (advice : Option Advice) : Request :=
  .wrong (Misuse.unknown word advice (usageBefore advice)).message

/-- A short name before a command. -/
def ofShort (x : Char) : Request :=
  if helpArgument.short == some x then .help overview
  else if versionArgument.short == some x then .version
  else unknownBefore ("-" ++ String.singleton x) none

/-- A long name before a command. -/
def ofLong (name : List Char) (rest : List String) : Request :=
  let (name, value) := Reading.splitValue name
  let flag := [helpArgument, versionArgument].find? fun a => a.long == name
  match flag, value with
  | some a, some v =>
    .wrong (Misuse.needlessValue a v (programUsage programName)).message
  | some a, none => if a.long == helpArgument.long then .help overview else .version
  | none, _ => unknownBefore ("--" ++ name) (adviceBefore name rest)

/-- **What a call asks for.** -/
def ofWords : List String → Request
  | [] => .wrong overview
  | word :: rest =>
    match word.toList with
    | ['-', '-'] =>
      match rest with
      | [] => .wrong overview
      | w :: _ =>
        if commandNames.contains w then unknownBefore w (some (.dropDashes w))
        else unknownCommand w (Text.similarTo w commandNames)
    | '-' :: '-' :: name => ofLong name rest
    | '-' :: x :: _ => ofShort x
    | _ =>
      if word == helpCommand.name then ofHelp rest
      else
        match command? word with
        | some c => ofCommand c rest
        | none => unknownCommand word (Text.similarTo word commandNames)

end Request

end JavaMutants.CommandLine
