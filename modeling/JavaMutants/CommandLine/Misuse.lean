import JavaMutants.CommandLine.Argument

/-!
# Misuse of a command line

What can be wrong with the arguments of a call, and how a user is told.
-/

namespace JavaMutants.CommandLine

/-- A piece of advice on an argument that is not known. -/
inductive Advice where
  /-- There is a similar argument. -/
  | similar (long : String)
  /-- A command has a similar argument. -/
  | ofCommand (command long : String)
  /-- The word would be a command, were it not for the dashes before. -/
  | dropDashes (command : String)
deriving DecidableEq, Repr

/-- **What is wrong with a call.** -/
inductive Misuse where
  /-- An argument that is not known. -/
  | unknown (word : String) (advice : Option Advice) (usage : Markup)
  /-- A command that is not known, and those that are similar. -/
  | unknownCommand (word : String) (similar : List String) (usage : Markup)
  /-- An argument without its value. -/
  | noValue (a : Argument)
  /-- A value that is not of the right kind. -/
  | badValue (a : Argument) (value cause : String)
  /-- A value of an argument that takes none. -/
  | needlessValue (a : Argument) (value : String) (usage : Markup)
  /-- An argument that is given twice. -/
  | twice (a : Argument) (usage : Markup)
  /-- Arguments that are not given. -/
  | missing (arguments : List Argument) (usage : Markup)
deriving DecidableEq, Repr

/-- A piece of advice in words. -/
def Advice.markup : Advice → Markup
  | similar long =>
    [plain "a similar argument exists: '", right ("--" ++ long), plain "'"]
  | ofCommand command long =>
    [plain "'", right (command ++ " --" ++ long), plain "' exists"]
  | dropDashes command =>
    [plain "subcommand '", right command, plain "' exists; to use it, remove the '",
      right "--", plain "' before it"]

/-- Similar commands in words. -/
def similarCommands (similar : List String) : Markup :=
  let list := similar.flatMap fun c => [plain "'", right c, plain "'", plain ", "]
  plain (if similar.length == 1 then "a similar subcommand exists: "
    else "some similar subcommands exist: ") :: list.dropLast

/-- A tip. -/
def tip (advice : Markup) : Markup :=
  [plain "\n\n  ", right "tip:", plain " "] ++ advice

/-- A usage line below a message. -/
def below (usage : Markup) : Markup := plain "\n\n" :: usage

/-- What is wrong in words. -/
def Misuse.reason : Misuse → Markup
  | unknown word advice usage =>
    [plain "unexpected argument '", wrong word, plain "' found"]
      ++ (match advice with
        | some a => tip a.markup
        | none => [])
      ++ below usage
  | unknownCommand word similar usage =>
    [plain "unrecognized subcommand '", wrong word, plain "'"]
      ++ (if similar.isEmpty then [] else tip (similarCommands similar)) ++ below usage
  | noValue a =>
    [plain "a value is required for '", wrong a.name, plain "' but none was supplied"]
  | badValue a value cause =>
    [plain "invalid value '", wrong value, plain "' for '", literal a.name,
      plain ("': " ++ cause)]
  | needlessValue a value usage =>
    [plain "unexpected value '", wrong value, plain "' for '", literal a.name,
      plain "' found; no more were expected"] ++ below usage
  | twice a usage =>
    [plain "the argument '", wrong a.name, plain "' cannot be used multiple times"]
      ++ below usage
  | missing arguments usage =>
    plain "the following required arguments were not provided:"
      :: arguments.flatMap (fun a => [plain "\n  ", right a.name]) ++ below usage

/-- **The message about a misuse.** -/
def Misuse.message (m : Misuse) : Markup :=
  [⟨.error, "error:"⟩, plain " "] ++ m.reason
    ++ [plain "\n\nFor more information, try '", literal "--help", plain "'.\n"]

end JavaMutants.CommandLine
