import JavaMutants.Registry
import JavaMutants.Text.Letter

/-!
# Configurations

What a user can choose: the names of the two markers, the operators to
run, and a few settings. `problems` lists all that is wrong with a
configuration, in a fixed order, and a configuration is valid when the
list is empty.
-/

namespace JavaMutants

/-- The settings of a run. -/
structure Settings where
  /-- How many files are worked on at once; zero stands for as many as
  the machine can. -/
  threads : Nat := 0
  /-- The extension of source files, with or without dots before it. -/
  extension : String := "java"
  /-- Whether no new file is begun once names have clashed. -/
  failFast : Bool := false
deriving DecidableEq, Repr

/-- **A configuration.** -/
structure Config where
  /-- The version of the format. -/
  version : String := "1.0"
  /-- The annotation names that mark declarations. -/
  markers : Markers := {}
  /-- The operators to run; none named stands for all. -/
  operators : List String := []
  /-- The settings. -/
  settings : Settings := {}
deriving DecidableEq, Repr

/-- Whether a character can begin an identifier. -/
def isIdentifierStart (c : Char) : Bool := Text.isAlphabetic c || c == '_' || c == '$'

/-- Whether a character can continue an identifier. -/
def isIdentifierPart (c : Char) : Bool := Text.isAlphanumeric c || c == '_' || c == '$'

/-- Whether a text is an identifier. -/
def isIdentifier (name : String) : Bool :=
  match name.toList with
  | [] => false
  | c :: cs => isIdentifierStart c && cs.all isIdentifierPart

namespace Config

/-- **The extension of source files**, without dots before it. -/
def extension (c : Config) : String :=
  String.ofList (c.settings.extension.toList.dropWhile (· == '.'))

/-- The complaint about a marker that is no identifier. -/
def markerProblem? (key name : String) : Option Error :=
  if isIdentifier name then none
  else some (.config (key ++ " '" ++ name ++ "' is not a Java identifier"))

/-- **All that is wrong with a configuration**, given the tags of the
operators there are. -/
def problems (c : Config) (known : List String) : List Error :=
  (markerProblem? "markers.mutate" c.markers.mutate).toList
    ++ (markerProblem? "markers.deprecated" c.markers.deprecated).toList
    ++ (if c.markers.mutate == c.markers.deprecated then
        [.config "markers.mutate and markers.deprecated must differ"] else [])
    ++ (if c.extension.isEmpty then [.config "settings.extension must not be empty"] else [])
    ++ (c.operators.filter fun t => !known.contains t).map
        fun t => Registry.unknownOperator t known

/-- The registry that a configuration asks for. -/
def registry (c : Config) : Except Error Registry := Registry.builtin.select c.operators

end Config

end JavaMutants
