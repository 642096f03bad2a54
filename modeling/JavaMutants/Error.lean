import JavaMutants.Path

/-!
# What can go wrong

The causes for which a file, a run or a configuration is refused, and the
one text of each.
-/

namespace JavaMutants

/-- **The causes of failure.** -/
inductive Error where
  /-- A file or a directory could not be read. -/
  | io (path : Path) (cause : String)
  /-- A file is not well-formed, or not text at all. -/
  | malformed (path : Path) (reason : String)
  /-- An operator gave back the very text it was to change. -/
  | noOp (operator target : String)
  /-- Two mutants of one file were given the same name. -/
  | collision (origin : Path) (name : String)
  /-- The question for declarations could not be put. -/
  | query (reason : String)
  /-- A generated file could not be written. -/
  | write (path : Path) (cause : String)
  /-- The configuration makes no sense. -/
  | config (message : String)
deriving DecidableEq, Repr

namespace Error

/-- **The text of a failure.** -/
def message : Error → String
  | io path cause => "Failed to read '" ++ path.text ++ "': " ++ cause
  | malformed path reason => "Failed to parse '" ++ path.text ++ "' as Java: " ++ reason
  | noOp operator target =>
    "Operator '" ++ operator ++ "' produced a no-op mutation for " ++ target
  | collision origin name =>
    "Mutation name '" ++ name ++ "' is not unique in '" ++ origin.text ++ "'"
  | query reason => "Invalid declaration query: " ++ reason
  | write path cause => "Failed to write '" ++ path.text ++ "': " ++ cause
  | config message => "Configuration error: " ++ message

/-- **Whether a run that stops early stops here.** A clash of names is a
defect of the naming itself; an unreadable or malformed file concerns only
that file. -/
def haltsRun : Error → Bool
  | collision _ _ => true
  | _ => false

end Error

end JavaMutants
