import JavaMutants.CommandLine.Misuse
import JavaMutants.Text.Similar

/-!
# Reading the arguments of a command

Arguments are taken word by word. A long name can be followed by `=` and
its value, a short name by its value right away; otherwise the next word is
the value, unless it begins with a dash. Short names of arguments without a
value can be put together. A value that is a word of its own is looked at
only when the next argument begins or the call ends.
-/

namespace JavaMutants.CommandLine

/-- **The arguments that have been given**, each with its values, in the
order in which they were given first. -/
abbrev Given := List (Argument × List String)

namespace Given

/-- The values of an argument. -/
def values (g : Given) (long : String) : List String :=
  match g.find? fun (a, _) => a.long == long with
  | some (_, vs) => vs
  | none => []

/-- Whether an argument has been given. -/
def has (g : Given) (a : Argument) : Bool := g.any fun (b, _) => b.long == a.long

/-- Adds values to an argument. -/
def add (g : Given) (a : Argument) (vs : List String) : Given :=
  if g.has a then g.map fun (b, old) => if b.long == a.long then (b, old ++ vs) else (b, old)
  else g ++ [(a, vs)]

end Given

/-- **Why reading ends early.** -/
inductive Stop where
  /-- Help is asked for. -/
  | help
  /-- The call is wrong. -/
  | misuse (m : Misuse)

/-- The largest number that is taken. -/
def largestNumber : Nat := Nat.pow 2 64 - 1

/-- Why a text is no whole number, if it is none. -/
def numberProblem? (text : String) : Option String :=
  let digits := match text.toList with
    | '+' :: rest => rest
    | cs => cs
  if text.isEmpty then some "cannot parse integer from empty string"
  else if digits.isEmpty || !digits.all Char.isDigit then some "invalid digit found in string"
  else if largestNumber < digits.foldl (fun n d => n * 10 + (d.toNat - '0'.toNat)) 0 then
    some "number too large to fit in target type"
  else none

/-- The misuse that a value is, if it is one. -/
def valueMisuse? (a : Argument) (value : String) : Option Misuse :=
  match a.value with
  | some (_, .path) => if value.isEmpty then some (.noValue a) else none
  | some (_, .number) => (numberProblem? value).map (Misuse.badValue a value)
  | _ => none

/-- **The arguments of a call as far as they have been read.** -/
structure Reading where
  /-- The arguments that have been given. -/
  given : Given := []
  /-- The argument that was given last, and its value, if they have not
  been looked at. -/
  pending : Option (Argument × Option String) := none

namespace Reading

/-- Takes an argument with its values. -/
def take (r : Reading) (program : String) (c : Command) (a : Argument) (value : Option String) :
    Except Stop Reading :=
  if r.given.has a && !a.repeatable then .error (.misuse (.twice a (usage program c [])))
  else
    match value.bind (valueMisuse? a) with
    | some m => .error (.misuse m)
    | none => .ok { given := r.given.add a value.toList }

/-- Looks at the argument that was given last. -/
def settle (r : Reading) (program : String) (c : Command) : Except Stop Reading :=
  match r.pending with
  | none => .ok r
  | some (a, none) => .error (.misuse (.noValue a))
  | some (a, some value) => { r with pending := none }.take program c a (some value)

/-- The arguments that have been given, for a usage line. -/
def used (r : Reading) : List Argument :=
  r.given.map (·.1) ++ (r.pending.bind fun (a, value) => value.map fun _ => a).toList

/-- Takes an argument without a value. -/
def takeFlag (r : Reading) (program : String) (c : Command) (a : Argument) :
    Except Stop Reading := do
  let r ← r.settle program c
  if a.long == helpArgument.long then .error .help else r.take program c a none

/-- Takes an argument with a value that stands with it, or waits for the
value. -/
def takeValue (r : Reading) (program : String) (c : Command) (a : Argument)
    (value : Option String) : Except Stop Reading := do
  let r ← r.settle program c
  match value with
  | some v => r.take program c a (some v)
  | none => .ok { r with pending := some (a, none) }

/-- The misuse that a long name is which is not known. -/
def unknownLong (r : Reading) (program : String) (c : Command) (name : String) : Misuse :=
  match (Text.similarTo name (c.allArguments.map (·.long))).getLast? with
  | some similar =>
    .unknown ("--" ++ name) (some (.similar similar))
      (usage program c (r.used ++ (c.long? similar).toList))
  | none => .unknown ("--" ++ name) none (usage program c r.used)

/-- A word that begins with two dashes. -/
def long (r : Reading) (program : String) (c : Command) (name : String)
    (value : Option String) : Except Stop Reading :=
  match c.long? name with
  | none => .error (.misuse (r.unknownLong program c name))
  | some a =>
    match a.value, value with
    | some _, _ => r.takeValue program c a value
    | none, some v => .error (.misuse (.needlessValue a v (usage program c r.used)))
    | none, none => r.takeFlag program c a

/-- A word that begins with one dash. -/
def short (program : String) (c : Command) : Reading → List Char → Except Stop Reading
  | r, [] => .ok r
  | r, x :: rest =>
    match c.short? x with
    | none => .error (.misuse (.unknown ("-" ++ String.singleton x) none (usage program c [])))
    | some a =>
      if a.value.isSome then
        let value := match rest with
          | [] => none
          | '=' :: value => some (String.ofList value)
          | value => some (String.ofList value)
        r.takeValue program c a value
      else do
        let r ← r.takeFlag program c a
        short program c r rest

/-- A word that begins with no dash: the value that is waited for, or one
too many. -/
def word (r : Reading) (program : String) (c : Command) (w : String) : Except Stop Reading :=
  match r.pending with
  | some (a, none) => .ok { r with pending := some (a, some w) }
  | _ => .error (.misuse (.unknown w none (usage program c [])))

/-- A name and what comes after its first `=`. -/
def splitValue (name : List Char) : String × Option String :=
  match name.span (· != '=') with
  | (before, []) => (String.ofList before, none)
  | (before, _ :: value) => (String.ofList before, some (String.ofList value))

/-- Takes words one after the other. -/
def words (program : String) (c : Command) : Reading → List String → Except Stop Reading
  | r, [] => r.settle program c
  | r, w :: rest =>
    match w.toList with
    | ['-', '-'] =>
      match rest with
      | [] => r.settle program c
      | w :: _ => .error (.misuse (.unknown w none (usage program c [])))
    | '-' :: '-' :: name => do
      let (name, value) := splitValue name
      let r ← r.long program c name value
      words program c r rest
    | '-' :: x :: more => do
      let r ← short program c r (x :: more)
      words program c r rest
    | _ => do
      let r ← r.word program c w
      words program c r rest

end Reading

/-- **The arguments of a command in a call.** -/
def Command.read (program : String) (c : Command) (words : List String) : Except Stop Given := do
  let r ← Reading.words program c {} words
  let missing := c.required.filter fun a => !r.given.has a
  if missing.isEmpty then .ok r.given
  else .error (.misuse (.missing missing (usage program c (r.used ++ missing))))

end JavaMutants.CommandLine
