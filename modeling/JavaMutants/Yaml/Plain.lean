import JavaMutants.Number.Decimal
import JavaMutants.Text.Quoted
import JavaMutants.Yaml.Document

/-!
# What plain scalars stand for

A scalar without quotes can be null, a truth value, a whole number or a
floating-point number; otherwise it is text. `Scalar.describe` names what
a scalar is where something else was expected.
-/

namespace JavaMutants.Yaml

open Number

/-- Whether a text is written for null. -/
def isNull (text : String) : Bool :=
  text == "null" || text == "Null" || text == "NULL" || text == "~"

/-- The truth value a text is written for. -/
def truth? (text : String) : Option Bool :=
  if text == "true" || text == "True" || text == "TRUE" then some true
  else if text == "false" || text == "False" || text == "FALSE" then some false
  else none

/-! ## Whole numbers -/

/-- Whether only digits follow a zero, with or without a sign; such a text
is no number. -/
def isZeroPadded (cs : List Char) : Bool :=
  let cs := match cs with
    | '-' :: rest => rest
    | '+' :: rest => rest
    | cs => cs
  match cs with
  | '0' :: d :: ds => (d :: ds).all Char.isDigit
  | _ => false

/-- The value of digits in a base up to sixteen. -/
def number? (base : Nat) (cs : List Char) : Option Nat :=
  if cs.isEmpty then none
  else (cs.mapM fun c => (hexValue? c).filter (· < base)).map fun ds =>
    ds.foldl (fun n d => n * base + d) 0

/-- The base that the beginning of a number tells, and the digits. -/
def based? : List Char → Option (Nat × List Char)
  | '0' :: 'x' :: ds => some (16, ds)
  | '0' :: 'o' :: ds => some (8, ds)
  | '0' :: 'b' :: ds => some (2, ds)
  | _ => none

/-- A number in the base that its beginning tells. -/
def basedNumber? (cs : List Char) : Option Nat :=
  (based? cs).bind fun (b, ds) => number? b ds

/-- The whole number that is not negative a text is written for. -/
def natural? (text : String) : Option Nat :=
  let cs := text.toList
  let digits := match cs with
    | '+' :: rest => rest
    | cs => cs
  (basedNumber? digits).or (if isZeroPadded cs then none else number? 10 digits)

/-- The size of the negative whole number a text is written for. -/
def negative? (text : String) : Option Nat :=
  match text.toList with
  | '-' :: digits =>
    (basedNumber? digits).or
      (if isZeroPadded digits then none else number? 10 digits)
  | _ => none

/-! ## Floating-point numbers -/

/-- A decimal with a point or an exponent, or without. -/
def decimal? (cs : List Char) : Option Decimal := do
  let whole := cs.takeWhile Char.isDigit
  let rest := cs.dropWhile Char.isDigit
  let (fraction, rest) := match rest with
    | '.' :: rest => (rest.takeWhile Char.isDigit, rest.dropWhile Char.isDigit)
    | rest => ([], rest)
  if whole.isEmpty && fraction.isEmpty then none
  else
    let digits ← number? 10 (whole ++ fraction)
    let exponent ← match rest with
      | [] => some (0 : Int)
      | e :: rest =>
        if e == 'e' || e == 'E' then
          match rest with
          | '-' :: ds => (number? 10 ds).map fun n => -(n : Int)
          | '+' :: ds => (number? 10 ds).map fun n => (n : Int)
          | ds => (number? 10 ds).map fun n => (n : Int)
        else none
    some ⟨digits, exponent - fraction.length⟩

/-- **A floating-point number.** -/
inductive Float where
  /-- A finite number, and whether it is negative. -/
  | finite (isNegative : Bool) (x : Double)
  /-- More than every number, or less than every one. -/
  | infinite (isNegative : Bool)
  /-- Not a number. -/
  | nan
deriving DecidableEq, Repr

/-- A floating-point number in words. A point is always shown. -/
def Float.text : Float → String
  | finite isNegative x =>
    let digits := x.shortest.text
    (if isNegative then "-" else "") ++ digits ++ (if digits.contains '.' then "" else ".0")
  | infinite isNegative => if isNegative then "-inf" else "inf"
  | nan => "NaN"

/-- The finite number a text is written for. -/
def finite? (isNegative : Bool) (cs : List Char) : Option Float :=
  ((decimal? cs).bind Double.ofDecimal?).map (Float.finite isNegative)

/-- The floating-point number a text is written for. -/
def float? (text : String) : Option Float :=
  let isInfinity (t : String) : Bool := t == ".inf" || t == ".Inf" || t == ".INF"
  if text == ".nan" || text == ".NaN" || text == ".NAN" then some .nan
  else
    match text.toList with
    | '+' :: rest =>
      if isInfinity (String.ofList rest) then some (.infinite false) else finite? false rest
    | '-' :: rest =>
      if isInfinity (String.ofList rest) then some (.infinite true) else finite? true rest
    | cs => if isInfinity text then some (.infinite false) else finite? false cs

/-! ## Descriptions -/

/-- The greatest numbers of 64 and of 128 binary digits. -/
def greatest (bits : Nat) : Nat := Nat.pow 2 bits - 1

/-- A whole number in words, if the text is written for one that is not
too large. -/
def describeInteger? (text : String) : Option String :=
  let shown (sign : String) (n : Nat) (rest : String) : String :=
    "integer \x60" ++ (if n == 0 then "" else sign) ++ toString n ++ "\x60" ++ rest
  match natural? text, negative? text with
  | some n, _ =>
    if n ≤ greatest 64 then some (shown "" n "")
    else if n ≤ greatest 128 then some (shown "" n " as u128")
    else none
  | none, some n =>
    if n ≤ Nat.pow 2 63 then some (shown "-" n "")
    else if n ≤ Nat.pow 2 127 then some (shown "-" n " as i128")
    else none
  | none, none => none

/-- A text in words. -/
def describeText (text : String) : String := "string " ++ Text.quote text

/-- A truth value in words. -/
def describeTruth (b : Bool) : String := "boolean \x60" ++ toString b ++ "\x60"

/-- A floating-point number in words. -/
def describeFloat (x : Float) : String := "floating point \x60" ++ x.text ++ "\x60"

/-- A plain scalar in words. -/
def describePlain (text : String) : String :=
  if text.isEmpty || isNull text then "unit value"
  else
    match truth? text, describeInteger? text with
    | some b, _ => describeTruth b
    | none, some integer => integer
    | none, none =>
      match if isZeroPadded text.toList then none else float? text with
      | some x => describeFloat x
      | none => describeText text

/-- The tags with a meaning of their own begin like this. -/
def standardTag (name : String) : String := "tag:yaml.org,2002:" ++ name

/-- The complaint that a scalar is not what its tag says. -/
def notTagged (text what : String) : String :=
  "invalid value: " ++ describeText text ++ ", expected " ++ what

/-- **The complaint about a scalar** where something else was expected. -/
def Scalar.complaint (s : Scalar) (expected : String) : String :=
  let invalid (what : String) : String := "invalid type: " ++ what ++ ", expected " ++ expected
  match s.tag with
  | none =>
    invalid (if s.style == .plain then describePlain s.text else describeText s.text)
  | some tag =>
    if tag == standardTag "bool" then
      match truth? s.text with
      | some b => invalid (describeTruth b)
      | none => notTagged s.text "a boolean"
    else if tag == standardTag "int" then
      match describeInteger? s.text with
      | some what => invalid what
      | none => notTagged s.text "an integer"
    else if tag == standardTag "float" then
      match float? s.text with
      | some x => invalid (describeFloat x)
      | none => notTagged s.text "a float"
    else if tag == standardTag "null" then
      if isNull s.text then invalid "unit value" else notTagged s.text "null"
    else if tag.startsWith "!" && s.style == .plain then invalid (describePlain s.text)
    else invalid (describeText s.text)

/-- Whether a scalar may be taken for more than its text: it is plain, or
it is a literal block with the tag that says so. -/
def Scalar.isOpen (s : Scalar) (tag : String) : Bool :=
  s.style == .plain || (s.style == .literal && s.tag == some (standardTag tag))

end JavaMutants.Yaml
