import JavaMutants.Yaml.Scalar

/-!
# Tags, anchors and directives

What stands before a value or a document: the tag that tells what kind of
value it is, the anchor by which it is called again, and the lines that
give the version and the handles of tags. Octets that are written with a
percent sign are kept one by one, each as the character of its number.
-/

namespace JavaMutants.Yaml

/-- **Reads the name of an anchor or an alias** at its sign. -/
def readName (activity : Activity) (c : Cursor) : Except Fault (String × Cursor) :=
  let start := c.mark
  let (name, c) := (c.skip 1).takeWhile isNameChar
  let ended := c.wordEnds 0 ||
    c.seesOne 0 fun x => x == '?' || x == ':' || x == ',' || x == ']' || x == '\x7d'
      || x == '%' || x == '@' || x == '\x60'
  if name.isEmpty || !ended then .error (c.fault activity start .noName)
  else .ok (String.ofList name, c)

/-! ## Tags -/

/-- Whether a character can stand in a tag. -/
def isTagChar (verbatim : Bool) (c : Char) : Bool :=
  isNameChar c || c == ';' || c == '/' || c == '?' || c == ':' || c == '@' || c == '&'
    || c == '=' || c == '+' || c == '$' || c == '.' || c == '%' || c == '!' || c == '~'
    || c == '*' || c == '\'' || c == '(' || c == ')'
    || (verbatim && (c == ',' || c == '[' || c == ']'))

/-- How many octets the character has that an octet begins. -/
def octetCount? (octet : Nat) : Option Nat :=
  if octet < 0x80 then some 1
  else if 0xC0 ≤ octet && octet < 0xE0 then some 2
  else if 0xE0 ≤ octet && octet < 0xF0 then some 3
  else if 0xF0 ≤ octet && octet < 0xF8 then some 4
  else none

/-- Reads an octet at its percent sign. -/
def readOctet (activity : Activity) (start : Mark) (c : Cursor) : Except Fault (Nat × Cursor) :=
  match c.rest with
  | '%' :: a :: b :: _ =>
    match hexNumber? [a, b] with
    | some octet => .ok (octet, c)
    | none => .error (c.fault activity start .noOctet)
  | _ => .error (c.fault activity start .noOctet)

/-- Reads the octets that continue a character. -/
def readOctets (activity : Activity) (start : Mark) :
    Nat → List Char → Cursor → Except Fault (List Char × Cursor)
  | 0, text, c => .ok (text, c)
  | n + 1, text, c => do
    let (octet, c) ← readOctet activity start c
    if octet / 64 == 2 then readOctets activity start n (text ++ [Char.ofNat octet]) (c.skip 3)
    else .error (c.fault activity start .trailingOctet)

/-- Reads the characters of a tag, after what has been read. -/
def readTagChars (verbatim : Bool) (activity : Activity) (start : Mark) :
    Nat → List Char → Cursor → Except Fault (List Char × Cursor)
  | 0, text, c => .ok (text, c)
  | n + 1, text, c =>
    match c.rest with
    | [] => .ok (text, c)
    | x :: _ =>
      if !isTagChar verbatim x then .ok (text, c)
      else if x == '%' then do
        let (octet, c) ← readOctet activity start c
        match octetCount? octet with
        | none => .error (c.fault activity start .leadingOctet)
        | some count =>
          let (text, c) ←
            readOctets activity start (count - 1) (text ++ [Char.ofNat octet]) (c.skip 3)
          readTagChars verbatim activity start n text c
      else readTagChars verbatim activity start n (text ++ [x]) (c.skip 1)

/-- Reads the text of a tag. The head is what has been taken for a handle
before, without its mark. -/
def readTagText (verbatim isDirective : Bool) (head : Option (List Char)) (start : Mark)
    (c : Cursor) : Except Fault (List Char × Cursor) := do
  let activity := if isDirective then .handleText else .tagText
  let (text, after) ← readTagChars verbatim activity start (c.rest.length + 1)
    ((head.getD []).drop 1) c
  if text.isEmpty && (head.getD []).isEmpty then
    .error (after.fault activity start .noTagText)
  else .ok (text, after)

/-- Reads the handle of a tag, or what could be one. -/
def readHandle (isDirective : Bool) (start : Mark) (c : Cursor) :
    Except Fault (List Char × Cursor) :=
  if !c.sees 0 '!' then
    .error (c.fault (if isDirective then .handleName else .tag) start .noTagMark)
  else
    let (name, c) := (c.skip 1).takeWhile isNameChar
    if c.sees 0 '!' then .ok ('!' :: name ++ ['!'], c.skip 1)
    else if isDirective && !name.isEmpty then .error (c.fault .handleEnd start .noTagMark)
    else .ok ('!' :: name, c)

/-- Reads a tag at its mark: the handle and what follows it. -/
def readHandleAndText (start : Mark) (c : Cursor) :
    Except Fault (List Char × List Char × Cursor) := do
  if c.sees 1 '<' then
    let (text, c) ← readTagText true false none start (c.skip 2)
    if c.sees 0 '>' then .ok ([], text, c.skip 1)
    else .error (c.fault .tag start .noTagClose)
  else
    let (handle, c) ← readHandle false start c
    if 1 < handle.length && handle.getLast? == some '!' then
      let (text, c) ← readTagText false false none start c
      .ok (handle, text, c)
    else
      let (text, c) ← readTagText false false (some handle) start c
      if text.isEmpty then .ok ([], ['!'], c) else .ok (['!'], text, c)

/-- **Reads a tag.** -/
def readTag (inFlow : Bool) (c : Cursor) : Except Fault (String × String × Cursor) := do
  let start := c.mark
  let (handle, text, c) ← readHandleAndText start c
  if (inFlow && c.sees 0 ',') || c.wordEnds 0 then
    .ok (String.ofList handle, String.ofList text, c)
  else .error (c.fault .tag start .noWordEnd)

/-! ## Directives -/

/-- **A directive.** -/
inductive Directive where
  /-- The version of the format. -/
  | version (major minor : Nat)
  /-- What the handle of a tag stands for. -/
  | handle (name text : String)
deriving DecidableEq, Repr

/-- How many digits a version number can have. -/
def longestVersion : Nat := 9

/-- Reads a number of the version. -/
def readVersionNumber (start : Mark) (c : Cursor) : Except Fault (Nat × Cursor) :=
  let (digits, after) := c.takeWhile Char.isDigit
  if longestVersion < digits.length then
    .error ((c.skip longestVersion).fault .version start .longVersion)
  else if digits.isEmpty then .error (c.fault .version start .noVersion)
  else .ok (digits.foldl (fun n d => n * 10 + (d.toNat - '0'.toNat)) 0, after)

/-- Reads the version. -/
def readVersion (start : Mark) (c : Cursor) : Except Fault (Directive × Cursor) := do
  let (major, c) ← readVersionNumber start (c.skipWhile isBlank)
  if !c.sees 0 '.' then .error (c.fault .version start .noVersionDot)
  else
    let (minor, c) ← readVersionNumber start (c.skip 1)
    .ok (.version major minor, c)

/-- Reads a handle and what it stands for. -/
def readHandleDirective (start : Mark) (c : Cursor) : Except Fault (Directive × Cursor) := do
  let (name, c) ← readHandle true start (c.skipWhile isBlank)
  if !c.seesOne 0 isBlank then .error (c.fault .handle start .noBlank)
  else
    let (text, c) ← readTagText true true none start (c.skipWhile isBlank)
    if c.wordEnds 0 then .ok (.handle (String.ofList name) (String.ofList text), c)
    else .error (c.fault .handle start .noWordEnd)

/-- **Reads a directive** up to the end of its line: the directive, where
it ends and what is left. -/
def readDirective (c : Cursor) : Except Fault (Directive × Mark × Cursor) := do
  let start := c.mark
  let (name, c) := (c.skip 1).takeWhile isNameChar
  if name.isEmpty then .error (c.fault .directive start .noDirectiveName)
  else if !c.wordEnds 0 then .error (c.fault .directive start .strangeDirectiveName)
  else
    let (directive, c) ←
      if name == "YAML".toList then readVersion start c
      else if name == "TAG".toList then readHandleDirective start c
      else .error (c.fault .directive start .unknownDirective)
    let stop := c.mark
    let c := (c.skipWhile isBlank).skipComment
    if c.lineEnds 0 then .ok (directive, stop, c.skipBreak)
    else .error (c.fault .directive start .noLineEnd)

end JavaMutants.Yaml
