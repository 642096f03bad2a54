import JavaMutants.Syntax.Number
import JavaMutants.Syntax.Tree
import JavaMutants.Text.Bytes
import JavaMutants.Text.WordChar

/-!
# Tokens

A source text as a list of lexemes with their places. White space is tab,
line feed, vertical tab, form feed, carriage return and blank, and
nothing else; a byte order mark that begins the text is passed over. A
quoted text is taken apart into its quotation marks, the text between
them, its escapes, and the code that is written in it between `\{` and
`}`. What begins nothing becomes a stray lexeme, so scanning never fails:
it is the grammar that has no use for a stray.

The list ends in an end lexeme at the size of the text.
-/

namespace JavaMutants.Syntax

open JavaMutants.Text

/-- **A lexeme and its place.** -/
structure Token where
  /-- What it is. -/
  lexeme : Lexeme
  /-- The bytes it takes. -/
  span : Span
deriving DecidableEq, Repr

namespace Token

/-- The white space of the source language. -/
def isSpace (c : Char) : Bool := c == ' ' || (9 ≤ c.toNat && c.toNat ≤ 13)

/-- How many characters a comment `/* … */` has, given what follows its
first two; nothing if it is not closed. -/
def blockCommentLength (n : Nat) : List Char → Option Nat
  | '*' :: '/' :: _ => some (n + 2)
  | _ :: cs => blockCommentLength (n + 1) cs
  | [] => none

/-- How many characters there are up to the end of a character literal,
the mark included, and whether any stands before it; nothing if the
literal does not end on its line. -/
def characterLength (n : Nat) : List Char → Option Nat
  | '\'' :: _ => if n == 0 then none else some (n + 1)
  | '\\' :: _ :: cs => characterLength (n + 2) cs
  | c :: cs => if c == '\n' || c == '\\' then none else characterLength (n + 1) cs
  | [] => none

/-- An escape in a quoted text, after its backslash. -/
def escape : Pattern := .alt [
  .one fun c => !(c == 'x' || c == 'u' || ('0' ≤ c && c ≤ '7')),
  .seq [Number.upTo '7', .opt (Number.upTo '7'), .opt (Number.upTo '7')],
  .seq [.char 'x', Number.hexDigit, Number.hexDigit],
  .seq [.char 'u', Number.hexDigit, Number.hexDigit, Number.hexDigit, Number.hexDigit],
  .seq [.char 'u', .char (Char.ofNat 0x7b), .many1 Number.hexDigit, .char (Char.ofNat 0x7d)] ]

/-- How many characters of a text block come before its end or before a
backslash. -/
def textBlockLength (n : Nat) : List Char → Nat
  | '"' :: '"' :: '"' :: _ => n
  | '\\' :: _ => n
  | _ :: cs => textBlockLength (n + 1) cs
  | [] => n

/-- The punctuation mark at the front of a text. -/
def punct? (cs : List Char) : Option Punct :=
  Punct.all.find? fun p => p.text.toList.isPrefixOf cs

/-- Where scanning stands: in code, or in a quoted text. -/
inductive Mode where
  /-- In code. -/
  | code
  /-- Between quotation marks, single or triple. -/
  | quoted (triple : Bool)
deriving DecidableEq, Repr

/-- **What stands at the front of a text** that is not empty: the lexeme,
if it is one, the number of its characters, how scanning goes on, and the
quoted texts that code stands in – for each, whether its marks are triple
and how many braces are open in its code. -/
def next (mode : Mode) (inside : List (Bool × Nat)) (cs : List Char) :
    Option Lexeme × Nat × Mode × List (Bool × Nat) :=
  match mode with
  | .quoted triple =>
    if cs.head? == some '\\' then
      if cs.tail.head? == some (Char.ofNat 0x7b) then
        (some (.punct .interpolate), 2, .code, (triple, 0) :: inside)
      else if triple && 2 ≤ (cs.take 2).length then
        (some (.piece .escapeSequence), 2, mode, inside)
      else
        match escape.longest cs.tail with
        | some n => (some (.piece .escapeSequence), n + 1, mode, inside)
        | none => (some .stray, 1, mode, inside)
    else if triple then
      if ['"', '"', '"'].isPrefixOf cs then (some (.punct .textQuote), 3, .code, inside)
      else (some (.piece .multilineStringFragment), textBlockLength 0 cs, mode, inside)
    else if cs.head? == some '"' then (some (.punct .quote), 1, .code, inside)
    else
      (some (.piece .stringFragment),
        (cs.takeWhile fun c => c != '"' && c != '\\').length, mode, inside)
  | .code =>
    match cs with
    | [] => (none, 1, .code, inside)
    | c :: rest =>
      if isSpace c then (none, (cs.takeWhile isSpace).length, .code, inside)
      else if ['/', '/'].isPrefixOf cs then
        (some (.piece .lineComment), (cs.takeWhile (· != '\n')).length, .code, inside)
      else
        match if ['/', '*'].isPrefixOf cs then blockCommentLength 2 (cs.drop 2) else none with
        | some n => (some (.piece .blockComment), n, .code, inside)
        | none =>
          if isWordStart c then
            let word := cs.takeWhile isWordPart
            if word == "non".toList && "non-sealed".toList.isPrefixOf cs then
              (some (.punct .nonSealed), 10, .code, inside)
            else (some (.word (Keyword.ofText? (String.ofList word))), word.length, .code, inside)
          else if c.isDigit || (c == '.' && (rest.head?.map Char.isDigit).getD false) then
            match Number.read? cs with
            | some (kind, n) => (some (.piece kind), n, .code, inside)
            | none => (some .stray, 1, .code, inside)
          else if ['"', '"', '"'].isPrefixOf cs then
            (some (.punct .textQuote), 3, .quoted true, inside)
          else if c == '"' then (some (.punct .quote), 1, .quoted false, inside)
          else if c == '\'' then
            match characterLength 0 rest with
            | some n => (some (.piece .characterLiteral), n + 1, .code, inside)
            | none => (some .stray, 1, .code, inside)
          else
            match punct? cs with
            | none => (some .stray, 1, .code, inside)
            | some p =>
              match p, inside with
              | .braceOpen, (triple, depth) :: outer =>
                (some (.punct p), 1, .code, (triple, depth + 1) :: outer)
              | .braceClose, (triple, 0) :: outer =>
                (some (.punct p), 1, .quoted triple, outer)
              | .braceClose, (triple, depth + 1) :: outer =>
                (some (.punct p), 1, .code, (triple, depth) :: outer)
              | _, _ => (some (.punct p), p.text.length, .code, inside)

/-- Scans a text that begins at a byte offset. Every step takes at least
one character, so a text has at most `fuel` lexemes. -/
def scanFrom : Nat → Mode → List (Bool × Nat) → Nat → List Char → List Token
  | _, _, _, offset, [] => [⟨.finish, ⟨offset, offset⟩⟩]
  | 0, _, _, offset, _ => [⟨.finish, ⟨offset, offset⟩⟩]
  | fuel + 1, mode, inside, offset, cs =>
    let (lexeme, n, mode, inside) := next mode inside cs
    let stop := offset + byteLength (cs.take n)
    let rest := scanFrom fuel mode inside stop (cs.drop n)
    match lexeme with
    | some l => ⟨l, ⟨offset, stop⟩⟩ :: rest
    | none => rest

/-- **The tokens of a text**, comments among them. -/
def scan (cs : List Char) : List Token :=
  match cs with
  | '\ufeff' :: rest => scanFrom cs.length .code [] 3 rest
  | _ => scanFrom cs.length .code [] 0 cs

/-- Whether a token is a comment. -/
def isComment (t : Token) : Bool :=
  t.lexeme == .piece .lineComment || t.lexeme == .piece .blockComment

end Token

end JavaMutants.Syntax
