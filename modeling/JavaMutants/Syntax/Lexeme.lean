import JavaMutants.Syntax.Kind

/-!
# Lexemes

The alphabet of the source language: punctuation and operators
(`Punct`), the words that some rule of the grammar gives a meaning to
(`Keyword`), and what a piece of text is to the grammar (`Lexeme`). A
word with a meaning is still a name wherever the grammar has no use for
its meaning, so a lexeme keeps a word and its keyword together.
-/

namespace JavaMutants.Syntax

/-- Punctuation and operators. -/
inductive Punct where
  | parenOpen
  | parenClose
  | braceOpen
  | braceClose
  | bracketOpen
  | bracketClose
  | semicolon
  | comma
  | dot
  | ellipsis
  | at
  | atInterface
  | colon
  | colonColon
  | question
  | arrow
  | assign
  | addAssign
  | subAssign
  | mulAssign
  | divAssign
  | andAssign
  | orAssign
  | xorAssign
  | remAssign
  | shlAssign
  | shrAssign
  | ushrAssign
  | gt
  | lt
  | ge
  | le
  | eq
  | ne
  | andAnd
  | orOr
  | plus
  | minus
  | star
  | slash
  | amp
  | bar
  | caret
  | percent
  | shl
  | shr
  | ushr
  | bang
  | tilde
  | increment
  | decrement
  | quote
  | textQuote
  | interpolate
  | nonSealed
deriving DecidableEq, Repr

/-- How a punctuation mark is written. -/
def Punct.text : Punct → String
  | .parenOpen => "("
  | .parenClose => ")"
  | .braceOpen => "\x7b"
  | .braceClose => "\x7d"
  | .bracketOpen => "["
  | .bracketClose => "]"
  | .semicolon => ";"
  | .comma => ","
  | .dot => "."
  | .ellipsis => "..."
  | .at => "@"
  | .atInterface => "@interface"
  | .colon => ":"
  | .colonColon => "::"
  | .question => "?"
  | .arrow => "->"
  | .assign => "="
  | .addAssign => "+="
  | .subAssign => "-="
  | .mulAssign => "*="
  | .divAssign => "/="
  | .andAssign => "&="
  | .orAssign => "|="
  | .xorAssign => "^="
  | .remAssign => "%="
  | .shlAssign => "<<="
  | .shrAssign => ">>="
  | .ushrAssign => ">>>="
  | .gt => ">"
  | .lt => "<"
  | .ge => ">="
  | .le => "<="
  | .eq => "=="
  | .ne => "!="
  | .andAnd => "&&"
  | .orOr => "||"
  | .plus => "+"
  | .minus => "-"
  | .star => "*"
  | .slash => "/"
  | .amp => "&"
  | .bar => "|"
  | .caret => "^"
  | .percent => "%"
  | .shl => "<<"
  | .shr => ">>"
  | .ushr => ">>>"
  | .bang => "!"
  | .tilde => "~"
  | .increment => "++"
  | .decrement => "--"
  | .quote => "\""
  | .textQuote => "\"\"\""
  | .interpolate => "\\\x7b"
  | .nonSealed => "non-sealed"

/-- The words that have a meaning somewhere. -/
inductive Keyword where
  | abstract_
  | assert_
  | boolean_
  | break_
  | byte_
  | case_
  | catch_
  | char_
  | class_
  | continue_
  | default_
  | do_
  | double_
  | else_
  | enum_
  | exports_
  | extends_
  | false_
  | final_
  | finally_
  | float_
  | for_
  | if_
  | implements_
  | import_
  | instanceof_
  | int_
  | interface_
  | long_
  | module_
  | native_
  | new_
  | null_
  | open_
  | opens_
  | package_
  | permits_
  | private_
  | protected_
  | provides_
  | public_
  | record_
  | requires_
  | return_
  | sealed_
  | short_
  | static_
  | strictfp_
  | super_
  | switch_
  | synchronized_
  | this_
  | throw_
  | throws_
  | to_
  | transient_
  | transitive_
  | true_
  | try_
  | uses_
  | void_
  | volatile_
  | when_
  | while_
  | with_
  | yield_
  | underscore
deriving DecidableEq, Repr

/-- How a keyword is written. -/
def Keyword.text : Keyword → String
  | .abstract_ => "abstract"
  | .assert_ => "assert"
  | .boolean_ => "boolean"
  | .break_ => "break"
  | .byte_ => "byte"
  | .case_ => "case"
  | .catch_ => "catch"
  | .char_ => "char"
  | .class_ => "class"
  | .continue_ => "continue"
  | .default_ => "default"
  | .do_ => "do"
  | .double_ => "double"
  | .else_ => "else"
  | .enum_ => "enum"
  | .exports_ => "exports"
  | .extends_ => "extends"
  | .false_ => "false"
  | .final_ => "final"
  | .finally_ => "finally"
  | .float_ => "float"
  | .for_ => "for"
  | .if_ => "if"
  | .implements_ => "implements"
  | .import_ => "import"
  | .instanceof_ => "instanceof"
  | .int_ => "int"
  | .interface_ => "interface"
  | .long_ => "long"
  | .module_ => "module"
  | .native_ => "native"
  | .new_ => "new"
  | .null_ => "null"
  | .open_ => "open"
  | .opens_ => "opens"
  | .package_ => "package"
  | .permits_ => "permits"
  | .private_ => "private"
  | .protected_ => "protected"
  | .provides_ => "provides"
  | .public_ => "public"
  | .record_ => "record"
  | .requires_ => "requires"
  | .return_ => "return"
  | .sealed_ => "sealed"
  | .short_ => "short"
  | .static_ => "static"
  | .strictfp_ => "strictfp"
  | .super_ => "super"
  | .switch_ => "switch"
  | .synchronized_ => "synchronized"
  | .this_ => "this"
  | .throw_ => "throw"
  | .throws_ => "throws"
  | .to_ => "to"
  | .transient_ => "transient"
  | .transitive_ => "transitive"
  | .true_ => "true"
  | .try_ => "try"
  | .uses_ => "uses"
  | .void_ => "void"
  | .volatile_ => "volatile"
  | .when_ => "when"
  | .while_ => "while"
  | .with_ => "with"
  | .yield_ => "yield"
  | .underscore => "_"

/-- Every keyword, in alphabetical order. -/
def Keyword.all : List Keyword := [
  .abstract_, .assert_, .boolean_, .break_, .byte_, .case_, .catch_, .char_,
  .class_, .continue_, .default_, .do_, .double_, .else_, .enum_, .exports_,
  .extends_, .false_, .final_, .finally_, .float_, .for_, .if_, .implements_,
  .import_, .instanceof_, .int_, .interface_, .long_, .module_, .native_,
  .new_, .null_, .open_, .opens_, .package_, .permits_, .private_,
  .protected_, .provides_, .public_, .record_, .requires_, .return_, .sealed_,
  .short_, .static_, .strictfp_, .super_, .switch_, .synchronized_, .this_,
  .throw_, .throws_, .to_, .transient_, .transitive_, .true_, .try_, .uses_,
  .void_, .volatile_, .when_, .while_, .with_, .yield_, .underscore ]

/-- The keyword that a word spells, if it spells one. -/
def Keyword.ofText? (word : String) : Option Keyword :=
  Keyword.all.find? fun k => k.text == word

/-- Every punctuation mark that stands in code, the longer before those
they begin with. -/
def Punct.all : List Punct := [
  .atInterface, .ushrAssign, .ellipsis, .shlAssign, .shrAssign, .ushr,
  .colonColon, .arrow, .addAssign, .subAssign, .mulAssign, .divAssign,
  .andAssign, .orAssign, .xorAssign, .remAssign, .ge, .le, .eq, .ne, .andAnd,
  .orOr, .shl, .shr, .increment, .decrement, .parenOpen, .parenClose,
  .braceOpen, .braceClose, .bracketOpen, .bracketClose, .semicolon, .comma,
  .dot, .at, .colon, .question, .assign, .gt, .lt, .plus, .minus, .star,
  .slash, .amp, .bar, .caret, .percent, .bang, .tilde ]

/-- **What a piece of text is to the grammar.** -/
inductive Lexeme where
  /-- A word, and the keyword it spells if it spells one. -/
  | word (keyword : Option Keyword)
  /-- A punctuation mark or an operator. -/
  | punct (mark : Punct)
  /-- A literal, a part of a quoted text or a comment. -/
  | piece (kind : Kind)
  /-- A character that begins nothing. -/
  | stray
  /-- The end of the text. -/
  | finish
deriving DecidableEq, Repr

end JavaMutants.Syntax
