import JavaMutants.Text.CodePoints

/-!
# White space

The characters with the property *White_Space*. They are what trimming a
text takes away; the source language itself knows only six of them.
-/

namespace JavaMutants.Text

/-- The white space from U+0080 on. -/
def blankEnds : List Nat := [
  0x85, 0x86, 0xa0, 0xa1, 0x1680, 0x1681, 0x2000, 0x200b, 0x2028, 0x202a, 0x202f,
  0x2030, 0x205f, 0x2060, 0x3000, 0x3001 ]

/-- Whether a character is white space in any script. -/
def isBlank (c : Char) : Bool :=
  if c.toNat < 0x80 then c == ' ' || (9 ≤ c.toNat && c.toNat ≤ 13)
  else within blankEnds c.toNat

/-- Whether nothing but white space is in a text: it is empty once
trimmed. -/
def isBlankText (text : String) : Bool := text.toList.all isBlank

end JavaMutants.Text
