/-!
# Byte offsets in a text

Every position in a source file is a number of UTF-8 bytes, while a text
is a list of characters. This module cuts a text at a byte offset. A cut
exists only where the offset stands between two characters of the text:
an offset past the end, or inside a character, has none, and the caller
sees that as `none`.

The main statements are that a cut loses nothing (`splitAt?_append`) and
that it stands where it was asked for (`byteLength_of_splitAt?`).
-/

namespace JavaMutants.Text

/-- The number of bytes a list of characters takes in UTF-8. -/
def byteLength : List Char → Nat
  | [] => 0
  | c :: cs => c.utf8Size + byteLength cs

@[simp]
theorem byteLength_nil : byteLength [] = 0 := rfl

@[simp]
theorem byteLength_cons (c : Char) (cs : List Char) :
    byteLength (c :: cs) = c.utf8Size + byteLength cs := rfl

@[simp]
theorem byteLength_append (a b : List Char) :
    byteLength (a ++ b) = byteLength a + byteLength b := by
  induction a with
  | nil => simp
  | cons c cs ih => simp [ih, Nat.add_assoc]

/-- **A cut at a byte offset**: what stands before it and what stands
after it, or nothing when no character begins or ends there. -/
def splitAt? : Nat → List Char → Option (List Char × List Char)
  | 0, cs => some ([], cs)
  | _ + 1, [] => none
  | n + 1, c :: cs =>
    if c.utf8Size ≤ n + 1 then
      (splitAt? (n + 1 - c.utf8Size) cs).map fun (before, after) => (c :: before, after)
    else none

/-- **A cut loses nothing.** -/
theorem splitAt?_append {n : Nat} {cs before after : List Char}
    (h : splitAt? n cs = some (before, after)) : before ++ after = cs := by
  fun_induction splitAt? n cs generalizing before with
  | case1 cs => simp_all
  | case2 => simp at h
  | case3 n c cs _ ih =>
    obtain ⟨⟨b, a⟩, hb, he⟩ := Option.map_eq_some_iff.1 h
    obtain ⟨rfl, rfl⟩ := Prod.mk.inj he
    simp [ih hb]
  | case4 => simp at h

/-- **A cut stands where it was asked for.** -/
theorem byteLength_of_splitAt? {n : Nat} {cs before after : List Char}
    (h : splitAt? n cs = some (before, after)) : byteLength before = n := by
  fun_induction splitAt? n cs generalizing before with
  | case1 cs => simp_all
  | case2 => simp at h
  | case3 n c cs hc ih =>
    obtain ⟨⟨b, a⟩, hb, he⟩ := Option.map_eq_some_iff.1 h
    obtain ⟨rfl, rfl⟩ := Prod.mk.inj he
    have := ih hb
    simp only [byteLength_cons]
    omega
  | case4 => simp at h

/-- The cut between two texts is found at the length of the first. -/
theorem splitAt?_byteLength (before after : List Char) :
    splitAt? (byteLength before) (before ++ after) = some (before, after) := by
  induction before with
  | nil => simp [splitAt?]
  | cons c cs ih =>
    have hc : 0 < c.utf8Size := c.utf8Size_pos
    have hn : byteLength (c :: cs) = (c.utf8Size + byteLength cs - 1) + 1 := by
      simp only [byteLength_cons]; omega
    rw [hn, List.cons_append, splitAt?, if_pos (by omega),
      show c.utf8Size + byteLength cs - 1 + 1 - c.utf8Size = byteLength cs by omega, ih]
    rfl

/-- The number of bytes of a text. -/
def size (text : String) : Nat := byteLength text.toList

/-- The text up to a byte offset. -/
def upTo? (text : String) (stop : Nat) : Option String :=
  (splitAt? stop text.toList).map fun (before, _) => String.ofList before

/-- The text from a byte offset on. -/
def from? (text : String) (start : Nat) : Option String :=
  (splitAt? start text.toList).map fun (_, after) => String.ofList after

/-- **The text between two byte offsets**, if both are cuts and the first
does not stand after the second. -/
def slice? (text : String) (start stop : Nat) : Option String :=
  if start ≤ stop then
    match splitAt? start text.toList with
    | some (_, after) =>
      (splitAt? (stop - start) after).map fun (between, _) => String.ofList between
    | none => none
  else none

/-- **A text with one range of bytes exchanged**: all before `start`,
then `replacement`, then all from `stop` on. The range may be given the
wrong way round; only its two ends have to be cuts. -/
def splice? (text : String) (start stop : Nat) (replacement : String) : Option String :=
  match upTo? text start, from? text stop with
  | some before, some after => some (before ++ replacement ++ after)
  | _, _ => none

end JavaMutants.Text
