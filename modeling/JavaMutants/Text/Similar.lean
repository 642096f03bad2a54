/-!
# Similar words

How much two words have in common. A character of one word is matched
with an equal one of the other that is not too far away; the measure goes
by how much of each word is matched and how many matched characters stand
in another order. It is given as a fraction, and words are similar when it
is at least seven tenths.
-/

namespace JavaMutants.Text

/-- The first place from an index on that holds a character, lies in a
range and is not taken. -/
def freePlace? (c : Char) (low high : Nat) (taken : List Nat) : Nat → List Char → Option Nat
  | _, [] => none
  | i, x :: rest =>
    if low ≤ i && i < high && x == c && !taken.contains i then some i
    else freePlace? c low high taken (i + 1) rest

/-- The characters of a word that are matched, and the places in the other
word with which they are. -/
def matched (range : Nat) (other : List Char) :
    Nat → List Nat → List Char → List Char × List Nat
  | _, taken, [] => ([], taken)
  | i, taken, c :: rest =>
    match freePlace? c (i - range) (i + range + 1) taken 0 other with
    | some j =>
      let (cs, taken) := matched range other (i + 1) (j :: taken) rest
      (c :: cs, taken)
    | none => matched range other (i + 1) taken rest

/-- The characters of a word at places, in the order of the word. -/
def charactersAt (places : List Nat) (word : List Char) : List Char :=
  word.zipIdx.filterMap fun (c, i) => if places.contains i then some c else none

/-- **How similar two words are**, as a fraction. -/
def similarity (a b : String) : Nat × Nat :=
  let s := a.toList
  let t := b.toList
  let (cs, places) := matched (max s.length t.length / 2 - 1) t 0 [] s
  let m := cs.length
  if s.isEmpty && t.isEmpty then (1, 1)
  else if m == 0 then (0, 1)
  else
    let swapped := ((cs.zip (charactersAt places t)).filter fun (x, y) => x != y).length / 2
    (m * m * t.length + m * m * s.length + (m - swapped) * s.length * t.length,
      3 * m * s.length * t.length)

/-- Whether a fraction is greater than another one. -/
def exceeds (x y : Nat × Nat) : Bool := y.1 * x.2 < x.1 * y.2

/-- Puts a word in its place among words that are sorted by similarity, the
most similar last. -/
def rank (x : (Nat × Nat) × String) : List ((Nat × Nat) × String) →
    List ((Nat × Nat) × String)
  | [] => [x]
  | y :: rest => if exceeds y.1 x.1 then x :: y :: rest else y :: rank x rest

/-- **The words that are similar to a word**, the most similar last. -/
def similarTo (word : String) (words : List String) : List String :=
  let ranked := words.foldl (fun found w =>
    let s := similarity word w
    if exceeds (7, 10) s then found else rank (s, w) found) []
  ranked.map (·.2)

end JavaMutants.Text
