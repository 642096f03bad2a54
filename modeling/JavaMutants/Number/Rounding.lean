/-!
# Rounding

Quotients of natural numbers rounded to whole numbers and to numbers of
53 binary digits. A quotient that lies in the middle between two
candidates goes to the even one.
-/

namespace JavaMutants.Number

/-- **The whole number nearest to a quotient**; a tie goes to the even
one. -/
def roundDiv (n d : Nat) : Nat :=
  let q := n / d
  let r := n % d
  if d < 2 * r || (2 * r == d && q % 2 == 1) then q + 1 else q

/-- **A fraction whose denominator is a power of two.** -/
structure BinaryFraction where
  /-- The numerator. -/
  numerator : Nat
  /-- The exponent of the denominator. -/
  scale : Nat
deriving DecidableEq, Repr

namespace BinaryFraction

/-- The denominator. -/
def denominator (x : BinaryFraction) : Nat := Nat.pow 2 x.scale

/-- A whole number times `2 ^ (down - shift)`. -/
def shifted (n : Nat) (shift down : Nat) : BinaryFraction :=
  if down ≤ shift then ⟨n, shift - down⟩ else ⟨n * Nat.pow 2 (down - shift), 0⟩

/-- **The number of 53 binary digits nearest to a quotient.** The quotient
is scaled by `2 ^ (up - down)` until its whole part has 53 digits, rounded
there, and scaled back. -/
def nearest (n d : Nat) : BinaryFraction :=
  if n == 0 then ⟨0, 0⟩
  else
    let up := 52 + d.log2
    let down := n.log2
    let scaled (up : Nat) : Nat × Nat :=
      if down ≤ up then (n * Nat.pow 2 (up - down), d) else (n, d * Nat.pow 2 (down - up))
    let (a, b) := scaled up
    if Nat.pow 2 52 * b ≤ a then shifted (roundDiv a b) up down
    else
      let (a, b) := scaled (up + 1)
      shifted (roundDiv a b) (up + 1) down

/-- The sum, rounded. -/
def add (x y : BinaryFraction) : BinaryFraction :=
  nearest (x.numerator * y.denominator + y.numerator * x.denominator)
    (x.denominator * y.denominator)

/-- A multiple, rounded. -/
def mulNat (x : BinaryFraction) (k : Nat) : BinaryFraction :=
  nearest (x.numerator * k) x.denominator

/-- A part, rounded. -/
def divNat (x : BinaryFraction) (k : Nat) : BinaryFraction :=
  nearest x.numerator (x.denominator * k)

/-- What is left when a whole number is taken away as often as it goes;
this needs no rounding. -/
def modNat (x : BinaryFraction) (k : Nat) : BinaryFraction :=
  ⟨x.numerator % (k * x.denominator), x.scale⟩

/-- The greatest whole number that is not greater. -/
def floor (x : BinaryFraction) : Nat := x.numerator / x.denominator

/-- Whether a number is less than a whole number. -/
def ltNat (x : BinaryFraction) (k : Nat) : Bool := x.numerator < k * x.denominator

/-- The number in units of a power of ten below one, rounded. -/
def inUnits (x : BinaryFraction) (digits : Nat) : Nat :=
  roundDiv (x.numerator * Nat.pow 10 digits) x.denominator

end BinaryFraction

/-- **The whole number with the most zeros at its end** that is read back
as `n` when only 53 binary digits are kept, tried from a number of zeros
downwards. -/
def roundest (n : Nat) : Nat → Nat
  | 0 => n
  | zeros + 1 =>
    let m := roundDiv n (Nat.pow 10 (zeros + 1)) * Nat.pow 10 (zeros + 1)
    if (BinaryFraction.nearest m 1).floor == n then m else roundest n zeros

end JavaMutants.Number
