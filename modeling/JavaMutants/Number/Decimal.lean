import JavaMutants.Number.Rounding

/-!
# Decimals and doubles

A double is a whole number of at most 53 binary digits times a power of
two. `Double.ofDecimal?` gives the double nearest to a decimal, and
`Double.digits` the shortest decimal that is read back as the double, the
nearest one where there are several.
-/

namespace JavaMutants.Number

/-- **A double that is not negative**: `significand * 2 ^ exponent`. -/
structure Double where
  /-- The whole number. -/
  significand : Nat
  /-- The exponent of two. -/
  exponent : Int
deriving DecidableEq, Repr

/-- A decimal: `digits * 10 ^ exponent`. -/
structure Decimal where
  /-- The whole number. -/
  digits : Nat
  /-- The exponent of ten. -/
  exponent : Int
deriving DecidableEq, Repr

/-- A power with any whole exponent, as numerator and denominator. -/
def powerRatio (base : Nat) (e : Int) : Nat × Nat :=
  if 0 ≤ e then (Nat.pow base e.toNat, 1) else (1, Nat.pow base (-e).toNat)

namespace Double

/-- The least exponent. -/
def leastExponent : Int := -1074

/-- The greatest exponent of a significand of 53 digits. -/
def greatestExponent : Int := 971

/-- The exponent under which a quotient has 53 binary digits, or the least
one. -/
def exponentFor (n d : Nat) : Int :=
  let e : Int := (n.log2 : Int) - (d.log2 : Int)
  let (a, b) := powerRatio 2 e
  max ((if d * a ≤ n * b then e else e - 1) - 52) leastExponent

/-- **The double nearest to a quotient**, unless that is too large. -/
def ofRatio? (n d : Nat) : Option Double :=
  if n == 0 then some ⟨0, leastExponent⟩
  else
    let e := exponentFor n d
    let (a, b) := powerRatio 2 e
    let q := roundDiv (n * b) (d * a)
    let x : Double := if q == Nat.pow 2 53 then ⟨Nat.pow 2 52, e + 1⟩ else ⟨q, e⟩
    if greatestExponent < x.exponent then none else some x

/-- How many decimal digits a number has. -/
def digitCount (n : Nat) : Nat := (toString n).length

/-- **The double nearest to a decimal**, unless that is too large. A
decimal far below the least double is not written out. -/
def ofDecimal? (x : Decimal) : Option Double :=
  let size : Int := digitCount x.digits + x.exponent
  if x.digits == 0 || size < -400 then some ⟨0, leastExponent⟩
  else if 400 < size then none
  else
    let (a, b) := powerRatio 10 x.exponent
    ofRatio? (x.digits * a) b

/-- The double as numerator and denominator. -/
def ratio (x : Double) : Nat × Nat :=
  let (a, b) := powerRatio 2 x.exponent
  (x.significand * a, b)

/-- The exponent of the first digit of a quotient below one, tried from an
exponent downwards. -/
def leadingBelow (n d : Nat) : Nat → Nat → Int
  | 0, tried => -(tried : Int)
  | fuel + 1, tried =>
    if d ≤ n * Nat.pow 10 tried then -(tried : Int) else leadingBelow n d fuel (tried + 1)

/-- The exponent of the first digit of a quotient. -/
def leadingExponent (n d : Nat) : Int :=
  if d ≤ n then (digitCount (n / d) : Int) - 1 else leadingBelow n d 400 1

/-- Whether a decimal is read back as a double. -/
def readsBack (x : Double) (m : Decimal) : Bool := ofDecimal? m == some x

/-- Which of two decimals with one exponent is nearer to a quotient. -/
def nearer (n d : Nat) (a b : Decimal) : Decimal :=
  let gap (m : Decimal) : Nat :=
    let (p, q) := powerRatio 10 m.exponent
    ((m.digits * p * d : Int) - (n * q : Int)).natAbs
  if gap b < gap a then b else a

/-- The shortest decimal with at least so many digits. -/
def shortestFrom (x : Double) (n d : Nat) (lead : Int) : Nat → Nat → Decimal
  | 0, size =>
    let e := lead - size + 1
    let (p, q) := powerRatio 10 e
    ⟨roundDiv (n * q) (d * p), e⟩
  | fuel + 1, size =>
    let e := lead - size + 1
    let (p, q) := powerRatio 10 e
    let below := n * q / (d * p)
    let low : Decimal := ⟨below, e⟩
    let high : Decimal := ⟨below + 1, e⟩
    match readsBack x low, readsBack x high with
    | true, true => nearer n d low high
    | true, false => low
    | false, true => high
    | false, false => shortestFrom x n d lead fuel (size + 1)

/-- **The shortest decimal that is read back as a double.** -/
def shortest (x : Double) : Decimal :=
  if x.significand == 0 then ⟨0, 0⟩
  else
    let (n, d) := x.ratio
    shortestFrom x n d (leadingExponent n d) 16 1

end Double

/-- A decimal written out, without zeros that say nothing. -/
def Decimal.text (x : Decimal) : String :=
  if 0 ≤ x.exponent then toString (x.digits * Nat.pow 10 x.exponent.toNat)
  else
    let places := (-x.exponent).toNat
    let digits := toString x.digits
    let padded := String.ofList (List.replicate (places + 1 - digits.length) '0') ++ digits
    let whole := padded.toList.take (padded.length - places)
    let fraction := (padded.toList.drop (padded.length - places)).reverse.dropWhile (· == '0')
    if fraction.isEmpty then String.ofList whole
    else String.ofList (whole ++ '.' :: fraction.reverse)

end JavaMutants.Number
