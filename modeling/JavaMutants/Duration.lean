import JavaMutants.Number.Rounding

/-!
# Durations

A duration is counted in seconds and billionths of a second. For a reader
it is written in one of three forms: whole milliseconds below a second,
tenths of seconds below a minute, and minutes and whole seconds from then
on. The form is chosen by the exact length and each field is rounded
after that, so a field can show the very bound that it lies below.
-/

namespace JavaMutants

open Number

/-- **A length of time.** -/
structure Duration where
  /-- Whole seconds. -/
  seconds : Nat
  /-- Billionths of a second beyond them. -/
  nanos : Nat
deriving DecidableEq, Repr

namespace Duration

/-- Billionths in a second. -/
def nanosPerSecond : Nat := 1000000000

/-- A number of billionths of a second. -/
def ofNanos (n : Nat) : Duration := ⟨n / nanosPerSecond, n % nanosPerSecond⟩

/-- The duration in seconds, as a number of 53 binary digits. -/
def inSeconds (d : Duration) : BinaryFraction :=
  (BinaryFraction.nearest d.seconds 1).add (BinaryFraction.nearest d.nanos nanosPerSecond)

/-- Milliseconds. -/
def milliseconds (x : BinaryFraction) : String := toString ((x.mulNat 1000).inUnits 0) ++ "ms"

/-- Seconds and tenths. -/
def tenths (x : BinaryFraction) : String :=
  let t := x.inUnits 1
  toString (t / 10) ++ "." ++ toString (t % 10) ++ "s"

/-- Minutes and seconds. -/
def minutes (x : BinaryFraction) : String :=
  let m := (x.divNat 60).floor
  toString (roundest m 18) ++ "m " ++ toString ((x.modNat 60).inUnits 0) ++ "s"

/-- **A duration for a reader.** -/
def text (d : Duration) : String :=
  let x := d.inSeconds
  if x.ltNat 1 then milliseconds x
  else if x.ltNat 60 then tenths x
  else minutes x

end Duration

end JavaMutants
