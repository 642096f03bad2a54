import JavaMutants.Number.Rounding
import Mathlib.Algebra.Order.Floor.Semifield
import Mathlib.Data.Rat.Floor
import Mathlib.Tactic.FieldSimp
import Mathlib.Tactic.GCongr
import Mathlib.Tactic.Linarith
import Mathlib.Tactic.NormNum
import Mathlib.Tactic.Positivity
import Mathlib.Tactic.Ring

/-!
# How far rounding goes

Rounding to whole numbers is told by where it steps up: a number `k` is
reached from the middle between `k - 1` and `k` on, and in that middle
only if `k` is even (`le_roundDiv_iff`).

Rounding to 53 binary digits is told by three laws (`BinaryFraction.Rounds`).
It errs by at most one part in `2 ^ 53`, and it never passes a number that
has fewer than 54 digits itself, neither upwards nor downwards. The last
two are what keeps bounds exact that the error alone would blur: what is
at least one second is at least one second when it is rounded.
-/

namespace JavaMutants.Number

/-! ## Whole numbers -/

/-- **Where rounding steps up**: from the middle below a number on, and in
the middle itself to an even number. -/
theorem le_roundDiv_iff {n d k : ℕ} (hd : 0 < d) :
    k ≤ roundDiv n d ↔ 2 * k * d < 2 * n + d ∨ (2 * k * d = 2 * n + d ∧ k % 2 = 0) := by
  have hn := Nat.div_add_mod n d
  have hr := Nat.mod_lt n hd
  have hstep : roundDiv n d
      = if d < 2 * (n % d) ∨ (2 * (n % d) = d ∧ n / d % 2 = 1) then n / d + 1 else n / d := by
    simp [roundDiv]
  rw [hstep]
  generalize n / d = q at *
  generalize n % d = r at *
  rcases lt_trichotomy k (q + 1) with hk | rfl | hk
  · have hle : k * d ≤ d * q := by
      rw [Nat.mul_comm d q]
      exact Nat.mul_le_mul_right d (Nat.le_of_lt_succ hk)
    rw [Nat.mul_assoc]
    split <;> omega
  · have hmul : 2 * (q + 1) * d = 2 * (d * q) + 2 * d := by ring
    rw [hmul]
    split <;> omega
  · have hge : d * q + 2 * d ≤ k * d := by
      calc d * q + 2 * d = (q + 2) * d := by ring
        _ ≤ k * d := Nat.mul_le_mul_right d hk
    rw [Nat.mul_assoc]
    split <;> omega

theorem le_roundDiv {n d k : ℕ} (hd : 0 < d) (h : k * d ≤ n) : k ≤ roundDiv n d :=
  (le_roundDiv_iff hd).2 (.inl (by rw [Nat.mul_assoc]; omega))

theorem roundDiv_le {n d k : ℕ} (hd : 0 < d) (h : n ≤ k * d) : roundDiv n d ≤ k := by
  by_contra hlt
  have hmul : 2 * (k + 1) * d = 2 * (k * d) + 2 * d := by ring
  rcases (le_roundDiv_iff (k := k + 1) hd).1 (Nat.lt_of_not_le hlt) with h | ⟨h, -⟩
  · omega
  · omega

/-- **Rounding goes at most half a unit.** -/
theorem abs_roundDiv_sub_le (n : ℕ) {d : ℕ} (hd : 0 < d) :
    |(roundDiv n d : ℚ) - n / d| ≤ 1 / 2 := by
  have hd' : (0 : ℚ) < d := Nat.cast_pos.2 hd
  have hup : 2 * roundDiv n d * d ≤ 2 * n + d := by
    rcases (le_roundDiv_iff hd).1 (Nat.le_refl (roundDiv n d)) with h | ⟨h, -⟩
    · exact h.le
    · exact h.le
  have hdown : 2 * n + d ≤ 2 * (roundDiv n d + 1) * d := by
    by_contra hlt
    have := (le_roundDiv_iff hd).2 (.inl (Nat.lt_of_not_le hlt))
    omega
  have hup' : 2 * (roundDiv n d : ℚ) * d ≤ 2 * n + d := mod_cast hup
  have hdown' : 2 * (n : ℚ) + d ≤ 2 * (roundDiv n d + 1) * d := mod_cast hdown
  have hn : (n : ℚ) / d * d = n := div_mul_cancel₀ _ hd'.ne'
  rw [abs_le]
  constructor
  · nlinarith
  · nlinarith

namespace BinaryFraction

/-! ## Numbers of 53 binary digits -/

/-- **The number that a fraction stands for.** -/
def value (x : BinaryFraction) : ℚ := x.numerator / 2 ^ x.scale

theorem value_eq (x : BinaryFraction) : x.value = x.numerator / x.denominator := by
  rw [value, denominator]
  norm_cast

theorem denominator_pos (x : BinaryFraction) : 0 < x.denominator := Nat.two_pow_pos _

theorem value_nonneg (x : BinaryFraction) : 0 ≤ x.value := by
  rw [value]
  positivity

theorem value_shifted (n shift down : ℕ) :
    (shifted n shift down).value = n * 2 ^ ((down : ℤ) - shift) := by
  unfold shifted
  split
  next h =>
    obtain ⟨k, rfl⟩ := Nat.exists_eq_add_of_le h
    have he : (down : ℤ) - (down + k : ℕ) = -(k : ℤ) := by push_cast; ring
    rw [value, he, zpow_neg, zpow_natCast, div_eq_mul_inv, Nat.add_sub_cancel_left]
  next h =>
    obtain ⟨k, rfl⟩ := Nat.exists_eq_add_of_le (Nat.le_of_not_le h)
    have he : ((shift + k : ℕ) : ℤ) - shift = (k : ℤ) := by push_cast; ring
    rw [value, he, zpow_natCast, Nat.add_sub_cancel_left]
    simp

/-- A quotient times `2 ^ (up - down)`, again as a quotient. -/
def scaled (n d down up : ℕ) : ℕ × ℕ :=
  if down ≤ up then (n * 2 ^ (up - down), d) else (n, d * 2 ^ (down - up))

theorem scaled_pos (n : ℕ) {d : ℕ} (hd : 0 < d) (down up : ℕ) : 0 < (scaled n d down up).2 := by
  unfold scaled
  split
  · exact hd
  · exact Nat.mul_pos hd (Nat.two_pow_pos _)

theorem scaled_div (n : ℕ) {d : ℕ} (hd : 0 < d) (down up : ℕ) :
    ((scaled n d down up).1 : ℚ) / (scaled n d down up).2 = n / d * 2 ^ ((up : ℤ) - down) := by
  have hd' : (d : ℚ) ≠ 0 := Nat.cast_ne_zero.2 hd.ne'
  unfold scaled
  split
  next h =>
    obtain ⟨k, rfl⟩ := Nat.exists_eq_add_of_le h
    have he : ((down + k : ℕ) : ℤ) - down = (k : ℤ) := by push_cast; ring
    rw [he, zpow_natCast, Nat.add_sub_cancel_left]
    push_cast
    ring
  next h =>
    obtain ⟨k, rfl⟩ := Nat.exists_eq_add_of_le (Nat.le_of_not_le h)
    have he : (up : ℤ) - (up + k : ℕ) = -(k : ℤ) := by push_cast; ring
    rw [he, zpow_neg, zpow_natCast, Nat.add_sub_cancel_left]
    push_cast
    field_simp

/-- Rounding to 53 digits takes the first of two scales under which the
whole part has so many. -/
theorem nearest_eq {n d : ℕ} (hn : n ≠ 0) :
    nearest n d =
      let up := 52 + d.log2
      let down := n.log2
      let p := scaled n d down up
      let q := scaled n d down (up + 1)
      if 2 ^ 52 * p.2 ≤ p.1 then shifted (roundDiv p.1 p.2) up down
      else shifted (roundDiv q.1 q.2) (up + 1) down := by
  rw [nearest, if_neg (by simpa using hn)]
  rfl

/-- One scale further there are enough digits: `n` has its leading digit, and
`d` is below its next. -/
theorem le_scaled {n d : ℕ} (hn : n ≠ 0) (hd : 0 < d) :
    2 ^ 52 * (scaled n d n.log2 (52 + d.log2 + 1)).2
      ≤ (scaled n d n.log2 (52 + d.log2 + 1)).1 := by
  have hb : (0 : ℚ) < (scaled n d n.log2 (52 + d.log2 + 1)).2 :=
    Nat.cast_pos.2 (scaled_pos n hd _ _)
  have hd' : (0 : ℚ) < d := Nat.cast_pos.2 hd
  have hlow : (2 : ℚ) ^ n.log2 ≤ n := mod_cast Nat.log2_self_le hn
  have hhigh : (d : ℚ) ≤ 2 ^ (d.log2 + 1) := mod_cast Nat.lt_log2_self.le
  have hexp : (2 : ℚ) ^ (((52 + d.log2 + 1 : ℕ) : ℤ) - n.log2)
      = 2 ^ 52 * 2 ^ (d.log2 + 1) / 2 ^ n.log2 := by
    rw [zpow_sub₀ two_ne_zero, zpow_natCast, zpow_natCast, ← pow_add, Nat.add_assoc]
  have hle : (2 : ℚ) ^ 52 ≤ n / d * 2 ^ (((52 + d.log2 + 1 : ℕ) : ℤ) - n.log2) := by
    rw [hexp, div_mul_div_comm, le_div_iff₀ (by positivity)]
    calc (2 : ℚ) ^ 52 * (d * 2 ^ n.log2) = 2 ^ n.log2 * (2 ^ 52 * (d : ℚ)) := by ring
      _ ≤ (n : ℚ) * (2 ^ 52 * 2 ^ (d.log2 + 1)) := by gcongr
  rw [← scaled_div n hd, le_div_iff₀ hb] at hle
  exact mod_cast hle

/-- **What rounding to 53 digits does**: the quotient is scaled to at least
`2 ^ 52`, rounded there, and scaled back. -/
theorem exists_nearest {n d : ℕ} (hn : n ≠ 0) (hd : 0 < d) :
    ∃ (e : ℤ) (a b : ℕ), 0 < b ∧ (a : ℚ) / b = n / d * 2 ^ e ∧ 2 ^ 52 * b ≤ a
      ∧ (nearest n d).value = roundDiv a b * 2 ^ (-e) := by
  have hback (up : ℕ) : (n.log2 : ℤ) - up = -((up : ℤ) - n.log2) := by ring
  rw [nearest_eq hn]
  simp only
  split
  next h =>
    refine ⟨_, _, _, scaled_pos n hd n.log2 _, scaled_div n hd n.log2 _, h, ?_⟩
    rw [value_shifted, hback]
  next =>
    refine ⟨_, _, _, scaled_pos n hd n.log2 _, scaled_div n hd n.log2 _, le_scaled hn hd, ?_⟩
    rw [value_shifted, hback]

/-- **A number is rounded to 53 binary digits.** -/
structure Rounds (q y : ℚ) : Prop where
  /-- The error is at most one part in `2 ^ 53`. -/
  error : |y - q| ≤ q / 2 ^ 53
  /-- No number of 53 digits below it is passed. -/
  le_of_le : ∀ {k j : ℕ}, k < 2 ^ 53 → (k : ℚ) / 2 ^ j ≤ q → (k : ℚ) / 2 ^ j ≤ y
  /-- No number of 53 digits above it is passed. -/
  ge_of_ge : ∀ {k j : ℕ}, k < 2 ^ 53 → q ≤ (k : ℚ) / 2 ^ j → y ≤ (k : ℚ) / 2 ^ j

/-- **Rounding a scaled number.** What is at least `2 ^ 52` has all of its 53
digits before the point, so rounding it to a whole number keeps all
numbers of 53 digits on their sides. -/
theorem rounds_scaled {a b : ℕ} (hb : 0 < b) (h : 2 ^ 52 * b ≤ a) (e : ℤ) :
    Rounds (a / b * 2 ^ (-e)) (roundDiv a b * 2 ^ (-e)) := by
  have hb' : (0 : ℚ) < b := Nat.cast_pos.2 hb
  have hc : (0 : ℚ) < 2 ^ (-e) := zpow_pos two_pos _
  have hlow : (2 : ℚ) ^ 52 ≤ a / b := by
    rw [le_div_iff₀ hb']
    exact mod_cast h
  have hround : (2 : ℚ) ^ 52 ≤ roundDiv a b := mod_cast le_roundDiv hb h
  -- a number whose last digit the scale covers is a whole number there
  have hwhole : ∀ {k j i : ℕ}, e = (j + i : ℕ) → (k : ℚ) / 2 ^ j = (k * 2 ^ i : ℕ) * 2 ^ (-e) := by
    rintro k j i rfl
    rw [zpow_neg, zpow_natCast, pow_add]
    push_cast
    field_simp
  -- and a number that it does not cover is smaller
  have hsmall : ∀ {k j : ℕ}, k < 2 ^ 53 → e < j → (k : ℚ) / 2 ^ j < 2 ^ 52 * 2 ^ (-e) := by
    intro k j hk hj
    have hk' : (k : ℚ) < 2 ^ 53 := mod_cast hk
    calc (k : ℚ) / 2 ^ j < 2 ^ 53 / 2 ^ j := by gcongr
      _ = 2 ^ 52 * 2 ^ (1 - (j : ℤ)) := by
        rw [zpow_sub₀ two_ne_zero, zpow_natCast]
        ring
      _ ≤ 2 ^ 52 * 2 ^ (-e) := by
        gcongr
        · norm_num
        · omega
  constructor
  · rw [← sub_mul, abs_mul, abs_of_pos hc]
    calc |(roundDiv a b : ℚ) - a / b| * 2 ^ (-e) ≤ 1 / 2 * 2 ^ (-e) := by
          gcongr
          exact abs_roundDiv_sub_le a hb
      _ = 2 ^ 52 * 2 ^ (-e) / 2 ^ 53 := by ring
      _ ≤ a / b * 2 ^ (-e) / 2 ^ 53 := by gcongr
  · intro k j hk hle
    rcases lt_or_ge e j with hj | hj
    · exact (hsmall hk hj).le.trans (by gcongr)
    · obtain ⟨i, hi⟩ := Int.le.dest hj
      rw [hwhole (i := i) (by push_cast; omega)] at hle ⊢
      have hle := le_of_mul_le_mul_right hle hc
      rw [le_div_iff₀ hb'] at hle
      have hreach : k * 2 ^ i ≤ roundDiv a b := le_roundDiv hb (mod_cast hle)
      gcongr
  · intro k j hk hge
    rcases lt_or_ge e j with hj | hj
    · have hlt := hsmall hk hj
      have : (2 : ℚ) ^ 52 * 2 ^ (-e) ≤ a / b * 2 ^ (-e) := by gcongr
      exact absurd hlt (not_lt.2 (this.trans hge))
    · obtain ⟨i, hi⟩ := Int.le.dest hj
      rw [hwhole (i := i) (by push_cast; omega)] at hge ⊢
      have hge := le_of_mul_le_mul_right hge hc
      rw [div_le_iff₀ hb'] at hge
      have hreach : roundDiv a b ≤ k * 2 ^ i := roundDiv_le hb (mod_cast hge)
      gcongr

theorem rounds_nearest (n : ℕ) {d : ℕ} (hd : 0 < d) : Rounds (n / d) (nearest n d).value := by
  by_cases hn : n = 0
  · subst hn
    have hzero : (nearest 0 d).value = 0 := by simp [nearest, value]
    rw [hzero, Nat.cast_zero, zero_div]
    exact ⟨by simp, fun _ h => h, fun _ h => h⟩
  · obtain ⟨e, a, b, hb, hab, hle, hvalue⟩ := exists_nearest hn hd
    have hq : (n : ℚ) / d = a / b * 2 ^ (-e) := by
      rw [hab, mul_assoc, ← zpow_add₀ two_ne_zero, add_neg_cancel, zpow_zero, mul_one]
    rw [hvalue, hq]
    exact rounds_scaled hb hle e

theorem rounds_add (x y : BinaryFraction) : Rounds (x.value + y.value) (x.add y).value := by
  have hx := x.denominator_pos
  have hy := y.denominator_pos
  have hq : x.value + y.value
      = (x.numerator * y.denominator + y.numerator * x.denominator : ℕ)
        / (x.denominator * y.denominator : ℕ) := by
    rw [value_eq, value_eq]
    push_cast
    field_simp
  rw [hq]
  exact rounds_nearest _ (Nat.mul_pos hx hy)

theorem rounds_mulNat (x : BinaryFraction) (k : ℕ) : Rounds (x.value * k) (x.mulNat k).value := by
  have hq : x.value * k = (x.numerator * k : ℕ) / x.denominator := by
    rw [value_eq]
    push_cast
    ring
  rw [hq]
  exact rounds_nearest _ x.denominator_pos

theorem rounds_divNat (x : BinaryFraction) {k : ℕ} (hk : 0 < k) :
    Rounds (x.value / k) (x.divNat k).value := by
  have hq : x.value / k = x.numerator / (x.denominator * k : ℕ) := by
    rw [value_eq]
    push_cast
    rw [div_div]
  rw [hq]
  exact rounds_nearest _ (Nat.mul_pos x.denominator_pos hk)

/-! ## Bounds that are numbers of 53 digits -/

/-- A number of 53 digits stays as it is. -/
theorem Rounds.eq {y : ℚ} {k j : ℕ} (h : Rounds ((k : ℚ) / 2 ^ j) y) (hk : k < 2 ^ 53) :
    y = (k : ℚ) / 2 ^ j :=
  le_antisymm (h.ge_of_ge hk le_rfl) (h.le_of_le hk le_rfl)

theorem Rounds.natCast_le {q y : ℚ} (h : Rounds q y) {k : ℕ} (hk : k < 2 ^ 53) (hq : (k : ℚ) ≤ q) :
    (k : ℚ) ≤ y := by
  have := h.le_of_le (j := 0) hk (by simpa using hq)
  simpa using this

theorem Rounds.le_natCast {q y : ℚ} (h : Rounds q y) {k : ℕ} (hk : k < 2 ^ 53) (hq : q ≤ (k : ℚ)) :
    y ≤ (k : ℚ) := by
  have := h.ge_of_ge (j := 0) hk (by simpa using hq)
  simpa using this

theorem value_nearest_natCast {k : ℕ} (hk : k < 2 ^ 53) : (nearest k 1).value = k := by
  have h := rounds_nearest k Nat.one_pos
  rw [Nat.cast_one, div_one] at h
  exact le_antisymm (h.le_natCast hk le_rfl) (h.natCast_le hk le_rfl)

/-! ## Reading fractions -/

theorem ltNat_iff (x : BinaryFraction) (k : ℕ) : x.ltNat k = true ↔ x.value < k := by
  have hd : (0 : ℚ) < x.denominator := Nat.cast_pos.2 x.denominator_pos
  rw [ltNat, decide_eq_true_iff, value_eq, div_lt_iff₀ hd]
  exact_mod_cast Iff.rfl

theorem floor_eq (x : BinaryFraction) : x.floor = ⌊x.value⌋₊ := by
  rw [value_eq, floor, Nat.floor_div_eq_div]

/-- What is left when a whole number is taken away as often as it goes. -/
theorem value_modNat (x : BinaryFraction) (k : ℕ) :
    (x.modNat k).value = x.value - k * ⌊x.value / k⌋₊ := by
  have hd := x.denominator_pos
  have hfloor : ⌊x.value / k⌋₊ = x.numerator / (k * x.denominator) := by
    rw [value_eq, div_div, ← Nat.cast_mul, Nat.floor_div_eq_div, Nat.mul_comm]
  have hmod := Nat.div_add_mod x.numerator (k * x.denominator)
  have hmod' : (k * x.denominator : ℚ) * (x.numerator / (k * x.denominator) : ℕ)
      + (x.numerator % (k * x.denominator) : ℕ) = x.numerator := mod_cast hmod
  rw [hfloor, value_eq x, value_eq (x.modNat k)]
  show ((x.numerator % (k * x.denominator) : ℕ) : ℚ) / x.denominator = _
  rw [← hmod']
  have hd' : (x.denominator : ℚ) ≠ 0 := Nat.cast_ne_zero.2 hd.ne'
  field_simp
  ring

theorem value_modNat_lt (x : BinaryFraction) {k : ℕ} (hk : 0 < k) : (x.modNat k).value < k := by
  have hk' : (0 : ℚ) < k := Nat.cast_pos.2 hk
  rw [value_modNat]
  have := Nat.lt_floor_add_one (x.value / k)
  rw [div_lt_iff₀ hk'] at this
  linarith

theorem inUnits_eq (x : BinaryFraction) (digits : ℕ) :
    x.inUnits digits = roundDiv (x.numerator * 10 ^ digits) x.denominator := rfl

theorem value_mul_units (x : BinaryFraction) (digits : ℕ) :
    x.value * 10 ^ digits = (x.numerator * 10 ^ digits : ℕ) / x.denominator := by
  rw [value_eq]
  push_cast
  ring

/-- **A unit is reached** from the middle below it on, in the middle itself by
an even one. -/
theorem le_inUnits_iff (x : BinaryFraction) (digits k : ℕ) :
    k ≤ x.inUnits digits ↔ (k : ℚ) - 1 / 2 < x.value * 10 ^ digits
      ∨ ((k : ℚ) - 1 / 2 = x.value * 10 ^ digits ∧ k % 2 = 0) := by
  have hd : (0 : ℚ) < x.denominator := Nat.cast_pos.2 x.denominator_pos
  rw [inUnits_eq, le_roundDiv_iff x.denominator_pos, value_mul_units, lt_div_iff₀ hd,
    eq_div_iff hd.ne', ← Nat.cast_lt (α := ℚ), ← Nat.cast_inj (R := ℚ)]
  push_cast
  refine or_congr ?_ (and_congr_left' ?_)
  · constructor <;> intro h <;> linarith
  · constructor <;> intro h <;> linarith

theorem abs_inUnits_sub_le (x : BinaryFraction) (digits : ℕ) :
    |(x.inUnits digits : ℚ) - x.value * 10 ^ digits| ≤ 1 / 2 := by
  rw [inUnits_eq, value_mul_units]
  exact abs_roundDiv_sub_le _ x.denominator_pos

end BinaryFraction

/-! ## Whole numbers read back -/

/-- **A whole number of 53 digits is written as it is**: no other is read back
as it. -/
theorem roundest_eq_self {n : ℕ} (hn : n + 1 < 2 ^ 53) (zeros : ℕ) : roundest n zeros = n := by
  induction zeros with
  | zero => rfl
  | succ zeros ih =>
    rw [roundest]
    generalize roundDiv n (Nat.pow 10 (zeros + 1)) * Nat.pow 10 (zeros + 1) = m
    split
    next h =>
      have hfloor : ⌊(BinaryFraction.nearest m 1).value⌋₊ = n := by
        rw [← BinaryFraction.floor_eq]
        simpa using h
      rcases Nat.lt_or_ge m (2 ^ 53) with hm | hm
      · rwa [BinaryFraction.value_nearest_natCast hm, Nat.floor_natCast] at hfloor
      · -- a greater number is read back as a greater number
        have hlow : ((n + 1 : ℕ) : ℚ) ≤ (BinaryFraction.nearest m 1).value := by
          refine (BinaryFraction.rounds_nearest m Nat.one_pos).natCast_le hn ?_
          rw [Nat.cast_one, div_one, Nat.cast_le]
          omega
        have := Nat.le_floor hlow
        omega
    next => exact ih

end JavaMutants.Number
