import JavaMutants.Duration
import JavaMutants.Proofs.Number.Rounding

/-!
# What is read off a written duration

A written duration has one field that is rounded: the milliseconds, the
tenths of seconds, or the seconds beside whole minutes. It is a whole
number nearest to the quantity that it stands for (`Duration.Shows`), and
so it reaches the bound of its form, a thousand or sixty, exactly if the
quantity lies within half a unit of that bound. The form is chosen before
the field is rounded, so just below a bound the bound itself is shown:
`1m 60s` is written, and not `2m 0s` (`Duration.bounds_shown`).

The length is kept as a number of 53 binary digits. The error of that is
small enough to change no field of a duration below `2 ^ 22` seconds, some
48 days, not even in a middle between two fields. Beyond, the fields are
those of the number that is kept.
-/

namespace JavaMutants

open Number BinaryFraction

namespace Duration

/-- **The length in seconds**, exactly. -/
def exact (d : Duration) : ℚ := d.seconds + d.nanos / 10 ^ 9

/-! ## Fields -/

/-- **What a field shows of a quantity**: a whole number nearest to it, below a
bound or at it. -/
structure Shows (shown bound : ℕ) (q : ℚ) : Prop where
  /-- The quantity is rounded. -/
  near : |(shown : ℚ) - q| ≤ 1 / 2
  /-- The bound is not passed. -/
  le : shown ≤ bound
  /-- The bound is reached by what lies within half a unit of it. -/
  eq_iff : shown = bound ↔ (bound : ℚ) - 1 / 2 ≤ q

/-- A whole number nearest to what lies below a bound shows it, if it goes up
in the last middle. -/
theorem shows_of_near {m b : ℕ} {q : ℚ} (near : |(m : ℚ) - q| ≤ 1 / 2) (hq : q < b)
    (hmiddle : q = b - 1 / 2 → b ≤ m) : Shows m b q := by
  have ⟨hlow, hhigh⟩ := abs_le.1 near
  have hle : m ≤ b := by
    have : (m : ℚ) < (b + 1 : ℕ) := by
      push_cast
      linarith
    exact Nat.le_of_lt_succ (mod_cast this)
  refine ⟨near, hle, ?_, fun h => ?_⟩
  · rintro rfl
    linarith
  · refine Nat.le_antisymm hle ?_
    rcases h.eq_or_lt with h | h
    · exact hmiddle h.symm
    · have : (b : ℚ) < (m + 1 : ℕ) := by
        push_cast
        linarith
      exact Nat.le_of_lt_succ (mod_cast this)

/-- **A small error is not seen in what is counted in even parts of a unit**: a
whole number nearest to something close by shows the quantity. -/
theorem shows_of_close {m b N u : ℕ} {q y : ℚ} (hu : 0 < u) (hq : q = N / (2 * u))
    (hm : |(m : ℚ) - y| ≤ 1 / 2) (hy : |y - q| < 1 / (2 * u)) (hb : N < 2 * b * u)
    (hmiddle : N + u = 2 * b * u → b ≤ m) : Shows m b q := by
  have hu' : (0 : ℚ) < 2 * u := by positivity
  refine shows_of_near ?_ ?_ fun h => hmiddle ?_
  · -- counted in parts, the distance is a whole number
    have hparts : (m : ℚ) - q = (m * (2 * u) - N : ℤ) / (2 * u) := by
      rw [hq]
      push_cast
      field_simp
    have hlt : |(m : ℚ) - q| < 1 / 2 + 1 / (2 * u) :=
      calc |(m : ℚ) - q| ≤ |(m : ℚ) - y| + |y - q| := abs_sub_le _ _ _
        _ < 1 / 2 + 1 / (2 * u) := add_lt_add_of_le_of_lt hm hy
    have hsum : (1 / 2 + 1 / (2 * (u : ℚ))) * (2 * u) = u + 1 := by field_simp
    rw [hparts, abs_div, abs_of_pos hu', ← Int.cast_abs] at hlt ⊢
    rw [div_lt_iff₀ hu', hsum] at hlt
    have hle : |(m * (2 * u) - N : ℤ)| ≤ (u : ℤ) := Int.lt_add_one_iff.1 (mod_cast hlt)
    have hle' : ((|(m * (2 * u) - N : ℤ)| : ℤ) : ℚ) ≤ u := mod_cast hle
    rw [div_le_iff₀ hu']
    linarith
  · rw [hq, div_lt_iff₀ hu']
    have hb' : (N : ℚ) < 2 * b * u := mod_cast hb
    linarith
  · rw [hq, div_eq_iff hu'.ne'] at h
    have : (N + u : ℚ) = 2 * b * u := by linarith
    exact mod_cast this

/-! ## The number of seconds -/

/-- The length counted in billionths. -/
theorem exact_eq (d : Duration) : d.exact = (d.seconds * 10 ^ 9 + d.nanos : ℕ) / 10 ^ 9 := by
  rw [exact]
  push_cast
  ring

theorem exact_nonneg (d : Duration) : 0 ≤ d.exact := by
  rw [exact]
  positivity

/-- Seconds and billionths are rounded each, and then their sum. -/
theorem rounds_inSeconds (d : Duration) :
    ∃ s n : ℚ, Rounds d.seconds s ∧ Rounds (d.nanos / 10 ^ 9) n
      ∧ Rounds (s + n) d.inSeconds.value := by
  refine ⟨_, _, ?_, ?_, rounds_add _ _⟩
  · have h := rounds_nearest d.seconds Nat.one_pos
    rwa [Nat.cast_one, div_one] at h
  · have h := rounds_nearest d.nanos (d := nanosPerSecond) (by decide)
    rwa [show (nanosPerSecond : ℚ) = 10 ^ 9 by norm_num [nanosPerSecond]] at h

/-- **What keeping 53 digits costs.** -/
theorem abs_inSeconds_sub_le (d : Duration) :
    |d.inSeconds.value - d.exact| ≤ d.exact / 2 ^ 51 := by
  obtain ⟨s, n, hs, hn, hx⟩ := rounds_inSeconds d
  have ⟨hs₁, hs₂⟩ := abs_le.1 hs.error
  have ⟨hn₁, hn₂⟩ := abs_le.1 hn.error
  have ⟨hx₁, hx₂⟩ := abs_le.1 hx.error
  have hexact := d.exact_nonneg
  rw [exact] at hexact ⊢
  rw [abs_le]
  constructor
  · linarith
  · linarith

/-- A length of at least so many seconds is kept as one. -/
theorem natCast_le_inSeconds {d : Duration} {k : ℕ} (hk : k < 2 ^ 53) (h : k ≤ d.seconds) :
    (k : ℚ) ≤ d.inSeconds.value := by
  obtain ⟨s, n, hs, hn, hx⟩ := rounds_inSeconds d
  have hs := hs.natCast_le hk (mod_cast h)
  have hn : ((0 : ℕ) : ℚ) ≤ n := hn.natCast_le (by norm_num) (by rw [Nat.cast_zero]; positivity)
  refine hx.natCast_le hk ?_
  rw [Nat.cast_zero] at hn
  linarith

section Proper

variable {d : Duration} (hd : d.nanos < nanosPerSecond)

include hd

theorem nanos_le : (d.nanos : ℚ) ≤ 10 ^ 9 - 1 := by
  have h : d.nanos + 1 ≤ 10 ^ 9 := hd
  have h' : (d.nanos : ℚ) + 1 ≤ 10 ^ 9 := mod_cast h
  linarith

theorem exact_lt_natCast_iff {k : ℕ} : d.exact < k ↔ d.seconds < k := by
  have hnanos := nanos_le hd
  rw [exact]
  constructor
  · intro h
    have : (d.seconds : ℚ) < k := lt_of_le_of_lt (le_add_of_nonneg_right (by positivity)) h
    exact mod_cast this
  · intro h
    have : (d.seconds : ℚ) + 1 ≤ k := mod_cast h
    linarith

/-- **Below `2 ^ 22` seconds less than half a billionth is lost.** -/
theorem abs_inSeconds_sub_lt (h : d.seconds < 2 ^ 22) :
    |d.inSeconds.value - d.exact| < 1 / (2 * 10 ^ 9) := by
  obtain ⟨s, n, hs, hn, hx⟩ := rounds_inSeconds d
  have hnanos := nanos_le hd
  have hsec : (d.seconds : ℚ) + 1 ≤ 2 ^ 22 := mod_cast h
  have hs : s = d.seconds := le_antisymm (hs.le_natCast (by omega) le_rfl)
    (hs.natCast_le (by omega) le_rfl)
  subst hs
  have ⟨hn₁, hn₂⟩ := abs_le.1 hn.error
  have ⟨hx₁, hx₂⟩ := abs_le.1 hx.error
  rw [exact, abs_lt]
  constructor
  · linarith
  · linarith

theorem inSeconds_lt_succ (h : d.seconds < 2 ^ 22) :
    d.inSeconds.value + 1 / (2 * 10 ^ 9) < d.seconds + 1 := by
  have ⟨_, hhigh⟩ := abs_lt.1 (abs_inSeconds_sub_lt hd h)
  have hnanos := nanos_le hd
  rw [exact] at hhigh
  linarith

theorem inSeconds_lt_iff {k : ℕ} (hk : k ≤ 2 ^ 22) :
    d.inSeconds.value < k ↔ d.seconds < k := by
  constructor
  · intro h
    by_contra hge
    exact absurd h (not_lt.2 (natCast_le_inSeconds (by omega) (Nat.le_of_not_lt hge)))
  · intro h
    have hlt := inSeconds_lt_succ hd (by omega)
    have hsec : (d.seconds : ℚ) + 1 ≤ k := mod_cast h
    linarith

/-- **The form is chosen by the exact length.** -/
theorem text_eq : d.text =
    if d.seconds < 1 then milliseconds d.inSeconds
    else if d.seconds < 60 then tenths d.inSeconds
    else minutes d.inSeconds := by
  have hlt {k : ℕ} (hk : k ≤ 2 ^ 22) : (d.inSeconds.ltNat k = true) = (d.seconds < k) :=
    propext ((ltNat_iff d.inSeconds k).trans (inSeconds_lt_iff hd hk))
  unfold text
  simp only [hlt (k := 1) (by norm_num), hlt (k := 60) (by norm_num)]

/-! ## Milliseconds and tenths -/

/-- **Milliseconds below a second.** -/
theorem shows_milliseconds (h : d.seconds = 0) :
    Shows ((d.inSeconds.mulNat 1000).inUnits 0) 1000 (1000 * d.exact) := by
  have hnanos : d.nanos < 10 ^ 9 := hd
  have ⟨hx₁, hx₂⟩ := abs_lt.1 (abs_inSeconds_sub_lt hd (by omega))
  have ⟨hy₁, hy₂⟩ := abs_le.1 (rounds_mulNat d.inSeconds 1000).error
  have hlt := inSeconds_lt_succ hd (by omega)
  rw [h] at hlt
  push_cast at hy₁ hy₂ hlt
  refine shows_of_close (u := 500000) (N := d.seconds * 10 ^ 9 + d.nanos) (by norm_num) ?_
    (by simpa using abs_inUnits_sub_le (d.inSeconds.mulNat 1000) 0) ?_ (by omega) fun hmiddle => ?_
  · rw [exact_eq]
    push_cast
    ring
  · push_cast
    rw [abs_lt]
    constructor
    · linarith
    · linarith
  · -- only one duration lies in the last middle
    obtain ⟨s, n⟩ := d
    simp only at hmiddle hnanos h
    obtain ⟨rfl, rfl⟩ : s = 0 ∧ n = 999500000 := by omega
    exact Nat.le_of_eq (by decide)

/-- **Tenths of seconds below a minute.** -/
theorem shows_tenths (h : d.seconds < 60) : Shows (d.inSeconds.inUnits 1) 600 (10 * d.exact) := by
  have hnanos : d.nanos < 10 ^ 9 := hd
  have ⟨hx₁, hx₂⟩ := abs_lt.1 (abs_inSeconds_sub_lt hd (by omega))
  refine shows_of_close (u := 50000000) (N := d.seconds * 10 ^ 9 + d.nanos) (by norm_num) ?_
    (by simpa using abs_inUnits_sub_le d.inSeconds 1) ?_ (by omega) fun hmiddle => ?_
  · rw [exact_eq]
    push_cast
    ring
  · push_cast
    rw [abs_lt]
    constructor
    · linarith
    · linarith
  · obtain ⟨s, n⟩ := d
    simp only at hmiddle hnanos h
    obtain ⟨rfl, rfl⟩ : s = 59 ∧ n = 950000000 := by omega
    exact Nat.le_of_eq (by decide)

/-! ## Minutes and seconds -/

omit hd in
/-- **The seconds beside the minutes** are those of the number that is kept. -/
theorem shows_rest (d : Duration) :
    Shows ((d.inSeconds.modNat 60).inUnits 0) 60
      (d.inSeconds.value - 60 * ⌊d.inSeconds.value / 60⌋₊) := by
  have hrest := value_modNat d.inSeconds 60
  have hnear := abs_inUnits_sub_le (d.inSeconds.modNat 60) 0
  rw [pow_zero, mul_one, hrest] at hnear
  have hlt := value_modNat_lt d.inSeconds (k := 60) (by norm_num)
  rw [hrest] at hlt
  refine shows_of_near (by simpa using hnear) (by simpa using hlt) fun hmiddle => ?_
  rw [le_inUnits_iff, pow_zero, mul_one, hrest]
  exact .inr ⟨by simpa using hmiddle.symm, rfl⟩

omit hd in
/-- A length of whole and a half seconds is kept exactly. -/
theorem inSeconds_of_half (h : d.seconds < 2 ^ 22) (hhalf : d.nanos = 500000000) :
    d.inSeconds.value = d.exact := by
  obtain ⟨s, n, hs, hn, hx⟩ := rounds_inSeconds d
  have hs : s = d.seconds := le_antisymm (hs.le_natCast (by omega) le_rfl)
    (hs.natCast_le (by omega) le_rfl)
  have hhalf' : (d.nanos : ℚ) / 10 ^ 9 = (1 : ℕ) / 2 ^ 1 := by
    rw [hhalf]
    norm_num
  rw [hhalf'] at hn
  have hn := hn.eq (by norm_num)
  have hsum : s + n = (2 * d.seconds + 1 : ℕ) / 2 ^ 1 := by
    rw [hs, hn]
    push_cast
    ring
  rw [hsum] at hx
  rw [hx.eq (by omega), exact, hhalf', ← hsum, hs, hn]

theorem floor_inSeconds (h : d.seconds < 2 ^ 22) : ⌊d.inSeconds.value / 60⌋₊ = d.seconds / 60 := by
  have hlow := natCast_le_inSeconds (d := d) (by omega) (Nat.le_refl _)
  have hhigh := inSeconds_lt_succ hd h
  have hdiv : (60 * (d.seconds / 60 : ℕ) : ℚ) ≤ d.seconds := mod_cast Nat.mul_div_le d.seconds 60
  have hmod : (d.seconds + 1 : ℚ) ≤ 60 * ((d.seconds / 60 : ℕ) + 1) := by
    have : d.seconds + 1 ≤ 60 * (d.seconds / 60 + 1) := by omega
    exact mod_cast this
  rw [Nat.floor_eq_iff (div_nonneg (value_nonneg _) (by norm_num)), le_div_iff₀ (by norm_num),
    div_lt_iff₀ (by norm_num)]
  constructor
  · linarith
  · linarith

theorem floor_divNat (h : d.seconds < 2 ^ 22) : (d.inSeconds.divNat 60).floor = d.seconds / 60 := by
  have hlow := natCast_le_inSeconds (d := d) (by omega) (Nat.le_refl _)
  have hhigh := inSeconds_lt_succ hd h
  have hsec : (d.seconds : ℚ) + 1 ≤ 2 ^ 22 := mod_cast h
  have hdiv : (60 * (d.seconds / 60 : ℕ) : ℚ) ≤ d.seconds := mod_cast Nat.mul_div_le d.seconds 60
  have hmod : (d.seconds + 1 : ℚ) ≤ 60 * ((d.seconds / 60 : ℕ) + 1) := by
    have : d.seconds + 1 ≤ 60 * (d.seconds / 60 + 1) := by omega
    exact mod_cast this
  have hrounds := rounds_divNat d.inSeconds (k := 60) (by norm_num)
  have ⟨_, herror⟩ := abs_le.1 hrounds.error
  push_cast at herror
  rw [floor_eq, Nat.floor_eq_iff (value_nonneg _)]
  constructor
  · refine hrounds.natCast_le (by omega) ?_
    push_cast
    linarith
  · linarith

/-- **The seconds beside the minutes** below `2 ^ 22` seconds. -/
theorem shows_seconds (h : d.seconds < 2 ^ 22) :
    Shows ((d.inSeconds.modNat 60).inUnits 0) 60 (d.exact - 60 * (d.seconds / 60 : ℕ)) := by
  have hnanos : d.nanos < 10 ^ 9 := hd
  have hrest := shows_rest d
  rw [floor_inSeconds hd h] at hrest
  have ⟨hx₁, hx₂⟩ := abs_lt.1 (abs_inSeconds_sub_lt hd h)
  have hdiv : (d.seconds : ℚ) = 60 * (d.seconds / 60 : ℕ) + (d.seconds % 60 : ℕ) :=
    mod_cast (Nat.div_add_mod d.seconds 60).symm
  have hq : d.exact - 60 * (d.seconds / 60 : ℕ)
      = (d.seconds % 60 * 10 ^ 9 + d.nanos : ℕ) / (2 * (500000000 : ℕ)) := by
    rw [exact, hdiv]
    push_cast
    ring
  refine shows_of_close (by norm_num) hq hrest.near ?_ (by omega) fun hmiddle => ?_
  · push_cast
    rw [abs_lt]
    constructor
    · linarith
    · linarith
  · -- the number that is kept lies in the middle, too
    have hhalf : d.nanos = 500000000 := by omega
    refine (hrest.eq_iff.2 ?_).ge
    rw [inSeconds_of_half h hhalf, hq, show d.seconds % 60 = 59 by omega, hhalf]
    norm_num

end Proper

/-! ## The text -/

/-- **How a duration is written.** Each form has one field that is rounded, and
it is shown as a whole number nearest to what it stands for; so it stays
below its bound, or shows the bound itself if it is within half a unit of
that. From a minute on the field is that of the number that is kept, which
errs by at most one part in `2 ^ 51`, and below `2 ^ 22` seconds it is that
of the exact length. -/
theorem text_fields {d : Duration} (hd : d.nanos < nanosPerSecond) :
    (d.exact < 1 ∧ ∃ ms, d.text = toString ms ++ "ms" ∧ Shows ms 1000 (1000 * d.exact))
    ∨ (1 ≤ d.exact ∧ d.exact < 60
      ∧ ∃ t, d.text = toString (t / 10) ++ "." ++ toString (t % 10) ++ "s"
        ∧ Shows t 600 (10 * d.exact))
    ∨ (60 ≤ d.exact
      ∧ ∃ m s, d.text = toString m ++ "m " ++ toString s ++ "s"
        ∧ Shows s 60 (d.inSeconds.value - 60 * ⌊d.inSeconds.value / 60⌋₊)
        ∧ |d.inSeconds.value - d.exact| ≤ d.exact / 2 ^ 51
        ∧ (d.seconds < 2 ^ 22 → m = d.seconds / 60 ∧ Shows s 60 (d.exact - 60 * m))) := by
  have hone := exact_lt_natCast_iff (k := 1) hd
  have hsixty := exact_lt_natCast_iff (k := 60) hd
  have htext := text_eq hd
  rw [Nat.cast_one] at hone
  rw [Nat.cast_ofNat] at hsixty
  by_cases h₁ : d.seconds < 1
  · rw [if_pos h₁] at htext
    exact .inl ⟨hone.2 h₁, _, htext, shows_milliseconds hd (by omega)⟩
  rw [if_neg h₁] at htext
  rw [← hone, not_lt] at h₁
  by_cases h₂ : d.seconds < 60
  · rw [if_pos h₂] at htext
    exact .inr (.inl ⟨h₁, hsixty.2 h₂, _, htext, shows_tenths hd h₂⟩)
  · rw [if_neg h₂] at htext
    rw [← hsixty, not_lt] at h₂
    refine .inr (.inr ⟨h₂, _, _, htext, shows_rest d, abs_inSeconds_sub_le d, fun h => ?_⟩)
    rw [floor_divNat hd h, roundest_eq_self (by omega)]
    exact ⟨rfl, shows_seconds hd h⟩

/-- Three tenths of a second before two minutes. -/
theorem text_fields_before_two_minutes :
    (⟨119, 700000000⟩ : Duration).nanos < nanosPerSecond
    ∧ ∃ s, (⟨119, 700000000⟩ : Duration).text = "1m " ++ toString s ++ "s"
      ∧ Shows s 60 (597 / 10) ∧ s = 60 := by
  refine ⟨by decide, ?_⟩
  rcases text_fields (d := ⟨119, 700000000⟩) (by decide) with
    ⟨h, -⟩ | ⟨-, h, -⟩ | ⟨-, m, s, htext, -, -, h⟩
  · norm_num [exact] at h
  · norm_num [exact] at h
  · obtain ⟨rfl, hs⟩ := h (by norm_num)
    have hq : (⟨119, 700000000⟩ : Duration).exact - 60 * ((⟨119, 700000000⟩ : Duration).seconds / 60 : ℕ)
        = 597 / 10 := by norm_num [exact]
    rw [hq] at hs
    exact ⟨s, htext, hs, hs.eq_iff.2 (by norm_num)⟩

/-- **Just below a bound the bound itself is shown**, in each of the three
forms. -/
theorem bounds_shown :
    (⟨0, 999700000⟩ : Duration).text = "1000ms"
    ∧ (⟨59, 970000000⟩ : Duration).text = "60.0s"
    ∧ (⟨119, 700000000⟩ : Duration).text = "1m 60s" := by
  refine ⟨?_, ?_, ?_⟩ <;> decide

end Duration

end JavaMutants
