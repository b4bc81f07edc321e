import RequestLine.Proofs.Number.Search

/-!
The decimal number that is found has no more digits than any other that is read as the same number, and
is the nearest of those with as few digits.  None of its digits is a zero at the end, and its leading
digit tells between which powers of ten the number that it was found for lies.
-/

namespace RequestLine

namespace Decimal

open Binary64 (nearest? rounded)

/-! ### The number of digits -/

/-- How many digits are written. -/
def count (d : Decimal) : Nat :=
  (Nat.toDigits 10 d.digits).length

/-- The place of the first digit that is written. -/
def leading (d : Decimal) : ℤ :=
  d.place + d.count - 1

theorem count_pos (d : Decimal) : 0 < d.count := Nat.length_toDigits_pos

theorem value_lt_pow_leading (d : Decimal) : d.value < 10 ^ (d.leading + 1) := by
  have digits : (d.digits : ℚ) < 10 ^ d.count := by exact_mod_cast lt_pow_length_toDigits d.digits
  rw [leading, sub_add_cancel, add_comm, zpow_add₀ (by norm_num), zpow_natCast, value_eq]
  gcongr

theorem pow_leading_le {d : Decimal} (some : 0 < d.digits) : (10 : ℚ) ^ d.leading ≤ d.value := by
  have digits : (10 : ℚ) ^ (d.count - 1) ≤ d.digits := by
    exact_mod_cast pow_length_toDigits_le some
  have count := d.count_pos
  have split : d.leading = (d.count - 1 : Nat) + d.place := by
    rw [leading]
    omega
  rw [split, zpow_add₀ (by norm_num), zpow_natCast, value_eq]
  gcongr

theorem value_one (place : ℤ) : (⟨1, place⟩ : Decimal).value = 10 ^ place := by
  rw [value_eq, Nat.cast_one, one_mul]

section

variable {x : Binary64} {d other : Decimal}

/-- Between numbers with different leading places there is a power of ten. -/
theorem leading_reads (positive : x.Positive) (reads : d.readsAs x = true)
    (readsOther : other.readsAs x = true) (lower : other.leading < d.leading) :
    readsAs ⟨1, d.leading⟩ x = true := by
  obtain ⟨some, same⟩ := (readsAs_iff_rounded positive).mp reads
  obtain ⟨someOther, sameOther⟩ := (readsAs_iff_rounded positive).mp readsOther
  refine readsAs_of_between positive (value_pos_iff.mpr someOther) sameOther same ?_ ?_
  · calc other.value ≤ 10 ^ (other.leading + 1) := (value_lt_pow_leading other).le
      _ ≤ 10 ^ d.leading := by
          gcongr
          · norm_num
          · omega
      _ = (⟨1, d.leading⟩ : Decimal).value := (value_one _).symm
  · rw [value_one]
    exact pow_leading_le some

theorem NearestOnCoarsest.count_eq_one (positive : x.Positive) (least : NearestOnCoarsest x d)
    (readsOther : other.readsAs x = true) (lower : other.leading < d.leading) : d.count = 1 := by
  have within := least.coarsest _ (leading_reads positive least.reads readsOther lower)
  have some := d.count_pos
  simp only [leading] at within
  omega

/-- A number with fewer digits would be below a power of ten on a coarser grid. -/
theorem NearestOnCoarsest.count_le (positive : x.Positive) (least : NearestOnCoarsest x d)
    (readsOther : other.readsAs x = true) : d.count ≤ other.count := by
  by_contra fewer
  have within := least.coarsest other readsOther
  have lower : other.leading < d.leading := by
    rw [leading, leading]
    omega
  have single := least.count_eq_one positive readsOther lower
  have some := other.count_pos
  omega

/-! ### One digit -/

/-- The least number, `2 ^ -1074`, is a little less than `5 * 10 ^ -324`. -/
theorem leastUnit_bounds :
    202 * (2 : ℚ) ^ (-1074 : ℤ) ≤ 100 * 10 ^ (-323 : ℤ) ∧
      100 * (10 : ℚ) ^ (-323 : ℤ) ≤ 203 * 2 ^ (-1074 : ℤ) := by
  have lower : 202 * 10 ^ 323 ≤ 100 * 2 ^ 1074 := by decide +kernel
  have upper : 100 * 2 ^ 1074 ≤ 203 * 10 ^ 323 := by decide +kernel
  have lowerCast : (202 : ℚ) * 10 ^ 323 ≤ 100 * 2 ^ 1074 := by exact_mod_cast lower
  have upperCast : (100 : ℚ) * 2 ^ 1074 ≤ 203 * 10 ^ 323 := by exact_mod_cast upper
  have twosPos : (0 : ℚ) < 2 ^ 1074 := by positivity
  have tensPos : (0 : ℚ) < 10 ^ 323 := by positivity
  have twos : (2 : ℚ) ^ (-1074 : ℤ) = (2 ^ 1074)⁻¹ := by rw [zpow_neg]; rfl
  have tens : (10 : ℚ) ^ (-323 : ℤ) = (10 ^ 323)⁻¹ := by rw [zpow_neg]; rfl
  simp only [twos, tens, ← div_eq_mul_inv]
  exact ⟨(div_le_div_iff₀ twosPos tensPos).mpr lowerCast,
    (div_le_div_iff₀ tensPos twosPos).mpr upperCast⟩

/-- A power of ten is at most a nineteenth above the number that it is rounded to.  On the grid of the
least numbers, where rounding can bring more, only `10 ^ -323` is among the powers that matter. -/
theorem nineteen_mul_le (power : ℤ) (some : (2 : ℚ) ^ (-1074 : ℤ) ≤ rounded (10 ^ power))
    (less : rounded (10 ^ power) < 10 ^ power) :
    19 * (10 : ℚ) ^ power ≤ 20 * rounded (10 ^ power) := by
  have positive : (0 : ℚ) < 10 ^ power := by positivity
  have error := Binary64.rounded_error (10 ^ power)
  rw [abs_of_neg (by linarith)] at error
  rcases (Binary64.le_gridOf (10 ^ power)).eq_or_lt with least | normal
  · obtain ⟨count, multiple⟩ : ∃ count : ℤ, rounded (10 ^ power) = count * 2 ^ (-1074 : ℤ) := by
      rw [rounded, ← least]
      exact ⟨_, rfl⟩
    obtain ⟨lower, upper⟩ := leastUnit_bounds
    have unitPos : (0 : ℚ) < 2 ^ (-1074 : ℤ) := by positivity
    rw [← least] at error
    generalize (2 : ℚ) ^ (-1074 : ℤ) = unit at *
    rcases lt_trichotomy power (-323) with small | rfl | large
    · have step : (10 : ℚ) ^ power ≤ 10 ^ (-324 : ℤ) := by
        gcongr
        · norm_num
        · omega
      have tens : (10 : ℚ) ^ (-323 : ℤ) = 10 ^ (-324 : ℤ) * 10 := by
        rw [← zpow_add_one₀ (by norm_num)]
        rfl
      linarith
    · -- More than one unit, so two at least.
      have above : ((1 : ℤ) : ℚ) < count := by
        rw [← mul_lt_mul_iff_left₀ unitPos, ← multiple, Int.cast_one]
        linarith
      have two : ((2 : ℤ) : ℚ) ≤ count := by exact_mod_cast Int.cast_lt.mp above
      have scaled : ((2 : ℤ) : ℚ) * unit ≤ count * unit := by gcongr
      rw [multiple]
      push_cast at scaled
      linarith
    · have step : (10 : ℚ) ^ (-322 : ℤ) ≤ 10 ^ power := by
        gcongr
        · norm_num
        · omega
      have tens : (10 : ℚ) ^ (-322 : ℤ) = 10 ^ (-323 : ℤ) * 10 := by
        rw [← zpow_add_one₀ (by norm_num)]
        rfl
      linarith
  · have large := Binary64.pow_gridOf_le positive normal
    rw [zpow_add₀ (by norm_num)] at large
    have unit : (0 : ℚ) < 2 ^ Binary64.gridOf (10 ^ power) := by positivity
    have cast : (2 : ℚ) ^ (52 : ℤ) = 4503599627370496 := by norm_num
    rw [cast] at large
    linarith

/-- A single digit is nearer to `x` than a single digit of a finer grid. -/
theorem NearestOnCoarsest.le_of_single (positive : x.Positive) (least : NearestOnCoarsest x d)
    (reads : readsAs ⟨1, d.place⟩ x = true) (single : other.digits ≤ 9)
    (finer : other.place < d.place) :
    |d.value - x.magnitude| ≤ |other.value - x.magnitude| := by
  have closer := least.nearest ⟨1, d.place⟩ rfl reads
  refine closer.trans ?_
  rw [value_one]
  have small : other.value ≤ 9 * 10 ^ (d.place - 1) := by
    have digits : (other.digits : ℚ) ≤ 9 := by exact_mod_cast single
    rw [value_eq]
    gcongr
    · norm_num
    · omega
  have tens : (10 : ℚ) ^ d.place = 10 ^ (d.place - 1) * 10 := by
    rw [← zpow_add_one₀ (by norm_num), sub_add_cancel]
  have unit : (0 : ℚ) < 10 ^ (d.place - 1) := by positivity
  rcases le_or_gt ((10 : ℚ) ^ d.place) x.magnitude with within | beyond
  · rw [abs_of_nonpos (by linarith), abs_of_nonpos (by linarith)]
    linarith
  · obtain ⟨_, same⟩ := (readsAs_iff_rounded positive).mp reads
    rw [value_one] at same
    have bound := nineteen_mul_le d.place
    rw [same] at bound
    have near := bound (Binary64.le_magnitude positive.2) beyond
    rw [abs_of_pos (by linarith), abs_of_nonpos (by linarith)]
    linarith

theorem NearestOnCoarsest.le_of_count_eq (positive : x.Positive) (least : NearestOnCoarsest x d)
    (readsOther : other.readsAs x = true) (same : other.count = d.count) :
    |d.value - x.magnitude| ≤ |other.value - x.magnitude| := by
  rcases (least.coarsest other readsOther).eq_or_lt with place | finer
  · exact least.nearest other place readsOther
  · have lower : other.leading < d.leading := by
      rw [leading, leading]
      omega
    have single := least.count_eq_one positive readsOther lower
    have reads := leading_reads positive least.reads readsOther lower
    rw [leading, single, Nat.cast_one, add_sub_cancel_right] at reads
    have digits : other.digits < 10 ^ other.count := lt_pow_length_toDigits other.digits
    rw [same, single] at digits
    exact least.le_of_single positive reads (by omega) finer

/-! ### The last digit and the first -/

/-- With a zero at the end the number would be on a coarser grid. -/
theorem NearestOnCoarsest.not_dvd_digits (positive : x.Positive) (least : NearestOnCoarsest x d) :
    ¬ 10 ∣ d.digits := by
  rintro ⟨digits, multiple⟩
  have same : (⟨digits, d.place + 1⟩ : Decimal).value = d.value := by
    rw [value_eq, value_eq, multiple, zpow_add_one₀ (by norm_num)]
    push_cast
    ring
  obtain ⟨some, rounds⟩ := (readsAs_iff_rounded positive).mp least.reads
  have reads : readsAs ⟨digits, d.place + 1⟩ x = true := by
    refine (readsAs_iff_rounded positive).mpr ⟨?_, ?_⟩
    · change 0 < digits
      omega
    · rw [same, rounds]
  have within := least.coarsest _ reads
  dsimp only at within
  omega

/-- The leading digit tells on which side of a power of ten `x` lies, the power being taken as the
number that it is read as. -/
theorem NearestOnCoarsest.le_leading_iff (positive : x.Positive) (least : NearestOnCoarsest x d)
    {power : ℤ} {bound : Binary64} (read : nearest? (10 ^ power) = some bound) :
    power ≤ d.leading ↔ bound.magnitude ≤ x.magnitude := by
  have powerPos : (0 : ℚ) < 10 ^ power := by positivity
  obtain ⟨_, magnitude⟩ := (Binary64.nearest?_eq_some_iff powerPos).mp read
  obtain ⟨some, same⟩ := (readsAs_iff_rounded positive).mp least.reads
  rw [magnitude]
  apply Iff.intro
  · intro le
    have below : (10 : ℚ) ^ power ≤ d.value := by
      refine le_trans ?_ (pow_leading_le some)
      gcongr
      norm_num
    rw [← same]
    exact Binary64.rounded_mono powerPos below
  · intro le
    by_contra less
    have above : d.value ≤ 10 ^ power := by
      refine (value_lt_pow_leading d).le.trans ?_
      gcongr
      · norm_num
      · omega
    -- The power itself is then read as `x`, and no number on a finer grid is taken instead.
    have reads : readsAs ⟨1, power⟩ x = true := by
      refine (readsAs_iff_rounded positive).mpr ⟨Nat.one_pos, le_antisymm ?_ ?_⟩
      · rw [value_one]
        exact le
      · rw [← same, value_one]
        exact Binary64.rounded_mono (value_pos_iff.mpr some) above
    have within := least.coarsest _ reads
    have count := d.count_pos
    rw [leading] at less
    dsimp only at within
    omega

end

/-- The number is read as `x`, none that is read so has fewer digits, and none with as few digits is
nearer to `x`. -/
structure IsShortest (x : Binary64) (d : Decimal) : Prop where
  reads : nearest? d.value = some x
  fewest : ∀ other : Decimal, nearest? other.value = some x → d.count ≤ other.count
  nearest : ∀ other : Decimal, nearest? other.value = some x → other.count = d.count →
    |d.value - x.magnitude| ≤ |other.value - x.magnitude|

theorem readsAs_iff {x : Binary64} {d : Decimal} :
    d.readsAs x = true ↔ nearest? d.value = some x := by
  rw [readsAs, beq_iff_eq]

theorem isShortest_shortest {x : Binary64} (positive : x.Positive) (tie : Tie) :
    IsShortest x (shortest tie x) := by
  have least := nearestOnCoarsest_shortest positive tie
  refine ⟨readsAs_iff.mp least.reads, ?_, ?_⟩
  · intro other reads
    exact least.count_le positive (readsAs_iff.mpr reads)
  · intro other reads same
    exact least.le_of_count_eq positive (readsAs_iff.mpr reads) same

end Decimal
end RequestLine
