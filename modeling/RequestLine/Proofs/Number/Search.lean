import RequestLine.Proofs.Number.Nearest

/-!
The search for a decimal number that is read as a given binary64 number ends on the coarsest grid that
has one, with the nearest that it has.
-/

namespace RequestLine

/-- The number is not zero and has no sign. -/
def Binary64.Positive (x : Binary64) : Prop :=
  x.negative = false ∧ 0 < x.mantissa

theorem Binary64.positive_abs {x : Binary64} (nonzero : x.isZero = false) : x.abs.Positive := by
  have some : x.mantissa ≠ 0 := by simpa [isZero] using nonzero
  exact ⟨rfl, Nat.pos_of_ne_zero some⟩

namespace Decimal

open Binary64 (nearest? rounded)

theorem value_eq (d : Decimal) : d.value = d.digits * 10 ^ d.place := rfl

theorem value_pos_iff {d : Decimal} : 0 < d.value ↔ 0 < d.digits := by
  rw [value_eq, mul_pos_iff_of_pos_right (by positivity), Nat.cast_pos]

/-- Of two numbers on one grid, the one with the larger digits is the larger. -/
theorem value_le_value {d other : Decimal} (place : d.place = other.place)
    (le : d.digits ≤ other.digits) : d.value ≤ other.value := by
  rw [value_eq, value_eq, place]
  gcongr

section

variable {x : Binary64} {d other : Decimal}

theorem readsAs_iff_rounded (positive : x.Positive) :
    d.readsAs x = true ↔ 0 < d.digits ∧ rounded d.value = x.magnitude := by
  rw [readsAs, beq_iff_eq]
  rcases Nat.eq_zero_or_pos d.digits with zero | some
  · have value : d.value = 0 := by rw [value_eq, zero, Nat.cast_zero, zero_mul]
    apply Iff.intro
    · intro read
      rw [value, nearest?, if_pos rfl, Option.some.injEq] at read
      have mantissa := positive.2
      rw [← read] at mantissa
      contradiction
    · intro read
      omega
  · rw [Binary64.nearest?_eq_some_iff (value_pos_iff.mpr some), eq_comm (b := rounded d.value)]
    simp only [positive.1, some, true_and]

theorem digits_pos (positive : x.Positive) (reads : d.readsAs x = true) : 0 < d.digits :=
  ((readsAs_iff_rounded positive).mp reads).1

/-- What lies between two numbers that are rounded to `x` is read as `x`. -/
theorem readsAs_of_between (positive : x.Positive) {lower upper : ℚ} (some : 0 < lower)
    (lowerReads : rounded lower = x.magnitude) (upperReads : rounded upper = x.magnitude)
    (above : lower ≤ d.value) (below : d.value ≤ upper) : d.readsAs x = true := by
  have valuePos : 0 < d.value := some.trans_le above
  refine (readsAs_iff_rounded positive).mpr ⟨value_pos_iff.mp valuePos, le_antisymm ?_ ?_⟩
  · rw [← upperReads]
    exact Binary64.rounded_mono valuePos below
  · rw [← lowerReads]
    exact Binary64.rounded_mono some above

/-- Between a number that is read as `x` and `x` itself. -/
theorem readsAs_of_nearer (positive : x.Positive) (reads : other.readsAs x = true)
    (between : other.value ≤ d.value ∧ d.value ≤ x.magnitude ∨
      x.magnitude ≤ d.value ∧ d.value ≤ other.value) : d.readsAs x = true := by
  obtain ⟨some, same⟩ := (readsAs_iff_rounded positive).mp reads
  have exact := Binary64.rounded_magnitude positive.2
  rcases between with ⟨above, below⟩ | ⟨above, below⟩
  · exact readsAs_of_between positive (value_pos_iff.mpr some) same exact above below
  · exact readsAs_of_between positive (Binary64.magnitude_pos_iff.mpr positive.2) exact same above below

theorem readsAs_of_value_eq (positive : x.Positive) (same : d.value = x.magnitude) :
    d.readsAs x = true :=
  readsAs_of_between positive (Binary64.magnitude_pos_iff.mpr positive.2)
    (Binary64.rounded_magnitude positive.2) (Binary64.rounded_magnitude positive.2)
    same.ge same.le

/-- A number of twice the value is read as a larger number. -/
theorem value_lt_of_readsAs (positive : x.Positive) (reads : d.readsAs x = true) :
    d.value < 2 * x.magnitude := by
  obtain ⟨some, same⟩ := (readsAs_iff_rounded positive).mp reads
  have magnitude := Binary64.magnitude_pos_iff.mpr positive.2
  by_contra large
  have larger := Binary64.rounded_mono (by positivity) (not_lt.mp large)
  rw [Binary64.rounded_two_mul_magnitude positive.2, same] at larger
  linarith

end

/-! ### One grid -/

/-- The digits of the number just below `x` on the grid of `place`. -/
def below (x : Binary64) (place : ℤ) : Nat :=
  (x.magnitude / 10 ^ place).floor.toNat

/-- The number is read as `x`, and none on its grid that is read so is nearer. -/
structure NearestOnGrid (x : Binary64) (d : Decimal) : Prop where
  reads : d.readsAs x = true
  nearest : ∀ other : Decimal, other.place = d.place → other.readsAs x = true →
    |d.value - x.magnitude| ≤ |other.value - x.magnitude|

section

variable {x : Binary64} {place : ℤ}

theorem below_spec (positive : x.Positive) (place : ℤ) :
    (below x place : ℚ) ≤ x.magnitude / 10 ^ place ∧
      x.magnitude / 10 ^ place < below x place + 1 := by
  have magnitude := Binary64.magnitude_pos_iff.mpr positive.2
  have nonneg : 0 ≤ ⌊x.magnitude / 10 ^ place⌋ := Int.floor_nonneg.mpr (by positivity)
  have cast : ((below x place : ℕ) : ℚ) = ⌊x.magnitude / 10 ^ place⌋ := by
    exact_mod_cast Int.toNat_of_nonneg nonneg
  rw [cast]
  exact ⟨Int.floor_le _, Int.lt_floor_add_one _⟩

theorem value_below_le (positive : x.Positive) (place : ℤ) :
    (⟨below x place, place⟩ : Decimal).value ≤ x.magnitude :=
  (le_div_iff₀ (by positivity)).mp (below_spec positive place).1

theorem lt_value_above (positive : x.Positive) (place : ℤ) :
    x.magnitude < (⟨below x place + 1, place⟩ : Decimal).value := by
  have above := (div_lt_iff₀ (by positivity)).mp (below_spec positive place).2
  rw [value_eq]
  exact_mod_cast above

/-- What is read as `x` has a neighbour of `x` between itself and `x`, which is nearer. -/
theorem neighbour_reads (positive : x.Positive) {other : Decimal} (reads : other.readsAs x = true) :
    readsAs ⟨below x other.place, other.place⟩ x = true ∧
        |(⟨below x other.place, other.place⟩ : Decimal).value - x.magnitude| ≤
          |other.value - x.magnitude| ∨
      readsAs ⟨below x other.place + 1, other.place⟩ x = true ∧
        |(⟨below x other.place + 1, other.place⟩ : Decimal).value - x.magnitude| ≤
          |other.value - x.magnitude| := by
  have lower := value_below_le positive other.place
  have upper := lt_value_above positive other.place
  rcases Nat.lt_or_ge (below x other.place) other.digits with above | under
  · have further : (⟨below x other.place + 1, other.place⟩ : Decimal).value ≤ other.value :=
      value_le_value rfl above
    refine .inr ⟨readsAs_of_nearer positive reads (.inr ⟨upper.le, further⟩), ?_⟩
    rw [abs_of_nonneg (by linarith), abs_of_nonneg (by linarith)]
    linarith
  · have further : other.value ≤ (⟨below x other.place, other.place⟩ : Decimal).value :=
      value_le_value rfl under
    refine .inl ⟨readsAs_of_nearer positive reads (.inl ⟨further, lower⟩), ?_⟩
    rw [abs_of_nonpos (by linarith), abs_of_nonpos (by linarith)]
    linarith

theorem onGrid?_eq (tie : Tie) (x : Binary64) (place : ℤ) :
    onGrid? tie x place =
      match readsAs ⟨below x place, place⟩ x, readsAs ⟨below x place + 1, place⟩ x with
      | true, true => some ⟨nearer tie (x.magnitude / 10 ^ place) (below x place), place⟩
      | true, false => some ⟨below x place, place⟩
      | false, true => some ⟨below x place + 1, place⟩
      | false, false => none := rfl

theorem readsAs_of_onGrid?_none (positive : x.Positive) {tie : Tie} {other : Decimal}
    (none : onGrid? tie x other.place = none) : other.readsAs x = false := by
  rw [← Bool.not_eq_true]
  intro reads
  rw [onGrid?_eq] at none
  rcases neighbour_reads positive reads with ⟨neighbour, _⟩ | ⟨neighbour, _⟩
  · rw [neighbour] at none
    cases upper : readsAs ⟨below x other.place + 1, other.place⟩ x <;> simp [upper] at none
  · rw [neighbour] at none
    cases lower : readsAs ⟨below x other.place, other.place⟩ x <;> simp [lower] at none

/-- It is enough to be as near as the neighbours that are read as `x`. -/
theorem nearestOnGrid_of_neighbours (positive : x.Positive) {digits : Nat}
    (reads : readsAs ⟨digits, place⟩ x = true)
    (lower : readsAs ⟨below x place, place⟩ x = true →
      |(⟨digits, place⟩ : Decimal).value - x.magnitude| ≤
        |(⟨below x place, place⟩ : Decimal).value - x.magnitude|)
    (upper : readsAs ⟨below x place + 1, place⟩ x = true →
      |(⟨digits, place⟩ : Decimal).value - x.magnitude| ≤
        |(⟨below x place + 1, place⟩ : Decimal).value - x.magnitude|) :
    NearestOnGrid x ⟨digits, place⟩ := by
  refine ⟨reads, ?_⟩
  rintro other rfl readsOther
  rcases neighbour_reads positive readsOther with ⟨lowerReads, nearer⟩ | ⟨upperReads, nearer⟩
  · exact (lower lowerReads).trans nearer
  · exact (upper upperReads).trans nearer

theorem nearer_cases (tie : Tie) (scaled : ℚ) (below : Nat) :
    nearer tie scaled below = below ∧ scaled - below ≤ 1 / 2 ∨
      nearer tie scaled below = below + 1 ∧ 1 / 2 ≤ scaled - below := by
  simp only [nearer]
  split
  · rename_i small
    exact .inl ⟨rfl, small.le⟩
  · rename_i notSmall
    split
    · rename_i large
      exact .inr ⟨rfl, large.le⟩
    · rename_i notLarge
      rw [not_lt] at notSmall notLarge
      cases tie with
      | upper => exact .inr ⟨rfl, notSmall⟩
      | even =>
          dsimp only
          split
          · exact .inl ⟨rfl, notLarge⟩
          · exact .inr ⟨rfl, notSmall⟩

/-- The nearer neighbour is one of the two, and as near as both. -/
theorem nearer_spec (positive : x.Positive) (tie : Tie) (place : ℤ) :
    let digits := nearer tie (x.magnitude / 10 ^ place) (below x place)
    (digits = below x place ∨ digits = below x place + 1) ∧
      |(⟨digits, place⟩ : Decimal).value - x.magnitude| ≤
        |(⟨below x place, place⟩ : Decimal).value - x.magnitude| ∧
      |(⟨digits, place⟩ : Decimal).value - x.magnitude| ≤
        |(⟨below x place + 1, place⟩ : Decimal).value - x.magnitude| := by
  intro digits
  have unit : (0 : ℚ) < 10 ^ place := by positivity
  have lower := value_below_le positive place
  have upper := lt_value_above positive place
  have lowerValue : (⟨below x place, place⟩ : Decimal).value = below x place * 10 ^ place := rfl
  have upperValue : (⟨below x place + 1, place⟩ : Decimal).value =
      (below x place + 1) * 10 ^ place := by rw [value_eq, Nat.cast_succ]
  have distance : |(⟨below x place, place⟩ : Decimal).value - x.magnitude| =
      x.magnitude - (⟨below x place, place⟩ : Decimal).value := by
    rw [abs_of_nonpos (by linarith), neg_sub]
  rcases nearer_cases tie (x.magnitude / 10 ^ place) (below x place) with
    ⟨taken, half⟩ | ⟨taken, half⟩
  · rw [show digits = _ from taken, distance, abs_of_pos (sub_pos.mpr upper)]
    rw [sub_le_iff_le_add, div_le_iff₀ unit] at half
    exact ⟨.inl rfl, le_rfl, by linarith⟩
  · rw [show digits = _ from taken, distance, abs_of_pos (sub_pos.mpr upper)]
    rw [le_sub_iff_add_le, le_div_iff₀ unit] at half
    exact ⟨.inr rfl, by linarith, le_rfl⟩

theorem nearestOnGrid_of_onGrid? (positive : x.Positive) {tie : Tie} {d : Decimal}
    (found : onGrid? tie x place = some d) : d.place = place ∧ NearestOnGrid x d := by
  rw [onGrid?_eq] at found
  split at found
  · rename_i lowerReads upperReads
    obtain ⟨which, lower, upper⟩ := nearer_spec positive tie place
    cases found
    refine ⟨rfl, nearestOnGrid_of_neighbours positive ?_ (fun _ => lower) fun _ => upper⟩
    rcases which with taken | taken <;> rw [taken] <;> assumption
  · rename_i lowerReads upperFails
    cases found
    exact ⟨rfl, nearestOnGrid_of_neighbours positive lowerReads (fun _ => le_rfl)
      (by simp [upperFails])⟩
  · rename_i lowerFails upperReads
    cases found
    exact ⟨rfl, nearestOnGrid_of_neighbours positive upperReads (by simp [lowerFails])
      fun _ => le_rfl⟩
  · contradiction

/-! ### The search -/

/-- A power of two below the units is on the grid of the same power of ten. -/
theorem exists_value_eq_magnitude (x : Binary64) {place : ℤ} (fine : place ≤ min x.exponent 0) :
    ∃ digits : Nat, (⟨digits, place⟩ : Decimal).value = x.magnitude := by
  set least := min x.exponent 0
  obtain ⟨coarser, apart⟩ := Int.le.dest fine
  obtain ⟨doublings, exponent⟩ := Int.le.dest (min_le_left x.exponent 0)
  obtain ⟨halvings, units⟩ := Int.le.dest (min_le_right x.exponent 0)
  refine ⟨x.mantissa * 2 ^ doublings * (5 ^ halvings * 10 ^ coarser), ?_⟩
  have tens : (10 : ℚ) ^ least = 10 ^ coarser * 10 ^ place := by
    rw [← apart, add_comm, zpow_add₀ (by norm_num), zpow_natCast]
  have halves : (2 : ℚ) ^ least = 5 ^ halvings * 10 ^ least := by
    have ones : (5 : ℚ) ^ halvings * 5 ^ least = 1 := by
      rw [← zpow_natCast, ← zpow_add₀ (by norm_num), add_comm, units, zpow_zero]
    rw [show (10 : ℚ) = 5 * 2 by norm_num, mul_zpow, ← mul_assoc, ones, one_mul]
  rw [value_eq, Binary64.magnitude_eq, ← exponent, add_comm, zpow_add₀ (by norm_num), zpow_natCast,
    halves, tens]
  push_cast
  ring

theorem nearestOnGrid_exactOn (positive : x.Positive) (fine : place ≤ min x.exponent 0) :
    NearestOnGrid x (exactOn x place) := by
  obtain ⟨digits, value⟩ := exists_value_eq_magnitude x fine
  have scaled : x.magnitude / 10 ^ place = digits := by
    rw [← value, value_eq, mul_div_cancel_right₀ _ (by positivity)]
  have floor : below x place = digits := by
    have exact : ⌊x.magnitude / 10 ^ place⌋.toNat = digits := by
      rw [scaled, Int.floor_natCast, Int.toNat_natCast]
    exact exact
  have same : (exactOn x place).value = x.magnitude := by
    rw [← value, ← floor]
    rfl
  refine ⟨readsAs_of_value_eq positive same, ?_⟩
  intro other _ _
  rw [same, sub_self, abs_zero]
  positivity

/-- The search finds the coarsest grid that has a number read as `x`, from its start on. -/
theorem searchFrom_spec (positive : x.Positive) (tie : Tie) (steps : Nat) :
    ∀ place : ℤ, place - steps ≤ min x.exponent 0 →
      NearestOnGrid x (searchFrom tie x place steps) ∧
        ∀ other : Decimal, other.place ≤ place → other.readsAs x = true →
          other.place ≤ (searchFrom tie x place steps).place := by
  induction steps with
  | zero =>
      intro place fine
      refine ⟨nearestOnGrid_exactOn positive (by simpa using fine), ?_⟩
      intro other within _
      exact within
  | succ steps ih =>
      intro place fine
      rw [searchFrom]
      cases found : onGrid? tie x place with
      | some d =>
          obtain ⟨rfl, nearest⟩ := nearestOnGrid_of_onGrid? positive found
          exact ⟨nearest, fun other within _ => within⟩
      | none =>
          obtain ⟨nearest, coarsest⟩ := ih (place - 1) (by push_cast at fine; omega)
          refine ⟨nearest, ?_⟩
          intro other within reads
          apply coarsest other _ reads
          by_contra far
          obtain rfl : other.place = place := by omega
          rw [readsAs_of_onGrid?_none positive found] at reads
          contradiction

/-- The number is the nearest on its grid, and no coarser grid has one that is read as `x`. -/
structure NearestOnCoarsest (x : Binary64) (d : Decimal) : Prop extends NearestOnGrid x d where
  coarsest : ∀ other : Decimal, other.readsAs x = true → other.place ≤ d.place

/-- Above the leading digit of `x` and the place after it, nothing is read as `x`. -/
theorem place_le_of_readsAs (positive : x.Positive) {d : Decimal} (reads : d.readsAs x = true) :
    d.place ≤ leadingDigit x.magnitude + 1 := by
  have magnitude := Binary64.magnitude_pos_iff.mpr positive.2
  have small := value_lt_of_readsAs positive reads
  by_contra far
  have above : x.magnitude < 10 ^ (leadingDigit x.magnitude + 1) := by
    rw [← not_le, ← le_leadingDigit_iff magnitude]
    omega
  have large : (10 : ℚ) ^ (leadingDigit x.magnitude + 1 + 1) ≤ d.value := by
    have one : (1 : ℚ) ≤ d.digits := by exact_mod_cast digits_pos positive reads
    rw [value_eq, ← one_mul ((10 : ℚ) ^ (leadingDigit x.magnitude + 1 + 1))]
    gcongr
    · norm_num
    · omega
  rw [zpow_add_one₀ (by norm_num)] at large
  linarith

theorem nearestOnCoarsest_shortest (positive : x.Positive) (tie : Tie) :
    NearestOnCoarsest x (shortest tie x) := by
  obtain ⟨nearest, coarsest⟩ := searchFrom_spec positive tie
    (leadingDigit x.magnitude + 1 - min x.exponent 0).toNat (leadingDigit x.magnitude + 1) (by omega)
  exact ⟨nearest, fun other reads => coarsest other (place_le_of_readsAs positive reads) reads⟩

end

end Decimal
end RequestLine
