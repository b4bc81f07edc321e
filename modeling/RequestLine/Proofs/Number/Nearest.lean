import RequestLine.Number.Decimal
import RequestLine.Proofs.Number.Rounding

/-!
Which numbers are read as a given binary64 number: those that are rounded to it on the grid of their
size.  Rounding keeps the order of numbers, so whatever lies between two of them is one of them.
-/

namespace RequestLine

namespace Binary64

/-- The exponent of the grid on which numbers of the size of `x` are kept. -/
def gridOf (x : ℚ) : ℤ :=
  max (-1074) (leadingBit x - 52)

/-- The number on the grid nearest to `x`, however large. -/
def rounded (x : ℚ) : ℚ :=
  roundEven (x / 2 ^ gridOf x) * 2 ^ gridOf x

theorem leadingUnit_eq : leadingUnit = 2 ^ 52 := rfl

section

variable {x y : ℚ}

theorem gridOf_le_iff (positive : 0 < x) {exponent : ℤ} :
    gridOf x ≤ exponent ↔ -1074 ≤ exponent ∧ x < 2 ^ (exponent + 53) := by
  rw [gridOf, max_le_iff, ← not_le (b := x), ← le_leadingBit_iff positive]
  apply and_congr_right
  intro _
  omega

theorem le_gridOf (x : ℚ) : -1074 ≤ gridOf x :=
  le_max_left _ _

theorem lt_pow_gridOf (positive : 0 < x) : x < 2 ^ (gridOf x + 53) :=
  ((gridOf_le_iff positive).mp le_rfl).2

theorem pow_gridOf_le (positive : 0 < x) (normal : -1074 < gridOf x) :
    (2 : ℚ) ^ (gridOf x + 52) ≤ x := by
  rw [← le_leadingBit_iff positive]
  rw [gridOf] at normal ⊢
  omega

theorem gridOf_mono (positive : 0 < x) (le : x ≤ y) : gridOf x ≤ gridOf y :=
  (gridOf_le_iff positive).mpr ⟨le_gridOf y, le.trans_lt (lt_pow_gridOf (positive.trans_le le))⟩

theorem scaled_le (positive : 0 < x) : x / 2 ^ gridOf x ≤ ((2 ^ 53 : ℤ) : ℚ) := by
  rw [div_le_iff₀ (by positivity)]
  have bound := lt_pow_gridOf positive
  rw [zpow_add₀ (by norm_num), mul_comm] at bound
  exact_mod_cast bound.le

theorem le_scaled (positive : 0 < x) (normal : -1074 < gridOf x) :
    ((2 ^ 52 : ℤ) : ℚ) ≤ x / 2 ^ gridOf x := by
  rw [le_div_iff₀ (by positivity)]
  have bound := pow_gridOf_le positive normal
  rw [zpow_add₀ (by norm_num), mul_comm] at bound
  exact_mod_cast bound

theorem roundEven_scaled_le (positive : 0 < x) : roundEven (x / 2 ^ gridOf x) ≤ 2 ^ 53 := by
  rw [← roundEven_intCast (2 ^ 53)]
  exact roundEven_mono (scaled_le positive)

theorem le_roundEven_scaled (positive : 0 < x) (normal : -1074 < gridOf x) :
    2 ^ 52 ≤ roundEven (x / 2 ^ gridOf x) := by
  rw [← roundEven_intCast (2 ^ 52)]
  exact roundEven_mono (le_scaled positive normal)

theorem roundEven_scaled_nonneg (positive : 0 < x) : 0 ≤ roundEven (x / 2 ^ gridOf x) := by
  have bound : ((0 : ℤ) : ℚ) ≤ x / 2 ^ gridOf x := by
    rw [Int.cast_zero]
    positivity
  rw [← roundEven_intCast 0]
  exact roundEven_mono bound

theorem rounded_mono (positive : 0 < x) (le : x ≤ y) : rounded x ≤ rounded y := by
  have positiveY := positive.trans_le le
  rcases (gridOf_mono positive le).eq_or_lt with same | coarser
  · rw [rounded, rounded, same]
    have scaled : x / 2 ^ gridOf y ≤ y / 2 ^ gridOf y := by gcongr
    gcongr
    exact roundEven_mono scaled
  · -- On a coarser grid even the least mantissa is above all of the finer grid.
    have lower : ((roundEven (x / 2 ^ gridOf x) : ℤ) : ℚ) ≤ 2 ^ 53 := by
      exact_mod_cast roundEven_scaled_le positive
    have upper : (2 : ℚ) ^ 52 ≤ (roundEven (y / 2 ^ gridOf y) : ℤ) := by
      exact_mod_cast le_roundEven_scaled positiveY ((le_gridOf x).trans_lt coarser)
    calc rounded x ≤ 2 ^ 53 * 2 ^ gridOf x := by rw [rounded]; gcongr
      _ = 2 ^ 52 * 2 ^ (gridOf x + 1) := by rw [zpow_add_one₀ (by norm_num)]; ring
      _ ≤ 2 ^ 52 * 2 ^ gridOf y := by
          gcongr
          · norm_num
          · omega
      _ ≤ rounded y := by rw [rounded]; gcongr

/-- A number of at most 53 bits is on its grid. -/
theorem rounded_eq_self {mantissa : Nat} {exponent : ℤ} (positive : 0 < mantissa)
    (short : mantissa < 2 ^ 53) (bounded : -1074 ≤ exponent) :
    rounded (mantissa * 2 ^ exponent) = mantissa * 2 ^ exponent := by
  have some : (0 : ℚ) < mantissa * 2 ^ exponent := by positivity
  have fine : gridOf (mantissa * 2 ^ exponent) ≤ exponent := by
    refine (gridOf_le_iff some).mpr ⟨bounded, ?_⟩
    have cast : (mantissa : ℚ) < 2 ^ 53 := by exact_mod_cast short
    rw [add_comm, zpow_add₀ (by norm_num)]
    gcongr
    exact_mod_cast cast
  rw [rounded]
  generalize gridOf (mantissa * 2 ^ exponent) = grid at fine ⊢
  obtain ⟨steps, rfl⟩ := Int.le.dest fine
  have whole : (mantissa : ℚ) * 2 ^ (grid + steps) / 2 ^ grid =
      ((mantissa * 2 ^ steps : ℤ) : ℚ) := by
    rw [zpow_add₀ (by norm_num)]
    push_cast
    field_simp
    rw [zpow_natCast]
  rw [whole, roundEven_intCast, ← whole, div_mul_cancel₀ _ (by positivity)]

/-- A number is rounded by half a unit of its grid at most. -/
theorem rounded_error (x : ℚ) : |rounded x - x| ≤ 2 ^ gridOf x / 2 := by
  have unit : (0 : ℚ) < 2 ^ gridOf x := by positivity
  have apart : rounded x - x = (roundEven (x / 2 ^ gridOf x) - x / 2 ^ gridOf x) * 2 ^ gridOf x := by
    rw [rounded, sub_mul, div_mul_cancel₀ _ unit.ne']
  rw [apart, abs_mul, abs_of_pos unit]
  calc |(roundEven (x / 2 ^ gridOf x) : ℚ) - x / 2 ^ gridOf x| * 2 ^ gridOf x
      ≤ 1 / 2 * 2 ^ gridOf x := by
        gcongr
        exact roundEven_error _
    _ = 2 ^ gridOf x / 2 := by ring

end

/-! ### Reading -/

theorem magnitude_eq (x : Binary64) : x.magnitude = x.mantissa * 2 ^ x.exponent := rfl

theorem magnitude_pos_iff {x : Binary64} : 0 < x.magnitude ↔ 0 < x.mantissa := by
  rw [magnitude_eq, mul_pos_iff_of_pos_right (by positivity), Nat.cast_pos]

theorem le_magnitude {x : Binary64} (some : 0 < x.mantissa) :
    (2 : ℚ) ^ (-1074 : ℤ) ≤ x.magnitude := by
  have one : (1 : ℚ) ≤ x.mantissa := by exact_mod_cast some
  rw [magnitude_eq, ← one_mul ((2 : ℚ) ^ (-1074 : ℤ))]
  gcongr
  · norm_num
  · exact x.canonical.2.1

theorem rounded_magnitude {x : Binary64} (some : 0 < x.mantissa) :
    rounded x.magnitude = x.magnitude :=
  rounded_eq_self some x.canonical.1 x.canonical.2.1

/-- Twice a number is a number, except that it may be too large. -/
theorem rounded_two_mul_magnitude {x : Binary64} (some : 0 < x.mantissa) :
    rounded (2 * x.magnitude) = 2 * x.magnitude := by
  have double : 2 * x.magnitude = x.mantissa * 2 ^ (x.exponent + 1) := by
    rw [magnitude_eq, zpow_add_one₀ (by norm_num)]
    ring
  have bounded := x.canonical.2.1
  rw [double]
  exact rounded_eq_self some x.canonical.1 (by omega)

/-- The pairs of canonical form, however large the exponent. -/
def Shaped (mantissa : Nat) (exponent : ℤ) : Prop :=
  mantissa < 2 * leadingUnit ∧ -1074 ≤ exponent ∧ (leadingUnit ≤ mantissa ∨ exponent = -1074)

theorem canonical_iff {mantissa : Nat} {exponent : ℤ} :
    Canonical mantissa exponent ↔ Shaped mantissa exponent ∧ exponent ≤ 971 := by
  rw [Canonical, Shaped]
  tauto

section

variable {mantissa other : Nat} {exponent place : ℤ}

theorem Shaped.exponent_le (shaped : Shaped mantissa exponent) (shapedOther : Shaped other place)
    (same : (mantissa * 2 ^ exponent : ℚ) = other * 2 ^ place) : place ≤ exponent := by
  by_contra larger
  rw [not_le] at larger
  obtain ⟨steps, apart⟩ := Int.le.dest larger
  have split : place = exponent + (1 + steps) := by omega
  have full : leadingUnit ≤ other := by
    rcases shapedOther.2.2 with full | least
    · exact full
    · have bounded := shaped.2.1
      omega
  have multiple : (mantissa : ℚ) = (other * 2 ^ (1 + steps) : Nat) := by
    rw [split, zpow_add₀ (by norm_num), ← mul_assoc, mul_right_comm] at same
    rw [mul_right_cancel₀ (by positivity) same]
    push_cast
    rw [← zpow_natCast]
    push_cast
    rfl
  have equal : mantissa = other * 2 ^ (1 + steps) := by exact_mod_cast multiple
  have double : 2 * leadingUnit ≤ other * 2 ^ (1 + steps) := by
    rw [pow_add, pow_one, ← mul_assoc, mul_comm other]
    calc 2 * leadingUnit ≤ 2 * other := by omega
      _ ≤ 2 * other * 2 ^ steps := Nat.le_mul_of_pos_right _ (by positivity)
  have short := shaped.1
  omega

/-- No two pairs of canonical form have one value. -/
theorem Shaped.unique (shaped : Shaped mantissa exponent) (shapedOther : Shaped other place)
    (same : (mantissa * 2 ^ exponent : ℚ) = other * 2 ^ place) :
    mantissa = other ∧ exponent = place := by
  obtain rfl : exponent = place :=
    le_antisymm (shapedOther.exponent_le shaped same.symm) (shaped.exponent_le shapedOther same)
  have equal := mul_right_cancel₀ (by positivity) same
  exact ⟨by exact_mod_cast equal, rfl⟩

theorem ofParts?_eq_some_iff {x : Binary64} :
    ofParts? mantissa exponent = some x ↔
      x.negative = false ∧ x.mantissa = mantissa ∧ x.exponent = exponent := by
  obtain ⟨negative, mantissaX, exponentX, canonical⟩ := x
  rw [ofParts?]
  apply Iff.intro
  · intro found
    split at found
    · cases found
      exact ⟨rfl, rfl, rfl⟩
    · contradiction
  · rintro ⟨rfl, rfl, rfl⟩
    rw [dif_pos canonical]

end

theorem nearest?_eq_ofParts? {v : ℚ} (positive : 0 < v) :
    ∃ mantissa exponent, nearest? v = ofParts? mantissa exponent ∧ Shaped mantissa exponent ∧
      (mantissa * 2 ^ exponent : ℚ) = rounded v := by
  have nonneg := roundEven_scaled_nonneg positive
  have bound := roundEven_scaled_le positive
  have large : -1074 < gridOf v → 2 ^ 52 ≤ roundEven (v / 2 ^ gridOf v) :=
    le_roundEven_scaled positive
  have least := le_gridOf v
  have unfolded : nearest? v =
      if (roundEven (v / 2 ^ gridOf v)).toNat = 2 * leadingUnit then
        ofParts? leadingUnit (gridOf v + 1)
      else
        ofParts? (roundEven (v / 2 ^ gridOf v)).toNat (gridOf v) := by
    rw [nearest?, if_neg positive.ne']
    rfl
  rw [unfolded, rounded]
  generalize gridOf v = grid at *
  generalize roundEven (v / 2 ^ grid) = nearest at *
  obtain ⟨mantissa, rfl⟩ := Int.eq_ofNat_of_zero_le nonneg
  rw [Int.toNat_natCast]
  by_cases carry : mantissa = 2 * leadingUnit
  · refine ⟨leadingUnit, grid + 1, if_pos carry, ⟨?_, ?_, .inl le_rfl⟩, ?_⟩
    · decide
    · omega
    · rw [carry, zpow_add_one₀ (by norm_num)]
      push_cast
      ring
  · refine ⟨mantissa, grid, if_neg carry, ⟨?_, least, ?_⟩, rfl⟩
    · rw [leadingUnit_eq] at carry ⊢
      omega
    · rw [leadingUnit_eq]
      omega

/-- A positive number is read as the binary64 number that it is rounded to. -/
theorem nearest?_eq_some_iff {v : ℚ} (positive : 0 < v) {x : Binary64} :
    nearest? v = some x ↔ x.negative = false ∧ x.magnitude = rounded v := by
  obtain ⟨mantissa, exponent, read, shaped, value⟩ := nearest?_eq_ofParts? positive
  rw [read, ofParts?_eq_some_iff, ← value, magnitude_eq]
  apply and_congr_right
  intro _
  apply Iff.intro
  · rintro ⟨rfl, rfl⟩
    rfl
  · exact (canonical_iff.mp x.canonical).1.unique shaped

end Binary64
end RequestLine
