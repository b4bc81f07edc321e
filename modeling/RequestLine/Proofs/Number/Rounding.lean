import Mathlib.Algebra.Order.Field.Power
import Mathlib.Data.Rat.Floor
import Mathlib.Tactic.Linarith
import Mathlib.Tactic.Positivity
import Mathlib.Tactic.Ring
import RequestLine.Number.Rounding

/-!
The leading place of a positive number is where its leading digit stands, and rounding to an integer
keeps the order of numbers and leaves integers as they are.
-/

namespace RequestLine

/-! ### The leading place -/

/-- `log` counts the digits after the first. -/
def CountsDigits (base : Nat) (log : Nat → Nat) : Prop :=
  ∀ n, 0 < n → base ^ log n ≤ n ∧ n < base ^ (log n + 1)

theorem countsDigits_log2 : CountsDigits 2 Nat.log2 := by
  intro n positive
  exact ⟨Nat.log2_self_le (by omega), Nat.lt_log2_self⟩

theorem lt_pow_length_toDigits (n : Nat) : n < 10 ^ (Nat.toDigits 10 n).length :=
  (Nat.length_toDigits_le_iff (by decide) Nat.length_toDigits_pos).mp (Nat.le_refl _)

theorem pow_length_toDigits_le {n : Nat} (positive : 0 < n) :
    10 ^ ((Nat.toDigits 10 n).length - 1) ≤ n := by
  by_contra small
  rw [Nat.not_le] at small
  have some : 0 < (Nat.toDigits 10 n).length := Nat.length_toDigits_pos
  by_cases single : (Nat.toDigits 10 n).length = 1
  · rw [single] at small
    omega
  · have fewer := (Nat.length_toDigits_le_iff (by decide) (by omega)).mpr small
    omega

theorem countsDigits_toDigits :
    CountsDigits 10 fun n => (Nat.toDigits 10 n).length - 1 := by
  intro n positive
  have some : 0 < (Nat.toDigits 10 n).length := Nat.length_toDigits_pos
  have whole : (Nat.toDigits 10 n).length - 1 + 1 = (Nat.toDigits 10 n).length := by omega
  refine ⟨pow_length_toDigits_le positive, ?_⟩
  rw [whole]
  exact lt_pow_length_toDigits n

theorem leadingPlace_spec {base : Nat} {log : Nat → Nat} (several : 1 < base)
    (counts : CountsDigits base log) {x : ℚ} (positive : 0 < x) :
    (base : ℚ) ^ leadingPlace base log x ≤ x ∧ x < (base : ℚ) ^ (leadingPlace base log x + 1) := by
  have numerator : 0 < x.num := Rat.num_pos.mpr positive
  obtain ⟨numLow, numHigh⟩ := counts x.num.toNat (by omega)
  obtain ⟨denLow, denHigh⟩ := counts x.den x.den_pos
  set a := log x.num.toNat
  set b := log x.den
  have nonzero : (base : ℚ) ≠ 0 := by positivity
  have den : (0 : ℚ) < x.den := by exact_mod_cast x.den_pos
  have quotient : x = (x.num.toNat : ℚ) / x.den := by
    have cast : (x.num.toNat : ℚ) = x.num := by
      exact_mod_cast Int.toNat_of_nonneg numerator.le
    rw [cast, Rat.num_div_den]
  -- The two logarithms leave the leading place within one of their difference.
  have lower : (base : ℚ) ^ ((a : ℤ) - b - 1) ≤ x := by
    rw [quotient, le_div_iff₀ den]
    calc (base : ℚ) ^ ((a : ℤ) - b - 1) * x.den
        ≤ (base : ℚ) ^ ((a : ℤ) - b - 1) * (base : ℚ) ^ (b + 1) := by
          gcongr
          exact_mod_cast denHigh.le
      _ = (base : ℚ) ^ a := by
          rw [← zpow_natCast, ← zpow_natCast, ← zpow_add₀ nonzero]
          congr 1
          push_cast
          ring
      _ ≤ x.num.toNat := by exact_mod_cast numLow
  have upper : x < (base : ℚ) ^ ((a : ℤ) - b + 1) := by
    rw [quotient, div_lt_iff₀ den]
    calc (x.num.toNat : ℚ) < (base : ℚ) ^ (a + 1) := by exact_mod_cast numHigh
      _ = (base : ℚ) ^ ((a : ℤ) - b + 1) * (base : ℚ) ^ b := by
          rw [← zpow_natCast, ← zpow_natCast, ← zpow_add₀ nonzero]
          congr 1
          push_cast
          ring
      _ ≤ (base : ℚ) ^ ((a : ℤ) - b + 1) * x.den := by
          gcongr
          exact_mod_cast denLow
  change (base : ℚ) ^ (if x < (base : ℚ) ^ ((a : ℤ) - b) then (a : ℤ) - b - 1 else (a : ℤ) - b) ≤ x ∧
    x < (base : ℚ) ^ ((if x < (base : ℚ) ^ ((a : ℤ) - b) then (a : ℤ) - b - 1 else (a : ℤ) - b) + 1)
  split
  · rename_i below
    rw [sub_add_cancel]
    exact ⟨lower, below⟩
  · rename_i notBelow
    exact ⟨not_lt.mp notBelow, upper⟩

theorem le_leadingPlace_iff {base : Nat} {log : Nat → Nat} (several : 1 < base)
    (counts : CountsDigits base log) {x : ℚ} (positive : 0 < x) {place : ℤ} :
    place ≤ leadingPlace base log x ↔ (base : ℚ) ^ place ≤ x := by
  obtain ⟨lower, upper⟩ := leadingPlace_spec several counts positive
  have above : (1 : ℚ) < base := by exact_mod_cast several
  apply Iff.intro
  · intro le
    exact (zpow_le_zpow_right₀ above.le le).trans lower
  · intro le
    exact Int.lt_add_one_iff.mp ((zpow_lt_zpow_iff_right₀ above).mp (le.trans_lt upper))

theorem le_leadingBit_iff {x : ℚ} (positive : 0 < x) {place : ℤ} :
    place ≤ leadingBit x ↔ (2 : ℚ) ^ place ≤ x :=
  le_leadingPlace_iff (by decide) countsDigits_log2 positive

theorem le_leadingDigit_iff {x : ℚ} (positive : 0 < x) {place : ℤ} :
    place ≤ leadingDigit x ↔ (10 : ℚ) ^ place ≤ x :=
  le_leadingPlace_iff (by decide) countsDigits_toDigits positive

/-! ### The nearest integer -/

theorem roundEven_cases (x : ℚ) :
    roundEven x = ⌊x⌋ ∧ x - ⌊x⌋ ≤ 1 / 2 ∨ roundEven x = ⌊x⌋ + 1 ∧ 1 / 2 ≤ x - ⌊x⌋ := by
  have floor : x.floor = ⌊x⌋ := rfl
  simp only [roundEven, floor]
  split
  · rename_i small
    exact .inl ⟨rfl, small.le⟩
  · rename_i notSmall
    split
    · rename_i large
      exact .inr ⟨rfl, large.le⟩
    · rename_i notLarge
      split
      · exact .inl ⟨rfl, not_lt.mp notLarge⟩
      · exact .inr ⟨rfl, not_lt.mp notSmall⟩

theorem roundEven_mono {x y : ℚ} (le : x ≤ y) : roundEven x ≤ roundEven y := by
  have floors : ⌊x⌋ ≤ ⌊y⌋ := Int.floor_le_floor le
  by_cases same : ⌊x⌋ = ⌊y⌋
  · -- In one unit, the excess decides, and it is larger for `y`.
    have floorX : x.floor = ⌊y⌋ := same
    have floorY : y.floor = ⌊y⌋ := rfl
    simp only [roundEven, floorX, floorY]
    split_ifs <;> first | omega | (exfalso; linarith)
  · have stepX : roundEven x ≤ ⌊x⌋ + 1 := by
      rcases roundEven_cases x with ⟨rounded, _⟩ | ⟨rounded, _⟩ <;> omega
    have stepY : ⌊y⌋ ≤ roundEven y := by
      rcases roundEven_cases y with ⟨rounded, _⟩ | ⟨rounded, _⟩ <;> omega
    omega

theorem roundEven_intCast (n : ℤ) : roundEven n = n := by
  rcases roundEven_cases n with ⟨rounded, _⟩ | ⟨_, half⟩
  · rw [rounded, Int.floor_intCast]
  · rw [Int.floor_intCast, sub_self] at half
    norm_num at half

theorem roundEven_error (x : ℚ) : |(roundEven x : ℚ) - x| ≤ 1 / 2 := by
  rw [abs_le]
  rcases roundEven_cases x with ⟨rounded, half⟩ | ⟨rounded, half⟩
  · rw [rounded]
    have floor := Int.floor_le x
    refine ⟨by linarith, by linarith⟩
  · rw [rounded]
    have above := Int.lt_floor_add_one x
    push_cast
    refine ⟨by linarith, by linarith⟩

end RequestLine
