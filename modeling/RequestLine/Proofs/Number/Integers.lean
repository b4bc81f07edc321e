import RequestLine.Number.Layout
import RequestLine.Proofs.Number.Search

/-!
Integers of at most 53 bits as binary64 numbers.  Their shortest digits are their own, up to zeros at
the end.
-/

namespace RequestLine

namespace Binary64

open Decimal (nearestOnCoarsest_shortest readsAs_of_value_eq value_eq)

theorem rounded_natCast {n : Nat} (some : 0 < n) (short : n < 2 ^ 53) : rounded n = n := by
  have units : -1074 ≤ (0 : ℤ) := by norm_num
  simpa using rounded_eq_self some short units

theorem rounded_two_mul_natCast {n : Nat} (some : 0 < n) (short : n < 2 ^ 53) :
    rounded ((2 * n : Nat) : ℚ) = (2 * n : Nat) := by
  have double : ((2 * n : Nat) : ℚ) = n * 2 ^ (1 : ℤ) := by
    push_cast
    ring
  rw [double]
  exact rounded_eq_self some short (by norm_num)

theorem rounded_natCast_le {n : Nat} (some : 0 < n) (bound : n ≤ 2 ^ 53) : rounded n = n := by
  rcases Nat.lt_or_ge n (2 ^ 53) with short | full
  · exact rounded_natCast some short
  · have double : n = 2 * (n / 2) := by omega
    rw [double]
    exact rounded_two_mul_natCast (by omega) (by omega)

theorem exists_nearest? {v : ℚ} (positive : 0 < v) (finite : rounded v < 2 ^ (1024 : ℤ)) :
    ∃ x, nearest? v = some x := by
  obtain ⟨mantissa, exponent, read, shaped, value⟩ := nearest?_eq_ofParts? positive
  have bounded : exponent ≤ 971 := by
    by_contra large
    have full : leadingUnit ≤ mantissa := by
      rcases shaped.2.2 with full | least
      · exact full
      · omega
    rw [leadingUnit_eq] at full
    have cast : (2 : ℚ) ^ (52 : ℤ) ≤ mantissa := by exact_mod_cast full
    have bound : (2 : ℚ) ^ (1024 : ℤ) ≤ mantissa * 2 ^ exponent := by
      calc (2 : ℚ) ^ (1024 : ℤ) = 2 ^ (52 : ℤ) * 2 ^ (972 : ℤ) := by
            rw [← zpow_add₀ (by norm_num)]
            rfl
        _ ≤ mantissa * 2 ^ exponent := by
            gcongr
            · norm_num
            · omega
    linarith
  rw [read, ofParts?, dif_pos (canonical_iff.mpr ⟨shaped, bounded⟩)]
  exact ⟨_, rfl⟩

/-- The binary64 number nearest to an integer that is not too large for one. -/
def ofInt (n : Int) : Binary64 :=
  { (nearest? n.natAbs).getD zero with negative := decide (n < 0) }

/-- An integer of at most 53 bits is a number of its own, and so is `2 ^ 53`. -/
theorem nearest?_natCast {n : Nat} (some : 0 < n) (bound : n ≤ 2 ^ 53) :
    ∃ x, nearest? n = Option.some x ∧ x.Positive ∧ x.magnitude = n := by
  have positive : (0 : ℚ) < n := by exact_mod_cast some
  have kept := rounded_natCast_le some bound
  have finite : rounded n < 2 ^ (1024 : ℤ) := by
    have cast : (n : ℚ) ≤ 2 ^ (53 : ℤ) := by exact_mod_cast bound
    rw [kept]
    refine cast.trans_lt (zpow_lt_zpow_right₀ (by norm_num) (by norm_num))
  obtain ⟨x, read⟩ := exists_nearest? positive finite
  obtain ⟨unsigned, magnitude⟩ := (nearest?_eq_some_iff positive).mp read
  rw [kept] at magnitude
  refine ⟨x, read, ⟨unsigned, ?_⟩, magnitude⟩
  rw [← magnitude_pos_iff, magnitude]
  exact positive

theorem ofInt_zero : ofInt 0 = zero := by
  rw [ofInt, Int.natAbs_zero, Nat.cast_zero, nearest?, if_pos rfl]
  rfl

/-- An integer of at most 53 bits has its sign and its size. -/
theorem ofInt_spec {n : Int} (some : n ≠ 0) (bound : n.natAbs ≤ 2 ^ 53) :
    (ofInt n).negative = decide (n < 0) ∧ (ofInt n).abs.Positive ∧
      (ofInt n).abs.magnitude = n.natAbs := by
  obtain ⟨x, read, positive, magnitude⟩ := nearest?_natCast (Int.natAbs_pos.mpr some) bound
  have found : ofInt n = { x with negative := decide (n < 0) } := by
    rw [ofInt, read, Option.getD_some]
  rw [found]
  exact ⟨rfl, ⟨rfl, positive.2⟩, magnitude⟩

/-- The shortest number read as such an integer is the integer itself.  A coarser one is even, and no
other even integer is read as it. -/
theorem value_shortest {x : Binary64} (positive : x.Positive) {n : Nat} (magnitude : x.magnitude = n)
    (bound : n ≤ 2 ^ 53) (tie : Tie) :
    0 ≤ (Decimal.shortest tie x).place ∧ (Decimal.shortest tie x).value = n := by
  have least := nearestOnCoarsest_shortest positive tie
  generalize Decimal.shortest tie x = d at *
  have whole : (⟨n, 0⟩ : Decimal).value = x.magnitude := by
    rw [value_eq, magnitude, zpow_zero, mul_one]
  have reads := readsAs_of_value_eq positive whole
  have place : 0 ≤ d.place := least.coarsest _ reads
  refine ⟨place, ?_⟩
  rcases place.eq_or_lt with units | coarser
  · have distance := least.nearest ⟨n, 0⟩ units reads
    rw [whole, sub_self, abs_zero, abs_nonpos_iff, sub_eq_zero] at distance
    rw [distance, magnitude]
  · obtain ⟨tens, split⟩ := Int.le.dest coarser
    have even : d.value = (2 * (d.digits * 5 * 10 ^ tens) : Nat) := by
      rw [value_eq, ← split, zpow_add₀ (by norm_num), zpow_natCast]
      push_cast
      ring
    have small := Decimal.value_lt_of_readsAs positive least.reads
    obtain ⟨digits, same⟩ := (Decimal.readsAs_iff_rounded positive).mp least.reads
    have half : d.digits * 5 * 10 ^ tens < 2 ^ 53 := by
      rw [even, magnitude] at small
      have cast : 2 * (d.digits * 5 * 10 ^ tens) < 2 * n := by exact_mod_cast small
      omega
    rw [even, rounded_two_mul_natCast (by positivity) half, ← even] at same
    rw [same, magnitude]

end Binary64

theorem toDigits_mul_pow {n : Nat} (some : 0 < n) (count : Nat) :
    Nat.toDigits 10 (n * 10 ^ count) = Nat.toDigits 10 n ++ List.replicate count '0' := by
  induction count with
  | zero => simp
  | succ count ih =>
      have step : n * 10 ^ (count + 1) = 10 * (n * 10 ^ count) + 0 := by ring
      rw [step, ← Nat.toDigits_append_toDigits (by decide) (by positivity) (by decide), ih,
        List.append_assoc, List.replicate_succ']
      rfl

end RequestLine
