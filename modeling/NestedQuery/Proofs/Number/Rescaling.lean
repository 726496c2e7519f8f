import Mathlib.Algebra.Order.Ring.Cast
import Mathlib.Algebra.Order.Ring.Rat
import Mathlib.Order.Compare
import Mathlib.Tactic.FieldSimp
import NestedQuery.Number.Decimal

/-!
# Decimals as rational numbers

Two decimals that can be brought to the larger of their scales are in the order of the rational
numbers that they stand for.

* `Decimal.number`       `units * 10 ^ -scale` as a rational number;
* `Decimal.Rescales`     128 bits hold the units on a larger scale, and the power of ten to it;
* `Decimal.Aligned`      two decimals that can be brought to the larger of their scales;
* `Decimal.compare_eq`   the order of such decimals;
* `Decimal.number_eq_of_zeros`   zeros at the end do not change the number.
-/

namespace NestedQuery.Decimal

theorem tenPow_eq (n : Nat) : tenPow n = 10 ^ n := rfl

/-- the rational number that a decimal stands for -/
def number (d : Decimal) : ℚ := d.units / 10 ^ d.scale.toNat

theorem number_ofInt64 (n : Int64) : (ofInt64 n).number = n.toInt := by
  show (n.toInt : ℚ) / 10 ^ 0 = _
  rw [pow_zero, div_one]

/-- the same digits with some zeros after them -/
theorem number_eq_of_zeros {d d' : Decimal} {zeros : Nat} (hunits : d'.units = d.units * 10 ^ zeros)
    (hscale : d'.scale.toNat = d.scale.toNat + zeros) : d'.number = d.number := by
  have hpos : (10 : ℚ) ^ zeros ≠ 0 := pow_ne_zero _ (by decide)
  rw [number, number, hunits, hscale, pow_add, Int.cast_mul, Int.cast_pow, Int.cast_ofNat,
    mul_div_mul_right _ _ hpos]

/-! ## larger scales -/

/-- the power of ten between two scales, and the units on the larger one, take 128 bits at most -/
structure Rescales (d : Decimal) (scale : UInt32) : Prop where
  power : Fits128 (tenPow (scale.toNat - d.scale.toNat))
  units : Fits128 (d.units * tenPow (scale.toNat - d.scale.toNat))

theorem rescales_self (d : Decimal) : d.Rescales d.scale := by
  constructor
  · rw [Nat.sub_self]
    decide
  · rw [Nat.sub_self, tenPow_zero, Nat.cast_one, Int.mul_one]
    exact d.fits

/-- no greater power of ten takes 128 bits -/
theorem le_of_fits128_tenPow {places : Nat} (h : Fits128 (tenPow places)) : places ≤ 38 := by
  by_contra hlt
  have hle : tenPow 39 ≤ tenPow places := Nat.pow_le_pow_right (by decide) (by omega)
  have hgreat : 0x80000000000000000000000000000000 ≤ tenPow 39 := by decide
  have hfits := h.2
  omega

theorem rescaled_eq {d : Decimal} {scale : UInt32} (h : d.Rescales scale) :
    d.rescaled scale = some (d.units * tenPow (scale.toNat - d.scale.toNat)) := by
  rw [rescaled, if_pos (le_of_fits128_tenPow h.power), checked, if_pos h.units]

theorem number_mul {d : Decimal} {scale : UInt32} (h : d.scale.toNat ≤ scale.toNat) :
    d.number * 10 ^ scale.toNat =
      ((d.units * tenPow (scale.toNat - d.scale.toNat) : Int) : ℚ) := by
  obtain ⟨places, hplaces⟩ := Nat.exists_eq_add_of_le h
  rw [number, hplaces, Nat.add_sub_cancel_left, tenPow_eq, pow_add]
  push_cast
  field_simp

/-! ## order -/

/-- both decimals can be brought to the larger of their scales -/
structure Aligned (x y : Decimal) : Prop where
  left : x.Rescales (max x.scale y.scale)
  right : y.Rescales (max x.scale y.scale)

/-- whole numbers have the order of rational numbers -/
theorem compare_intCast (m n : Int) : Ord.compare (m : ℚ) (n : ℚ) = Ord.compare m n := by
  rw [← cmp_eq_compare, ← cmp_eq_compare]
  exact Int.cast_strictMono.cmp_map_eq m n

theorem compare_mul_right {q : ℚ} (hq : 0 < q) (r s : ℚ) :
    Ord.compare (r * q) (s * q) = Ord.compare r s := by
  rw [← cmp_eq_compare, ← cmp_eq_compare]
  exact (strictMono_mul_right_of_pos hq).cmp_map_eq r s

theorem toNat_max (a b : UInt32) : (max a b).toNat = max a.toNat b.toNat := by
  show (if a ≤ b then b else a).toNat = _
  split
  · rename_i h
    rw [Nat.max_eq_right (UInt32.le_iff_toNat_le.mp h)]
  · rename_i h
    rw [UInt32.le_iff_toNat_le] at h
    rw [Nat.max_eq_left (by omega)]

theorem Aligned.symm {x y : Decimal} (h : x.Aligned y) : y.Aligned x := by
  have hmax : max y.scale x.scale = max x.scale y.scale := by
    rw [← UInt32.toNat_inj, toNat_max, toNat_max, Nat.max_comm]
  exact ⟨hmax ▸ h.right, hmax ▸ h.left⟩

theorem aligned_of_scale_eq {x y : Decimal} (h : x.scale = y.scale) : x.Aligned y := by
  have hmax : max x.scale y.scale = x.scale := by
    rw [h]
    exact ite_self _
  constructor
  · rw [hmax]
    exact x.rescales_self
  · rw [hmax, h]
    exact y.rescales_self

/-- such decimals are in the order of their numbers -/
theorem compare_eq {x y : Decimal} (h : x.Aligned y) :
    x.compare y = Ord.compare x.number y.number := by
  have hx : x.scale.toNat ≤ (max x.scale y.scale).toNat := by
    rw [toNat_max]
    exact Nat.le_max_left _ _
  have hy : y.scale.toNat ≤ (max x.scale y.scale).toNat := by
    rw [toNat_max]
    exact Nat.le_max_right _ _
  have hpos : (0 : ℚ) < 10 ^ (max x.scale y.scale).toNat := pow_pos (by decide) _
  rw [compare, rescaled_eq h.left, rescaled_eq h.right]
  calc Ord.compare _ _
      = Ord.compare (x.number * 10 ^ (max x.scale y.scale).toNat)
          (y.number * 10 ^ (max x.scale y.scale).toNat) := by
        rw [number_mul hx, number_mul hy, compare_intCast]
    _ = Ord.compare x.number y.number := compare_mul_right hpos _ _

theorem compare_ofInt64 (m n : Int64) :
    (ofInt64 m).compare (ofInt64 n) = Ord.compare m.toInt n.toInt := by
  have haligned : (ofInt64 m).Aligned (ofInt64 n) := aligned_of_scale_eq rfl
  rw [Decimal.compare_eq haligned, number_ofInt64, number_ofInt64, compare_intCast]

end NestedQuery.Decimal
