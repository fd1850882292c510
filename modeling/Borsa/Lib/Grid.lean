import Mathlib.Algebra.Order.Group.Int
import Mathlib.Algebra.Ring.Divisibility.Basic
import Mathlib.Algebra.Ring.Int.Defs
import Mathlib.Tactic.Ring

/-!
# Grids of points at equal distances

The points `origin + k * step` cut the integers into cells of length `step`. `floorTo` is the point
at which the cell of an integer starts. Cells of one grid nest in those of a coarser grid whose
points are among its own (`floorTo_floorTo`).
-/

namespace Grid

variable {step origin x y b : ℤ}

/-- The last grid point that is not after `x`. -/
def floorTo (step origin x : ℤ) : ℤ := origin + step * ((x - origin) / step)

theorem dvd_floorTo_sub (step origin x : ℤ) : step ∣ floorTo step origin x - origin :=
  ⟨(x - origin) / step, by rw [floorTo]; ring⟩

theorem floorTo_le (hstep : 0 < step) (origin x : ℤ) : floorTo step origin x ≤ x := by
  have h := Int.mul_ediv_self_le (x := x - origin) (k := step) hstep.ne'
  rw [floorTo]
  omega

theorem lt_floorTo_add (hstep : 0 < step) (origin x : ℤ) : x < floorTo step origin x + step := by
  have h := Int.lt_mul_ediv_self_add (x := x - origin) hstep
  rw [floorTo]
  omega

/-- A grid point that is not after `x` is not after the last one. -/
theorem le_floorTo (hstep : 0 < step) (hdvd : step ∣ b - origin) (hle : b ≤ x) :
    b ≤ floorTo step origin x := by
  obtain ⟨k, hk⟩ := hdvd
  have hkle : k ≤ (x - origin) / step := by
    refine (Int.le_ediv_iff_mul_le hstep).2 ?_
    rw [mul_comm]
    omega
  have := Int.mul_le_mul_of_nonneg_left hkle hstep.le
  rw [floorTo]
  omega

/-- The start of a cell is determined by being a grid point with `x` in its cell. -/
theorem eq_floorTo (hstep : 0 < step) (hdvd : step ∣ b - origin) (hle : b ≤ x)
    (hlt : x < b + step) : b = floorTo step origin x := by
  have h := le_floorTo hstep hdvd hle
  have hle' := floorTo_le hstep origin x
  obtain ⟨k, hk⟩ : step ∣ floorTo step origin x - b := by
    have := dvd_sub (dvd_floorTo_sub step origin x) hdvd
    simpa using this
  rcases lt_trichotomy k 0 with hk' | rfl | hk'
  · have := Int.mul_le_mul_of_nonneg_left (Int.le_sub_one_of_lt hk') hstep.le
    omega
  · omega
  · have := Int.mul_le_mul_of_nonneg_left (Int.add_one_le_of_lt hk') hstep.le
    omega

theorem floorTo_mono (hstep : 0 < step) (origin : ℤ) (h : x ≤ y) :
    floorTo step origin x ≤ floorTo step origin y :=
  le_floorTo hstep (dvd_floorTo_sub step origin x) ((floorTo_le hstep origin x).trans h)

/-- The coarse cell of an integer is that of the start of its fine cell. -/
theorem floorTo_floorTo {coarse origin' : ℤ} (hstep : 0 < step) (hcoarse : 0 < coarse)
    (hdvd : step ∣ coarse) (horigin : step ∣ origin' - origin) :
    floorTo coarse origin' (floorTo step origin x) = floorTo coarse origin' x := by
  have hpoint : step ∣ floorTo coarse origin' x - origin := by
    have := dvd_add (hdvd.trans (dvd_floorTo_sub coarse origin' x)) horigin
    simpa using this
  refine (eq_floorTo hcoarse (dvd_floorTo_sub coarse origin' x) ?_ ?_).symm
  · exact le_floorTo hstep hpoint (floorTo_le hcoarse origin' x)
  · exact (floorTo_le hstep origin x).trans_lt (lt_floorTo_add hcoarse origin' x)

end Grid
