import Mathlib.Algebra.Order.Group.Int
import Mathlib.Data.Int.LeastGreatest
import Mathlib.Data.Int.SuccPred
import Mathlib.Tactic.Common

/-!
# Wall clocks

A wall clock shows the time of a place: at each instant it is ahead of universal time by an offset,
which may change at any instant. So a wall-clock time may belong to one instant, to two (the clock
was put back in between), or to none (the clock was put forward over it). Instants and wall-clock
times are whole seconds from the epoch.

A clock changes at an instant `t` if its offset there is not that at `t - 1`. A clock that is never
moved over midnight goes through the dates one by one (`KeepsDate`).
-/

namespace WallClock

universe u v
variable {α : Type u} {β : Type v}

/-- The instants of a wall-clock time: none, a single one, or an earlier and a later one. -/
inductive LocalResult (α : Type u) where
  | none
  | single (t : α)
  | ambiguous (earlier later : α)

/-- Maps the instants, all of which must have an image. -/
def LocalResult.andThen (f : α → Option β) : LocalResult α → LocalResult β
  | .none => .none
  | .single t =>
    match f t with
    | some u => .single u
    | _ => .none
  | .ambiguous t₁ t₂ =>
    match f t₁, f t₂ with
    | some u₁, some u₂ => .ambiguous u₁ u₂
    | _, _ => .none

/-- The result lists the instants at which a clock with these offsets shows the wall-clock time. -/
def Resolves (offsetAt : ℤ → ℤ) (l : ℤ) : LocalResult ℤ → Prop
  | .none => ∀ t, t + offsetAt t ≠ l
  | .single t₀ => ∀ t, t + offsetAt t = l ↔ t = t₀
  | .ambiguous t₁ t₂ => t₁ < t₂ ∧ ∀ t, t + offsetAt t = l ↔ t = t₁ ∨ t = t₂

/-- A wall clock: its offset at each instant, and the instants of each wall-clock time. -/
structure Clock where
  offsetAt : ℤ → ℤ
  fromLocal : ℤ → LocalResult ℤ
  resolves : ∀ l, Resolves offsetAt l (fromLocal l)

namespace Clock

/-- What the clock shows at an instant. -/
def wall (clock : Clock) (t : ℤ) : ℤ := t + clock.offsetAt t

/-- A clock whose offset changes once, from `before` to `after`. -/
def oneChange (change before after : ℤ) : Clock where
  offsetAt t := if t < change then before else after
  fromLocal l :=
    if l - before < change then
      if change ≤ l - after then .ambiguous (l - before) (l - after) else .single (l - before)
    else
      if change ≤ l - after then .single (l - after) else .none
  resolves l := by
    split <;> split <;> simp only [Resolves]
    · refine ⟨by omega, fun t => ?_⟩
      split <;> omega
    all_goals
      intro t
      split <;> omega

/-- A clock that never changes. -/
def fixed (offset : ℤ) : Clock := oneChange 0 offset offset

variable {clock : Clock} {bound : ℤ}

/-- The offsets are less than a bound. -/
def Within (clock : Clock) (bound : ℤ) : Prop :=
  ∀ t, -bound < clock.offsetAt t ∧ clock.offsetAt t < bound

theorem Within.lt_wall (h : clock.Within bound) (t : ℤ) : t - bound < clock.wall t := by
  have := h t
  simp only [wall]
  omega

theorem Within.wall_lt (h : clock.Within bound) (t : ℤ) : clock.wall t < t + bound := by
  have := h t
  simp only [wall]
  omega

/-- If the offsets at two instants are not the same, the clock has a last change in between. -/
theorem exists_last_change {a b : ℤ} (hle : a ≤ b) (hne : clock.offsetAt a ≠ clock.offsetAt b) :
    ∃ t, a < t ∧ t ≤ b ∧ clock.offsetAt (t - 1) ≠ clock.offsetAt t ∧
      ∀ x, t ≤ x → x ≤ b → clock.offsetAt x = clock.offsetAt b := by
  obtain ⟨c, ⟨hcb, hc⟩, hgreatest⟩ :=
    Int.exists_greatest_of_bdd (P := fun x => x ≤ b ∧ clock.offsetAt x ≠ clock.offsetAt b)
      ⟨b, fun x hx => hx.1⟩ ⟨a, hle, hne⟩
  have hlater : ∀ x, c + 1 ≤ x → x ≤ b → clock.offsetAt x = clock.offsetAt b := by
    intro x hcx hxb
    by_contra hx
    have := hgreatest x ⟨hxb, hx⟩
    omega
  have hlt : c < b := by
    rcases hcb.lt_or_eq with hlt | rfl
    · exact hlt
    · exact absurd rfl hc
  have hac := hgreatest a ⟨hle, hne⟩
  refine ⟨c + 1, by omega, hlt, ?_, hlater⟩
  rw [add_sub_cancel_right, hlater (c + 1) le_rfl hlt]
  exact hc

/-! ### Dates -/

/-- The clock is never moved over a midnight: at each change, the second before and the second before
the new time are of one date. -/
def KeepsDate (clock : Clock) (day : ℤ) : Prop :=
  ∀ t, clock.wall (t - 1) / day = (clock.wall t - 1) / day

section
variable {day : ℤ} (hday : 0 < day) (h : clock.KeepsDate day)
include hday h

/-- The date never goes back. -/
theorem KeepsDate.date_mono {t t' : ℤ} (hle : t ≤ t') : clock.wall t / day ≤ clock.wall t' / day := by
  have hmono : Monotone fun t => clock.wall t / day := by
    refine monotone_int_of_le_succ fun t => ?_
    have hkeeps := h (t + 1)
    rw [add_sub_cancel_right] at hkeeps
    rw [hkeeps]
    exact Int.ediv_le_ediv hday (by omega)
  exact hmono hle

/-- Each date starts with its midnight. -/
theorem KeepsDate.exists_midnight (hwithin : clock.Within bound) (d : ℤ) :
    ∃ t, clock.wall t = d * day := by
  -- the first instant that is not before the date
  obtain ⟨t, ht, hleast⟩ := Int.exists_least_of_bdd (P := fun t => d ≤ clock.wall t / day)
    ⟨d * day - bound, fun t ht => by
      have := (Int.le_ediv_iff_mul_le hday).1 ht
      have := hwithin.wall_lt t
      omega⟩
    ⟨d * day + bound, by
      rw [Int.le_ediv_iff_mul_le hday]
      have := hwithin.lt_wall (d * day + bound)
      omega⟩
  refine ⟨t, ?_⟩
  have hbefore : (clock.wall t - 1) / day < d := by
    rw [← h t, ← not_le]
    intro hle
    have := hleast _ hle
    omega
  rw [Int.ediv_lt_iff_lt_mul hday] at hbefore
  rw [Int.le_ediv_iff_mul_le hday] at ht
  omega

end

end Clock

end WallClock
