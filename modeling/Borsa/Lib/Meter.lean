import Mathlib

/-!
# Meters of charges per cell of time

Time is cut into cells of one length, the first of which starts at the origin. A meter counts the
charges of the current cell. It is reset lazily: only when it is used does it move to the cell of the
instant it is used at, over as many cells as have passed.

`Meter.Reads` relates a meter to all charges ever made. It is kept by `align` and by `charge`, so a
meter that is aligned before each use reads the number of charges in the cell of the instant
(`Reads.count_align`). If charges are only made while the meter reads less than a budget, no cell ever
holds more than the budget (`WithinBudget.concat`).
-/

/-- A meter: the start of its cell, and the charges it has counted since. -/
@[ext]
structure Meter where
  start : ℕ
  count : ℕ

namespace Meter

/-- The instant is in the `k`-th cell. -/
def InCell (len origin k t : ℕ) : Prop := origin + k * len ≤ t ∧ t < origin + (k + 1) * len

instance (len origin k t : ℕ) : Decidable (InCell len origin k t) :=
  inferInstanceAs (Decidable (_ ∧ _))

/-- The two instants are in one cell. -/
def SameCell (len origin t u : ℕ) : Prop := (t - origin) / len = (u - origin) / len

instance (len origin t u : ℕ) : Decidable (SameCell len origin t u) :=
  inferInstanceAs (Decidable (_ = _))

/-- The number of charges in the `k`-th cell. -/
def inCell (len origin k : ℕ) (charges : List ℕ) : ℕ :=
  charges.countP fun c => InCell len origin k c

/-- The number of charges in the cell of the instant. -/
def atCell (len origin t : ℕ) (charges : List ℕ) : ℕ :=
  charges.countP fun c => SameCell len origin c t

/-- Moves the meter to the cell of `now`. -/
def align (len now : ℕ) (m : Meter) : Meter :=
  if len ≤ now - m.start then ⟨m.start + (now - m.start) / len * len, 0⟩ else m

/-- Counts one more charge. -/
def charge (m : Meter) : Meter := { m with count := m.count + 1 }

/-- No cell holds more charges than the budget. -/
def WithinBudget (len origin budget : ℕ) (charges : List ℕ) : Prop :=
  ∀ k, inCell len origin k charges ≤ budget

section
variable {len origin k t u now budget : ℕ} {charges : List ℕ} {m : Meter}

theorem inCell_iff (hlen : 0 < len) (ht : origin ≤ t) :
    InCell len origin k t ↔ (t - origin) / len = k := by
  rw [Nat.div_eq_iff hlen, InCell, Nat.add_mul]
  omega

theorem sameCell_iff (hlen : 0 < len) (ht : origin ≤ t) :
    SameCell len origin t u ↔ InCell len origin ((u - origin) / len) t :=
  (inCell_iff hlen ht).symm

theorem atCell_eq_inCell (hlen : 0 < len) (hcs : ∀ c ∈ charges, origin ≤ c) :
    atCell len origin t charges = inCell len origin ((t - origin) / len) charges :=
  List.countP_congr fun c hc => by simp [sameCell_iff hlen (hcs c hc)]

/-- The meter has counted the charges of its cell, which none of the charges is after. -/
structure Reads (len origin : ℕ) (charges : List ℕ) (m : Meter) : Prop where
  onGrid : ∃ k, m.start = origin + k * len
  before : ∀ c ∈ charges, c < m.start + len
  count : m.count = charges.countP fun c => m.start ≤ c

/-- The meter is in the cell of the instant. -/
def Holds (len : ℕ) (m : Meter) (now : ℕ) : Prop := m.start ≤ now ∧ now < m.start + len

/-- A new meter has counted nothing. -/
theorem Reads.new (len origin : ℕ) : Reads len origin [] ⟨origin, 0⟩ where
  onGrid := ⟨0, by simp⟩
  before := by simp
  count := rfl

theorem Holds.align (hlen : 0 < len) (hnow : m.start ≤ now) : Holds len (m.align len now) now := by
  have hdiv := Nat.div_add_mod' (now - m.start) len
  have hmod := Nat.mod_lt (now - m.start) hlen
  rw [Meter.align]
  split
  · refine ⟨?_, ?_⟩ <;> dsimp only <;> omega
  · refine ⟨hnow, ?_⟩
    omega

/-- Aligning keeps what the meter reads. -/
theorem Reads.align (hlen : 0 < len) (h : Reads len origin charges m) :
    Reads len origin charges (m.align len now) := by
  rw [Meter.align]
  split
  · next hpassed =>
    obtain ⟨⟨k, hk⟩, hbefore, -⟩ := h
    -- at least one cell has passed, and the charges are all before its end
    have hcell : len ≤ (now - m.start) / len * len :=
      Nat.le_mul_of_pos_left _ (Nat.div_pos hpassed hlen)
    refine ⟨⟨k + (now - m.start) / len, ?_⟩, ?_, ?_⟩
    · rw [Nat.add_mul]
      dsimp only
      omega
    · intro c hc
      have := hbefore c hc
      dsimp only
      omega
    · refine (List.countP_eq_zero.2 fun c hc => ?_).symm
      have := hbefore c hc
      simp only [decide_eq_true_eq]
      omega
  · exact h

/-- Counting a charge in the meter's cell keeps what the meter reads. -/
theorem Reads.charge (h : Reads len origin charges m) (hnow : Holds len m now) :
    Reads len origin (charges ++ [now]) m.charge where
  onGrid := h.onGrid
  before := by
    intro c hc
    rcases List.mem_append.1 hc with hc | hc
    · exact h.before c hc
    · rw [List.mem_singleton.1 hc]
      exact hnow.2
  count := by
    have hin : m.start ≤ now := hnow.1
    rw [List.countP_append, Meter.charge]
    simp [h.count, hin]

/-- A meter in the cell of an instant reads the charges in that cell. -/
theorem Reads.count_eq_inCell (hlen : 0 < len) (h : Reads len origin charges m)
    (hnow : Holds len m now) : m.count = inCell len origin ((now - origin) / len) charges := by
  obtain ⟨⟨k, hk⟩, hbefore, hcount⟩ := h
  have hk' : (now - origin) / len = k := by
    have h1 := hnow.1
    have h2 := hnow.2
    refine (inCell_iff hlen (by omega)).1 ⟨by omega, ?_⟩
    rw [Nat.add_mul]
    omega
  rw [hcount, hk', inCell]
  refine List.countP_congr fun c hc => ?_
  have hend : origin + (k + 1) * len = m.start + len := by rw [Nat.add_mul]; omega
  simp only [decide_eq_true_eq, InCell, hend, ← hk]
  exact (and_iff_left (hbefore c hc)).symm

theorem Reads.count_eq_atCell (hlen : 0 < len) (hcs : ∀ c ∈ charges, origin ≤ c)
    (h : Reads len origin charges m) (hnow : Holds len m now) :
    m.count = atCell len origin now charges := by
  rw [h.count_eq_inCell hlen hnow, atCell_eq_inCell hlen hcs]

/-- One more charge keeps the budget when the cell had room for it. -/
theorem WithinBudget.concat (hlen : 0 < len) (hnow : origin ≤ now)
    (h : WithinBudget len origin budget charges)
    (hroom : inCell len origin ((now - origin) / len) charges < budget) :
    WithinBudget len origin budget (charges ++ [now]) := by
  intro k
  rw [inCell, List.countP_append]
  by_cases hk : (now - origin) / len = k
  · have : inCell len origin k charges < budget := hk ▸ hroom
    rw [List.countP_singleton, if_pos (by simpa [inCell_iff hlen hnow] using hk)]
    exact this
  · rw [List.countP_singleton, if_neg (by simpa [inCell_iff hlen hnow] using hk)]
    exact h k

theorem WithinBudget.nil : WithinBudget len origin budget [] := fun _ => by simp [inCell]

/-- Charges and an instant that are all in the first cell. -/
theorem atCell_eq_length (hcs : ∀ c ∈ charges, c - origin < len) (ht : t - origin < len) :
    atCell len origin t charges = charges.length := by
  refine List.countP_eq_length.2 fun c hc => ?_
  simp [SameCell, Nat.div_eq_of_lt (hcs c hc), Nat.div_eq_of_lt ht]

theorem inCell_le_length : inCell len origin k charges ≤ charges.length := List.countP_le_length

/-- Charges that are all in the first cell are as many as the budget at most. -/
theorem WithinBudget.length_le (hcs : ∀ c ∈ charges, origin ≤ c ∧ c - origin < len)
    (h : WithinBudget len origin budget charges) : charges.length ≤ budget := by
  have hall : inCell len origin 0 charges = charges.length := by
    refine List.countP_eq_length.2 fun c hc => ?_
    have := hcs c hc
    rw [decide_eq_true_eq, InCell]
    omega
  exact hall ▸ h 0

end

end Meter
