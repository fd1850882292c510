import Mathlib

/-!
# Tables that may lose entries

A table is a partial map. Entries are inserted under a key, and any of them may be lost at any time. What
holds of every entry (`Table.All`) is kept by both.
-/

universe u v

/-- A partial map. -/
abbrev Table (κ : Type u) (β : Type v) := κ → Option β

namespace Table

variable {κ : Type u} {β : Type v} {t : Table κ β} {k k' : κ} {v w : β} {P Q : κ → β → Prop}

/-- The table without entries. -/
def empty : Table κ β := fun _ => none

/-- Every entry has the property. -/
def All (P : κ → β → Prop) (t : Table κ β) : Prop := ∀ k v, t k = some v → P k v

theorem All.empty : All P (empty : Table κ β) := nofun

theorem All.mono (h : ∀ k v, P k v → Q k v) (ht : All P t) : All Q t :=
  fun k v hv => h k v (ht k v hv)

variable [DecidableEq κ]

/-- Inserts an entry, over the one that is there. -/
def insert (t : Table κ β) (k : κ) (v : β) : Table κ β := Function.update t k (some v)

/-- Loses the entry of a key. -/
def lose (t : Table κ β) (k : κ) : Table κ β := Function.update t k none

@[simp] theorem insert_self : t.insert k v k = some v := Function.update_self ..

theorem insert_of_ne (h : k' ≠ k) : t.insert k v k' = t k' := Function.update_of_ne h ..

@[simp] theorem lose_self : t.lose k k = none := Function.update_self ..

theorem All.insert (ht : All P t) (h : P k v) : All P (t.insert k v) := by
  intro k' w hw
  by_cases hk : k' = k
  · subst hk
    rw [insert_self, Option.some.injEq] at hw
    exact hw ▸ h
  · rw [insert_of_ne hk] at hw
    exact ht k' w hw

theorem All.lose (ht : All P t) : All P (t.lose k) := by
  intro k' w hw
  by_cases hk : k' = k
  · subst hk
    simp at hw
  · exact ht k' w ((Function.update_of_ne hk ..).symm.trans hw)

end Table
