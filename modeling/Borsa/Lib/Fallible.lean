import Mathlib

/-!
# Loops that can fail

Computations in `Except`, and the loops over lists whose steps can fail. A loop with a result has made
every step; what its steps do, the loop does (`foldlM_collects`, `exists_foldlM_eq_ok`,
`foldlM_eq_error`).
-/

namespace Fallible

section
variable {ε α β : Type}

@[simp] theorem ok_bind (a : α) (f : α → Except ε β) : (Except.ok a >>= f) = f a := rfl

@[simp] theorem error_bind (e : ε) (f : α → Except ε β) :
    (Except.error e >>= f) = .error e := rfl

@[simp] theorem pure_eq_ok (a : α) : (pure a : Except ε α) = .ok a := rfl

theorem bind_eq_ok {x : Except ε α} {f : α → Except ε β} {b : β} :
    (x >>= f) = .ok b ↔ ∃ a, x = .ok a ∧ f a = .ok b := by
  cases x <;> simp

theorem bind_eq_error {x : Except ε α} {f : α → Except ε β} {e : ε} :
    (x >>= f) = .error e ↔ x = .error e ∨ ∃ a, x = .ok a ∧ f a = .error e := by
  cases x <;> simp

end

/-! ## Loops -/

section
variable {ε α β γ : Type} {f : β → α → Except ε β} {l : List α} {b b' : β}

theorem foldlM_cons_eq_ok {a : α} :
    (a :: l).foldlM f b = .ok b' ↔ ∃ b₁, f b a = .ok b₁ ∧ l.foldlM f b₁ = .ok b' := by
  rw [List.foldlM_cons, bind_eq_ok]

/-- A loop with a result has made every step. -/
theorem exists_step_of_foldlM_eq_ok (h : l.foldlM f b = .ok b') :
    ∀ a ∈ l, ∃ b₁ b₂, f b₁ a = .ok b₂ := by
  induction l generalizing b with
  | nil => exact List.forall_mem_nil _
  | cons a l ih =>
    obtain ⟨b₁, hstep, h⟩ := foldlM_cons_eq_ok.1 h
    exact List.forall_mem_cons.2 ⟨⟨b, b₁, hstep⟩, ih h⟩

/-- A loop whose steps each add at most one item collects these. -/
theorem foldlM_collects {items : β → List γ} {item : α → Option γ}
    (hstep : ∀ b a b', f b a = .ok b' → items b' = items b ++ (item a).toList)
    (h : l.foldlM f b = .ok b') : items b' = items b ++ l.filterMap item := by
  induction l generalizing b with
  | nil =>
    obtain rfl := Except.ok.inj h
    simp
  | cons a l ih =>
    obtain ⟨b₁, hb₁, h⟩ := foldlM_cons_eq_ok.1 h
    rw [ih h, hstep b a b₁ hb₁, List.append_assoc, List.filterMap_cons]
    cases item a <;> rfl

/-- A loop has a result when no step fails where an invariant holds that the steps keep. -/
theorem exists_foldlM_eq_ok {I : β → Prop}
    (hstep : ∀ a ∈ l, ∀ b, I b → ∃ b', f b a = .ok b' ∧ I b') (hb : I b) :
    ∃ b', l.foldlM f b = .ok b' ∧ I b' := by
  induction l generalizing b with
  | nil => exact ⟨b, rfl, hb⟩
  | cons a l ih =>
    obtain ⟨ha, hl⟩ := List.forall_mem_cons.1 hstep
    obtain ⟨b₁, hb₁, hI⟩ := ha b hb
    obtain ⟨b', hb', hI'⟩ := ih hl hI
    exact ⟨b', foldlM_cons_eq_ok.2 ⟨b₁, hb₁, hb'⟩, hI'⟩

/-- A loop fails at the first step that does. -/
theorem foldlM_eq_error_iff {e : ε} : l.foldlM f b = .error e ↔
    ∃ pre a post b', l = pre ++ a :: post ∧ pre.foldlM f b = .ok b' ∧ f b' a = .error e := by
  constructor
  · intro h
    induction l generalizing b with
    | nil => cases h
    | cons a l ih =>
      rw [List.foldlM_cons] at h
      rcases bind_eq_error.1 h with hfa | ⟨b₁, hfa, h⟩
      · exact ⟨[], a, l, b, rfl, rfl, hfa⟩
      · obtain ⟨pre, a', post, b', rfl, hpre, hfail⟩ := ih h
        exact ⟨a :: pre, a', post, b', rfl, foldlM_cons_eq_ok.2 ⟨b₁, hfa, hpre⟩, hfail⟩
  · rintro ⟨pre, a, post, b', rfl, hpre, hfail⟩
    rw [List.foldlM_append, hpre, ok_bind, List.foldlM_cons, hfail, error_bind]

/-- A loop fails as one of its steps does. -/
theorem foldlM_eq_error {P : ε → Prop} (hf : ∀ b a e, f b a = .error e → P e) {e : ε}
    (h : l.foldlM f b = .error e) : P e := by
  induction l generalizing b with
  | nil => cases h
  | cons a l ih =>
    rw [List.foldlM_cons] at h
    rcases bind_eq_error.1 h with hfa | ⟨b₁, -, h⟩
    · exact hf b a e hfa
    · exact ih h

end

/-! ## Writing and reading -/

/-- Items that are each written, and read as they were, are so as a list. -/
theorem exists_mapM_filterMap {α β : Type} {write : α → Option β} {read : β → Option α} {l : List α}
    (h : ∀ a ∈ l, ∃ b, write a = some b ∧ read b = some a) :
    ∃ bs, l.mapM write = some bs ∧ bs.filterMap read = l := by
  induction l with
  | nil => exact ⟨[], rfl, rfl⟩
  | cons a l ih =>
    obtain ⟨⟨b, hwrite, hread⟩, hl⟩ := List.forall_mem_cons.1 h
    obtain ⟨bs, hbs, hall⟩ := ih hl
    refine ⟨b :: bs, ?_, ?_⟩
    · simp [List.mapM_cons, hwrite, hbs]
    · rw [List.filterMap_cons, hread, hall]

end Fallible
