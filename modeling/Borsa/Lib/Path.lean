import Mathlib.Data.List.Induction

/-!
# Runs of a labelled transition relation

A run is recorded with every step it took (`LTS.Step`: the state before, the label, the state
after), oldest step first, because the properties proved over runs speak about earlier steps:
"since it last became active", "was issued before". `Path R s tr t` is the run of `R` from `s` to
`t` whose steps are `tr`.

The rules come in three strengths. `Path.inv` is the plain invariant rule. `Path.inv_of_steps` keeps
an invariant along the runs whose steps meet a side condition. `Path.forall_iff`,
`Path.forall_iff_of_inv` and `Path.forall_iff_of_keeps` are the exact forms: a property of every step
holds along a run if and only if a condition of every step does.
-/

namespace LTS

universe u v
variable {σ : Type u} {α : Type v}

/-- One step of a run. -/
structure Step (σ : Type u) (α : Type v) where
  /-- The state before. -/
  pre : σ
  /-- What happened. -/
  label : α
  /-- The state after. -/
  post : σ

/-- `Path R s tr t`: the steps `tr`, oldest first, lead from `s` to `t`. -/
inductive Path (R : σ → α → σ → Prop) (s : σ) : List (Step σ α) → σ → Prop
  /-- The run without steps. -/
  | nil : Path R s [] s
  /-- One more step at the end. -/
  | snoc {tr : List (Step σ α)} {t u : σ} {a : α} :
      Path R s tr t → R t a u → Path R s (tr ++ [⟨t, a, u⟩]) u

variable {R : σ → α → σ → Prop} {s t u : σ} {tr tr' : List (Step σ α)}

namespace Path

/-- A single step is a run. -/
theorem single {a : α} (h : R s a t) : Path R s [⟨s, a, t⟩] t :=
  .snoc .nil h

/-- Runs compose. -/
theorem append (h : Path R s tr t) (h' : Path R t tr' u) : Path R s (tr ++ tr') u := by
  induction h' with
  | nil => simpa using h
  | snoc _ hr ih => rw [← List.append_assoc]; exact .snoc ih hr

/-- One more step at the beginning. -/
theorem cons {a : α} (h : R s a t) (h' : Path R t tr u) : Path R s (⟨s, a, t⟩ :: tr) u :=
  (single h).append h'

/-- A run can be cut anywhere. -/
theorem split (h : Path R s (tr ++ tr') u) :
    ∃ t, Path R s tr t ∧ Path R t tr' u := by
  induction tr' using List.reverseRecOn generalizing u with
  | nil => exact ⟨u, by simpa using h, .nil⟩
  | append_singleton rest st ih =>
    generalize hl : tr ++ (rest ++ [st]) = l at h
    cases h with
    | nil => simp at hl
    | @snoc l' t u a hp hr =>
      rw [← List.append_assoc] at hl
      obtain ⟨rfl, hst⟩ := List.append_inj' hl rfl
      obtain rfl : st = ⟨t, a, u⟩ := by simpa using hst
      obtain ⟨m, h1, h2⟩ := ih hp
      exact ⟨m, h1, .snoc h2 hr⟩

/-- A run up to one of its steps, and that step. -/
theorem step_of_split {st : Step σ α} (h : Path R s (tr ++ st :: tr') u) :
    Path R s tr st.pre ∧ R st.pre st.label st.post := by
  rw [List.append_cons] at h
  obtain ⟨m, h1, -⟩ := h.split
  generalize hl : tr ++ [st] = l at h1
  cases h1 with
  | nil => simp at hl
  | snoc hp hr =>
    obtain ⟨rfl, hst⟩ := List.append_inj' hl rfl
    obtain rfl : st = _ := by simpa using hst
    exact ⟨hp, hr⟩

/-- What follows one of the steps of a run is a run from there. -/
theorem rest_of_split {st : Step σ α} (h : Path R s (tr ++ st :: tr') u) :
    Path R st.post tr' u := by
  rw [List.append_cons] at h
  obtain ⟨m, h1, h2⟩ := h.split
  generalize hl : tr ++ [st] = l at h1
  cases h1 with
  | nil => simp at hl
  | snoc hp hr =>
    obtain ⟨-, hst⟩ := List.append_inj' hl rfl
    obtain rfl : st = _ := by simpa using hst
    exact h2

/-- Every recorded step is a step of the relation, taken in a state the run had reached. -/
theorem step_mem (h : Path R s tr t) {st : Step σ α} (hst : st ∈ tr) :
    R st.pre st.label st.post ∧ ∃ tr₁ tr₂, tr = tr₁ ++ st :: tr₂ ∧ Path R s tr₁ st.pre := by
  obtain ⟨tr₁, tr₂, rfl⟩ := List.append_of_mem hst
  obtain ⟨hp, hr⟩ := h.step_of_split
  exact ⟨hr, tr₁, tr₂, rfl, hp⟩

/-! ## Invariants -/

/-- The invariant rule: what holds at the start and is kept by every step holds at the end. -/
theorem inv {I : σ → Prop} (h0 : I s) (hstep : ∀ t a u, I t → R t a u → I u)
    (h : Path R s tr t) : I t := by
  induction h with
  | nil => exact h0
  | snoc _ hr ih => exact hstep _ _ _ ih hr

/-- An invariant holds before and after every recorded step. -/
theorem inv_step {I : σ → Prop} (h0 : I s) (hstep : ∀ t a u, I t → R t a u → I u)
    (h : Path R s tr t) {st : Step σ α} (hst : st ∈ tr) :
    R st.pre st.label st.post ∧ I st.pre ∧ I st.post := by
  obtain ⟨hr, _, _, _, hp⟩ := h.step_mem hst
  have hpre := hp.inv h0 hstep
  exact ⟨hr, hpre, hstep _ _ _ hpre hr⟩

/-- The conditional invariant rule: along a run all of whose steps meet `C`, an invariant that
steps meeting `C` keep holds at the end. -/
theorem inv_of_steps {I : σ → Prop} {C : Step σ α → Prop} (h0 : I s)
    (hstep : ∀ t a u, I t → R t a u → C ⟨t, a, u⟩ → I u)
    (h : Path R s tr t) (hC : ∀ st ∈ tr, C st) : I t := by
  induction h with
  | nil => exact h0
  | snoc _ hr ih =>
    exact hstep _ _ _ (ih fun st hst => hC st (by simp [hst])) hr (hC _ (by simp))

/-- The progress rule: if every state of `I` has `G` or a step to a state of `I` of a smaller
measure, some run from a state of `I` leads to one that has `G`. -/
theorem exists_of_measure {I G : σ → Prop} (measure : σ → Nat)
    (h : ∀ s, I s → G s ∨ ∃ a t, R s a t ∧ I t ∧ measure t < measure s) (hs : I s) :
    ∃ tr t, Path R s tr t ∧ I t ∧ G t := by
  induction hm : measure s using Nat.strongRecOn generalizing s with
  | ind m ih =>
    rcases h s hs with hG | ⟨a, t, hr, ht, hlt⟩
    · exact ⟨[], s, .nil, hs, hG⟩
    · obtain ⟨tr, u, hp, hu, hG⟩ := ih (measure t) (hm ▸ hlt) ht rfl
      exact ⟨_, u, .cons hr hp, hu, hG⟩

/-! ## Exact conditions -/

/-- If, under an invariant, a step has the property `P` exactly when it meets `C`, then the steps of
a run all have `P` exactly when they all meet `C`. -/
theorem forall_iff {I : σ → Prop} {P C : Step σ α → Prop} (h0 : I s)
    (hstep : ∀ t a u, I t → R t a u → I u)
    (hPC : ∀ t a u, I t → R t a u → (P ⟨t, a, u⟩ ↔ C ⟨t, a, u⟩)) (h : Path R s tr t) :
    (∀ st ∈ tr, P st) ↔ ∀ st ∈ tr, C st := by
  refine forall₂_congr fun st hst => ?_
  obtain ⟨hr, hpre, -⟩ := h.inv_step h0 hstep hst
  exact hPC _ _ _ hpre hr

/-- If a step keeps `I` exactly when it meets `C`, then `I` holds after every step of a run exactly
when all of them meet `C`. -/
theorem forall_iff_of_inv {I : σ → Prop} {C : Step σ α → Prop} (h0 : I s)
    (hIC : ∀ t a u, I t → R t a u → (I u ↔ C ⟨t, a, u⟩)) (h : Path R s tr t) :
    (∀ st ∈ tr, I st.post) ↔ ∀ st ∈ tr, C st := by
  induction h with
  | nil => simp
  | @snoc tr t u a hp hr ih =>
    simp only [List.forall_mem_append, List.forall_mem_singleton, ih]
    refine and_congr_right fun hC => hIC t a u ?_ hr
    exact hp.inv_of_steps h0 (fun t a u ht hr hc => (hIC t a u ht hr).2 hc) hC

/-- If a step from a state of `I` has `P` exactly when it meets `C`, and a step with `P` keeps `I`, then
the steps of a run all have `P` exactly when they all meet `C`. -/
theorem forall_iff_of_keeps {I : σ → Prop} {P C : Step σ α → Prop} (h0 : I s)
    (hPC : ∀ t a u, I t → R t a u → (P ⟨t, a, u⟩ ↔ C ⟨t, a, u⟩))
    (hP : ∀ t a u, I t → R t a u → P ⟨t, a, u⟩ → I u) (h : Path R s tr t) :
    (∀ st ∈ tr, P st) ↔ ∀ st ∈ tr, C st := by
  induction h with
  | nil => simp
  | @snoc tr t u a hp hr ih =>
    simp only [List.forall_mem_append, List.forall_mem_singleton, ← ih]
    refine and_congr_right fun hall => hPC t a u ?_ hr
    exact hp.inv_of_steps h0 hP hall

end Path

/-! ## Since -/

/-- Some step of the run has `A`, and no later one has `B`. -/
def Since (A B : Step σ α → Prop) (tr : List (Step σ α)) : Prop :=
  ∃ pre st post, tr = pre ++ st :: post ∧ A st ∧ ∀ st' ∈ post, ¬ B st'

/-- One more step: it has `A` itself, or it does not have `B` and `Since` held before. -/
theorem since_snoc {A B : Step σ α → Prop} {st : Step σ α} :
    Since A B (tr ++ [st]) ↔ A st ∨ (Since A B tr ∧ ¬ B st) := by
  constructor
  · intro ⟨pre, st', post, heq, hA, hB⟩
    rcases List.eq_nil_or_concat post with rfl | ⟨post, last, rfl⟩
    · obtain ⟨-, hst⟩ := List.append_inj' heq rfl
      cases hst
      exact .inl hA
    · rw [List.concat_eq_append, ← List.cons_append, ← List.append_assoc] at heq
      obtain ⟨rfl, hst⟩ := List.append_inj' heq rfl
      cases hst
      exact .inr ⟨⟨pre, st', post, rfl, hA, fun x hx => hB x (by simp [hx])⟩, hB _ (by simp)⟩
  · intro h
    rcases h with hA | ⟨⟨pre, st', post, rfl, hA, hB⟩, hst⟩
    · exact ⟨tr, st, [], rfl, hA, by simp⟩
    · refine ⟨pre, st', post ++ [st], by simp, hA, fun x hx => ?_⟩
      rcases List.mem_append.1 hx with hx | hx
      · exact hB x hx
      · rw [List.mem_singleton.1 hx]
        exact hst

end LTS
