import Borsa.Lib.Path

/-!
# Simulation

A run of one transition relation seen as a run of another. `Simulation` is a forward simulation in
which a step is answered by one step or by none, as its label says; `Simulation.path` carries it over
runs, together with the labels. `Path.project` is the special case of a function of the state, such
as a component of a composed system.
-/

namespace LTS

universe u v w x
variable {σ : Type u} {α : Type v} {τ : Type w} {β : Type x}

/-- Every step of `R` whose label shows as `b` is answered by a step `b` of `Q`, and one whose label
does not show by no step. -/
structure Simulation (R : σ → α → σ → Prop) (Q : τ → β → τ → Prop) (shows : α → Option β)
    (Rel : σ → τ → Prop) : Prop where
  silent : ∀ {s a s' t}, Rel s t → R s a s' → shows a = none → Rel s' t
  visible : ∀ {s a s' t b}, Rel s t → R s a s' → shows a = some b → ∃ t', Q t b t' ∧ Rel s' t'

variable {R : σ → α → σ → Prop} {Q : τ → β → τ → Prop} {s s' : σ} {tr : List (Step σ α)}

/-- Every run is answered by a run whose labels are those that show. -/
theorem Simulation.path {shows : α → Option β} {Rel : σ → τ → Prop}
    (h : Simulation R Q shows Rel) {t : τ} (hrel : Rel s t) (hp : Path R s tr s') :
    ∃ tr' t', Path Q t tr' t' ∧ Rel s' t' ∧
      tr'.map (·.label) = tr.filterMap fun st => shows st.label := by
  induction hp with
  | nil => exact ⟨[], t, .nil, hrel, rfl⟩
  | @snoc tr s u a _ hr ih =>
    obtain ⟨tr', t', hp', hrel', hl⟩ := ih
    cases hs : shows a with
    | none =>
      refine ⟨tr', t', hp', h.silent hrel' hr hs, ?_⟩
      simp [hl, hs]
    | some b =>
      obtain ⟨t'', hq, hrel''⟩ := h.visible hrel' hr hs
      refine ⟨tr' ++ [⟨t', b, t''⟩], t'', hp'.snoc hq, hrel'', ?_⟩
      simp [hl, hs]

/-- A run of which only a part of the labels is known. -/
theorem Path.relabel {f : α → β} {tr : List (Step σ β)}
    (hp : Path (fun s b s' => ∃ a, R s a s' ∧ f a = b) s tr s') :
    ∃ tr', Path R s tr' s' ∧ tr'.map (fun st => f st.label) = tr.map (·.label) := by
  induction hp with
  | nil => exact ⟨[], .nil, rfl⟩
  | snoc _ hr ih =>
    obtain ⟨tr', hp', hl⟩ := ih
    obtain ⟨a, hr, rfl⟩ := hr
    exact ⟨_, hp'.snoc hr, by simp [hl]⟩

/-- A function of the state that every step leaves alone or moves along `Q` turns runs into runs. -/
theorem Path.project (f : σ → τ) (h : ∀ s a s', R s a s' → f s' = f s ∨ ∃ b, Q (f s) b (f s'))
    (hp : Path R s tr s') : ∃ tr', Path Q (f s) tr' (f s') := by
  induction hp with
  | nil => exact ⟨[], .nil⟩
  | @snoc tr s u a _ hr ih =>
    obtain ⟨tr', hp'⟩ := ih
    rcases h s a u hr with heq | ⟨b, hq⟩
    · exact ⟨tr', heq ▸ hp'⟩
    · exact ⟨_, hp'.snoc hq⟩

end LTS
