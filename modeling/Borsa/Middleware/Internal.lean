import Borsa.Lib.Simulation
import Borsa.Lib.Slots
import Borsa.Middleware.TrafficLayers

/-!
# Internal calls

The router marks the calls that it makes on its own behalf as internal, and the layers let them pass:
a quota does not charge them, a blacklist does not stop them, and their rate limits do not block a
provider. So they leave no trace. A run without its internal calls is a run in which the other calls
do the same, and nothing stops an internal call on its way (`internal_calls`).
-/

namespace Borsa

open LTS

section
variable {V : Type} {layers layers' : List Guard} {c c' : CallState V} {time : ℕ} {a : CallAct V}

/-! ## One internal call -/

namespace Guard

variable {origin : CallOrigin} (g : Guard)

theorem preCall_internal (h : origin.isInternal = true) (now : ℕ) :
    g.preCall origin now = (g, .ok ()) := by
  cases g with
  | blacklist b => simp only [preCall, BlacklistConnector.preCall_internal h]
  | quota rt => simp only [preCall, QuotaRuntime.preCall, h, if_true]

theorem noticed_internal (h : origin.isInternal = true) (res : Except BorsaError V) :
    g.noticed origin res = none := by
  cases origin with
  | external => cases h
  | internal parent stage => cases g <;> rfl

theorem pass_internal (h : origin.isInternal = true) (res : Except BorsaError V) :
    g.pass origin res = res := by
  cases g with
  | blacklist b => rfl
  | quota rt =>
    cases res with
    | ok v => rfl
    | error e => simp only [pass, Except.mapError, quotaMapError, h, if_true]

end Guard

/-- The call is about to store a deadline. -/
def CallPlace.Reports : CallPlace V → Prop
  | .reporting .. => True
  | _ => False

/-- What an internal call does leaves the layers as they are. -/
theorem CallStep.internal (h : CallStep layers c time a layers' c')
    (hint : c.origin.isInternal = true) (hnot : ¬ c.place.Reports) :
    layers' = layers ∧ ¬ c'.place.Reports ∧ ∀ e, a ≠ .enter (.error e) := by
  cases h with
  | @enter depth g hp hg =>
    obtain ⟨hlt, rfl⟩ := List.getElem?_eq_some_iff.1 hg
    rw [Guard.preCall_internal _ hint]
    exact ⟨List.set_getElem_self hlt, id, fun e h => by cases h⟩
  | limited hp hg hn =>
    rw [Guard.noticed_internal _ hint] at hn
    cases hn
  | report hp hg =>
    rw [hp] at hnot
    exact absurd trivial hnot
  | _ => exact ⟨rfl, id, fun e h => by cases h⟩

/-- The result that a call has, once it comes back. -/
def CallPlace.result : CallPlace V → Option (Except BorsaError V)
  | .leaving _ res => some res
  | .reporting _ _ err => some (.error err)
  | .gone answer => answer
  | .entering _ | .raw => none

/-- The result of an internal call is that of the raw connector. -/
theorem CallStep.result_internal (h : CallStep layers c time a layers' c')
    (hint : c.origin.isInternal = true) {res : Except BorsaError V}
    (hres : c'.place.result = some res) : c.place.result = some res ∨ a = .answer res := by
  cases h with
  | @enter depth g hp hg =>
    rw [Guard.preCall_internal _ hint] at hres
    cases hres
  | answer res' hp =>
    cases hres
    exact .inr rfl
  | leave hp hg hn =>
    rw [Guard.pass_internal _ hint] at hres
    rw [hp]
    exact .inl hres
  | limited hp hg hn =>
    rw [hp]
    exact .inl hres
  | report hp hg =>
    rw [hp]
    exact .inl hres
  | finish hp =>
    rw [hp]
    exact .inl hres
  | reach hp => cases hres
  | drop hp => cases hres

/-! ## Runs -/

/-- What a step does, if not for an internal call. -/
def TrafficEvent.shown (e : TrafficEvent V) : Option (CallState V × CallAct V) :=
  if e.call.origin.isInternal then none else some (e.call, e.act)

namespace StackTraffic

variable {s s' t : StackTraffic V} {e : TrafficEvent V}

/-- No internal call is about to store a deadline. -/
def Quiet (s : StackTraffic V) : Prop :=
  ∀ c ∈ s.calls, c.origin.isInternal = true → ¬ c.place.Reports

theorem Quiet.step (h : s.Quiet) (hs : Step s e s') : s'.Quiet := by
  cases hs with
  | arrive origin =>
    intro c hc hint
    rcases List.mem_append.1 hc with hc | hc
    · exact h c hc hint
    · cases List.mem_singleton.1 hc
      exact id
  | @act i time c c' a layers ht hc hcall =>
    intro c₁ hc₁ hint
    rcases List.mem_or_eq_of_mem_set hc₁ with hc₁ | rfl
    · exact h c₁ hc₁ hint
    · rw [hcall.origin_eq] at hint
      exact (hcall.internal hint (h c (List.mem_of_getElem? hc) hint)).2.1

/-- `t` is `s` without its internal calls. -/
structure Hides (s t : StackTraffic V) : Prop where
  now : t.now ≤ s.now
  layers : t.layers = s.layers
  calls : t.calls = s.calls.filter fun c => !c.origin.isInternal
  quiet : s.Quiet

/-- The stack without the internal calls takes the steps of the others. -/
theorem hides_simulation : LTS.Simulation (Step (V := V))
    (fun t b t' => ∃ e : TrafficEvent V, Step t e t' ∧ (e.call, e.act) = b) TrafficEvent.shown
    Hides where
  silent := by
    intro s e s' t h hs hshown
    have hint : e.call.origin.isInternal = true := by
      by_contra hne
      rw [TrafficEvent.shown, if_neg hne] at hshown
      cases hshown
    cases hs with
    | arrive origin =>
      refine ⟨h.now, h.layers, ?_, h.quiet.step (.arrive s origin)⟩
      rw [List.filter_append, List.filter_singleton, h.calls]
      simp only [arrival] at hint
      simp [arrival, hint]
    | @act i time c c' a layers ht hc hcall =>
      have hmem := List.mem_of_getElem? hc
      obtain ⟨hlayers, -⟩ := hcall.internal hint (h.quiet c hmem hint)
      refine ⟨h.now.trans ht, h.layers.trans hlayers.symm, ?_, h.quiet.step (.act ht hc hcall)⟩
      rw [h.calls, Slots.filter_set_of_neg hc (by rw [hint]; rfl)
        (by rw [hcall.origin_eq, hint]; rfl)]
  visible := by
    intro s e s' t b h hs hshown
    have hext : e.call.origin.isInternal = false := by
      by_contra hne
      rw [Bool.not_eq_false] at hne
      rw [TrafficEvent.shown, if_pos hne] at hshown
      cases hshown
    rw [TrafficEvent.shown, if_neg (by rw [hext]; exact Bool.false_ne_true)] at hshown
    cases hshown
    cases hs with
    | arrive origin =>
      refine ⟨_, ⟨_, .arrive t origin, rfl⟩, h.now, h.layers, ?_, h.quiet.step (.arrive s origin)⟩
      simp only [arrival] at hext
      rw [List.filter_append, h.calls]
      simp [arrival, hext]
    | @act i time c c' a layers ht hc hcall =>
      obtain ⟨k, hk, hset⟩ : ∃ k, t.calls[k]? = some c ∧
          (s.calls.set i c').filter (fun c => !c.origin.isInternal) = t.calls.set k c' := by
        rw [h.calls]
        exact Slots.exists_filter_set hc (by rw [hext]; rfl) (by rw [hcall.origin_eq, hext]; rfl)
      rw [← h.layers] at hcall
      exact ⟨_, ⟨_, .act (h.now.trans ht) hk hcall, rfl⟩, le_rfl, rfl, hset.symm,
        h.quiet.step (.act ht hc (h.layers ▸ hcall))⟩

/-- An internal call comes back with the answer of the raw connector. -/
theorem answer_internal {now : ℕ} {tr : List (LTS.Step (StackTraffic V) (TrafficEvent V))}
    (hrun : Path Step (start V now layers) tr s) {id : ℕ} (hc : s.calls[id]? = some c)
    (hint : c.origin.isInternal = true) {res : Except BorsaError V}
    (hres : c.place.result = some res) :
    ∃ st ∈ tr, st.label.id = id ∧ st.label.act = .answer res := by
  induction hrun generalizing c with
  | nil => cases hc
  | @snoc tr s s' e hrun hstep ih =>
    have hthen {c : CallState V} (hc : s.calls[id]? = some c) (hint : c.origin.isInternal = true)
        (hres : c.place.result = some res) :
        ∃ st ∈ tr ++ [⟨s, e, s'⟩], st.label.id = id ∧ st.label.act = .answer res := by
      obtain ⟨st, hst, h⟩ := ih hc hint hres
      exact ⟨st, List.mem_append_left _ hst, h⟩
    cases hstep with
    | arrive origin =>
      rcases lt_or_ge id s.calls.length with hlt | hge
      · rw [List.getElem?_append_left hlt] at hc
        exact hthen hc hint hres
      · rw [List.getElem?_append_right hge, List.getElem?_singleton] at hc
        obtain ⟨-, hc⟩ := Option.ite_none_right_eq_some.1 hc
        cases hc
        cases hres
    | @act i time c₀ c' a layers ht hc₀ hcall =>
      rcases eq_or_ne i id with rfl | hne
      · obtain ⟨hlt, -⟩ := List.getElem?_eq_some_iff.1 hc₀
        rw [List.getElem?_set_self hlt] at hc
        cases hc
        rw [hcall.origin_eq] at hint
        rcases hcall.result_internal hint hres with hres | rfl
        · exact hthen hc₀ hint hres
        · exact ⟨_, List.mem_append_right _ (List.mem_singleton_self _), rfl, rfl⟩
      · rw [List.getElem?_set_ne hne] at hc
        exact hthen hc hint hres

/-- Internal calls leave no trace and are not stopped. Whatever they do among the others, without them
the others do the same, come to the same at the same instants, and leave the layers as they are.
And no layer rejects an internal call: what it comes back with is the raw connector's answer. -/
theorem internal_calls {now : ℕ} {tr : List (LTS.Step (StackTraffic V) (TrafficEvent V))}
    (hrun : Path Step (start V now layers) tr s) :
    (∃ tr' s', Path Step (start V now layers) tr' s' ∧ s'.layers = s.layers ∧
      s'.calls = s.calls.filter (fun c => !c.origin.isInternal) ∧
      tr'.map (fun st => (st.label.call, st.label.act)) =
        tr.filterMap fun st => st.label.shown) ∧
    (∀ st ∈ tr, st.label.call.origin.isInternal = true →
      ∀ err, st.label.act ≠ .enter (.error err)) ∧
    ∀ id c, s.calls[id]? = some c → c.origin.isInternal = true →
      ∀ res, c.place = .gone (some res) →
        ∃ st ∈ tr, st.label.id = id ∧ st.label.act = .answer res := by
  have hstart : (start V now layers).Quiet := fun c hc => absurd hc List.not_mem_nil
  refine ⟨?_, ?_, ?_⟩
  · have hides : Hides (start V now layers) (start V now layers) :=
      ⟨le_rfl, rfl, rfl, hstart⟩
    obtain ⟨tr₁, s', hpath, hrel, hl⟩ := hides_simulation.path hides hrun
    obtain ⟨tr', hpath', hl'⟩ := hpath.relabel
    exact ⟨tr', s', hpath', hrel.layers, hrel.calls, hl'.trans hl⟩
  · intro st hst hint
    obtain ⟨hstep, hquiet, -⟩ := hrun.inv_step hstart (fun _ _ _ h hs => Quiet.step h hs) hst
    obtain ⟨pre, e, post⟩ := st
    dsimp only at hstep hquiet hint ⊢
    cases hstep with
    | arrive origin => exact fun err h => by cases h
    | act ht hc hcall =>
      exact (hcall.internal hint (hquiet _ (List.mem_of_getElem? hc) hint)).2.2
  · intro id c hc hint res hp
    refine answer_internal hrun hc hint ?_
    rw [hp]
    rfl

/-- The unit of a quota has been spent, and an internal call is made all the same. -/
theorem internal_calls_spent : ∃ tr, ∃ s : StackTraffic ℕ,
    Path Step (start ℕ 0 [.quota (.new ⟨1, 10, .unit⟩ 0 0)]) tr s ∧
    (∃ c ∈ s.calls, c.origin.isInternal = true ∧ c.place = .gone (some (.ok 7))) ∧
    ∃ tr' s', Path Step (start ℕ 0 [.quota (.new ⟨1, 10, .unit⟩ 0 0)]) tr' s' ∧
      s'.layers = s.layers ∧ s'.calls.length = 1 := by
  have hrun := Path.snoc (.snoc (.snoc (.snoc (.snoc (.snoc (.snoc (.snoc .nil
    (Step.arrive (start ℕ 0 [.quota (.new ⟨1, 10, .unit⟩ 0 0)]) .external))
    (Step.arrive _ (.internal none "info.collect_base")))
    (Step.act (i := 0) (show _ ≤ 1 by decide) rfl (.enter rfl rfl)))
    (Step.act (i := 1) (show _ ≤ 2 by decide) rfl (.enter rfl rfl)))
    (Step.act (i := 1) (show _ ≤ 3 by decide) rfl (.reach rfl)))
    (Step.act (i := 1) (show _ ≤ 4 by decide) rfl (.answer (.ok 7) rfl)))
    (Step.act (i := 1) (show _ ≤ 5 by decide) rfl (.leave rfl rfl rfl)))
    (Step.act (i := 1) (show _ ≤ 6 by decide) rfl (.finish rfl))
  obtain ⟨⟨tr', s', hpath, hlayers, hcalls, -⟩, -⟩ := internal_calls hrun
  refine ⟨_, _, hrun, ⟨_, List.mem_of_getElem? (i := 1) rfl, rfl, rfl⟩, tr', s', hpath, hlayers, ?_⟩
  rw [hcalls]
  rfl

end StackTraffic

end

end Borsa
