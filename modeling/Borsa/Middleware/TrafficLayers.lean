import Borsa.Lib.Slots
import Borsa.Middleware.BlacklistReports
import Borsa.Middleware.QuotaBudget
import Borsa.Middleware.Traffic

/-!
# The layers of a stack under concurrent calls

Whatever the interleaving of the calls, each layer goes through a run of its own. The charges of a quota
are the instants at which the user's calls have passed it (`quota_run`), so that its budgets bound the
calls that get through to the raw connector (`quota_traffic`). A blacklist hears of the rate limits
in the order in which the calls that come back store them (`blacklist_run`). As in `Traffic` there is no
cache, windows are positive and deadlines are instants.
-/

namespace Borsa

open LTS

section
variable {V : Type}

/-- The instant at which a call of the user has passed the layer at a depth. -/
def CallState.passedAt (d : ℕ) (c : CallState V) : Option ℕ :=
  if c.origin = .external then c.passes[d]? else none

/-- The call has passed as many layers as it is deep. -/
def CallState.Counted (n : ℕ) (c : CallState V) : Prop :=
  ∀ depth, c.place = .entering depth → c.passes.length = depth ∧ depth ≤ n

/-- The instant at which a call of the user that has passed all `n` layers, and is not on its way to the
raw connector any more, has passed the one at a depth. -/
def CallState.throughAt (n d : ℕ) (c : CallState V) : Option ℕ :=
  match c.place with
  | .entering _ => none
  | _ => if c.passes.length = n then c.passedAt d else none

theorem CallState.throughAt_entering {n d depth : ℕ} {c : CallState V}
    (h : c.place = .entering depth) : c.throughAt n d = none := by
  rw [throughAt, h]

theorem CallState.throughAt_of_ne {n d : ℕ} {c : CallState V}
    (h : ∀ depth, c.place ≠ .entering depth) :
    c.throughAt n d = if c.passes.length = n then c.passedAt d else none := by
  rw [throughAt]
  cases hp : c.place with
  | entering depth => exact absurd hp (h depth)
  | _ => rfl

section
variable {layers layers' : List Guard} {c c' : CallState V} {time d : ℕ} {a : CallAct V}

/-- No call adds or removes a layer. -/
theorem CallStep.length_eq (h : CallStep layers c time a layers' c') :
    layers'.length = layers.length := by
  cases h <;> simp

theorem CallStep.origin_eq (h : CallStep layers c time a layers' c') : c'.origin = c.origin := by
  cases h with
  | @enter depth g =>
    generalize (g.preCall c.origin time).2 = res
    cases res <;> rfl
  | _ => rfl

/-- A call passes a layer, or it passes none and is not on its way to the raw connector after. -/
theorem CallStep.passes_cases (h : CallStep layers c time a layers' c') :
    (∃ depth, c.place = .entering depth ∧ a = .enter (.ok ()) ∧ c'.passes = c.passes ++ [time] ∧
      c'.place = .entering (depth + 1) ∧ depth < layers.length) ∨
    (a ≠ .enter (.ok ()) ∧ c'.passes = c.passes ∧ ∀ depth, c'.place ≠ .entering depth) := by
  cases h with
  | @enter depth g hp hg =>
    obtain ⟨hlt, -⟩ := List.getElem?_eq_some_iff.1 hg
    generalize (g.preCall c.origin time).2 = res
    cases res with
    | ok u => exact .inl ⟨depth, hp, rfl, rfl, rfl, hlt⟩
    | error e => refine .inr ⟨fun h => ?_, rfl, fun _ h => ?_⟩ <;> cases h
  | _ => refine .inr ⟨fun h => ?_, rfl, fun _ h => ?_⟩ <;> cases h

theorem CallStep.counted (h : CallStep layers c time a layers' c')
    (hc : c.Counted layers.length) : c'.Counted layers.length := by
  intro depth' hp'
  rcases h.passes_cases with ⟨depth, hp, -, hpasses, hplace, hlt⟩ | ⟨-, -, hn⟩
  · cases hplace.symm.trans hp'
    rw [hpasses, List.length_append, (hc depth hp).1]
    exact ⟨rfl, hlt⟩
  · exact absurd hp' (hn depth')

/-- What the step records for the layer at a depth: the user's call passes it now, or nothing. -/
theorem CallStep.passedAt_cases (h : CallStep layers c time a layers' c')
    (hc : c.Counted layers.length) (d : ℕ) :
    (c.place = .entering d ∧ a = .enter (.ok ()) ∧ c.origin = .external ∧
      c.passedAt d = none ∧ c'.passedAt d = some time) ∨
    ((c.place = .entering d → a = .enter (.ok ()) → c.origin ≠ .external) ∧
      c'.passedAt d = c.passedAt d) := by
  unfold CallState.passedAt
  rw [h.origin_eq]
  by_cases hext : c.origin = .external
  · rw [if_pos hext, if_pos hext]
    rcases h.passes_cases with ⟨depth, hp, ha, hpasses, -, -⟩ | ⟨ha, hpasses, -⟩ <;> rw [hpasses]
    · obtain ⟨hlen, -⟩ := hc depth hp
      rcases lt_trichotomy d depth with hlt | rfl | hgt
      · refine .inr ⟨fun hp' => ?_, List.getElem?_append_left (hlen ▸ hlt)⟩
        cases hp.symm.trans hp'
        exact absurd hlt (lt_irrefl _)
      · refine .inl ⟨hp, ha, hext, List.getElem?_eq_none hlen.le, ?_⟩
        rw [← hlen, List.getElem?_concat_length]
      · refine .inr ⟨fun hp' => ?_, ?_⟩
        · cases hp.symm.trans hp'
          exact absurd hgt (lt_irrefl _)
        · rw [List.getElem?_eq_none (by simpa [hlen] using hgt),
            List.getElem?_eq_none (by omega)]
    · exact .inr ⟨fun _ ha' => absurd ha' ha, rfl⟩
  · rw [if_neg hext, if_neg hext]
    exact .inr ⟨fun _ _ => hext, rfl⟩

/-- The raw connector is called, by a call that has passed all layers. -/
theorem CallStep.throughAt_cases (h : CallStep layers c time a layers' c')
    (hc : c.Counted layers.length) (d : ℕ) :
    (a = .reach ∧ c.throughAt layers.length d = none ∧
      c'.throughAt layers.length d = c.passedAt d) ∨
    (a ≠ .reach ∧ (c.throughAt layers.length d = none ∨
      c'.throughAt layers.length d = c.throughAt layers.length d)) := by
  by_cases ha : a = .reach
  · subst ha
    cases h with
    | reach hp =>
      refine .inl ⟨rfl, CallState.throughAt_entering hp, ?_⟩
      exact if_pos (hc _ hp).1
  · refine .inr ⟨ha, ?_⟩
    rcases h.passes_cases with ⟨depth, hp, -⟩ | ⟨-, hpasses, hn⟩
    · exact .inl (CallState.throughAt_entering hp)
    · by_cases hent : ∃ depth, c.place = .entering depth
      · obtain ⟨depth, hp⟩ := hent
        exact .inl (CallState.throughAt_entering hp)
      · right
        rw [CallState.throughAt_of_ne hn, CallState.throughAt_of_ne (not_exists.1 hent), hpasses,
          CallState.passedAt, CallState.passedAt, hpasses, h.origin_eq]

/-- A quota runs its check, or the step leaves it alone. -/
theorem CallStep.quota_cases (h : CallStep layers c time a layers' c') {rt : QuotaRuntime}
    (hd : layers[d]? = some (.quota rt)) :
    (c.place = .entering d ∧ a = .enter (rt.preCall c.origin time).2 ∧
      layers'[d]? = some (.quota (rt.preCall c.origin time).1)) ∨
    (¬ (c.place = .entering d ∧ ∃ outcome, a = .enter outcome) ∧
      layers'[d]? = some (.quota rt)) := by
  obtain ⟨hlt, -⟩ := List.getElem?_eq_some_iff.1 hd
  cases h with
  | @enter depth g hp hg =>
    rcases eq_or_ne depth d with rfl | hne
    · cases hg.symm.trans hd
      exact .inl ⟨hp, rfl, List.getElem?_set_self hlt⟩
    · refine .inr ⟨fun h => ?_, (List.getElem?_set_ne hne).trans hd⟩
      cases hp.symm.trans h.1
      exact hne rfl
  | @report depth deadline b err hp hg =>
    refine .inr ⟨fun h => ?_, (List.getElem?_set_ne ?_).trans hd⟩
    · obtain ⟨-, _, ha⟩ := h
      cases ha
    · rintro rfl
      cases hg.symm.trans hd
  | _ =>
    refine .inr ⟨fun h => ?_, hd⟩
    obtain ⟨-, _, ha⟩ := h
    cases ha

end

namespace StackTraffic

variable {s s' : StackTraffic V} {layers : List Guard} {now d : ℕ}
  {tr : List (LTS.Step (StackTraffic V) (TrafficEvent V))}

/-! ## The calls of a run -/

/-- The instants at which the user's calls have passed the layer at a depth. -/
def userPasses (d : ℕ) (s : StackTraffic V) : List ℕ := s.calls.filterMap (CallState.passedAt d)

/-- When the raw connector is given a call of the user, the instant at which the call has passed the
layer at a depth. -/
def rawPass (d : ℕ) (e : TrafficEvent V) : Option ℕ :=
  match e.act with
  | .reach => e.call.passedAt d
  | _ => none

/-- Of the user's calls that the raw connector has been given, the instants at which they have passed
the layer at a depth. -/
def userRaw (d : ℕ) (tr : List (LTS.Step (StackTraffic V) (TrafficEvent V))) : List ℕ :=
  tr.filterMap fun st => rawPass d st.label

theorem rawPass_of_ne {e : TrafficEvent V} (h : e.act ≠ .reach) (d : ℕ) : rawPass d e = none := by
  unfold rawPass
  cases ha : e.act with
  | reach => exact absurd ha h
  | _ => rfl

theorem userRaw_concat (d : ℕ) (tr : List (LTS.Step (StackTraffic V) (TrafficEvent V)))
    (st : LTS.Step (StackTraffic V) (TrafficEvent V)) :
    userRaw d (tr ++ [st]) = userRaw d tr ++ (rawPass d st.label).toList := by
  have hlast : [st].filterMap (fun st => rawPass d st.label) = (rawPass d st.label).toList := by
    rw [List.filterMap_cons]
    cases rawPass d st.label <;> rfl
  rw [userRaw, List.filterMap_append, hlast, userRaw]

/-- The layers stay as many, and the calls have passed as many as they are deep. -/
structure Counted (n : ℕ) (s : StackTraffic V) : Prop where
  length : s.layers.length = n
  calls : ∀ c ∈ s.calls, c.Counted n

theorem Counted.step {n : ℕ} {e : TrafficEvent V} (h : s.Counted n) (hs : Step s e s') :
    s'.Counted n := by
  cases hs with
  | arrive origin =>
    refine ⟨h.length, fun c hc => ?_⟩
    rcases List.mem_append.1 hc with hc | hc
    · exact h.calls c hc
    · rw [List.mem_singleton.1 hc]
      rintro depth ⟨⟩
      exact ⟨rfl, Nat.zero_le n⟩
  | act ht hc hstep =>
    refine ⟨hstep.length_eq.trans h.length, fun c hmem => ?_⟩
    rcases List.mem_or_eq_of_mem_set hmem with hmem | rfl
    · exact h.calls c hmem
    · have hcounted := h.calls _ (List.mem_of_getElem? hc)
      rw [← h.length] at hcounted ⊢
      exact hstep.counted hcounted

theorem counted_of_path (hrun : Path Step (start V now layers) tr s) :
    s.Counted layers.length :=
  hrun.inv ⟨rfl, List.forall_mem_nil _⟩ fun _ _ _ h hs => h.step hs

/-! ## Quotas -/

/-- A quota goes through a run of its own. Its charges are the instants at which the user's calls have
passed it. -/
theorem quota_run {rt : QuotaRuntime} (hd : layers[d]? = some (.quota rt))
    (hrun : Path Step (start V now layers) tr s) :
    ∃ tr' q, Path QuotaLayer.Step ⟨now, rt⟩ tr' q ∧ s.layers[d]? = some (.quota q.runtime) ∧
      q.now ≤ s.now ∧ (s.userPasses d).Perm (QuotaLayer.charges tr') := by
  induction hrun with
  | nil => exact ⟨[], _, .nil, hd, le_rfl, .nil⟩
  | @snoc tr s s' e hrun hstep ih =>
    have hcounted := counted_of_path hrun
    obtain ⟨tr', q, hpath, hq, hnow, hperm⟩ := ih
    cases hstep with
    | arrive origin =>
      refine ⟨tr', q, hpath, hq, hnow, ?_⟩
      have hnone : (arrival origin : CallState V).passedAt d = none := by
        unfold CallState.passedAt arrival
        split <;> rfl
      rw [userPasses, List.filterMap_append, List.filterMap_cons_none hnone, List.filterMap_nil,
        List.append_nil]
      exact hperm
    | @act i time c c' a layers' ht hc hcall =>
      have hcc := hcounted.calls c (List.mem_of_getElem? hc)
      rw [← hcounted.length] at hcc
      rcases hcall.quota_cases hq with ⟨hp, rfl, hlayer⟩ | ⟨hne, hlayer⟩
      · have hcharge := QuotaLayer.Step.call q time c.origin (hnow.trans ht)
        refine ⟨_, _, hpath.snoc hcharge, hlayer, le_rfl, ?_⟩
        rw [QuotaLayer.charges_concat]
        rcases hcall.passedAt_cases hcc d with ⟨-, ha, hext, hnone, hsome⟩ | ⟨hno, heq⟩
        · -- a unit for the user's call
          have hok : (q.runtime.preCall c.origin time).2 = .ok () := CallAct.enter.inj ha
          have hcharged : QuotaCall.charged
              ⟨time, c.origin, (q.runtime.preCall c.origin time).2⟩ = true := by
            rw [hok, hext]
            rfl
          rw [if_pos hcharged]
          exact (Slots.filterMap_set_perm hc hnone hsome).trans
            ((hperm.cons time).trans (List.perm_append_singleton ..).symm)
        · have hfree : QuotaCall.charged ⟨time, c.origin, (q.runtime.preCall c.origin time).2⟩ =
              false := by
            cases horigin : c.origin with
            | internal parent stage => rfl
            | external =>
              cases hout : (q.runtime.preCall .external time).2 with
              | error e => rfl
              | ok u =>
                rw [horigin, hout] at hno
                exact absurd rfl (hno hp rfl)
          rw [if_neg (by rw [hfree]; exact Bool.false_ne_true), List.append_nil, userPasses,
            Slots.filterMap_set_of_eq hc heq]
          exact hperm
      · refine ⟨tr', q, hpath, hlayer, hnow.trans ht, ?_⟩
        rcases hcall.passedAt_cases hcc d with ⟨hp, ha, -⟩ | ⟨-, heq⟩
        · exact absurd ⟨hp, _, ha⟩ hne
        · rw [userPasses, Slots.filterMap_set_of_eq hc heq]
          exact hperm

/-- The calls that the raw connector has been given have passed every layer before, each once. -/
theorem userRaw_subperm (hrun : Path Step (start V now layers) tr s) (d : ℕ) :
    (userRaw d tr).Subperm (s.userPasses d) := by
  have hthrough : (userRaw d tr).Subperm
      (s.calls.filterMap (CallState.throughAt s.layers.length d)) := by
    induction hrun with
    | nil => exact List.nil_subperm
    | @snoc tr s s' e hrun hstep ih =>
      have hcounted := counted_of_path hrun
      rw [userRaw_concat]
      cases hstep with
      | arrive origin =>
        have hnone : (arrival origin : CallState V).throughAt s.layers.length d = none :=
          CallState.throughAt_entering rfl
        rw [List.filterMap_append, List.filterMap_cons_none hnone, List.filterMap_nil,
          List.append_nil, rawPass_of_ne (fun h => by cases h), Option.toList_none,
          List.append_nil]
        exact ih
      | @act i time c c' a layers' ht hc hcall =>
        have hcc := hcounted.calls c (List.mem_of_getElem? hc)
        rw [← hcounted.length] at hcc
        dsimp only
        rw [hcall.length_eq]
        rcases hcall.throughAt_cases hcc d with ⟨rfl, hnone, hsome⟩ | ⟨ha, hkeep⟩
        · rw [show rawPass d ⟨i, time, c, .reach⟩ = c.passedAt d from rfl]
          cases hpass : c.passedAt d with
          | none =>
            rw [Option.toList_none, List.append_nil,
              Slots.filterMap_set_of_eq hc ((hsome.trans hpass).trans hnone.symm)]
            exact ih
          | some t =>
            refine (List.perm_append_singleton ..).subperm.trans ?_
            refine ((List.subperm_cons t).2 ih).trans ?_
            exact (Slots.filterMap_set_perm hc hnone (hsome.trans hpass)).symm.subperm
        · rw [rawPass_of_ne ha, Option.toList_none, List.append_nil]
          exact ih.trans (Slots.filterMap_subperm_set hc hkeep)
  refine hthrough.trans (Slots.filterMap_sublist_of (fun c => ?_) s.calls).subperm
  unfold CallState.throughAt
  cases c.place with
  | entering depth => exact .inl rfl
  | _ =>
    dsimp only
    split
    · exact .inr rfl
    · exact .inl rfl

/-- The budget of a quota under concurrent calls. Of the user's calls that the raw connector has been
given, whatever the order in which the calls check the layers, wait, come back and are dropped, no
more than the limit have passed the quota in one window, and no more than its share in one slice; and
each of them has passed it. -/
theorem quota_traffic {config : QuotaConfig} (hw : 0 < config.window) {t₀ : ℕ} (hnew : t₀ ≤ now)
    (hd : layers[d]? = some (.quota (.new config t₀ now)))
    (hrun : Path Step (start V now layers) tr s) (hend : s.now < t₀ + 2 ^ 64) :
    (∀ k, Meter.inCell config.window t₀ k (userRaw d tr) ≤ config.limit.toNat) ∧
    (config.strategy = .evenSpreadHourly →
      ∀ k, Meter.inCell config.sliceLength now k (userRaw d tr) ≤ config.perSlice) ∧
    ∀ st ∈ tr, st.label.act = .reach → st.label.call.origin = .external →
      ∃ t, st.label.call.passes[d]? = some t ∧ t ∈ userRaw d tr := by
  obtain ⟨tr', q, hpath, -, hnow, hperm⟩ := quota_run hd hrun
  have hacc := QuotaLayer.accounts_of_path hw hnew hpath (hnow.trans_lt hend)
  have hsub : (userRaw d tr).Subperm (QuotaLayer.charges tr') :=
    (userRaw_subperm hrun d).trans hperm.subperm
  refine ⟨fun k => (hsub.countP_le _).trans (hacc.windowBudget k),
    fun hs k => (hsub.countP_le _).trans (hacc.sliceLength_budget hs (hnow.trans_lt hend) k), ?_⟩
  intro st hst hact hext
  obtain ⟨hstep, tr₁, tr₂, -, hpre⟩ := hrun.step_mem hst
  have hcounted := counted_of_path hpre
  obtain ⟨pre, e, post⟩ := st
  dsimp only at hstep hact hext hpre ⊢
  cases hstep with
  | arrive origin => cases hact
  | @act i time c c' a layers' ht hc hcall =>
    cases hcall with
    | reach hp =>
      obtain ⟨hlen, -⟩ := hcounted.calls c (List.mem_of_getElem? hc) _ hp
      obtain ⟨hlt, -⟩ := List.getElem?_eq_some_iff.1 hd
      have hpass : d < c.passes.length := by
        rw [hlen, hcounted.length]
        exact hlt
      refine ⟨c.passes[d], List.getElem?_eq_getElem hpass, List.mem_filterMap.2 ⟨_, hst, ?_⟩⟩
      exact (if_pos hext).trans (List.getElem?_eq_getElem hpass)
    | _ => cases hact

/-- Two calls come to a quota of one: the first takes the unit and the second is rejected, while the
first is still on its way. -/
theorem quota_traffic_two : ∃ tr, ∃ s : StackTraffic ℕ,
    Path Step (start ℕ 0 [.quota (.new ⟨1, 10, .unit⟩ 0 0)]) tr s ∧ userRaw 0 tr = [1] ∧
      ∀ k, Meter.inCell 10 0 k (userRaw 0 tr) ≤ 1 := by
  have hrun := Path.snoc (.snoc (.snoc (.snoc (.snoc .nil
    (Step.arrive (start ℕ 0 [.quota (.new ⟨1, 10, .unit⟩ 0 0)]) .external))
    (Step.arrive _ .external))
    (Step.act (i := 0) (show _ ≤ 1 by decide) rfl (.enter rfl rfl)))
    (Step.act (i := 1) (show _ ≤ 2 by decide) rfl (.enter rfl rfl)))
    (Step.act (i := 0) (show _ ≤ 3 by decide) rfl (.reach rfl))
  have hw : 0 < (⟨1, 10, .unit⟩ : QuotaConfig).window := by decide
  exact ⟨_, _, hrun, rfl, (quota_traffic hw (Nat.le_refl 0) rfl hrun (by decide)).1⟩

end StackTraffic

/-! ## Blacklists -/

/-- The call is below the layer of a depth: it has passed it, and has not come back. -/
def CallPlace.below (d : ℕ) : CallPlace V → Bool
  | .entering depth | .leaving depth _ | .reporting depth .. => decide (d < depth)
  | .raw => true
  | .gone _ => false

/-- The call is the user's and below the layer. -/
def CallState.admitted (d : ℕ) (c : CallState V) : Bool :=
  decide (c.origin = .external) && c.place.below d

/-- The deadline that the call is about to store in the layer. -/
def CallState.reportingAt (d : ℕ) (c : CallState V) : Option ℕ :=
  match c.place with
  | .reporting depth deadline _ => if depth = d then some deadline else none
  | _ => none

/-- The deadline that a call stores in the layer of a depth. -/
def TrafficEvent.stored (d : ℕ) (e : TrafficEvent V) : Option ℕ :=
  match e.act with
  | .report => e.call.reportingAt d
  | _ => none

theorem TrafficEvent.stored_of_ne {d : ℕ} {e : TrafficEvent V} (h : e.act ≠ .report) :
    e.stored d = none := by
  unfold TrafficEvent.stored
  cases ha : e.act with
  | report => exact absurd ha h
  | _ => rfl

/-- A call of the user runs the check of the layer, with this outcome. -/
def TrafficEvent.Checks (d : ℕ) (e : TrafficEvent V) (outcome : Except BorsaError Unit) : Prop :=
  e.call.place = .entering d ∧ e.call.origin = .external ∧ e.act = .enter outcome

/-- What a step of a call means to a blacklist at a depth, and what becomes of the layer. -/
inductive ActsOn (d : ℕ) (b : BlacklistConnector) (c c' : CallState V) (time : ℕ) :
    CallAct V → BlacklistConnector → Prop
  | quiet {a : CallAct V} (hadm : c'.admitted d = c.admitted d)
    (hrep : c'.reportingAt d = c.reportingAt d) (hst : a = .report → c.reportingAt d = none) :
    ActsOn d b c c' time a b
  | check (hout : c.admitted d = false)
    (hadm : c'.admitted d = (b.preCall .external time).2.isOk)
    (hrep : c'.reportingAt d = c.reportingAt d) :
    ActsOn d b c c' time (.enter (b.preCall .external time).2) (b.preCall .external time).1
  | returns {a : CallAct V} (hin : c.admitted d = true) (hout : c'.admitted d = false)
    (hrep : c'.reportingAt d = c.reportingAt d) (ha : a ≠ .report) :
    ActsOn d b c c' time a b
  | limited {windowMs : UInt64} (hin : c.admitted d = true) (hout : c'.admitted d = false)
    (hnone : c.reportingAt d = none)
    (hrep : c'.reportingAt d = some (time + b.blockFor windowMs)) :
    ActsOn d b c c' time (.limited windowMs) b
  | report {deadline : ℕ} (hadm : c'.admitted d = c.admitted d)
    (hrep : c.reportingAt d = some deadline) (hnone : c'.reportingAt d = none) :
    ActsOn d b c c' time .report (b.blacklistUntil deadline)

section
variable {layers layers' : List Guard} {c c' : CallState V} {time d : ℕ} {a : CallAct V}

theorem CallState.admitted_congr (ho : c'.origin = c.origin)
    (hb : c'.place.below d = c.place.below d) : c'.admitted d = c.admitted d := by
  rw [admitted, admitted, ho, hb]

theorem CallState.admitted_of_not_below (h : c.place.below d = false) : c.admitted d = false := by
  rw [admitted, h, Bool.and_false]

theorem CallState.admitted_of_not_external (h : c.origin ≠ .external) : c.admitted d = false := by
  rw [admitted, decide_eq_false h, Bool.false_and]

/-- The check of a layer moves no call of the orchestrator to where it counts, and no call below another
layer. -/
theorem CallState.checked_below {depth : ℕ} (hp : c.place = .entering depth) (hne : depth ≠ d)
    (outcome : Except BorsaError Unit) :
    (c.checked depth time outcome).place.below d = c.place.below d := by
  rw [hp]
  cases outcome with
  | ok u =>
    refine decide_eq_decide.2 ?_
    omega
  | error e => rfl

theorem CallState.checked_reportingAt {depth : ℕ} (outcome : Except BorsaError Unit) :
    (c.checked depth time outcome).reportingAt d = none := by
  cases outcome <;> rfl

theorem CallState.checked_origin {depth : ℕ} (outcome : Except BorsaError Unit) :
    (c.checked depth time outcome).origin = c.origin := by
  cases outcome <;> rfl

/-- What the check of the layer means to it. -/
theorem CallStep.actsOn_check {b : BlacklistConnector} (hp : c.place = .entering d) :
    ActsOn d b c (c.checked d time ((Guard.blacklist b).preCall c.origin time).2) time
        (.enter ((Guard.blacklist b).preCall c.origin time).2)
        (if c.origin = .external then (b.preCall .external time).1 else b) := by
  have hnone : c.reportingAt d = none := by rw [CallState.reportingAt, hp]
  have hbelow : c.place.below d = false := by
    rw [hp]
    exact decide_eq_false (lt_irrefl d)
  cases ho : c.origin with
  | internal parent stage =>
    have hint : ∀ x : CallState V, x.origin = c.origin → x.admitted d = false := by
      intro x hx
      rw [CallState.admitted, hx, ho]
      rfl
    rw [if_neg (fun h => by cases h)]
    refine .quiet ?_ ?_ (fun h => by cases h)
    · rw [hint _ (CallState.checked_origin _), hint c rfl]
    · rw [CallState.checked_reportingAt, hnone]
  | external =>
    rw [if_pos rfl]
    refine .check (CallState.admitted_of_not_below hbelow) ?_ ?_
    · change (c.checked d time (b.preCall .external time).2).admitted d = _
      cases (b.preCall .external time).2 with
      | ok u =>
        rw [CallState.admitted, CallState.checked_origin, ho]
        exact (Bool.true_and _).trans (decide_eq_true (Nat.lt_succ_self d))
      | error e =>
        refine CallState.admitted_of_not_below ?_
        exact decide_eq_false (lt_irrefl d)
    · rw [CallState.checked_reportingAt, hnone]

/-- Every step means one of these to a blacklist. -/
theorem CallStep.actsOn (h : CallStep layers c time a layers' c') {b : BlacklistConnector}
    (hd : layers[d]? = some (.blacklist b)) :
    ∃ b', ActsOn d b c c' time a b' ∧ layers'[d]? = some (.blacklist b') := by
  obtain ⟨hlt, -⟩ := List.getElem?_eq_some_iff.1 hd
  cases h with
  | @enter depth g hp hg =>
    rcases eq_or_ne depth d with rfl | hne
    · cases hg.symm.trans hd
      refine ⟨_, CallStep.actsOn_check hp, ?_⟩
      rw [List.getElem?_set_self hlt]
      cases ho : c.origin with
      | internal parent stage =>
        rw [if_neg (fun h => by cases h), Guard.preCall, BlacklistConnector.preCall_internal rfl]
      | external => rfl
    · refine ⟨b, .quiet ?_ ?_ (fun h => by cases h), (List.getElem?_set_ne hne).trans hd⟩
      · exact CallState.admitted_congr (CallState.checked_origin _)
          (CallState.checked_below hp hne _)
      · rw [CallState.checked_reportingAt, CallState.reportingAt, hp]
  | reach hp =>
    refine ⟨b, .quiet (CallState.admitted_congr rfl ?_) ?_ (fun h => by cases h), hd⟩
    · rw [hp]
      exact (decide_eq_true hlt).symm
    · rw [CallState.reportingAt, CallState.reportingAt, hp]
  | answer res hp =>
    refine ⟨b, .quiet (CallState.admitted_congr rfl ?_) ?_ (fun h => by cases h), hd⟩
    · rw [hp]
      exact decide_eq_true hlt
    · rw [CallState.reportingAt, CallState.reportingAt, hp]
  | @leave depth g res hp hg hn =>
    have hrep : ({ c with place := .leaving depth (g.pass c.origin res) } :
        CallState V).reportingAt d = c.reportingAt d := by
      rw [CallState.reportingAt, CallState.reportingAt, hp]
    by_cases hback : depth = d ∧ c.origin = .external
    · obtain ⟨rfl, ho⟩ := hback
      refine ⟨b, .returns ?_ ?_ hrep (fun h => by cases h), hd⟩
      · rw [CallState.admitted, ho, hp]
        exact (Bool.true_and _).trans (decide_eq_true (Nat.lt_succ_self depth))
      · exact CallState.admitted_of_not_below (decide_eq_false (lt_irrefl depth))
    · refine ⟨b, .quiet ?_ hrep (fun h => by cases h), hd⟩
      by_cases ho : c.origin = .external
      · refine CallState.admitted_congr rfl ?_
        rw [hp]
        refine decide_eq_decide.2 ?_
        have hne : depth ≠ d := fun h => hback ⟨h, ho⟩
        omega
      · rw [CallState.admitted_of_not_external ho]
        exact CallState.admitted_of_not_external ho
  | @limited depth b' err windowMs hp hg hn =>
    have hnone : c.reportingAt d = none := by rw [CallState.reportingAt, hp]
    rcases eq_or_ne depth d with rfl | hne
    · cases hg.symm.trans hd
      have ho : c.origin = .external := by
        cases ho : c.origin with
        | external => rfl
        | internal parent stage =>
          rw [ho] at hn
          cases hn
      refine ⟨b, .limited ?_ ?_ hnone (if_pos rfl), hd⟩
      · rw [CallState.admitted, ho, hp]
        exact (Bool.true_and _).trans (decide_eq_true (Nat.lt_succ_self depth))
      · exact CallState.admitted_of_not_below (decide_eq_false (lt_irrefl depth))
    · refine ⟨b, .quiet (CallState.admitted_congr rfl ?_) ?_ (fun h => by cases h), hd⟩
      · rw [hp]
        refine decide_eq_decide.2 ?_
        omega
      · rw [hnone]
        exact if_neg hne
  | @report depth deadline b' err hp hg =>
    have hadm : ({ c with place := .leaving depth (.error err) } : CallState V).admitted d =
        c.admitted d := by
      refine CallState.admitted_congr rfl ?_
      rw [hp]
      rfl
    have hrep : c.reportingAt d = if depth = d then some deadline else none := by
      rw [CallState.reportingAt, hp]
    rcases eq_or_ne depth d with rfl | hne
    · cases hg.symm.trans hd
      exact ⟨_, .report hadm (hrep.trans (if_pos rfl)) rfl, List.getElem?_set_self hlt⟩
    · rw [if_neg hne] at hrep
      exact ⟨b, .quiet hadm hrep.symm fun _ => hrep, (List.getElem?_set_ne hne).trans hd⟩
  | @finish res hp =>
    refine ⟨b, .quiet (CallState.admitted_congr rfl ?_) ?_ (fun h => by cases h), hd⟩
    · rw [hp]
      exact (decide_eq_false (Nat.not_lt_zero d)).symm
    · rw [CallState.reportingAt, CallState.reportingAt, hp]
  | drop hp =>
    have hnone : c.reportingAt d = none := by
      unfold CallState.reportingAt
      cases hplace : c.place with
      | reporting depth deadline err =>
        rw [hplace] at hp
        exact hp.elim
      | _ => rfl
    cases hin : c.admitted d with
    | true => exact ⟨b, .returns hin (CallState.admitted_of_not_below rfl) hnone.symm
        (fun h => by cases h), hd⟩
    | false => exact ⟨b, .quiet ((CallState.admitted_of_not_below rfl).trans hin.symm) hnone.symm
        (fun h => by cases h), hd⟩

end

namespace StackTraffic

variable {s s' : StackTraffic V} {layers : List Guard} {now d duration : ℕ}
  {tr : List (LTS.Step (StackTraffic V) (TrafficEvent V))}

/-- The deadlines that calls have stored in the layer of a depth. -/
def storedIn (d : ℕ) (tr : List (LTS.Step (StackTraffic V) (TrafficEvent V))) : List ℕ :=
  tr.filterMap fun st => st.label.stored d

/-- No deadline is stored in the layer of a depth that is earlier than the one in force. -/
def NoShorter (d : ℕ) (st : LTS.Step (StackTraffic V) (TrafficEvent V)) : Prop :=
  ∀ deadline b, st.label.stored d = some deadline → st.pre.layers[d]? = some (.blacklist b) →
    b.Blocks st.label.time → ∀ u ∈ b.state, u ≤ deadline

/-- The blacklist at a depth, with the calls it has admitted and those that report to it. -/
structure Follows (d : ℕ) (s : StackTraffic V) (b : BlacklistTraffic) : Prop where
  layer : s.layers[d]? = some (.blacklist b.connector)
  now : b.now ≤ s.now
  inFlight : s.calls.countP (CallState.admitted d) = b.inFlight
  reporting : (s.calls.filterMap (CallState.reportingAt d)).Perm b.reporting

/-- A call moves, and the layer counts one call more or fewer below it. -/
theorem countP_admitted {i : ℕ} {c : CallState V} (hc : s.calls[i]? = some c)
    (c' : CallState V) :
    (s.calls.set i c').countP (CallState.admitted d) + (c.admitted d).toNat =
      s.calls.countP (CallState.admitted d) + (c'.admitted d).toNat := by
  have h := Slots.countP_set_add (p := CallState.admitted d) hc c'
  cases ha : c.admitted d <;> cases ha' : c'.admitted d <;> simpa [ha, ha'] using h

/-- A step is one of the layer's, or leaves it alone. -/
theorem Follows.step {b : BlacklistTraffic} {e : TrafficEvent V} (h : s.Follows d b)
    (hs : Step s e s') :
    (s'.Follows d b ∧ e.stored d = none) ∨
    ∃ ev b', BlacklistTraffic.Step (fun _ => True) b ev b' ∧ s'.Follows d b' ∧ b'.now = e.time ∧
      b'.reported = (e.stored d).toList ++ b.reported ∧
      ∀ deadline, ev = .report deadline → e.stored d = some deadline := by
  cases hs with
  | arrive origin =>
    have hadm : (arrival origin : CallState V).admitted d = false :=
      CallState.admitted_of_not_below (decide_eq_false (Nat.not_lt_zero d))
    have hrep : [(arrival origin : CallState V)].filterMap (CallState.reportingAt d) = [] := rfl
    refine .inl ⟨⟨h.layer, h.now, ?_, ?_⟩, rfl⟩
    · rw [List.countP_append, h.inFlight, List.countP_singleton, hadm]
      rfl
    · rw [List.filterMap_append, hrep, List.append_nil]
      exact h.reporting
  | @act i time c c' a layers' ht hc hcall =>
    have hnow := h.now.trans ht
    have hcount := countP_admitted (d := d) hc c'
    obtain ⟨bc, hacts, hlayer⟩ := hcall.actsOn h.layer
    cases hacts with
    | quiet hadm hrep hst =>
      refine .inl ⟨⟨hlayer, hnow, ?_, ?_⟩, ?_⟩
      · rw [hadm] at hcount
        exact (Nat.add_right_cancel hcount).trans h.inFlight
      · rw [Slots.filterMap_set_of_eq hc hrep]
        exact h.reporting
      · by_cases ha : a = .report
        · subst ha
          exact hst rfl
        · exact TrafficEvent.stored_of_ne ha
    | check hout hadm hrep =>
      rw [hout, hadm, h.inFlight] at hcount
      refine .inr ⟨_, _, .check b time hnow, ⟨hlayer, le_rfl, ?_, ?_⟩, rfl, rfl,
        fun _ hev => by cases hev⟩
      · cases hok : (b.connector.preCall .external time).2.isOk <;> simpa [hok] using hcount
      · rw [Slots.filterMap_set_of_eq hc hrep]
        exact h.reporting
    | returns hin hout hrep ha =>
      rw [hin, hout, h.inFlight] at hcount
      have hcount : (s.calls.set i c').countP (CallState.admitted d) + 1 = b.inFlight := hcount
      refine .inr ⟨_, _, .returns b time hnow (by omega), ⟨hlayer, le_rfl, ?_, ?_⟩, rfl, ?_,
        fun _ hev => by cases hev⟩
      · dsimp only
        omega
      · rw [Slots.filterMap_set_of_eq hc hrep]
        exact h.reporting
      · rw [TrafficEvent.stored_of_ne ha]
        rfl
    | @limited windowMs hin hout hnone hrep =>
      rw [hin, hout, h.inFlight] at hcount
      have hcount : (s.calls.set i c').countP (CallState.admitted d) + 1 = b.inFlight := hcount
      refine .inr ⟨_, _, .rateLimited b time windowMs hnow (by omega) trivial, ⟨hlayer, le_rfl, ?_, ?_⟩,
        rfl, rfl, fun _ hev => by cases hev⟩
      · dsimp only
        omega
      · exact (Slots.filterMap_set_perm hc hnone hrep).trans (h.reporting.cons _)
    | @report deadline hadm hrep hnone =>
      have hperm := (Slots.filterMap_perm_set hc hrep hnone).symm.trans h.reporting
      have hmem : deadline ∈ b.reporting := hperm.subset (List.mem_cons_self ..)
      have hstored : TrafficEvent.stored d ⟨i, time, c, .report⟩ = some deadline := hrep
      rw [hadm] at hcount
      refine .inr ⟨_, _, .report b time deadline hnow hmem, ⟨hlayer, le_rfl, ?_, ?_⟩, rfl, ?_, ?_⟩
      · exact (Nat.add_right_cancel hcount).trans h.inFlight
      · exact (List.cons_perm_iff_perm_erase.1 hperm).2
      · rw [hstored]
        rfl
      · rintro _ ⟨⟩
        exact hstored

/-- A blacklist goes through a run of its own, and hears of the deadlines in the order in which they are
stored. If none is stored that is earlier than the one in force, it blocks until the latest. -/
theorem blacklist_run (hd : layers[d]? = some (.blacklist (.new duration)))
    (hrun : Path Step (start V now layers) tr s) :
    ∃ tr' b, Path (BlacklistTraffic.Step fun _ => True) (.new duration) tr' b ∧ s.Follows d b ∧
      b.reported = (storedIn d tr).reverse ∧ ((∀ st ∈ tr, NoShorter d st) → b.Longest) := by
  induction hrun with
  | nil =>
    exact ⟨[], _, .nil, ⟨hd, Nat.zero_le _, rfl, .nil⟩, rfl,
      fun _ => BlacklistTraffic.longest_new duration⟩
  | @snoc tr s s' e hrun hstep ih =>
    obtain ⟨tr', b, hpath, hfol, hrep, hlong⟩ := ih
    have hstored : (storedIn d (tr ++ [⟨s, e, s'⟩])).reverse =
        (e.stored d).toList ++ (storedIn d tr).reverse := by
      have hlast : [(⟨s, e, s'⟩ : LTS.Step (StackTraffic V) (TrafficEvent V))].filterMap
          (fun st => st.label.stored d) = (e.stored d).toList := by
        rw [List.filterMap_cons]
        cases e.stored d <;> rfl
      rw [storedIn, List.filterMap_append, hlast, List.reverse_append]
      congr 1
      cases e.stored d <;> rfl
    rw [hstored, ← hrep]
    rcases hfol.step hstep with ⟨hfol', hnone⟩ | ⟨ev, b', hb, hfol', hnow, hrep', hev⟩
    · refine ⟨tr', b, hpath, hfol', by rw [hnone]; rfl, fun h => hlong fun st hst => ?_⟩
      exact h st (List.mem_append_left _ hst)
    · refine ⟨_, b', hpath.snoc hb, hfol', hrep', fun h => ?_⟩
      have hb' := hlong fun st hst => h st (List.mem_append_left _ hst)
      have hfit : b.StoredFit fun _ => True := ⟨fun _ _ => trivial, fun _ _ => trivial⟩
      refine (hb'.step_iff antitone_const hfit hb).2 ⟨fun deadline hdl hblocks u hu => ?_,
        fun _ _ => trivial⟩
      rw [hnow] at hblocks
      exact h ⟨s, e, s'⟩ (by simp) deadline b.connector (hev deadline hdl) hfol.layer hblocks u hu

/-- The blacklist under concurrent calls. As long as no deadline is stored that is earlier than the one
in force, the layer rejects the user's calls exactly until the latest deadline stored so far, and
admits them from then on, whatever the order in which the calls check the layers, wait, come back and
are dropped. -/
theorem blacklist_traffic (hd : layers[d]? = some (.blacklist (.new duration)))
    (hrun : Path Step (start V now layers) tr s) (hlong : ∀ st ∈ tr, NoShorter d st)
    {pre post : List (LTS.Step (StackTraffic V) (TrafficEvent V))}
    {st : LTS.Step (StackTraffic V) (TrafficEvent V)} (htr : tr = pre ++ st :: post)
    {outcome : Except BorsaError Unit} (hcheck : st.label.Checks d outcome) :
    ((∃ ms, outcome = .error (.temporarilyBlacklisted ms)) ↔
      ∃ deadline ∈ storedIn d pre, st.label.time < deadline) ∧
    (outcome = .ok () ↔ ∀ deadline ∈ storedIn d pre, deadline ≤ st.label.time) := by
  subst htr
  obtain ⟨hpre, hstep⟩ := hrun.step_of_split
  obtain ⟨tr', b, -, hfol, hrep, hb⟩ := blacklist_run hd hpre
  have hb := hb fun st hst => hlong st (List.mem_append_left _ hst)
  obtain ⟨hplace, hext, hact⟩ := hcheck
  obtain ⟨s₁, e, s₂⟩ := st
  dsimp only at hpre hstep hfol hplace hext hact ⊢
  obtain ⟨htime, hout⟩ : b.now ≤ e.time ∧ outcome = (b.connector.preCall .external e.time).2 := by
    cases hstep with
    | arrive origin => cases hact
    | @act i time c c' a layers' ht hc hcall =>
      refine ⟨hfol.now.trans ht, ?_⟩
      cases hcall with
      | enter hp hg =>
        cases hp.symm.trans hplace
        cases hg.symm.trans hfol.layer
        rw [← CallAct.enter.inj hact]
        dsimp only at hext
        rw [hext]
        rfl
      | _ => cases hact
  have hstored : ∀ u, u ∈ b.reported ↔ u ∈ storedIn d pre := fun u => by
    rw [hrep, List.mem_reverse]
  obtain ⟨hiff, hor⟩ := hb e.time htime
  simp only [BlacklistTraffic.Rejects, ← hout, hstored] at hiff hor
  refine ⟨hiff, fun hok deadline hmem => ?_, fun hall => hor.resolve_left fun hrej => ?_⟩
  · by_contra hlt
    obtain ⟨ms, hms⟩ := hiff.2 ⟨deadline, hmem, not_le.1 hlt⟩
    rw [hok] at hms
    cases hms
  · obtain ⟨deadline, hmem, hlt⟩ := hiff.1 hrej
    exact absurd (hall deadline hmem) (not_le.2 hlt)

theorem noShorter_of_quiet {st : LTS.Step (StackTraffic V) (TrafficEvent V)}
    (h : st.label.stored d = none) : NoShorter d st := by
  rintro deadline b hst - -
  cases h.symm.trans hst

/-- A layer that does not block can store any deadline. -/
theorem noShorter_of_free {st : LTS.Step (StackTraffic V) (TrafficEvent V)} {b : BlacklistConnector}
    (hd : st.pre.layers[d]? = some (.blacklist b)) (hb : b.state = none) : NoShorter d st := by
  rintro deadline b' - hd' ⟨u, hu, -⟩
  cases hd.symm.trans hd'
  rw [hb] at hu
  cases hu

/-- A call is told of a rate limit of one second, and the next one comes while the layer blocks. -/
theorem blacklist_traffic_blocked : ∃ tr, ∃ s : StackTraffic ℕ,
    Path Step (start ℕ 0 [.blacklist (.new 0)]) tr s ∧ ∃ pre st outcome, tr = pre ++ [st] ∧
      storedIn 0 pre = [1000000003] ∧ st.label.Checks 0 outcome ∧ st.label.time = 5 ∧
      ∃ ms, outcome = .error (.temporarilyBlacklisted ms) := by
  have hrun := Path.snoc (.snoc (.snoc (.snoc (.snoc (.snoc (.snoc (.snoc .nil
    (Step.arrive (start ℕ 0 [.blacklist (.new 0)]) .external))
    (Step.act (i := 0) (show _ ≤ 1 by decide) rfl (.enter rfl rfl)))
    (Step.act (i := 0) (show _ ≤ 2 by decide) rfl (.reach rfl)))
    (Step.act (i := 0) (show _ ≤ 2 by decide) rfl
      (.answer (.error (.rateLimitExceeded 5 1000)) rfl)))
    (Step.act (i := 0) (show _ ≤ 3 by decide) rfl (.limited rfl rfl rfl)))
    (Step.act (i := 0) (show _ ≤ 4 by decide) rfl (.report rfl rfl)))
    (Step.arrive _ .external))
    (Step.act (i := 1) (show _ ≤ 5 by decide) rfl (.enter rfl rfl))
  refine ⟨_, _, hrun, _, _, _, rfl, rfl, ⟨rfl, rfl, rfl⟩, rfl, ?_⟩
  refine (blacklist_traffic rfl hrun ?_ rfl ⟨rfl, rfl, rfl⟩).1.2
    ⟨_, List.mem_singleton_self _, by decide⟩
  simp only [List.forall_mem_append, List.forall_mem_singleton, List.nil_append]
  exact ⟨⟨⟨⟨⟨⟨⟨noShorter_of_quiet rfl, noShorter_of_quiet rfl⟩, noShorter_of_quiet rfl⟩,
    noShorter_of_quiet rfl⟩, noShorter_of_quiet rfl⟩, noShorter_of_free rfl rfl⟩,
    noShorter_of_quiet rfl⟩, noShorter_of_quiet rfl⟩

end StackTraffic

end

end Borsa
