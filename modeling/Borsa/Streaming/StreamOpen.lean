import Borsa.Streaming.ChainOrder
import Borsa.Streaming.ControllerReport
import Borsa.Streaming.StreamStop

/-!
# Opening a stream

What the outcome of `stream_updates_with_backoff` says of the stream. It awaits the reports of its
controllers in order and returns the stream if there are some and all are good, and otherwise the
collapsed errors. `Stream.Run.settled` is the invariant of that loop over whole runs; the controllers
go on while it waits, and nobody stops them before it has returned.
-/

set_option linter.dupNamespace false

namespace Borsa

variable {K E : Type}

/-- The errors among the outcomes of startups. -/
def initErrors (results : List (Except BorsaError Unit)) : List BorsaError :=
  results.filterMap fun
    | .ok _ => none
    | .error e => some e

/-- How many startups succeeded. -/
def successKinds (results : List (Except BorsaError Unit)) : Nat :=
  results.countP fun
    | .ok _ => true
    | .error _ => false

/-- Startups that all succeeded. -/
theorem eq_ok_of_initErrors {results : List (Except BorsaError Unit)} (h : initErrors results = []) :
    ∀ r ∈ results, r = .ok () := by
  intro r hr
  cases r with
  | ok => rfl
  | error e =>
    have hm : e ∈ initErrors results := List.mem_filterMap.2 ⟨.error e, hr, rfl⟩
    rw [h] at hm
    cases hm

/-- Without a success and without an error there was no startup. -/
theorem exists_error_of_not_ok {results : List (Except BorsaError Unit)} (hne : results ≠ [])
    (h : successKinds results = 0 ∨ initErrors results ≠ []) : ∃ e, .error e ∈ results := by
  by_contra hno
  push Not at hno
  have hok : ∀ r ∈ results, ∃ u, r = Except.ok u := by
    intro r hr
    cases r with
    | ok u => exact ⟨u, rfl⟩
    | error e => exact absurd hr (hno e)
  rcases h with h | h
  · obtain ⟨r, hr⟩ := List.exists_mem_of_ne_nil _ hne
    obtain ⟨u, rfl⟩ := hok r hr
    exact List.countP_eq_zero.1 h _ hr rfl
  · obtain ⟨e, he⟩ := List.exists_mem_of_ne_nil _ h
    obtain ⟨r, hr, heq⟩ := List.mem_filterMap.1 he
    obtain ⟨u, rfl⟩ := hok r hr
    cases heq

namespace Stream

/-- What the controllers have reported, in the order of the plan. -/
def reports {n : Nat} (s : Stream K E n) : List (Option (Except BorsaError Unit)) :=
  List.ofFn fun i => (s.controllers i).report

/-- What the owner knows of the startups where it is. -/
def Settled {n : Nat} (capability : Capability) (s : Stream K E n) : Owner → Prop
  | .initializing awaited successes errors =>
    (s.stopped = false ∧ s.senderDropped = false ∧ s.receiverDropped = false) ∧
      (∀ i, (s.controllers i).place = .looping ∨ ∃ e, (s.controllers i).report = some (.error e)) ∧
      ∃ results : List (Except BorsaError Unit), s.reports.take awaited = results.map some ∧
        results.length = awaited ∧ successes = successKinds results ∧ errors = initErrors results
  | .failed error => ∃ results : List (Except BorsaError Unit), s.reports = results.map some ∧
      error = collapseStreamErrors capability (initErrors results) ∧
        (results = [] ∨ ∃ e, .error e ∈ results)
  | .abandoned => True
  | .selecting | .joining | .finished | .cancelled =>
    n ≠ 0 ∧ ∀ i, (s.controllers i).report = some (.ok ())

variable {plan : List (KindSupervisorParams K E)} {enforceMonotonic : Bool} {capability : Capability}
  {s s' : Stream K E plan.length} {label : StreamLabel plan.length}
  {tr : List (LTS.Step (Stream K E plan.length) (StreamLabel plan.length))}

/-- Reports that are not taken back stay. -/
theorem take_reports {n : Nat} {s s' : Stream K E n}
    (h : ∀ i r, (s.controllers i).report = some r → (s'.controllers i).report = some r) {k : Nat}
    {results : List (Except BorsaError Unit)} (hr : s.reports.take k = results.map some) :
    s'.reports.take k = results.map some := by
  refine List.ext_getElem ?_ fun j hj hj' => ?_
  · rw [← hr]
    simp [reports]
  · have hlt : j < (s.reports.take k).length := by rw [hr]; exact hj'
    have heq : (s.reports.take k)[j] = (results.map some)[j] := by simp only [hr]
    simp only [reports, List.getElem_take, List.getElem_ofFn, List.getElem_map] at heq ⊢
    exact h _ _ heq

/-- So do all of them. -/
theorem reports_eq {n : Nat} {s s' : Stream K E n}
    (h : ∀ i r, (s.controllers i).report = some r → (s'.controllers i).report = some r)
    {results : List (Except BorsaError Unit)} (hr : s.reports = results.map some) :
    s'.reports = results.map some := by
  have htake := take_reports (k := n) h (by rw [← hr]; exact List.take_of_length_le (by simp [reports]))
  rwa [List.take_of_length_le (by simp [reports])] at htake

/-- Every startup has been awaited. -/
theorem reports_of_take {results : List (Except BorsaError Unit)}
    (hr : s.reports.take plan.length = results.map some) : s.reports = results.map some := by
  rwa [List.take_of_length_le (by simp [reports])] at hr

/-- The report at a place. -/
theorem report_mem {results : List (Except BorsaError Unit)} (hr : s.reports = results.map some)
    (i : Fin plan.length) : ∃ r ∈ results, (s.controllers i).report = some r := by
  have hm : (s.controllers i).report ∈ results.map some := by
    rw [← hr]
    exact List.mem_ofFn.2 ⟨i, rfl⟩
  obtain ⟨r, hmem, heq⟩ := List.mem_map.1 hm
  exact ⟨r, hmem, heq.symm⟩

theorem launch_place {params : KindSupervisorParams K E} (hn : params.initialNotify ≠ none) :
    (Controller.launch params).place = .looping ∨
      ∃ e, (Controller.launch params).report = some (.error e) := by
  obtain ⟨tx, htx⟩ := Option.ne_none_iff_exists'.1 hn
  unfold Controller.launch
  dsimp only
  split
  · exact .inr ⟨_, by rw [htx]; rfl⟩
  · exact .inl rfl

/-- The next startup is awaited. -/
theorem take_reports_succ {k : Nat} {results : List (Except BorsaError Unit)} (hk : k < plan.length)
    (hr : s.reports.take k = results.map some) {r : Except BorsaError Unit}
    (h : (s.controllers ⟨k, hk⟩).report = some r) :
    s.reports.take (k + 1) = (results ++ [r]).map some := by
  have hlt : k < s.reports.length := by simpa [reports] using hk
  rw [List.take_succ_eq_append_getElem hlt, hr, List.map_append]
  simp [reports, h]

/-- Every state of a stream agrees with what its owner knows of the startups. -/
theorem Run.settled (hplan : ∀ params ∈ plan, params.initialNotify ≠ none)
    (h : Run plan enforceMonotonic capability tr s) : s.Settled capability s.owner := by
  induction h with
  | nil =>
    exact ⟨⟨rfl, rfl, rfl⟩, fun i => launch_place (hplan _ (List.get_mem ..)), [], rfl, rfl, rfl, rfl⟩
  | @snoc tr s s' label hp hstep ih =>
    have hreach := Run.controller hp
    have hrep : ∀ i, (s.controllers i).Reporting := fun i =>
      (hreach i).reporting (hplan _ (List.get_mem ..))
    have hrel : ∀ i, (s.controllers i).place = .looping → ∃ y, Controller.Refines (plan.get i)
        (s.controllers i) y := fun i => (hreach i).refines_of_looping
    have hstable : ∀ i r, (s.controllers i).report = some r →
        (s'.controllers i).report = some r := by
      intro i r hr
      rcases hstep.controller_moves i with heq | ⟨l, sig, sent, hm⟩
      · rwa [heq]
      · exact (hm.reporting (hrep i) (hrel i)).2 r hr
    have howned := Run.owned hp
    cases hstep with
    | @controller i l c sent hc hl =>
      change Settled capability (s.move i c sent) s.owner
      cases ho : s.owner with
      | initializing k successes errors =>
        rw [ho] at ih
        obtain ⟨hquiet, hplace, results, htake, hlen, hsucc, herr⟩ := ih
        refine ⟨hquiet, fun j => ?_, results, take_reports hstable htake, hlen, hsucc, herr⟩
        rcases hplace j with hl | ⟨e, he⟩
        · rcases eq_or_ne j i with rfl | hj
          · have ha := howned.aborted (by simp [ho]) j
            rw [controllers_move_self]
            exact hc.place_of_quiet hquiet.1 hquiet.2.1 hquiet.2.2 ha (hrel j) hl
          · rw [controllers_move_of_ne _ hj]
            exact .inl hl
        · exact .inr ⟨e, hstable j _ he⟩
      | failed error =>
        rw [ho] at ih
        obtain ⟨results, hreports, herror⟩ := ih
        exact ⟨results, reports_eq hstable hreports, herror⟩
      | abandoned => trivial
      | selecting | joining | finished | cancelled =>
        rw [ho] at ih
        exact ⟨ih.1, fun j => hstable j _ (ih.2 j)⟩
    | @initOk k successes errors ho hk hout =>
      rw [ho] at ih
      obtain ⟨hquiet, hplace, results, htake, hlen, rfl, rfl⟩ := ih
      rw [(hrep _).outcome_eq (hplace _)] at hout
      refine ⟨hquiet, hplace, results ++ [.ok ()], take_reports_succ hk htake hout, ?_, ?_, ?_⟩
      · rw [List.length_append, hlen]
        rfl
      · simp [successKinds]
      · simp [initErrors]
    | @initError k successes errors error ho hk hout =>
      rw [ho] at ih
      obtain ⟨hquiet, hplace, results, htake, hlen, rfl, rfl⟩ := ih
      rw [(hrep _).outcome_eq (hplace _)] at hout
      refine ⟨hquiet, hplace, results ++ [.error error], take_reports_succ hk htake hout, ?_, ?_, ?_⟩
      · rw [List.length_append, hlen]
        rfl
      · simp [successKinds]
      · simp [initErrors]
    | returnedOk ho hs =>
      rw [ho] at ih
      obtain ⟨-, -, results, htake, hlen, rfl, herr⟩ := ih
      refine ⟨fun hn => hs ?_, fun i => ?_⟩
      · rw [List.eq_nil_of_length_eq_zero (hlen.trans hn)]
        rfl
      · obtain ⟨r, hr, heq⟩ := report_mem (reports_of_take htake) i
        exact heq.trans (congrArg some (eq_ok_of_initErrors herr.symm r hr))
    | returnedError ho hs =>
      rw [ho] at ih
      obtain ⟨-, -, results, htake, hlen, rfl, rfl⟩ := ih
      refine ⟨results, reports_of_take htake, rfl, ?_⟩
      exact (eq_or_ne results []).imp_right fun hne => exists_error_of_not_ok hne hs
    | wake ho | joined ho =>
      rw [ho] at ih
      exact ih
    | ownerCancelled _ ho =>
      rcases ho with ho | ho
      · rw [ho] at ih
        exact ih
      · rw [ho] at ih
        exact ih
    | stop | abort | receive => exact ih
    | dropReceiver ho =>
      cases howner : s.owner with
      | initializing | failed | abandoned =>
        rw [howner] at ho
        exact ho.elim
      | selecting | joining | finished | cancelled =>
        rw [howner] at ih
        exact ih
    | abandon => trivial

end Stream

/-! ## What the caller gets -/

section
variable [DecidableEq K] [DecidableEq E] {self : Borsa K E} {stream : StreamKind}

namespace Borsa

/-- Every supervisor of a group's plan is given a sender for the outcome of its startup. -/
theorem initialNotify_of_planGroup {resolvedBackoff : BackoffConfig} {order : HashOrder}
    {channels : ℕ} {kind : K} {ex : Option E} {list : List (Instrument K E)}
    {plan : List (KindSupervisorParams K E)}
    (h : self.planGroup stream resolvedBackoff order channels kind ex list = .ok plan) :
    ∀ params ∈ plan, params.initialNotify ≠ none := by
  rw [planGroup] at h
  cases heligible : self.eligibleFn stream kind ex list with
  | error e =>
    rw [heligible] at h
    cases h
  | ok eligible =>
    rw [heligible] at h
    dsimp only at h
    by_cases hempty : eligible.unionSymbols = ∅
    · rw [if_pos hempty] at h
      cases h
      exact fun _ hmem => absurd hmem List.not_mem_nil
    · rw [if_neg hempty] at h
      cases hpairs : listPairs list with
      | error e =>
        rw [hpairs] at h
        cases h
      | ok pairs =>
        rw [hpairs] at h
        dsimp only at h
        split_ifs at h
        · cases h
          intro params hparams
          obtain ⟨i, hi, rfl⟩ := List.mem_mapIdx.1 hparams
          exact Option.some_ne_none _
        · cases h
          intro params hparams
          rw [List.mem_singleton.1 hparams]
          exact Option.some_ne_none _

/-- Every supervisor of a plan is given one. -/
theorem initialNotify_of_planStreams {backoffOverride : Option BackoffConfig} {order : HashOrder}
    {orders : K × Option E → HashOrder} {instruments : List (Instrument K E)}
    {plan : List (KindSupervisorParams K E)}
    (h : self.planStreams stream backoffOverride order orders instruments = .ok plan) :
    ∀ params ∈ plan, params.initialNotify ≠ none := by
  intro params hparams
  unfold planStreams at h
  split at h
  · cases h
  · rcases mem_planGroups h hparams with hmem | ⟨_, _, _, _, plan', -, hplan', hmem⟩
    · cases hmem
    · exact initialNotify_of_planGroup hplan' params hmem

end Borsa

namespace Stream

/-- A stream that is returned has supervisors, and each of them has opened a session; an error is the
collapse of the errors of those that gave up, none of which ever opened one. -/
theorem opening {backoffOverride : Option BackoffConfig} {order : HashOrder}
    {orders : K × Option E → HashOrder} {instruments : List (Instrument K E)}
    {plan : List (KindSupervisorParams K E)} {enforceMonotonic : Bool}
    (hplan : self.planStreams stream backoffOverride order orders instruments = .ok plan)
    {tr : List (LTS.Step (Stream K E plan.length) (StreamLabel plan.length))}
    {s : Stream K E plan.length} (h : Run plan enforceMonotonic stream.capability tr s) :
    (s.owner.Opened → plan ≠ [] ∧
      ∀ i, (s.controllers i).report = some (.ok ()) ∧ (s.controllers i).tasks ≠ []) ∧
    ∀ e, s.owner = .failed e → ∃ results : List (Except BorsaError Unit),
      s.reports = results.map some ∧
        e = collapseStreamErrors stream.capability (initErrors results) ∧
        (plan = [] ∨ ∃ i e', (s.controllers i).report = some (.error e') ∧
          (s.controllers i).place = .gone ∧ (s.controllers i).tasks = []) := by
  have hnotify := Borsa.initialNotify_of_planStreams hplan
  have hsettled := Run.settled hnotify h
  have hrep : ∀ i, (s.controllers i).Reporting := fun i =>
    (Run.controller h i).reporting (hnotify _ (List.get_mem ..))
  refine ⟨fun ho => ?_, fun e ho => ?_⟩
  · have hok : plan.length ≠ 0 ∧ ∀ i, (s.controllers i).report = some (.ok ()) := by
      cases howner : s.owner with
      | initializing | failed | abandoned =>
        rw [howner] at ho
        exact ho.elim
      | selecting | joining | finished | cancelled =>
        rw [howner] at hsettled
        exact hsettled
    exact ⟨fun hnil => hok.1 (by rw [hnil]; rfl), fun i => ⟨hok.2 i, (hrep i).ok (hok.2 i)⟩⟩
  · rw [ho] at hsettled
    obtain ⟨results, hreports, herror, hsome⟩ := hsettled
    refine ⟨results, hreports, herror, ?_⟩
    rcases hsome with rfl | ⟨e', he'⟩
    · left
      have hlen := congrArg List.length hreports
      simpa [reports] using hlen
    · right
      have hm : some (Except.error e') ∈ s.reports := by
        rw [hreports]
        exact List.mem_map_of_mem he'
      obtain ⟨i, hi⟩ := List.mem_ofFn.1 hm
      exact ⟨i, e', hi, (hrep i).error e' hi⟩

set_option maxRecDepth 8000 in
/-- Both supervisors of the plan for two symbols come up, and the stream is returned. -/
theorem cross_opened : ∃ tr s, Run Borsa.crossPlan false .streamQuotes tr s ∧ s.owner.Opened := by
  have h0 : Run Borsa.crossPlan false .streamQuotes [] (start Borsa.crossPlan) := .nil
  have h1 := h0.act ⟨0, by decide⟩ (.answered 0 [⟨"X"⟩] none) nofun
    (.answered (List.mem_of_elem_eq_true rfl))
  have h2 := h1.act ⟨0, by decide⟩ (.turn (.providerStartSucceeded 0 [⟨"X"⟩])) nofun
    (.turn rfl (by unfold Controller.Ready; rfl))
  have h3 := h2.act ⟨1, by decide⟩ (.answered 0 [⟨"Y"⟩] none) nofun
    (.answered (List.mem_of_elem_eq_true rfl))
  have h4 := h3.act ⟨1, by decide⟩ (.turn (.providerStartSucceeded 0 [⟨"Y"⟩])) nofun
    (.turn rfl (by unfold Controller.Ready; rfl))
  have h5 := h4.snoc (.initOk rfl (by decide) rfl)
  have h6 := h5.snoc (.initOk rfl (by decide) rfl)
  have h7 := h6.snoc (.returnedOk rfl (by decide))
  exact ⟨_, _, h7, trivial⟩

/-- Each of them has opened a session. -/
theorem cross_opening : ∃ s : Stream Unit Unit Borsa.crossPlan.length,
    ∀ i, (s.controllers i).tasks ≠ [] := by
  obtain ⟨tr, s, h, ho⟩ := cross_opened
  have hplan : Borsa.crossRouter.planStreams .quotes none .insertion (fun _ => .insertion)
      [Borsa.security "X", Borsa.security "Y"] = .ok Borsa.crossPlan := rfl
  exact ⟨s, fun i => (((opening hplan h).1 ho).2 i).2⟩

end Stream

end

end Borsa
