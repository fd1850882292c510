import Borsa.Streaming.ChainOrder
import Borsa.Streaming.ControllerStreams

/-!
# What a stream sends, against the policy

The supervisors of a plan are planned within the routing policy (`Borsa.Streaming.PlanPolicy`), and a
session sends only what its provider may stream (`Borsa.Streaming.ControllerStreams`). Put together:
whatever a consumer receives was requested, and comes from a connector that the policy allows for it
(`Stream.sent_respects_policy`), along every run and whatever the providers send.
-/

set_option linter.dupNamespace false

namespace Borsa

variable {K E : Type}

namespace Stream

variable {plan : List (KindSupervisorParams K E)} {enforceMonotonic : Bool} {capability : Capability}
  {s : Stream K E plan.length}
  {tr : List (LTS.Step (Stream K E plan.length) (StreamLabel plan.length))}

/-- Whatever was sent came from a provider that may send it. -/
theorem Run.maySend (h : Run plan enforceMonotonic capability tr s) :
    ∀ x ∈ s.sent, ∃ params, plan[x.controller]? = some params ∧
      Controller.MaySend params x.provider x.update := by
  induction h with
  | nil => exact nofun
  | @snoc tr s s' label hp hstep ih =>
    cases hstep with
    | @controller i l c sent hc _ =>
      intro x hx
      have hsplit : x ∈ s.sent ∨
          x ∈ (sent.map fun x => (⟨i, x.1, x.2⟩ : Sent)).toList := by
        simpa [Stream.sent, move, or_assoc] using hx
      rcases hsplit with hx | hx
      · exact ih x hx
      · rw [Option.mem_toList, Option.map_eq_some_iff] at hx
        obtain ⟨y, hy, rfl⟩ := hx
        exact ⟨plan.get i, List.getElem?_eq_getElem i.isLt,
          hc.maySend (Run.controller hp i).confined hy⟩
    | receive _ _ hq =>
      intro x hx
      exact ih x (by simpa [Stream.sent, hq] using hx)
    | initOk | initError | returnedOk | returnedError | wake | joined | ownerCancelled | stop | abort
    | abandon | dropReceiver => exact ih

end Stream

section
variable [DecidableEq K] [DecidableEq E] {self : Borsa K E} {stream : StreamKind}

namespace Stream

/-- Every update of a stream that was ever sent to its consumer is of a requested instrument and comes
from a connector that can stream it and that the policy allows for it. -/
theorem sent_respects_policy {backoffOverride : Option BackoffConfig} {order : HashOrder}
    {orders : K × Option E → HashOrder} {instruments : List (Instrument K E)}
    {plan : List (KindSupervisorParams K E)} {enforceMonotonic : Bool} {capability : Capability}
    (hplan : self.planStreams stream backoffOverride order orders instruments = .ok plan)
    {tr : List (LTS.Step (Stream K E plan.length) (StreamLabel plan.length))}
    {s : Stream K E plan.length} (h : Run plan enforceMonotonic capability tr s) :
    ∀ x ∈ s.sent, ∃ params c, plan[x.controller]? = some params ∧
      params.providers[x.provider]? = some c ∧ ∃ inst ∈ instruments,
        symbolOpt inst = some x.update.streamSymbol ∧ c ∈ self.streamCandidates stream inst.kind ∧
          (self.cfg.routingPolicy.providers.providerRank
            ⟨some x.update.streamSymbol, some inst.kind, exchangeOpt inst⟩ c.key).isSome := by
  intro x hx
  obtain ⟨params, hparams, hlt, hallow⟩ := h.maySend x hx
  have hc : params.providers[x.provider]? = some (params.providers[x.provider]) :=
    List.getElem?_eq_getElem hlt
  refine ⟨params, _, hparams, hc, ?_⟩
  unfold Borsa.planStreams at hplan
  split at hplan
  · cases hplan
  rcases Borsa.mem_planGroups hplan (List.mem_of_getElem? hparams) with
    hmem | ⟨kind, ex, list, channels, plan', hgroup, hplan', hmem⟩
  · cases hmem
  rw [(order.perm _).mem_iff] at hgroup
  have hplanned := Borsa.planned_of_planGroup hgroup hplan' hmem
  obtain ⟨allow, hallow'⟩ : ∃ allow, params.providerAllow[x.provider]? = some allow := by
    rw [hplanned.allow, List.getElem?_map, hc]
    exact ⟨_, rfl⟩
  obtain ⟨hreq, hrank⟩ := (hplanned.allowed hc hallow').1 (hallow allow hallow')
  have hcap := (Borsa.mem_scoredProviders.1 (hplanned.mem_providers (List.getElem_mem hlt))).1
  rw [Borsa.symbolRank, Option.isSome_map] at hrank
  obtain ⟨inst, hinst, hsym⟩ := List.mem_filterMap.1 (hplanned.required _ hreq)
  rw [(mem_byGroup.1 hgroup).1, List.mem_filter, decide_eq_true_eq] at hinst
  obtain ⟨hinst, hkey⟩ := hinst
  cases hkey
  exact ⟨inst, hinst, hsym, hcap, hrank⟩

set_option maxRecDepth 8000 in
/-- The first supervisor of the plan for two symbols streams one of them. -/
theorem cross_sent : ∃ tr s, Run Borsa.crossPlan false .streamQuotes tr s ∧ s.sent ≠ [] := by
  have h0 : Run Borsa.crossPlan false .streamQuotes [] (start Borsa.crossPlan) := .nil
  have h1 := h0.act ⟨0, by decide⟩ (.answered 0 [⟨"X"⟩] none) nofun
    (.answered (List.mem_of_elem_eq_true rfl))
  have h2 := h1.act ⟨0, by decide⟩ (.turn (.providerStartSucceeded 0 [⟨"X"⟩])) nofun
    (.turn rfl (by unfold Controller.Ready; rfl))
  have h3 := h2.act ⟨0, by decide⟩ (.arrive 0 [⟨⟨"X"⟩, 5⟩]) nofun (.arrive rfl rfl)
  have h4 := h3.act ⟨0, by decide⟩ (.poll 0 0) nofun (.poll rfl rfl)
  have h5 := h4.act ⟨0, by decide⟩ (.send 0) nofun (.send rfl rfl)
  exact ⟨_, _, h5, List.cons_ne_nil _ _⟩

/-- What it sends respects the policy. -/
theorem cross_sent_respects_policy : ∃ x : Sent, ∃ inst ∈ [Borsa.security "X", Borsa.security "Y"],
    symbolOpt inst = some x.update.streamSymbol := by
  obtain ⟨tr, s, h, hne⟩ := cross_sent
  obtain ⟨x, hx⟩ := List.exists_mem_of_ne_nil _ hne
  have hplan : Borsa.crossRouter.planStreams .quotes none .insertion (fun _ => .insertion)
      [Borsa.security "X", Borsa.security "Y"] = .ok Borsa.crossPlan := rfl
  obtain ⟨-, -, -, -, inst, hinst, hsym, -⟩ := sent_respects_policy hplan h x hx
  exact ⟨x, inst, hinst, hsym⟩

end Stream

end

end Borsa
