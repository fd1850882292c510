import Borsa.Lib.Slots
import Borsa.Router.Requests

/-!
# Whose calls they are

Every call of a request is under way for it, or has ended; no two requests share a call, and nobody else
drops one that is waited for (`Owns`). So a request that has been answered or dropped leaves no call
behind (`no_orphans`).
-/

namespace Borsa

open LTS

section
variable {K E V : Type}

/-- What a step of a request means to its calls. -/
inductive RequestState.Moves (r r' : RequestState K E V) (conns : List (StackTraffic V)) :
    Option (ℕ × TrafficEvent V) → List (StackTraffic V) → Prop
  | same (hrun : r'.place.running = r.place.running) (hasks : r'.asks = r.asks) :
    Moves r r' conns none conns
  | done {a : Ask K} {pre post : List (Ask K)} {res : Except BorsaError V}
    (hrun : r.place.running = pre ++ a :: post) (hrun' : r'.place.running = pre ++ post)
    (hasks : r'.asks = r.asks) (ha : a.Answered conns res) : Moves r r' conns none conns
  | start {a : Ask K} {e : TrafficEvent V} {conns' : List (StackTraffic V)}
    (hrun : r'.place.running = r.place.running ++ [a]) (hasks : r'.asks = r.asks ++ [a])
    (hs : a.Starts r.request.origin conns e conns') : Moves r r' conns (some (a.stack, e)) conns'
  | drop {a : Ask K} {pre post : List (Ask K)} {e : TrafficEvent V}
    {conns' : List (StackTraffic V)} (hrun : r.place.running = pre ++ a :: post)
    (hrun' : r'.place.running = pre ++ post) (hasks : r'.asks = r.asks)
    (hd : a.Drops conns e conns') : Moves r r' conns (some (a.stack, e)) conns'

@[simp] theorem RequestPlace.running_fallback (ask : Ask K) (rest : List (Connector K × Option ℕ))
    (errors : List BorsaError) (res : Except BorsaError V) :
    (RequestPlace.fallback ask rest errors res).running = [] := by
  cases res <;> rfl

@[simp] theorem RequestPlace.running_race (futs : List (Connector K × ℕ)) (ask : Ask K)
    (running : List (Ask K)) (attemptedAny : Bool) (errors : List BorsaError)
    (res : Except BorsaError V) :
    (RequestPlace.race futs ask running attemptedAny errors res).running = running := by
  cases res <;> rfl

section
variable {conns conns' : List (StackTraffic V)} {r r' : RequestState K E V}
  {traffic : Option (ℕ × TrafficEvent V)} {k : ℕ} {e : TrafficEvent V} {a : Ask K}

theorem RequestStep.moves (h : RequestStep conns r traffic conns' r') :
    r.Moves r' conns traffic conns' := by
  cases h with
  | skip hp => exact .same (by rw [hp]; rfl) rfl
  | ask hp hs => exact .start (by rw [hp]; rfl) rfl hs
  | @answered a rest errors res hp ha =>
    have hrun : r.place.running = [] ++ a :: [] := by rw [hp]; rfl
    exact .done hrun (by simp) rfl ha
  | @timedOut a rest errors e conns' hp hd =>
    have hrun : r.place.running = [] ++ a :: [] := by rw [hp]; rfl
    exact .drop hrun (by simp) rfl hd
  | exhausted hp => exact .same (by rw [hp]; rfl) rfl
  | start hp hs => exact .start (by rw [hp]; rfl) rfl hs
  | raceAnswered hp ha =>
    exact .done (by rw [hp]; rfl) (by simp) rfl ha
  | raceTimedOut hp hd =>
    exact .drop (by rw [hp]; rfl) (by simp) rfl hd
  | raceOver hp => exact .same (by rw [hp]; rfl) rfl
  | cancel hp => exact .same rfl rfl
  | drop hp hd => exact .drop (by rw [hp]; rfl) rfl rfl hd
  | forget hp ha => exact .done (by rw [hp]; rfl) rfl rfl ha

theorem RequestStep.request (h : RequestStep conns r traffic conns' r') :
    r'.request = r.request := by
  cases h <;> rfl

/-- A new call is not one of those there are. -/
theorem Ask.Starts.fresh {origin : CallOrigin} (h : a.Starts origin conns e conns') {a' : Ask K}
    {c : CallState V} (hc : a'.callAt conns = some c) : a'.key ≠ a.key := by
  obtain ⟨⟨s, s', hs, hstep, -⟩, hact, hid, -⟩ := h
  intro hkey
  obtain ⟨hstack, hid'⟩ := Prod.ext_iff.1 hkey
  have hstack : a'.stack = a.stack := hstack
  have hid' : a'.id = a.id := hid'
  rw [Ask.callAt, hstack, hs] at hc
  obtain ⟨hlt, -⟩ := List.getElem?_eq_some_iff.1 (hc : s.calls[a'.id]? = some c)
  cases hstep with
  | arrive o =>
    have hid : s.calls.length = a.id := hid
    omega
  | act ht hcall hstep =>
    cases hact
    cases hstep

/-- A new call is there. -/
theorem Ask.Starts.callAt {origin : CallOrigin} (h : a.Starts origin conns e conns') :
    a.callAt conns' = some (StackTraffic.arrival origin) := by
  obtain ⟨⟨s, s', hs, hstep, rfl⟩, hact, hid, horigin⟩ := h
  obtain ⟨hlt, -⟩ := List.getElem?_eq_some_iff.1 hs
  rw [Ask.callAt, List.getElem?_set_self hlt]
  cases hstep with
  | arrive o =>
    have hid : s.calls.length = a.id := hid
    cases horigin
    exact (congrArg (_[·]?) hid.symm).trans List.getElem?_concat_length
  | act ht hcall hstep =>
    cases hact
    cases hstep

/-- Only a step that drops the call drops it. -/
theorem StackStep.not_dropped (h : StackStep k conns e conns') {c : CallState V}
    (hc : a.callAt conns = some c) (ha : ¬ a.Dropped conns)
    (hne : e.act = .drop → (k, e.id) ≠ a.key) : ¬ a.Dropped conns' := by
  rintro ⟨c', hc', hg⟩
  obtain ⟨c₁, hc₁, -, hdrop⟩ := h.callAt hc
  cases hc'.symm.trans hc₁
  rcases hdrop hg with hgone | ⟨hact, hkey⟩
  · exact ha ⟨c, hc, hgone⟩
  · exact hne hact hkey

end

/-! ## Ownership -/

/-- The calls of a request are at the stacks, under way for it or ended, and none that it waits for has
been dropped. -/
structure RequestState.Holds (r : RequestState K E V) (conns : List (StackTraffic V)) : Prop where
  subperm : r.place.running.Subperm r.asks
  called : ∀ a ∈ r.asks, ∃ c, a.callAt conns = some c ∧
    (a ∉ r.place.running → ∃ answer, c.place = .gone answer)
  alive : ∀ a ∈ r.place.running, ¬ a.Dropped conns

theorem StackStep.called {conns conns' : List (StackTraffic V)} {k : ℕ} {e : TrafficEvent V}
    (hstep : StackStep k conns e conns') {a : Ask K} {p : Prop}
    (h : ∃ c, a.callAt conns = some c ∧ (p → ∃ answer, c.place = .gone answer)) :
    ∃ c, a.callAt conns' = some c ∧ (p → ∃ answer, c.place = .gone answer) := by
  obtain ⟨c, hc, hgone⟩ := h
  obtain ⟨c', hc', hkeep, -⟩ := hstep.callAt hc
  refine ⟨c', hc', fun hp => ?_⟩
  obtain ⟨answer, hg⟩ := hgone hp
  exact ⟨answer, hkeep (.inr ⟨answer, hg⟩) ▸ hg⟩

namespace RequestState.Holds

variable {r r' : RequestState K E V} {conns conns' : List (StackTraffic V)}

/-- What happens at a stack leaves a request its calls, unless it drops one that is waited for. -/
theorem frame {k : ℕ} {e : TrafficEvent V} (h : r.Holds conns) (hstep : StackStep k conns e conns')
    (hne : e.act = .drop → ∀ a ∈ r.place.running, (k, e.id) ≠ a.key) : r.Holds conns' where
  subperm := h.subperm
  called a ha := hstep.called (h.called a ha)
  alive a ha := by
    obtain ⟨c, hc, -⟩ := h.called a (h.subperm.subset ha)
    exact hstep.not_dropped hc (h.alive a ha) fun hact => hne hact a ha

/-- The request no longer waits for a call that has ended. -/
theorem leave {a : Ask K} {pre post : List (Ask K)} (hrun : r.place.running = pre ++ a :: post)
    (hrun' : r'.place.running = pre ++ post) (hasks : r'.asks = r.asks)
    (hsub : r.place.running.Subperm r.asks)
    (hcalled : ∀ a ∈ r.asks, ∃ c, a.callAt conns = some c ∧
      (a ∉ r.place.running → ∃ answer, c.place = .gone answer))
    (halive : ∀ a ∈ pre ++ post, ¬ a.Dropped conns)
    (hend : ∃ c, a.callAt conns = some c ∧ ∃ answer, c.place = .gone answer) : r'.Holds conns where
  subperm := by
    rw [hrun', hasks]
    exact ((List.sublist_cons_self a post).append_left pre).subperm.trans (hrun ▸ hsub)
  called := by
    rw [hrun', hasks]
    intro a' ha'
    obtain ⟨c, hc, hgone⟩ := hcalled a' ha'
    refine ⟨c, hc, fun hnot => ?_⟩
    by_cases heq : a' = a
    · obtain ⟨c', hc', hg⟩ := heq ▸ hend
      cases hc.symm.trans hc'
      exact hg
    · refine hgone fun hmem => hnot ?_
      rw [hrun] at hmem
      exact (List.mem_cons.1 (List.perm_middle.subset hmem)).resolve_left heq
  alive := by
    rw [hrun']
    exact halive

/-- A step of the request. -/
theorem moves {traffic : Option (ℕ × TrafficEvent V)} (h : r.Holds conns)
    (hnodup : (r.place.running.map Ask.key).Nodup) (hm : r.Moves r' conns traffic conns') :
    r'.Holds conns' := by
  cases hm with
  | same hrun hasks =>
    refine ⟨?_, ?_, ?_⟩
    · rw [hrun, hasks]
      exact h.subperm
    · rw [hrun, hasks]
      exact h.called
    · rw [hrun]
      exact h.alive
  | @done a pre post res hrun hrun' hasks ha =>
    have hsub : (pre ++ post).Sublist (pre ++ a :: post) :=
      (List.sublist_cons_self a post).append_left pre
    obtain ⟨c, hc, hg⟩ := ha
    exact leave hrun hrun' hasks h.subperm h.called
      (fun a' ha' => h.alive a' (hrun ▸ hsub.subset ha')) ⟨c, hc, _, hg⟩
  | @start a e conns' hrun hasks hs =>
    have hold := h.frame hs.step fun hact => by cases hs.act.symm.trans hact
    refine ⟨?_, ?_, ?_⟩
    · rw [hrun, hasks]
      exact (List.subperm_append_right [a]).2 h.subperm
    · rw [hrun, hasks]
      intro a' ha'
      rcases List.mem_append.1 ha' with ha' | ha'
      · obtain ⟨c, hc, hgone⟩ := hold.called a' ha'
        exact ⟨c, hc, fun hnot => hgone fun hmem => hnot (List.mem_append_left _ hmem)⟩
      · exact ⟨_, List.mem_singleton.1 ha' ▸ hs.callAt,
          fun hnot => absurd (List.mem_append_right _ ha') hnot⟩
    · rw [hrun]
      intro a' ha'
      rcases List.mem_append.1 ha' with ha' | ha'
      · exact hold.alive a' ha'
      · rw [List.mem_singleton.1 ha']
        rintro ⟨c, hc, hg⟩
        cases hc.symm.trans hs.callAt
        cases hg
  | @drop a pre post e conns' hrun hrun' hasks hd =>
    have hsub : (pre ++ post).Sublist (pre ++ a :: post) :=
      (List.sublist_cons_self a post).append_left pre
    have hkey : a.key ∉ (pre ++ post).map Ask.key := by
      rw [hrun] at hnodup
      exact (List.nodup_cons.1 ((List.perm_middle.map Ask.key).nodup_iff.1 hnodup)).1
    obtain ⟨c, hc, hg⟩ := hd.dropped
    refine leave hrun hrun' hasks h.subperm (fun a' ha' => hd.step.called (h.called a' ha'))
      (fun a' ha' => ?_) ⟨c, hc, _, hg⟩
    have hmem : a' ∈ r.place.running := hrun ▸ hsub.subset ha'
    obtain ⟨c', hc', -⟩ := h.called a' (h.subperm.subset hmem)
    refine hd.step.not_dropped hc' (h.alive a' hmem) fun _ hkey' => hkey ?_
    have heq : a.key = a'.key := (Prod.ext rfl hd.id.symm : a.key = (a.stack, e.id)).trans hkey'
    exact heq ▸ List.mem_map_of_mem ha'

end RequestState.Holds

/-! ## Runs -/

/-- The calls that requests have made. -/
def callKeys (requests : List (RequestState K E V)) : List (ℕ × ℕ) :=
  requests.flatMap fun r => r.asks.map Ask.key

/-- The requests own their calls, each its own. -/
structure Deployment.Owns (s : Deployment K E V) : Prop where
  holds : ∀ r ∈ s.requests, r.Holds s.conns
  nodup : (callKeys s.requests).Nodup

section
variable {s : Deployment K E V} {r r' : RequestState K E V} {i : ℕ}

theorem callKeys_perm {requests : List (RequestState K E V)} (hr : requests[i]? = some r) :
    (callKeys requests).Perm (r.asks.map Ask.key ++ callKeys (requests.eraseIdx i)) :=
  (Slots.perm_cons_eraseIdx hr).flatMap_right _

theorem callKeys_set_perm {requests : List (RequestState K E V)} (hr : requests[i]? = some r)
    (r' : RequestState K E V) :
    (callKeys (requests.set i r')).Perm
      (r'.asks.map Ask.key ++ callKeys (requests.eraseIdx i)) :=
  (Slots.set_perm_cons_eraseIdx hr r').flatMap_right _

theorem mem_callKeys {requests : List (RequestState K E V)} {a : Ask K} (hr : r ∈ requests)
    (ha : a ∈ r.asks) : a.key ∈ callKeys requests :=
  List.mem_flatMap.2 ⟨r, hr, List.mem_map_of_mem ha⟩

/-- A call that comes to a stack is not one that a request has made. -/
theorem Deployment.Owns.fresh (h : s.Owns) {a : Ask K} {origin : CallOrigin}
    {e : TrafficEvent V} {conns' : List (StackTraffic V)} (hs : a.Starts origin s.conns e conns') :
    a.key ∉ callKeys s.requests := by
  intro hmem
  obtain ⟨r, hr, hmem⟩ := List.mem_flatMap.1 hmem
  obtain ⟨a', ha', hkey⟩ := List.mem_map.1 hmem
  obtain ⟨c, hc, -⟩ := (h.holds r hr).called a' ha'
  exact hs.fresh hc hkey

/-- A request and the others, when one of them moves. -/
theorem Deployment.Owns.others (h : s.Owns) (hr : s.requests[i]? = some r) :
    ∀ r₁ ∈ s.requests.eraseIdx i, r₁ ∈ s.requests ∧
      ∀ a₁ ∈ r₁.asks, ∀ a ∈ r.asks, a.key ≠ a₁.key := by
  intro r₁ hr₁
  refine ⟨List.mem_of_mem_eraseIdx hr₁, fun a₁ ha₁ a ha hkey => ?_⟩
  have hnodup := (callKeys_perm hr).nodup_iff.1 h.nodup
  have hdisj := List.disjoint_of_nodup_append hnodup
  exact hdisj (List.mem_map_of_mem ha) (hkey ▸ mem_callKeys hr₁ ha₁)

/-- The calls under way are different ones. -/
theorem Deployment.Owns.running_nodup (h : s.Owns) (hr : r ∈ s.requests) :
    (r.place.running.map Ask.key).Nodup := by
  obtain ⟨i, hi⟩ := List.getElem?_of_mem hr
  have hnodup := (callKeys_perm hi).nodup_iff.1 h.nodup
  obtain ⟨l, hperm, hsub⟩ := (h.holds r hr).subperm
  exact (hperm.map _).nodup_iff.1 ((List.nodup_append.1 hnodup).1.sublist (hsub.map _))

variable [DecidableEq K] [DecidableEq E] {self : Borsa K E} {s' : Deployment K E V}
  {e : DeploymentEvent V}

theorem RequestState.Holds.received (req : Request K E V) (self : Borsa K E)
    (conns : List (StackTraffic V)) : (req.received self).Holds conns := by
  have hrun : (req.received self).place.running = [] := by
    cases hs : req.strategy <;> simp only [Request.received, hs, RequestPlace.running]
  refine ⟨?_, fun a ha => absurd ha List.not_mem_nil, ?_⟩
  · rw [hrun]
    exact List.nil_subperm
  · rw [hrun]
    exact fun a ha => absurd ha List.not_mem_nil

/-- A step of the requests, or at a stack. -/
theorem Deployment.Owns.step (h : s.Owns) (hstep : Step self s e s') : s'.Owns := by
  cases hstep with
  | receive req hk =>
    refine ⟨?_, ?_⟩
    · rw [List.forall_mem_append, List.forall_mem_singleton]
      exact ⟨h.holds, .received req self s.conns⟩
    · rw [callKeys, List.flatMap_append, List.flatMap_singleton]
      exact (List.append_nil _).symm ▸ h.nodup
  | @request i r r' traffic conns' hr hreq =>
    have hmem := List.mem_of_getElem? hr
    have hm := hreq.moves
    refine ⟨fun r₁ hr₁ => ?_, ?_⟩
    · rcases List.mem_cons.1 ((Slots.set_perm_cons_eraseIdx hr r').subset hr₁) with rfl | hr₁
      · exact (h.holds r hmem).moves (h.running_nodup hmem) hm
      · obtain ⟨hin, hne⟩ := h.others hr r₁ hr₁
        have hold := h.holds r₁ hin
        cases hm with
        | same hrun hasks => exact hold
        | done hrun hrun' hasks ha => exact hold
        | start hrun hasks hs =>
          exact hold.frame hs.step fun hact => by cases hs.act.symm.trans hact
        | @drop a pre post e conns' hrun hrun' hasks hd =>
          refine hold.frame hd.step fun _ a₁ ha₁ => ?_
          have ha : a ∈ r.asks := (h.holds r hmem).subperm.subset (hrun ▸ by simp)
          have hkey : (a.stack, e.id) = a.key := Prod.ext rfl hd.id
          exact hkey ▸ hne a₁ (hold.subperm.subset ha₁) a ha
    · rw [(callKeys_set_perm hr r').nodup_iff]
      have hnodup := (callKeys_perm hr).nodup_iff.1 h.nodup
      cases hm with
      | same hrun hasks => rwa [hasks]
      | done hrun hrun' hasks ha => rwa [hasks]
      | @start a e conns' hrun hasks hs =>
        have hfresh := h.fresh hs
        rw [(callKeys_perm hr).mem_iff] at hfresh
        rw [hasks, List.map_append, List.map_singleton, List.append_assoc, List.singleton_append,
          List.perm_middle.nodup_iff]
        exact List.nodup_cons.2 ⟨hfresh, hnodup⟩
      | drop hrun hrun' hasks hd => rwa [hasks]
  | @stack k e conns' hst hown =>
    refine ⟨fun r hr => (h.holds r hr).frame hst fun hact a ha hkey => hown hact ?_, h.nodup⟩
    exact ⟨r, hr, a, ha, (Prod.ext_iff.1 hkey).1.symm, (Prod.ext_iff.1 hkey).2.symm⟩

theorem Deployment.owns_of_path {conns : List (StackTraffic V)}
    {tr : List (LTS.Step (Deployment K E V) (DeploymentEvent V))}
    (hrun : Path (Step self) (start K E conns) tr s) : s.Owns := by
  refine hrun.inv ⟨fun r hr => absurd hr List.not_mem_nil, ?_⟩ fun _ _ _ h => h.step
  exact List.nodup_nil

/-- A call that has ended stays as it is. -/
theorem Deployment.Step.callAt_gone (hstep : Step self s e s') {a : Ask K} {c : CallState V}
    {answer : Option (Except BorsaError V)} (hc : a.callAt s.conns = some c)
    (hg : c.place = .gone answer) : a.callAt s'.conns = some c := by
  rcases hstep.stackStep with heq | ⟨k, e, h⟩
  · rwa [heq]
  · obtain ⟨c', hc', hkeep, -⟩ := h.callAt hc
    rwa [hkeep (.inr ⟨answer, hg⟩)] at hc'

/-- The requests own their calls: no two share one, and none that is waited for has been dropped. And a
request that has ended leaves none behind: every call that it has made has come back or has been
dropped, and goes no further whatever happens. -/
theorem Deployment.no_orphans {conns : List (StackTraffic V)}
    {tr : List (LTS.Step (Deployment K E V) (DeploymentEvent V))}
    (hrun : Path (Step self) (start K E conns) tr s) :
    s.Owns ∧ ∀ r ∈ s.requests, ∀ answer, r.place = .ending [] answer → ∀ a ∈ r.asks,
      ∃ c, a.callAt s.conns = some c ∧ (∃ answer, c.place = .gone answer) ∧
        ∀ tr' s', Path (Step self) s tr' s' → a.callAt s'.conns = some c := by
  have howns := owns_of_path hrun
  refine ⟨howns, fun r hr answer hend a ha => ?_⟩
  obtain ⟨c, hc, hgone⟩ := (howns.holds r hr).called a ha
  have hnot : a ∉ r.place.running := by
    rw [hend]
    exact List.not_mem_nil
  obtain ⟨answer', hg⟩ := hgone hnot
  refine ⟨c, hc, ⟨answer', hg⟩, fun tr' s' hrest => ?_⟩
  exact hrest.inv (I := fun s => a.callAt s.conns = some c) hc fun _ _ _ h hstep =>
    hstep.callAt_gone h hg

end

end

theorem pair_no_orphans : ∃ tr, ∃ s : Deployment Unit Unit ℕ,
    Path (Deployment.Step pairRouter) (.start Unit Unit [.start ℕ 0 [], .start ℕ 0 []]) tr s ∧
      ∃ r ∈ s.requests, r.asks.map Ask.key = [(0, 0), (1, 0)] ∧ ∀ a ∈ r.asks,
        ∃ c, a.callAt s.conns = some c ∧ ∃ answer, c.place = .gone answer := by
  obtain ⟨tr, s, hrun, r, hr, -, hend, hkeys⟩ := pairRouter_run
  refine ⟨tr, s, hrun, r, hr, hkeys, fun a ha => ?_⟩
  obtain ⟨c, hc, hg, -⟩ := (Deployment.no_orphans hrun).2 r hr _ hend a ha
  exact ⟨c, hc, hg⟩

end Borsa
