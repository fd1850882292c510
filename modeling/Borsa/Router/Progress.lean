import Borsa.Middleware.TrafficLayers
import Borsa.Router.Answers
import Borsa.Router.Ownership

/-!
# Every request can be answered

A request that waits can come to an answer by steps of its own, whatever state the other requests and
the stacks are in: a call that has not been answered can time out, and a blacklist that is about to
store a deadline for it stores it first (`exists_answer`). Nothing that another request does is needed
for it. As in all of these modules the stacks have no cache, positive quota windows and deadlines that
are instants; where the code has others, a layer can panic instead.
-/

namespace Borsa

open LTS

section
variable {K E V : Type}

/-! ## A call -/

/-- A call that is about to store a deadline is at a blacklist. -/
def StackTraffic.Told (s : StackTraffic V) : Prop :=
  ∀ c ∈ s.calls, ∀ d deadline err, c.place = .reporting d deadline err →
    ∃ b, s.layers[d]? = some (.blacklist b)

theorem CallStep.told {layers layers' : List Guard} {c c' : CallState V} {time d deadline : ℕ}
    {err : BorsaError} {a : CallAct V} (h : CallStep layers c time a layers' c')
    (hp' : c'.place = .reporting d deadline err) : ∃ b, layers'[d]? = some (.blacklist b) := by
  cases h with
  | @enter depth g hp hg =>
    cases hres : (g.preCall c.origin time).2 with
    | ok u =>
      rw [hres] at hp'
      cases hp'
    | error e =>
      rw [hres] at hp'
      cases hp'
  | limited hp hg hn =>
    cases hp'
    exact ⟨_, hg⟩
  | _ => cases hp'

theorem StackTraffic.Told.step {s s' : StackTraffic V} {e : TrafficEvent V} (h : s.Told)
    (hstep : StackTraffic.Step s e s') : s'.Told := by
  intro c hc d deadline err hp
  cases hstep with
  | arrive origin =>
    rcases List.mem_append.1 hc with hc | hc
    · exact h c hc d deadline err hp
    · rw [List.mem_singleton.1 hc] at hp
      cases hp
  | act ht hc₀ hcall =>
    rcases List.mem_or_eq_of_mem_set hc with hc | rfl
    · obtain ⟨b, hb⟩ := h c hc d deadline err hp
      obtain ⟨b', -, hb'⟩ := hcall.actsOn hb
      exact ⟨b', hb'⟩
    · exact hcall.told hp

/-- The steps that a call takes before it can be dropped, and one for the drop. -/
def CallPlace.weight : CallPlace V → ℕ
  | .reporting .. => 2
  | _ => 1

namespace Ask

/-- The weight of a call at its stack. -/
def weight (a : Ask K) (conns : List (StackTraffic V)) : ℕ :=
  (a.callAt conns).elim 1 fun c => c.place.weight

theorem weight_pos (a : Ask K) (conns : List (StackTraffic V)) : 0 < a.weight conns := by
  unfold weight
  cases a.callAt conns with
  | none => exact Nat.one_pos
  | some c => cases hp : c.place <;> simp [CallPlace.weight, hp]

theorem weight_of_callAt {a : Ask K} {conns : List (StackTraffic V)} {c : CallState V}
    (h : a.callAt conns = some c) : a.weight conns = c.place.weight := by
  rw [weight, h]
  rfl

/-- What happens to other calls does not matter. -/
theorem sum_weight_frame {l : List (Ask K)} {conns conns' : List (StackTraffic V)} {k : ℕ}
    {e : TrafficEvent V} (hstep : StackStep k conns e conns')
    (h : ∀ a ∈ l, (k, e.id) ≠ a.key ∧ ∃ c, a.callAt conns = some c) :
    (l.map fun a => a.weight conns').sum = (l.map fun a => a.weight conns).sum := by
  refine congrArg List.sum (List.map_congr_left fun a ha => ?_)
  obtain ⟨hne, c, hc⟩ := h a ha
  obtain ⟨c', hc', hkeep, -⟩ := hstep.callAt hc
  rw [weight_of_callAt hc, weight_of_callAt hc', hkeep (.inl hne)]

/-- A call that has not been dropped has been answered, or can be dropped, or can store its deadline
first. -/
theorem exists_step {a : Ask K} {conns : List (StackTraffic V)} (htold : ∀ st ∈ conns, st.Told)
    {c : CallState V} (hc : a.callAt conns = some c) (halive : ¬ a.Dropped conns) :
    (∃ res, a.Answered conns res) ∨ (∃ e conns', a.Drops conns e conns') ∨
      ∃ e conns', StackStep a.stack conns e conns' ∧ e.act = .report ∧ e.id = a.id ∧
        a.weight conns' < a.weight conns := by
  obtain ⟨st, hst, hcall⟩ := Option.bind_eq_some_iff.1 hc
  have hdrop (hp : c.place.Waits) : ∃ e conns', a.Drops conns e conns' :=
    ⟨_, _, ⟨st, _, hst, .act le_rfl hcall (.drop hp), rfl⟩, rfl, rfl⟩
  cases hp : c.place with
  | gone answer =>
    cases answer with
    | none => exact absurd ⟨c, hc, hp⟩ halive
    | some res => exact .inl ⟨res, c, hc, hp⟩
  | reporting d deadline err =>
    obtain ⟨b, hb⟩ := htold st (List.mem_of_getElem? hst) c (List.mem_of_getElem? hcall) d deadline
      err hp
    have hstep := StackTraffic.Step.act le_rfl hcall (.report hp hb)
    obtain ⟨hlt, -⟩ := List.getElem?_eq_some_iff.1 hst
    obtain ⟨hlt', -⟩ := List.getElem?_eq_some_iff.1 hcall
    refine .inr (.inr ⟨_, _, ⟨st, _, hst, hstep, rfl⟩, rfl, rfl, ?_⟩)
    have hc' : a.callAt (conns.set a.stack ⟨st.now, st.layers.set d
        (.blacklist (b.blacklistUntil deadline)),
        st.calls.set a.id { c with place := .leaving d (.error err) }⟩) =
        some { c with place := .leaving d (.error err) } := by
      rw [callAt, List.getElem?_set_self hlt]
      exact List.getElem?_set_self hlt'
    rw [weight_of_callAt hc, weight_of_callAt hc', hp]
    exact Nat.lt_succ_self 1
  | entering depth => exact .inr (.inl (hdrop (by rw [hp]; trivial)))
  | raw => exact .inr (.inl (hdrop (by rw [hp]; trivial)))
  | leaving depth res => exact .inr (.inl (hdrop (by rw [hp]; trivial)))

end Ask

/-- A call can come to any stack there is. -/
theorem Ask.exists_starts {conns : List (StackTraffic V)} {k : ℕ} (hk : k < conns.length)
    (c : Connector K) (origin : CallOrigin) : ∃ (a : Ask K) (e : TrafficEvent V)
      (conns' : List (StackTraffic V)), a.connector = c ∧ a.stack = k ∧
        a.Starts origin conns e conns' ∧ a.weight conns' = 1 := by
  have hs := List.getElem?_eq_getElem hk
  let a : Ask K := ⟨c, k, conns[k].calls.length⟩
  have hstarts : a.Starts origin conns _ _ := ⟨⟨_, _, hs, .arrive _ origin, rfl⟩, rfl, rfl, rfl⟩
  refine ⟨a, _, _, rfl, rfl, hstarts, ?_⟩
  rw [weight_of_callAt hstarts.callAt]
  rfl

/-! ## A request -/

/-- What the request has still to begin. -/
def RequestPlace.todo : RequestPlace K V → ℕ
  | .next rest _ _ | .asking _ rest _ => 4 * rest.length + 1
  | .racing futs _ _ _ => 4 * futs.length + 1
  | .ending .. => 0

/-- What the request has still to do. -/
def RequestState.work (r : RequestState K E V) (conns : List (StackTraffic V)) : ℕ :=
  r.place.todo + (r.place.running.map fun a => a.weight conns).sum

/-- The request has not been dropped by its caller. -/
def RequestPlace.Lives : RequestPlace K V → Prop
  | .ending _ none => False
  | _ => True

theorem RequestPlace.fallback_lives (ask : Ask K) (rest : List (Connector K × Option ℕ))
    (errors : List BorsaError) (res : Except BorsaError V) :
    (RequestPlace.fallback ask rest errors res).Lives := by
  cases res <;> trivial

theorem RequestPlace.fallback_todo_le (ask : Ask K) (rest : List (Connector K × Option ℕ))
    (errors : List BorsaError) (res : Except BorsaError V) :
    (RequestPlace.fallback ask rest errors res).todo ≤ 4 * rest.length + 1 := by
  cases res with
  | ok v => exact Nat.zero_le _
  | error e => exact le_rfl

theorem RequestPlace.race_lives (futs : List (Connector K × ℕ)) (ask : Ask K)
    (running : List (Ask K)) (attemptedAny : Bool) (errors : List BorsaError)
    (res : Except BorsaError V) :
    (RequestPlace.race futs ask running attemptedAny errors res).Lives := by
  cases res <;> trivial

theorem RequestPlace.race_todo_le (futs : List (Connector K × ℕ)) (ask : Ask K)
    (running : List (Ask K)) (attemptedAny : Bool) (errors : List BorsaError)
    (res : Except BorsaError V) :
    (RequestPlace.race futs ask running attemptedAny errors res).todo ≤ 4 * futs.length + 1 := by
  cases res with
  | ok v => exact Nat.zero_le _
  | error e => exact le_rfl

/-- The stack of every provider of the request is there. -/
def Request.Located (req : Request K E V) (conns : List (StackTraffic V)) : Prop :=
  ∀ c k, req.provider c = some k → k < conns.length

namespace RequestState

variable {r r' : RequestState K E V} {conns conns' : List (StackTraffic V)}
  {traffic : Option (ℕ × TrafficEvent V)}

/-- A step of the request that leaves less to do. -/
def Advances (r : RequestState K E V) (conns : List (StackTraffic V)) : Prop :=
  ∃ traffic conns' r', RequestStep conns r traffic conns' r' ∧ r'.place.Lives ∧
    r'.work conns' < r.work conns

/-- A blacklist stores the deadline of a call that the request waits for. -/
def Reports (r : RequestState K E V) (conns : List (StackTraffic V)) : Prop :=
  ∃ a ∈ r.place.running, ∃ e conns', StackStep a.stack conns e conns' ∧ e.act = .report ∧
    e.id = a.id ∧ r.work conns' < r.work conns

/-- What is left to do once a call is no longer waited for. -/
theorem work_leave {a : Ask K} {post : List (Ask K)} (hrun : r.place.running = a :: post)
    (hrun' : r'.place.running = post) (htodo : r'.place.todo ≤ r.place.todo)
    (hpost : (post.map fun a => a.weight conns').sum = (post.map fun a => a.weight conns).sum) :
    r'.work conns' < r.work conns := by
  have ha := a.weight_pos conns
  rw [work, work, hrun, hrun', hpost, List.map_cons, List.sum_cons]
  omega

/-- A request that waits for a call can do something about it. -/
theorem Holds.exists_act {a : Ask K} {post : List (Ask K)} (h : r.Holds conns)
    (hnodup : (r.place.running.map Ask.key).Nodup) (htold : ∀ st ∈ conns, st.Told)
    (hrun : r.place.running = a :: post)
    (hanswered : ∀ res, a.Answered conns res → ∃ r', RequestStep conns r none conns r' ∧
      r'.place.Lives ∧ r'.place.running = post ∧ r'.place.todo ≤ r.place.todo)
    (hdropped : ∀ e conns', a.Drops conns e conns' → ∃ r',
      RequestStep conns r (some (a.stack, e)) conns' r' ∧
        r'.place.Lives ∧ r'.place.running = post ∧ r'.place.todo ≤ r.place.todo) :
    r.Advances conns ∨ r.Reports conns := by
  have hmem : ∀ a' ∈ r.place.running, ∃ c, a'.callAt conns = some c := by
    intro a' ha'
    obtain ⟨c, hc, -⟩ := h.called a' (h.subperm.subset ha')
    exact ⟨c, hc⟩
  rw [hrun] at hnodup hmem
  obtain ⟨hkey, -⟩ := List.nodup_cons.1 hnodup
  have hframe : ∀ {e : TrafficEvent V} {conns' : List (StackTraffic V)},
      StackStep a.stack conns e conns' → e.id = a.id →
      (post.map fun a => a.weight conns').sum = (post.map fun a => a.weight conns).sum := by
    intro e conns' hstep hid
    refine Ask.sum_weight_frame hstep fun a' ha' => ⟨fun heq => hkey ?_, hmem a' (.tail _ ha')⟩
    have hkey' : a'.key = a.key := heq.symm.trans (Prod.ext rfl hid)
    exact hkey' ▸ List.mem_map_of_mem ha'
  obtain ⟨c, hc⟩ := hmem a (.head _)
  have halive : ¬ a.Dropped conns := h.alive a (hrun ▸ .head _)
  rcases Ask.exists_step htold hc halive with
    ⟨res, hres⟩ | ⟨e, conns', hd⟩ | ⟨e, conns', hstep, hact, hid, hlt⟩
  · obtain ⟨r', hr', hlives, hrun', htodo⟩ := hanswered res hres
    exact .inl ⟨_, _, r', hr', hlives, work_leave hrun hrun' htodo rfl⟩
  · obtain ⟨r', hr', hlives, hrun', htodo⟩ := hdropped e conns' hd
    exact .inl ⟨_, _, r', hr', hlives, work_leave hrun hrun' htodo (hframe hd.step hd.id)⟩
  · refine .inr ⟨a, hrun ▸ .head _, e, conns', hstep, hact, hid, ?_⟩
    rw [work, work, hrun, List.map_cons, List.map_cons, List.sum_cons, List.sum_cons,
      hframe hstep hid]
    omega

variable [DecidableEq K] [DecidableEq E] {self : Borsa K E}

/-- A request that has not been dropped has an answer and no call under way, or can do something about
it. -/
theorem exists_step (h : r.Holds conns) (hnodup : (r.place.running.map Ask.key).Nodup)
    (htold : ∀ st ∈ conns, st.Told) (hfollows : r.Follows self conns)
    (hloc : r.request.Located conns) (hlives : r.place.Lives) :
    (∃ res, r.place = .ending [] (some res)) ∨ r.Advances conns ∨ r.Reports conns := by
  cases hp : r.place with
  | next rest attemptedAny errors =>
    refine .inr (.inl ?_)
    cases rest with
    | nil =>
      refine ⟨_, _, _, .exhausted hp, trivial, ?_⟩
      rw [work, work, hp]
      exact Nat.one_pos
    | cons x rest =>
      obtain ⟨c, o⟩ := x
      cases o with
      | none =>
        refine ⟨_, _, _, .skip hp, trivial, ?_⟩
        rw [work, work, hp]
        simp only [RequestPlace.todo, RequestPlace.running, List.length_cons, List.map_nil,
          List.sum_nil]
        omega
      | some k =>
        rw [Follows, hp] at hfollows
        obtain ⟨seen, hfalls, -⟩ := hfollows
        have hk := hloc c k (hfalls.provider (List.mem_cons_self ..))
        obtain ⟨a, e, conns', rfl, rfl, hs, hweight⟩ := Ask.exists_starts hk c r.request.origin
        refine ⟨_, _, _, .ask hp hs, trivial, ?_⟩
        rw [work, work, hp]
        simp only [RequestPlace.todo, RequestPlace.running, List.length_cons, List.map_cons,
          List.map_nil, List.sum_cons, List.sum_nil, hweight]
        omega
  | asking a rest errors =>
    refine .inr (h.exists_act hnodup htold (by rw [hp]; rfl) (fun res hres => ?_)
      fun e conns' hd => ?_)
    · exact ⟨_, .answered hp hres, RequestPlace.fallback_lives a rest errors _, by simp,
        by rw [hp]; exact RequestPlace.fallback_todo_le a rest errors _⟩
    · let res : Except BorsaError V :=
        providerCallWithTimeout a.connector.name r.request.capability none
      exact ⟨_, .timedOut hp hd, RequestPlace.fallback_lives a rest errors res, by simp,
        by rw [hp]; exact RequestPlace.fallback_todo_le a rest errors res⟩
  | racing futs running attemptedAny errors =>
    cases running with
    | cons a post =>
      have hp' : r.place = .racing futs ([] ++ a :: post) attemptedAny errors := hp
      refine .inr (h.exists_act hnodup htold (by rw [hp]; rfl) (fun res hres => ?_)
        fun e conns' hd => ?_)
      · exact ⟨_, .raceAnswered hp' hres, RequestPlace.race_lives futs a _ attemptedAny errors _,
          by simp, by rw [hp]; exact RequestPlace.race_todo_le futs a _ attemptedAny errors _⟩
      · let res : Except BorsaError V :=
          providerCallWithTimeout a.connector.name r.request.capability none
        exact ⟨_, .raceTimedOut hp' hd, RequestPlace.race_lives futs a _ attemptedAny errors res,
          by simp, by rw [hp]; exact RequestPlace.race_todo_le futs a _ attemptedAny errors res⟩
    | nil =>
      refine .inr (.inl ?_)
      cases futs with
      | nil =>
        refine ⟨_, _, _, .raceOver hp, trivial, ?_⟩
        rw [work, work, hp]
        exact Nat.one_pos
      | cons x futs =>
        obtain ⟨c, k⟩ := x
        rw [Follows, hp] at hfollows
        obtain ⟨came, hraces⟩ := hfollows
        have hk := hloc c k (Request.provider_of_mem_futs (hraces.perm.subset (by simp)))
        obtain ⟨a, e, conns', rfl, rfl, hs, hweight⟩ := Ask.exists_starts hk c r.request.origin
        have hp' : r.place = .racing ([] ++ (a.connector, a.stack) :: futs) [] attemptedAny errors :=
          hp
        refine ⟨_, _, _, .start hp' hs, trivial, ?_⟩
        rw [work, work, hp]
        simp only [RequestPlace.todo, RequestPlace.running, List.length_cons, List.map_cons,
          List.map_nil, List.sum_cons, List.sum_nil, List.nil_append, hweight]
        omega
  | ending running answer =>
    cases answer with
    | none =>
      rw [hp] at hlives
      exact hlives.elim
    | some res =>
      cases running with
      | nil => exact .inl ⟨res, rfl⟩
      | cons a post =>
        have hp' : r.place = .ending ([] ++ a :: post) (some res) := hp
        refine .inr (h.exists_act hnodup htold (by rw [hp]; rfl) (fun res hres => ?_)
          fun e conns' hd => ?_)
        · exact ⟨_, .forget hp' hres, trivial, rfl, Nat.zero_le _⟩
        · exact ⟨_, .drop hp' hd, trivial, rfl, Nat.zero_le _⟩

end RequestState

/-! ## A deployment -/

namespace Deployment

variable [DecidableEq K] [DecidableEq E] {self : Borsa K E} {s s' : Deployment K E V}
  {e : DeploymentEvent V} {i : ℕ}

/-- What every reachable deployment satisfies. -/
structure Healthy (borsa : Borsa K E) (s : Deployment K E V) : Prop where
  owns : s.Owns
  follows : ∀ r ∈ s.requests, r.Follows borsa s.conns
  located : ∀ r ∈ s.requests, r.request.Located s.conns
  told : ∀ st ∈ s.conns, st.Told

theorem Healthy.step (h : s.Healthy self) (hstep : Step self s e s') : s'.Healthy self := by
  have hlength : s'.conns.length = s.conns.length := by
    rcases hstep.stackStep with heq | ⟨k, e, hst⟩
    · rw [heq]
    · exact hst.length
  refine ⟨h.owns.step hstep, hstep.follows h.follows, ?_, ?_⟩
  · have hkeep {req : Request K E V} (hloc : req.Located s.conns) : req.Located s'.conns :=
      fun c k hk => hlength ▸ hloc c k hk
    cases hstep with
    | receive req hk =>
      rw [List.forall_mem_append, List.forall_mem_singleton]
      exact ⟨h.located, hk⟩
    | @request i r r' traffic conns' hr hreq =>
      intro r₁ hr₁
      rcases List.mem_or_eq_of_mem_set hr₁ with hr₁ | rfl
      · exact hkeep (h.located r₁ hr₁)
      · rw [hreq.request]
        exact hkeep (h.located r (List.mem_of_getElem? hr))
    | stack hst hown => exact fun r hr => hkeep (h.located r hr)
  · rcases hstep.stackStep with heq | ⟨k, e, st, st', hst, hstep, heq⟩
    · rw [heq]
      exact h.told
    · rw [heq]
      intro st₁ hst₁
      rcases List.mem_or_eq_of_mem_set hst₁ with hst₁ | rfl
      · exact h.told st₁ hst₁
      · exact (h.told st (List.mem_of_getElem? hst)).step hstep

/-- The event is a step of the request, or a blacklist stores the deadline of a call that the request
waits for. -/
def Concerns (s : Deployment K E V) (i : ℕ) : DeploymentEvent V → Prop
  | .receive => False
  | .request j _ => j = i
  | .stack k e => e.act = .report ∧
      ∃ r, s.requests[i]? = some r ∧ ∃ a ∈ r.place.running, (k, e.id) = a.key

/-- What the request has still to do. -/
def work (s : Deployment K E V) (i : ℕ) : ℕ := (s.requests[i]?).elim 0 fun r => r.work s.conns

theorem healthy_of_path {conns : List (StackTraffic V)} (hconns : ∀ st ∈ conns, st.calls = [])
    {tr : List (LTS.Step (Deployment K E V) (DeploymentEvent V))}
    (hrun : Path (Step self) (start K E conns) tr s) : s.Healthy self := by
  have hnil : Path (Step self) (start K E conns) [] (start K E conns) := .nil
  refine hrun.inv (I := Healthy self) ⟨owns_of_path hnil, follows_of_path hnil, ?_, ?_⟩
    fun _ _ _ h => h.step
  · exact fun _ hr => absurd hr List.not_mem_nil
  · intro st hst c hc
    rw [hconns st hst] at hc
    exact absurd hc List.not_mem_nil

/-- A request that has not been dropped has an answer and no call under way, or a step leaves it less to
do. -/
theorem Healthy.exists_step (h : s.Healthy self) {r : RequestState K E V}
    (hr : s.requests[i]? = some r) (hlives : r.place.Lives) :
    (∃ res, r.place = .ending [] (some res)) ∨ ∃ e s' r', (Step self s e s' ∧ s.Concerns i e) ∧
      s'.requests[i]? = some r' ∧ r'.place.Lives ∧ s'.work i < s.work i := by
  have hmem := List.mem_of_getElem? hr
  obtain ⟨hlt, -⟩ := List.getElem?_eq_some_iff.1 hr
  have hwork : s.work i = r.work s.conns := by
    rw [work, hr]
    rfl
  rw [hwork]
  rcases RequestState.exists_step (h.owns.holds r hmem) (h.owns.running_nodup hmem) h.told
    (h.follows r hmem) (h.located r hmem) hlives with
    hend | ⟨traffic, conns', r', hstep, hlives', hless⟩ |
      ⟨a, ha, e, conns', hstep, hact, hid, hless⟩
  · exact .inl hend
  · have hr' := List.getElem?_set_self (a := r') hlt
    refine .inr ⟨_, _, r', ⟨.request hr hstep, rfl⟩, hr', hlives', ?_⟩
    rw [work, hr']
    exact hless
  · have hkey : (a.stack, e.id) = a.key := Prod.ext rfl hid
    refine .inr ⟨_, _, r, ⟨.stack hstep fun hdrop => ?_, hact, r, hr, a, ha, hkey⟩, hr, hlives, ?_⟩
    · cases hact.symm.trans hdrop
    · rw [work, hr]
      exact hless

/-- Whatever has happened, a request that waits can come to an answer, with no call left under way, by
steps of its own alone, but for blacklists that store the deadline of one of its calls. -/
theorem exists_answer {conns : List (StackTraffic V)} (hconns : ∀ st ∈ conns, st.calls = [])
    {tr : List (LTS.Step (Deployment K E V) (DeploymentEvent V))}
    (hrun : Path (Step self) (start K E conns) tr s) {r : RequestState K E V}
    (hr : s.requests[i]? = some r) (hwaits : r.place.Waits) :
    ∃ tr' s' r' res, Path (fun s e s' => Step self s e s' ∧ s.Concerns i e) s tr' s' ∧
      s'.requests[i]? = some r' ∧ r'.place = .ending [] (some res) := by
  have hlives : r.place.Lives := by
    cases hp : r.place with
    | ending running answer =>
      rw [hp] at hwaits
      exact hwaits.elim
    | _ => trivial
  have hprogress : ∀ s : Deployment K E V,
      (s.Healthy self ∧ ∃ r, s.requests[i]? = some r ∧ r.place.Lives) →
      (∃ r res, s.requests[i]? = some r ∧ r.place = .ending [] (some res)) ∨
      ∃ e s', (Step self s e s' ∧ s.Concerns i e) ∧
        (s'.Healthy self ∧ ∃ r, s'.requests[i]? = some r ∧ r.place.Lives) ∧
          s'.work i < s.work i := by
    rintro s ⟨hhealthy, r, hr, hlives⟩
    rcases hhealthy.exists_step hr hlives with ⟨res, hend⟩ | ⟨e, s', r', hstep, hr', hlives', hlt⟩
    · exact .inl ⟨r, res, hr, hend⟩
    · exact .inr ⟨e, s', hstep, ⟨hhealthy.step hstep.1, r', hr', hlives'⟩, hlt⟩
  obtain ⟨tr', s', hpath, -, r', res, hr', hend⟩ := LTS.Path.exists_of_measure
    (fun s : Deployment K E V => s.work i) hprogress ⟨healthy_of_path hconns hrun, r, hr, hlives⟩
  exact ⟨tr', s', r', res, hpath, hr', hend⟩

end Deployment

end

/-- The request has just been made, and no provider ever answers. -/
theorem pair_exists_answer : ∃ tr' s' r' res,
    Path (fun s e s' => Deployment.Step pairRouter s e s' ∧ s.Concerns 0 e)
      ⟨[.start ℕ 0 [], .start ℕ 0 []], [pairRequest.received pairRouter]⟩ tr' s' ∧
    s'.requests[0]? = some r' ∧ r'.place = .ending [] (some res) := by
  have hrun := LTS.Path.single (R := Deployment.Step pairRouter)
    (.receive (.start Unit Unit [.start ℕ 0 [], .start ℕ 0 []]) pairRequest
      pairRequest_provider_lt)
  exact Deployment.exists_answer (fun st hst => by
    rcases List.mem_pair.1 hst with rfl | rfl <;> rfl) hrun rfl trivial

end Borsa
