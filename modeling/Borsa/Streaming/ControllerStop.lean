import Borsa.Streaming.Stream
import Borsa.Streaming.Terminal

/-!
# A controller on its way down

What a controller and its tasks still do once they see the stop. A session that is told to stop
leaves its loop in its next iteration, and takes no other update to send before it does
(`Controller.Step.pending_eq`); where the stop broadcast was dropped without a `true` it turns at its
`select!` for ever (`Controller.Step.not_loose`). Every step that is left brings the controller nearer
to its end (`Controller.exists_step_of_movable`), and of a controller that is gone although nobody
aborted it nothing is left (`Controller.Reached.down`).
-/

namespace Borsa

variable {K E : Type}

/-! ## What a task is worth -/

namespace TaskPlace

/-- How many steps the task is from its end, while it takes nothing from its provider. -/
def weight : TaskPlace → Nat
  | .sending _ => 3
  | .selecting => 2
  | .stopping .. => 1
  | .ended _ => 0

/-- The task goes on to its end although the stop broadcast was dropped without a `true`. -/
def Loose (receiverDropped : Bool) : TaskPlace → Prop
  | .selecting => False
  | .sending _ => receiverDropped = true
  | .stopping .. | .ended _ => True

/-- The task can take a step towards its end. -/
def Movable (sig : Signals) : TaskPlace → Prop
  | .selecting => sig.stopped = true
  | .sending _ => sig.receiverDropped = true ∨ sig.room = true
  | .stopping .. | .ended _ => True

end TaskPlace

namespace SessionTask

/-- The update the task is sending, in the stream of the controller `i`. -/
def pending (i : Nat) (t : SessionTask) : Multiset Sent :=
  match t.place with
  | .sending u => {⟨i, t.id, u⟩}
  | .selecting | .stopping .. | .ended _ => 0

variable {t t' : SessionTask} {sig : Signals}

theorem pending_of_done (h : t.Done) (i : Nat) : t.pending i = 0 := by
  obtain ⟨n, hn⟩ := h
  rw [pending, hn]

/-- A session that is told to stop leaves its loop in its next iteration. -/
theorem poll_of_stopped (params : SessionParams) (now : Nat) (gate : MonotonicGate)
    (hp : t.place = .selecting) (hs : sig.stopped = true) :
    ∃ t', t.poll params sig now gate = some (t', gate) ∧ t'.place = .stopping true false := by
  have hv : (t.state sig gate).stopWatch.value = true := hs
  unfold poll
  rw [hp]
  dsimp only
  unfold Borsa.poll
  by_cases hc : (t.state sig gate).stopWatch.changedReady = true
  · rw [if_pos hc]
    dsimp only
    rw [if_pos hv]
    exact ⟨_, rfl, rfl⟩
  · rw [if_neg hc, if_pos hv]
    exact ⟨_, rfl, rfl⟩

/-- A session whose stop broadcast was dropped without a `true` stays at its `select!`. -/
theorem poll_of_dropped {params : SessionParams} {now : Nat} {gate gate' : MonotonicGate}
    (hs : sig.stopped = false) (hd : sig.senderDropped = true)
    (h : t.poll params sig now gate = some (t', gate')) : t'.place = .selecting := by
  have hp := (advances_of_poll h).2.1
  have hc : (t.state sig gate).stopWatch.changedReady = true := by
    simp [state, StopWatch.changedReady, hs, hd]
  unfold poll at h
  rw [hp] at h
  dsimp only at h
  unfold Borsa.poll at h
  rw [if_pos hc] at h
  dsimp only at h
  rw [if_neg (by simp [state, hs])] at h
  cases h
  rfl

end SessionTask

namespace Controller

variable {params : KindSupervisorParams K E} {enforceMonotonic : Bool} {sig : Signals}
  {c c' : Controller K E} {label : ControllerLabel} {sent : Option (Nat × Update)}

/-! ## What the steps of a controller do to its tasks -/

/-- A controller that goes away sends its tasks stop signals. -/
theorem core_leave (c : Controller K E) :
    c.leave.tasks.map SessionTask.core = c.tasks.map SessionTask.core :=
  core_stopSessions c fun _ => true

/-- Actions send stop signals to the tasks and nothing else. -/
theorem core_perform (c : Controller K E) (actions : List (Action K E)) :
    (c.perform actions).tasks.map SessionTask.core = c.tasks.map SessionTask.core ∧
      (c.perform actions).aborted = c.aborted := by
  induction actions generalizing c with
  | nil => exact ⟨rfl, rfl⟩
  | cons a actions ih =>
    cases a with
    | requestStart id instruments =>
      exact ih { c with starting := c.starting ++ [(id, symbolsOf instruments)] }
    | stopAll =>
      have h := ih (c.stopSessions fun _ => true)
      exact ⟨h.1.trans (core_stopSessions ..), h.2⟩
    | awaitAll => exact ⟨rfl, rfl⟩
    | notifyInitial tx result =>
      rw [perform]
      dsimp only
      split
      · exact ⟨core_leave { c with report := some result }, rfl⟩
      · exact ih { c with report := some result }
    | scheduleBackoffTick delayMs => exact ih c
    | preemptSessions providerIds =>
      have h := ih (c.stopSessions fun id => providerIds.contains id)
      exact ⟨h.1.trans (core_stopSessions ..), h.2⟩

/-- The session that the controller spawns when it receives the event. -/
def spawnedBy : Event → List SessionTask
  | .providerStartSucceeded id symbols => [.new id symbols]
  | .providerStartFailed .. | .sessionEnded .. | .backoffTick | .downstreamClosed | .shutdown => []

theorem mem_spawnedBy {e : Event} {t : SessionTask} : t ∈ spawnedBy e ↔
    ∃ id symbols, e = .providerStartSucceeded id symbols ∧ t = .new id symbols := by
  cases e <;> simp [spawnedBy]

/-- A turn spawns a session for a start that succeeded, and sends stop signals to the others. -/
theorem core_turn (c : Controller K E) (e : Event) :
    (c.turn e).tasks.map SessionTask.core = (c.tasks ++ spawnedBy e).map SessionTask.core ∧
      (c.turn e).aborted = c.aborted := by
  have hperf := core_perform { c.receive e with sup := (c.sup.handle e).1 } (c.sup.handle e).2
  cases e with
  | providerStartSucceeded id symbols =>
    refine ⟨hperf.1.trans ?_, hperf.2⟩
    rw [List.map_append]
    refine Eq.trans (List.map_append ..) (congrArg (· ++ _) ?_)
    exact core_stopSessions ..
  | providerStartFailed | sessionEnded | backoffTick | downstreamClosed | shutdown =>
    exact ⟨hperf.1.trans (by rw [spawnedBy, List.append_nil]; rfl), hperf.2⟩

/-- The task at a place of a list of tasks that differ in their stop signals. -/
theorem exists_of_core {tasks tasks' : List SessionTask}
    (h : tasks'.map SessionTask.core = tasks.map SessionTask.core) {t' : SessionTask}
    (ht : t' ∈ tasks') : ∃ t ∈ tasks, t'.core = t.core := by
  have hm : t'.core ∈ tasks.map SessionTask.core := h ▸ List.mem_map_of_mem ht
  obtain ⟨t, ht, heq⟩ := List.mem_map.1 hm
  exact ⟨t, ht, heq.symm⟩

/-- A shutdown leaves the loop, and sends stop signals to the tasks. -/
theorem turn_shutdown (c : Controller K E) : (c.turn .shutdown).place = .awaiting ∧
    (c.turn .shutdown).tasks.map SessionTask.core = c.tasks.map SessionTask.core := by
  obtain ⟨reqs, -, -, -, hacts, -⟩ := c.sup.handle_cases .shutdown
  rw [Supervisor.transition_stop _ (.inl rfl)] at hacts
  rw [turn, hacts]
  exact ⟨rfl, core_stopSessions { c with sup := (c.sup.handle .shutdown).1 } fun _ => true⟩

/-! ## What a controller is worth -/

/-- The updates the tasks are sending. -/
def pending (i : Nat) (c : Controller K E) : Multiset Sent :=
  (c.tasks.map (SessionTask.pending i)).sum

/-- How many steps the controller and its tasks are from their end. -/
def weight (c : Controller K E) : Nat :=
  (c.tasks.map (·.place.weight)).sum +
    match c.place with
    | .looping => 2
    | .awaiting => 1
    | .gone => 0

/-- Nothing of the controller runs any more. -/
def Down (c : Controller K E) : Prop := c.place = .gone ∧ ∀ t ∈ c.tasks, t.Done

/-- What tasks add up to does not depend on their stop signals. -/
theorem sum_of_core {M : Type} [AddCommMonoid M] (f : SessionTask → M) (hf : ∀ t, f t.core = f t)
    {tasks tasks' : List SessionTask}
    (h : tasks'.map SessionTask.core = tasks.map SessionTask.core) :
    (tasks'.map f).sum = (tasks.map f).sum := by
  have hfac : ∀ l : List SessionTask, (l.map f).sum = ((l.map SessionTask.core).map f).sum := by
    intro l
    rw [List.map_map]
    exact congrArg List.sum (List.map_congr_left fun t _ => (hf t).symm)
  rw [hfac tasks', h, ← hfac]

theorem pending_turn (c : Controller K E) (e : Event) (i : Nat) :
    (c.turn e).pending i = c.pending i := by
  have hzero : ((spawnedBy e).map (SessionTask.pending i)).sum = 0 := by cases e <;> rfl
  refine (sum_of_core (SessionTask.pending i) (fun _ => rfl) (core_turn c e).1).trans ?_
  rw [List.map_append, List.sum_append, hzero, add_zero]
  rfl

theorem pending_leave (c : Controller K E) (i : Nat) : c.leave.pending i = c.pending i :=
  sum_of_core (SessionTask.pending i) (fun _ => rfl) c.core_leave

/-- After the stop no task takes another update to send: what is sent was being sent before, and
only once nobody receives is an update dropped instead. -/
theorem Step.pending_eq (h : Step params enforceMonotonic sig c label c' sent)
    (hs : sig.stopped = true) (i : Nat) : ∃ dropped : Multiset Sent,
      c.pending i = c'.pending i + (sent.map fun x => (⟨i, x.1, x.2⟩ : Sent)).toList + dropped ∧
        (sig.receiverDropped = false → dropped = 0) := by
  -- A step that sends nothing and leaves what is being sent.
  have quiet : sent = none → c'.pending i = c.pending i → ∃ dropped : Multiset Sent,
      c.pending i = c'.pending i + (sent.map fun x => (⟨i, x.1, x.2⟩ : Sent)).toList + dropped ∧
        (sig.receiverDropped = false → dropped = 0) := by
    intro hsent heq
    exact ⟨0, by simp [hsent, heq], fun _ => rfl⟩
  -- A step of the task `j`.
  have moved : ∀ {j : Nat} {t t' : SessionTask}, c.tasks[j]? = some t →
      (c.setTask j t').tasks = c'.tasks → t'.pending i = t.pending i →
      c'.pending i = c.pending i := by
    intro j t t' ht htasks heq
    obtain ⟨rest, hl, hset⟩ := Slots.exists_sum_set (SessionTask.pending i) ht
    rw [pending, pending, ← htasks, hl, ← heq]
    exact hset t'
  cases h with
  | answered | abort | reap => exact quiet rfl rfl
  | turn => exact quiet rfl (pending_turn ..)
  | awaited | cancelled => exact quiet rfl (pending_leave ..)
  | arrive ht | close ht => exact quiet rfl (moved ht rfl rfl)
  | @poll j now t t' gate ht hpoll =>
    refine quiet rfl (moved ht rfl ?_)
    have hp := (SessionTask.advances_of_poll hpoll).2.1
    obtain ⟨t'', hpoll', hp'⟩ := SessionTask.poll_of_stopped
      (sessionParams params enforceMonotonic t) now (c.gates t.id) hp hs
    rw [hpoll] at hpoll'
    cases hpoll'
    rw [SessionTask.pending, SessionTask.pending, hp, hp']
  | @send j t t' sent ht hsend =>
    obtain ⟨u, hp, hcases⟩ := SessionTask.send_cases hsend
    obtain ⟨rest, hl, hset⟩ := Slots.exists_sum_set (SessionTask.pending i) ht
    have hset' : (c.setTask j t').pending i = t'.pending i + rest := hset t'
    have hp' : t.pending i = {⟨i, t.id, u⟩} := by rw [SessionTask.pending, hp]
    rcases hcases with ⟨hr, rfl, rfl⟩ | ⟨-, -, rfl, rfl⟩
    · refine ⟨{⟨i, t.id, u⟩}, ?_, fun hr' => ?_⟩
      · rw [hset', pending, hl, hp']
        simp [SessionTask.pending, add_comm]
      · rw [hr] at hr'
        cases hr'
    · refine ⟨0, ?_, fun _ => rfl⟩
      rw [hset', pending, hl, hp']
      simp [SessionTask.pending, add_comm]
  | @finish j t t' gate notify ht hfin =>
    obtain ⟨reset, hp, rfl⟩ := SessionTask.finish_cases hfin
    refine quiet rfl (moved ht rfl ?_)
    rw [SessionTask.pending, SessionTask.pending, hp]

/-- Of a controller that is down nothing is left that could send. -/
theorem Down.step (hd : c.Down) (h : Step params enforceMonotonic sig c label c' sent) :
    c'.Down ∧ sent = none := by
  obtain ⟨hplace, hdone⟩ := hd
  -- A task that takes a step of its own has not completed.
  have notDone : ∀ {j : Nat} {t : SessionTask}, c.tasks[j]? = some t → ¬ t.Done → False :=
    fun ht hn => hn (hdone _ (List.mem_of_getElem? ht))
  have moved : ∀ {j : Nat} {t t' : SessionTask}, c.tasks[j]? = some t → t'.place = t.place →
      (c.setTask j t').Down := by
    intro j t t' ht heq
    refine ⟨hplace, fun s hs => ?_⟩
    rcases List.mem_or_eq_of_mem_set hs with hs | rfl
    · exact hdone s hs
    · unfold SessionTask.Done
      rw [heq]
      exact hdone t (List.mem_of_getElem? ht)
  cases h with
  | answered | abort | reap => exact ⟨⟨hplace, hdone⟩, rfl⟩
  | turn hp | awaited hp => cases hplace.symm.trans hp
  | cancelled _ hp => exact absurd hplace hp
  | arrive ht | close ht => exact ⟨moved ht rfl, rfl⟩
  | poll ht hpoll =>
    exact (notDone ht (SessionTask.not_done_of_place (SessionTask.advances_of_poll hpoll).2.1
      nofun)).elim
  | send ht hsend => exact (notDone ht (SessionTask.advances_of_send hsend).2.1).elim
  | finish ht hfin =>
    obtain ⟨reset, hp, -⟩ := SessionTask.finish_cases hfin
    exact (notDone ht (SessionTask.not_done_of_place hp nofun)).elim

/-! ## Coming down -/

/-- A step of the task `j`, which brings it nearer to its end. -/
theorem weight_setTask_lt {j : Nat} {t t' : SessionTask} (ht : c.tasks[j]? = some t)
    (hw : t'.place.weight < t.place.weight) : (c.setTask j t').weight < c.weight := by
  obtain ⟨rest, hl, hset⟩ := Slots.exists_sum_set (·.place.weight) ht
  have hset' : ((c.setTask j t').tasks.map (·.place.weight)).sum = t'.place.weight + rest := hset t'
  rw [weight, weight, hl, hset']
  simp only [setTask]
  omega

theorem weight_leave_lt (hp : c.place ≠ .gone) : c.leave.weight < c.weight := by
  rw [weight, weight, sum_of_core (·.place.weight) (fun _ => rfl) c.core_leave]
  cases hplace : c.place with
  | looping | awaiting => simp [leave]
  | gone => exact absurd hplace hp

/-- A controller whose tasks can all move takes, while it sees the stop, a step towards its end. -/
theorem exists_step_of_movable (params : KindSupervisorParams K E) (enforceMonotonic : Bool)
    (sig : Signals) (hs : sig.stopped = true ∨ sig.senderDropped = true)
    (hm : ∀ t ∈ c.tasks, t.place.Movable sig) (hd : ¬ c.Down) :
    ∃ label c' sent, Step params enforceMonotonic sig c label c' sent ∧
      label ≠ .abort ∧ c'.weight < c.weight ∧
      ((∀ t ∈ c.tasks, t.place.Loose sig.receiverDropped) →
        ∀ t ∈ c'.tasks, t.place.Loose sig.receiverDropped) := by
  -- A step of the task `j`.
  have moved : ∀ {j : Nat} {t t' : SessionTask}, c.tasks[j]? = some t →
      (t.place.Loose sig.receiverDropped → t'.place.Loose sig.receiverDropped) →
      (∀ t ∈ c.tasks, t.place.Loose sig.receiverDropped) →
      ∀ t ∈ (c.setTask j t').tasks, t.place.Loose sig.receiverDropped := by
    intro j t t' ht hloose hall s hs
    rcases List.mem_or_eq_of_mem_set hs with hs | rfl
    · exact hall s hs
    · exact hloose (hall t (List.mem_of_getElem? ht))
  -- A step that only sends stop signals.
  have kept : ∀ {tasks : List SessionTask},
      tasks.map SessionTask.core = c.tasks.map SessionTask.core →
      (∀ t ∈ c.tasks, t.place.Loose sig.receiverDropped) →
      ∀ t ∈ tasks, t.place.Loose sig.receiverDropped := by
    intro tasks hcore hall t' ht'
    obtain ⟨t, ht, heq⟩ := exists_of_core hcore ht'
    rw [SessionTask.place_of_core heq]
    exact hall t ht
  by_cases hall : ∀ t ∈ c.tasks, t.Done
  · cases hp : c.place with
    | looping =>
      obtain ⟨hplace, hcore⟩ := c.turn_shutdown
      refine ⟨_, _, _, .turn (e := .shutdown) hp hs, nofun, ?_, kept hcore⟩
      rw [weight, weight, sum_of_core (·.place.weight) (fun _ => rfl) hcore, hplace, hp]
      simp
    | awaiting =>
      refine ⟨_, _, _, .awaited hp fun _ _ t _ ht => hall t (List.mem_of_getElem? ht), nofun,
        weight_leave_lt (by simp [hp]), kept c.core_leave⟩
    | gone => exact absurd ⟨hp, hall⟩ hd
  · push Not at hall
    obtain ⟨t, ht, hn⟩ := hall
    have hmt := hm t ht
    obtain ⟨j, hj⟩ := List.mem_iff_getElem?.1 ht
    cases hp : t.place with
    | selecting =>
      rw [hp] at hmt
      obtain ⟨t', hpoll, hp'⟩ := SessionTask.poll_of_stopped
        (sessionParams params enforceMonotonic t) 0 (c.gates t.id) hp hmt
      exact ⟨_, _, _, .poll hj hpoll, nofun, weight_setTask_lt (c := c) hj (by rw [hp, hp']; decide),
        moved hj fun _ => hp' ▸ trivial⟩
    | sending u =>
      rw [hp] at hmt
      by_cases hr : sig.receiverDropped = true
      · have hsend : t.send sig = some ({ t with place := .stopping false false }, none) := by
          rw [SessionTask.send, hp]
          exact if_pos hr
        exact ⟨_, _, _, .send hj hsend, nofun,
          weight_setTask_lt hj (by rw [hp]; exact Nat.lt_of_sub_eq_succ rfl), moved hj fun _ => trivial⟩
      · have hsend : t.send sig =
            some ({ t with place := .selecting, forwarded := t.forwarded ++ [u] }, some u) := by
          rw [SessionTask.send, hp]
          exact (if_neg hr).trans (if_pos (hmt.resolve_left hr))
        refine ⟨_, _, _, .send hj hsend, nofun,
          weight_setTask_lt hj (by rw [hp]; exact Nat.lt_of_sub_eq_succ rfl), moved hj fun hl => ?_⟩
        rw [hp] at hl
        exact absurd hl hr
    | stopping notify reset =>
      obtain ⟨gate, hfin⟩ : ∃ gate, t.finish (sessionParams params enforceMonotonic t)
          (c.gates t.id) = some ({ t with place := .ended notify }, gate, notify) :=
        ⟨_, by rw [SessionTask.finish, hp]⟩
      exact ⟨_, _, _, .finish hj hfin, nofun,
        weight_setTask_lt (c := c) hj (by rw [hp]; exact Nat.zero_lt_one), moved hj fun _ => trivial⟩
    | ended n => exact absurd ⟨n, hp⟩ hn

/-- A session that turns at its `select!` for ever, or is about to: no step of its controller loses
it while the stop broadcast stays dropped without a `true`. -/
theorem Step.not_loose (h : Step params enforceMonotonic sig c label c' sent)
    (hs : sig.stopped = false) (hd : sig.senderDropped = true)
    (hl : ∃ t ∈ c.tasks, ¬ t.place.Loose sig.receiverDropped) :
    ∃ t ∈ c'.tasks, ¬ t.place.Loose sig.receiverDropped := by
  obtain ⟨t, ht, hn⟩ := hl
  -- The tasks of before are there, but for their stop signals.
  have kept : ∀ {tasks spawned : List SessionTask},
      tasks.map SessionTask.core = (c.tasks ++ spawned).map SessionTask.core →
      ∃ t ∈ tasks, ¬ t.place.Loose sig.receiverDropped := by
    intro tasks spawned hcore
    obtain ⟨t', ht', heq⟩ := exists_of_core hcore.symm (List.mem_append_left spawned ht)
    exact ⟨t', ht', by rwa [SessionTask.place_of_core heq.symm]⟩
  -- A step of a task.
  have moved : ∀ {j : Nat} {s s' : SessionTask}, c.tasks[j]? = some s →
      (¬ s.place.Loose sig.receiverDropped → ¬ s'.place.Loose sig.receiverDropped) →
      ∃ t ∈ (c.setTask j s').tasks, ¬ t.place.Loose sig.receiverDropped := by
    intro j s s' hj hloose
    have hlt := (List.getElem?_eq_some_iff.1 hj).1
    by_cases hts : s.place.Loose sig.receiverDropped
    · refine ⟨t, ?_, hn⟩
      obtain ⟨k, hk⟩ := List.mem_iff_getElem?.1 ht
      have hne : j ≠ k := by
        rintro rfl
        cases hj.symm.trans hk
        exact hn hts
      exact List.mem_of_getElem? ((List.getElem?_set_ne hne).trans hk)
    · exact ⟨s', List.mem_set hlt s', hloose hts⟩
  cases h with
  | answered | abort | reap => exact ⟨t, ht, hn⟩
  | turn => exact kept (core_turn c _).1
  | awaited | cancelled => exact kept (c.core_leave.trans (by rw [List.append_nil]))
  | arrive hj | close hj => exact moved hj id
  | poll hj hpoll =>
    refine moved hj fun _ => ?_
    rw [SessionTask.poll_of_dropped hs hd hpoll]
    exact id
  | send hj hsend =>
    obtain ⟨u, hp, ⟨hr, -⟩ | ⟨-, -, rfl, -⟩⟩ := SessionTask.send_cases hsend
    · exact moved hj fun hns => absurd (hp ▸ hr) hns
    · exact moved hj fun _ => id
  | finish hj hfin =>
    obtain ⟨reset, hp, -⟩ := SessionTask.finish_cases hfin
    exact moved hj fun hns => (hns (hp ▸ trivial)).elim

/-- What is sent finds room in the channel. -/
theorem Step.room (h : Step params enforceMonotonic sig c label c' sent) (hs : sent ≠ none) :
    sig.room = true := by
  cases h with
  | send hj hsend =>
    obtain ⟨u, -, ⟨-, -, rfl⟩ | ⟨-, hroom, -⟩⟩ := SessionTask.send_cases hsend
    · exact absurd rfl hs
    · exact hroom
  | _ => exact absurd rfl hs

/-- Only an abort asks a controller to abort. -/
theorem Step.aborted (h : Step params enforceMonotonic sig c label c' sent) (hl : label ≠ .abort) :
    c'.aborted = c.aborted := by
  cases h with
  | turn => exact (core_turn c _).2
  | abort => exact absurd rfl hl
  | answered | awaited | cancelled | arrive | close | poll | send | finish | reap => rfl

/-- A controller that is gone although nobody aborted it left nothing behind. -/
theorem Reached.down (h : c.Reached params enforceMonotonic) (hp : c.place = .gone)
    (ha : c.aborted = false) : c.Down := by
  by_cases hn : params.providers = []
  · obtain ⟨tr, hpath⟩ := h
    refine hpath.inv (I := Down) ?_ fun c l c' hd hm => ?_
    · rw [launch, if_pos (by simpa using hn)]
      exact ⟨rfl, nofun⟩
    · obtain ⟨sig, sent, hstep⟩ := hm
      exact (hd.step hstep).1
  · obtain ⟨y, hrel⟩ := h.exists_refines hn
    exact ⟨hp, (hrel.settled hp).resolve_left (by simp [ha])⟩

end Controller

end Borsa
