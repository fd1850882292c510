import Borsa.Lib.Simulation
import Borsa.Lib.Slots
import Borsa.Streaming.ControllerTurn

/-!
# A controller with its tasks runs the composed system

`Refines` relates a controller with its tasks to a `System`: while the controller is in its loop, the
starts of the system are those not answered and those whose answer has not been received, and its
sessions are those whose end has not been received. Every step of the controller is a turn of the
system or none of its steps (`simulation`), so what holds along the runs of a `System` holds along
the turns of the controller with its tasks (`Controller.refines`).

The relation carries what the tasks need beyond that: a session that has not completed is the one
that `session_tasks` holds for its provider, and past the loop it has been told to stop.
-/

namespace Borsa

open Supervisor

variable {K E : Type}

/-! ## Steps of a task -/

namespace SessionTask

variable {t t' : SessionTask}

theorem not_done_of_place {place : TaskPlace} (h : t.place = place)
    (hne : ∀ n, place ≠ .ended n) : ¬ t.Done := by
  rintro ⟨n, hn⟩
  exact hne n (h.symm.trans hn)

/-- A session that has not completed has not told the controller so. -/
theorem notified_of_not_done (h : ¬ t.Done) : t.notified = false := by
  rw [Bool.eq_false_iff]
  intro hn
  exact h ⟨true, by simpa [SessionTask.notified] using hn⟩

/-- What a task's own step changes of it, as its controller sees it. -/
structure Advances (t t' : SessionTask) : Prop where
  id : t'.id = t.id
  symbols : t'.symbols = t.symbols
  sessionStop : t'.sessionStop = t.sessionStop
  done : t.Done → t'.Done
  notified : t.notified = true → t'.notified = true

theorem advances_arrive (t : SessionTask) (updates : List Update) :
    t.Advances { t with queue := t.queue ++ updates } :=
  ⟨rfl, rfl, rfl, fun h => h, fun h => h⟩

theorem advances_close (t : SessionTask) : t.Advances { t with upstreamClosed := true } :=
  ⟨rfl, rfl, rfl, fun h => h, fun h => h⟩

/-- An iteration is of a task at its `select!`, and it is not completed by it. -/
theorem advances_of_poll {params : SessionParams} {sig : Signals} {now : Nat}
    {gate gate' : MonotonicGate} (h : t.poll params sig now gate = some (t', gate')) :
    t.Advances t' ∧ t.place = .selecting ∧ ¬ t'.Done := by
  unfold poll at h
  cases hp : t.place with
  | selecting =>
    rw [hp] at h
    obtain ⟨polled, -, heq⟩ := Option.map_eq_some_iff.1 h
    have hn : ¬ t.Done := not_done_of_place hp nofun
    have hn' := notified_of_not_done hn
    cases polled with
    | running s | sending u s | leaving s notify reset =>
      cases heq
      exact ⟨⟨rfl, rfl, rfl, fun hd => absurd hd hn, fun hd => by rw [hn'] at hd; cases hd⟩, rfl,
        not_done_of_place rfl nofun⟩
  | sending u | stopping notify reset | ended n =>
    rw [hp] at h
    cases h

/-- A send is of a task that is sending, and it is not completed by it. -/
theorem advances_of_send {sig : Signals} {sent : Option Update}
    (h : t.send sig = some (t', sent)) : t.Advances t' ∧ ¬ t.Done ∧ ¬ t'.Done := by
  obtain ⟨u, hp, hcases⟩ := send_cases h
  have hn : ¬ t.Done := not_done_of_place hp nofun
  have hn' := notified_of_not_done hn
  rcases hcases with ⟨-, rfl, -⟩ | ⟨-, -, rfl, -⟩
  · exact ⟨⟨rfl, rfl, rfl, fun hd => absurd hd hn, fun hd => by rw [hn'] at hd; cases hd⟩, hn,
      not_done_of_place rfl nofun⟩
  · exact ⟨⟨rfl, rfl, rfl, fun hd => absurd hd hn, fun hd => by rw [hn'] at hd; cases hd⟩, hn,
      not_done_of_place rfl nofun⟩

/-- A task that stops its provider's stream completes. -/
theorem advances_of_finish {params : SessionParams} {gate gate' : MonotonicGate} {notify : Bool}
    (h : t.finish params gate = some (t', gate', notify)) :
    t.Advances t' ∧ t.notified = false ∧ t'.place = .ended notify := by
  obtain ⟨reset, hp, rfl⟩ := finish_cases h
  have hn : ¬ t.Done := not_done_of_place hp nofun
  have hn' := notified_of_not_done hn
  exact ⟨⟨rfl, rfl, rfl, fun hd => absurd hd hn, fun hd => by rw [hn'] at hd; cases hd⟩, hn', rfl⟩

end SessionTask

/-- Replacing a task by one that is told of alike changes no open session. -/
theorem openSessions_set {tasks : List SessionTask} {j : Nat} {t t' : SessionTask}
    (ht : tasks[j]? = some t) (hadv : t.Advances t') (hn : t'.notified = t.notified) :
    openSessions (tasks.set j t') = openSessions tasks :=
  Slots.filterMap_set_of_eq ht (by rw [hn, hadv.id, hadv.symbols])

namespace Controller

variable {params : KindSupervisorParams K E} {enforceMonotonic : Bool} {c c' : Controller K E}
  {y : System K E}

/-- The starts whose answer the controller has not received. -/
def openStarts (c : Controller K E) : List (Nat × List Symbol) :=
  c.starting ++ c.answers.map fun a => (a.1, a.2.1)

/-- The system is what the controller and its tasks come to. -/
structure Refines (params : KindSupervisorParams K E) (c : Controller K E) (y : System K E) :
    Prop where
  sup : c.sup = y.sup
  reach : y.Reach params
  live : c.place = .looping → y.sup.phase.Live
  starts : c.place = .looping → y.starts.Perm c.openStarts
  sessions : c.place = .looping → y.sessions.Perm (openSessions c.tasks ++ c.sessionEnds)
  /-- `session_tasks` holds every session that has not completed. -/
  held : c.place ≠ .gone → ∀ (j : Nat) (t : SessionTask), c.tasks[j]? = some t → ¬ t.Done →
    c.sessionTasks t.id = some j
  /-- Past the loop every session that has not completed has been told to stop. -/
  told : c.place ≠ .looping → ∀ t ∈ c.tasks, t.Done ∨ t.sessionStop = true
  /-- A controller that returned of itself leaves no session behind. -/
  settled : c.place = .gone → c.aborted = true ∨ ∀ t ∈ c.tasks, t.Done

namespace Refines

/-- A task that takes a step of its own keeps the relation. -/
theorem setTask (h : Refines params c y) {j : Nat} {t t' : SessionTask}
    (ht : c.tasks[j]? = some t) (hadv : t.Advances t') (hn : t'.notified = t.notified) :
    Refines params (c.setTask j t') y := by
  have hopen := openSessions_set ht hadv hn
  refine ⟨h.sup, h.reach, h.live, h.starts, fun hp => ?_, fun hp i s hs hd => ?_, fun hp s hs => ?_,
    fun hp => ?_⟩
  · exact hopen ▸ h.sessions hp
  · rcases getElem?_set_eq_some.1 hs with ⟨rfl, -, rfl⟩ | ⟨-, hs⟩
    · rw [hadv.id]
      exact h.held hp j t ht fun hdone => hd (hadv.done hdone)
    · exact h.held hp i s hs hd
  · rcases List.mem_or_eq_of_mem_set hs with hs | rfl
    · exact h.told hp s hs
    · rw [hadv.sessionStop]
      exact (h.told hp t (List.mem_of_getElem? ht)).imp_left hadv.done
  · refine (h.settled hp).imp_right fun hall s hs => ?_
    rcases List.mem_or_eq_of_mem_set hs with hs | rfl
    · exact hall s hs
    · exact hadv.done (hall t (List.mem_of_getElem? ht))

/-- The gates play no part in the relation. -/
theorem setGate (h : Refines params c y) (id : Nat) (gate : MonotonicGate) :
    Refines params (c.setGate id gate) y :=
  ⟨h.sup, h.reach, h.live, h.starts, h.sessions, h.held, h.told, h.settled⟩

/-- A controller that is cancelled or returns tells every session to stop. -/
theorem leave (h : Refines params c y) (hp : c.place ≠ .gone)
    (hs : c.aborted = true ∨ ∀ t ∈ c.tasks, t.Done) : Refines params c.leave y := by
  have htask : ∀ t' ∈ c.leave.tasks, ∃ (j : Nat) (t : SessionTask), c.tasks[j]? = some t ∧
      t'.core = t.core ∧ (c.sessionTasks t.id = some j → t'.sessionStop = true) := by
    intro t' ht'
    obtain ⟨j, hj⟩ := List.mem_iff_getElem?.1 ht'
    obtain ⟨t, ht, hcore, -, hstop⟩ := exists_of_stopSessions (fun _ => true) hj
    exact ⟨j, t, ht, hcore, hstop rfl⟩
  refine ⟨h.sup, h.reach, nofun, nofun, nofun, fun hne => absurd rfl hne, fun _ t' ht' => ?_,
    fun _ => hs.imp_right fun hall t' ht' => ?_⟩
  · obtain ⟨j, t, ht, hcore, hstop⟩ := htask t' ht'
    rw [SessionTask.done_of_core hcore]
    by_cases hd : t.Done
    · exact .inl hd
    · exact .inr (hstop (h.held hp j t ht hd))
  · obtain ⟨j, t, ht, hcore, -⟩ := htask t' ht'
    exact (SessionTask.done_of_core hcore).2 (hall t (List.mem_of_getElem? ht))

/-- A start that is answered is still open, but for a controller that is gone. -/
theorem answer (h : Refines params c y) {id : Nat} {symbols : List Symbol}
    (hm : (id, symbols) ∈ c.starting) (raised : Option BorsaError) :
    Refines params (c.answer params id symbols raised) y := by
  refine ⟨h.sup, h.reach, h.live, fun hp => (h.starts hp).trans ?_, h.sessions, h.held, h.told,
    h.settled⟩
  have hne : c.place ≠ .gone := by
    intro hg
    cases hg.symm.trans hp
  unfold openStarts Controller.answer
  dsimp only
  rw [if_neg hne, List.map_append, ← List.append_assoc]
  exact ((List.perm_cons_erase hm).append_right _).trans (List.perm_append_singleton ..).symm

/-- A session completes: its end is in the channel, unless it does not tell of it. -/
theorem finish (h : Refines params c y) {j : Nat} {t t' : SessionTask} {notify : Bool}
    (ht : c.tasks[j]? = some t) (hadv : t.Advances t') (hn : t.notified = false)
    (hplace : t'.place = .ended notify) :
    Refines params ((c.setTask j t').tell t notify) y := by
  cases notify with
  | false => exact h.setTask ht hadv (by rw [hn, SessionTask.notified, hplace]; rfl)
  | true =>
    have hn' : t'.notified = true := by rw [SessionTask.notified, hplace]; rfl
    have hdone : t'.Done := ⟨true, hplace⟩
    have hmem : ∀ s ∈ c.tasks.set j t', s ∈ c.tasks ∨ s.Done := by
      intro s hs
      rcases List.mem_or_eq_of_mem_set hs with hs | rfl
      · exact .inl hs
      · exact .inr hdone
    refine ⟨h.sup, h.reach, h.live, h.starts, fun hp => (h.sessions hp).trans ?_,
      fun hp i s hs hd => ?_, fun hp s hs => (hmem s hs).elim (h.told hp s) .inl,
      fun hp => (h.settled hp).imp_right fun hall s hs => (hmem s hs).elim (hall s) id⟩
    · have hperm : (openSessions c.tasks).Perm
          ((t.id, t.symbols) :: openSessions (c.tasks.set j t')) :=
        Slots.filterMap_perm_set ht (by rw [hn]; rfl) (by rw [hn']; rfl)
      have hne : (c.setTask j t').place ≠ .gone := by
        intro hg
        cases hg.symm.trans hp
      refine (hperm.append_right _).trans ?_
      unfold tell
      rw [if_pos ⟨rfl, hne⟩, ← List.append_assoc]
      exact (List.perm_append_singleton ..).symm
    · rcases getElem?_set_eq_some.1 hs with ⟨rfl, -, rfl⟩ | ⟨-, hs⟩
      · exact absurd hdone hd
      · exact h.held hp i s hs hd

/-- Before a session has been active, no session has been spawned that has not completed. -/
theorem done_of_startup (h : Refines params c y) (hp : c.place = .looping)
    {tx : Option InitialSender} {errors : List BorsaError}
    (hstart : c.sup.phase = .startup tx errors) : ∀ t ∈ c.tasks, t.Done := by
  have hnil := (h.reach.starting tx errors (h.sup ▸ hstart)).sessions
  have hperm := h.sessions hp
  rw [hnil, List.nil_perm, List.append_eq_nil_iff] at hperm
  intro t ht
  by_contra hd
  have hn := SessionTask.notified_of_not_done hd
  have hmem : (t.id, t.symbols) ∈ openSessions c.tasks :=
    List.mem_filterMap.2 ⟨t, ht, by rw [hn]; rfl⟩
  rw [hperm.1] at hmem
  cases hmem

/-- An event the controller can receive can arrive at the system. -/
theorem enabled (h : Refines params c y) (hp : c.place = .looping) {sig : Signals} {e : Event}
    (he : c.Ready sig e) : y.Enabled e := by
  cases e with
  | providerStartSucceeded id symbols =>
    exact (h.starts hp).mem_iff.2 (List.mem_append_right _
      (List.mem_map.2 ⟨(id, symbols, none), List.mem_of_head? he, rfl⟩))
  | providerStartFailed id error =>
    obtain ⟨symbols, he⟩ := he
    exact ⟨symbols, (h.starts hp).mem_iff.2 (List.mem_append_right _
      (List.mem_map.2 ⟨(id, symbols, some error), List.mem_of_head? he, rfl⟩))⟩
  | sessionEnded id symbols =>
    exact (h.sessions hp).mem_iff.2 (List.mem_append_right _ (List.mem_of_head? he))
  | backoffTick | downstreamClosed | shutdown => trivial

end Refines

/-! ## Turns -/

theorem eraseP_eq_erase {id : Nat} {symbols : List Symbol} {l : List (Nat × List Symbol)}
    (h : Keyed.atKey l id = [symbols]) :
    l.eraseP (fun x => x.1 == id) = l.erase (id, symbols) := by
  induction l with
  | nil => rfl
  | cons x l ih =>
    rw [Keyed.atKey_cons] at h
    obtain ⟨k, syms⟩ := x
    by_cases hk : k = id
    · subst hk
      rw [if_pos rfl] at h
      obtain ⟨rfl, -⟩ := List.cons.inj h
      simp
    · rw [if_neg hk] at h
      rw [List.eraseP_cons_of_neg (by simpa using hk),
        List.erase_cons_tail (by simpa using fun heq => absurd heq hk), ih h]

/-- What an event leaves open of the starts. -/
theorem openStarts_receive (h : Refines params c y) (hp : c.place = .looping) {sig : Signals}
    {e : Event} (he : c.Ready sig e) : (y.startsAfter e).Perm (c.receive e).openStarts := by
  have hperm := h.starts hp
  -- The answer received is the head of the channel.
  have herase : ∀ {id : Nat} {symbols : List Symbol} {error : Option BorsaError},
      c.answers.head? = some (id, symbols, error) → (y.starts.erase (id, symbols)).Perm
        (c.starting ++ c.answers.tail.map fun a => (a.1, a.2.1)) := by
    intro id symbols error hhead
    have heq := List.cons_head?_tail hhead
    have hopen : c.openStarts.Perm
        ((id, symbols) :: (c.starting ++ c.answers.tail.map fun a => (a.1, a.2.1))) := by
      unfold openStarts
      conv => lhs; rw [← heq]
      exact List.perm_middle
    have herase := (hperm.trans hopen).erase (id, symbols)
    rwa [List.erase_cons_head] at herase
  cases e with
  | providerStartSucceeded id symbols => exact herase he
  | providerStartFailed id error =>
    obtain ⟨symbols, he⟩ := he
    have hm : (id, symbols) ∈ y.starts := hperm.mem_iff.2 (List.mem_append_right _
      (List.mem_map.2 ⟨(id, symbols, some error), List.mem_of_head? he, rfl⟩))
    have hag := h.reach.agrees
    have hkey := (hag.atKey_eq (hag.connecting hm)).1
    rw [System.startsAfter, eraseP_eq_erase hkey]
    exact herase he
  | sessionEnded | backoffTick | downstreamClosed | shutdown => exact hperm

/-- What an event leaves open of the sessions; a start that succeeded opens one. -/
theorem openSessions_receive (h : Refines params c y) (hp : c.place = .looping) {sig : Signals}
    {e : Event} (he : c.Ready sig e) : (y.sessionsAfter e).Perm
      (openSessions (c.receive e).tasks ++ (c.receive e).sessionEnds) := by
  have hperm := h.sessions hp
  cases e with
  | providerStartSucceeded id symbols =>
    have hopen : openSessions (c.receive (.providerStartSucceeded id symbols)).tasks =
        openSessions c.tasks ++ [(id, symbols)] := by
      rw [receive, spawn, openSessions_append]
      congr 1
      exact openSessions_of_core (core_stopSessions ..)
    rw [hopen, System.sessionsAfter, List.append_assoc]
    refine (hperm.append_right _).trans ?_
    rw [List.append_assoc]
    exact (List.perm_append_singleton (id, symbols) c.sessionEnds).append_left _
  | sessionEnded id symbols =>
    have heq := List.cons_head?_tail he
    have hopen : (openSessions c.tasks ++ c.sessionEnds).Perm
        ((id, symbols) :: (openSessions c.tasks ++ c.sessionEnds.tail)) := by
      conv => lhs; rw [← heq]
      exact List.perm_middle
    have herase := (hperm.trans hopen).erase (id, symbols)
    rwa [List.erase_cons_head] at herase
  | providerStartFailed | backoffTick | downstreamClosed | shutdown => exact hperm

/-- A session that is spawned is the one `session_tasks` holds, and whatever it held before of that
provider has completed. -/
theorem held_receive (h : Refines params c y) (hp : c.place = .looping) {sig : Signals} {e : Event}
    (he : c.Ready sig e) : ∀ (j : Nat) (t : SessionTask), (c.receive e).tasks[j]? = some t →
      ¬ t.Done → (c.receive e).sessionTasks t.id = some j := by
  have hne : c.place ≠ .gone := by
    intro hg
    cases hg.symm.trans hp
  cases e with
  | providerStartSucceeded id symbols =>
    intro j t ht hd
    have hlen : (c.stopSessions (· == id)).tasks.length = c.tasks.length := by
      simp [stopSessions]
    change ((c.stopSessions (· == id)).tasks ++ [SessionTask.new id symbols])[j]? = some t at ht
    change Function.update c.sessionTasks id (some c.tasks.length) t.id = some j
    rcases Nat.lt_or_ge j c.tasks.length with hlt | hge
    · rw [List.getElem?_append_left (hlen ▸ hlt)] at ht
      obtain ⟨s, hs, hcore, -⟩ := exists_of_stopSessions (· == id) ht
      rw [SessionTask.done_of_core hcore] at hd
      -- The provider is connecting, so it has no open session.
      have hid : t.id ≠ id := by
        rintro rfl
        have hconn := h.reach.agrees.connecting (h.enabled hp he)
        have hsess := (h.reach.agrees.atKey_eq hconn).2
        have hn := SessionTask.notified_of_not_done hd
        have hmem : (t.id, s.symbols) ∈ y.sessions := by
          refine (h.sessions hp).mem_iff.2 (List.mem_append_left _ (List.mem_filterMap.2
            ⟨s, List.mem_of_getElem? hs, ?_⟩))
          rw [hn, SessionTask.id_of_core hcore]
          rfl
        rw [← Keyed.mem_atKey, hsess] at hmem
        cases hmem
      rw [Function.update_of_ne hid, SessionTask.id_of_core hcore]
      exact h.held hne j s hs hd
    · rw [List.getElem?_append_right (hlen ▸ hge), hlen] at ht
      obtain ⟨hj, rfl⟩ : j - c.tasks.length = 0 ∧ SessionTask.new id symbols = t := by
        cases hsub : j - c.tasks.length with
        | zero => exact ⟨rfl, by rw [hsub] at ht; exact Option.some.inj ht⟩
        | succ n => rw [hsub] at ht; cases ht
      have hj : j = c.tasks.length := by omega
      subst hj
      exact Function.update_self ..
  | providerStartFailed | sessionEnded | backoffTick | downstreamClosed | shutdown => exact h.held hne

/-- A turn of the controller is a turn of the system. -/
theorem Refines.turn (h : Refines params c y) (hp : c.place = .looping) {sig : Signals} {e : Event}
    (he : c.Ready sig e) : y.Turn e (y.deliver e) ∧ Refines params (c.turn e) (y.deliver e) := by
  have hlive := h.live hp
  have hturn : y.Turn e (y.deliver e) := ⟨hlive, h.enabled hp he, rfl⟩
  have hreach := h.reach.turn hturn
  have hsup : (c.sup.handle e).1 = (y.deliver e).sup := congrArg (fun s => (s.handle e).1) h.sup
  have hcases := turn_cases (h.sup ▸ hlive) (h.sup ▸ h.reach.providers_ne_nil) e
  have hne : c.place ≠ .gone := by
    intro hg
    cases hg.symm.trans hp
  refine ⟨hturn, ?_⟩
  generalize c.turn e = c' at hcases
  cases hcases with
  | looping hlive' hperf =>
    have hplace : c'.place = .looping := by
      rw [hperf.place, ← hp]
      cases e <;> rfl
    have hstarts := openStarts_receive h hp he
    have hsessions := openSessions_receive h hp he
    have hheld := held_receive h hp he
    refine ⟨hperf.sup.trans hsup, hreach, fun _ => hsup ▸ hlive', fun _ => ?_, fun _ => ?_,
      fun _ j t ht hd => ?_, fun hl => absurd hplace hl, fun hg => ?_⟩
    · change (y.startsAfter e ++ launched (y.sup.handle e).2).Perm c'.openStarts
      unfold openStarts
      rw [hperf.starting, hperf.answers, ← h.sup, List.append_assoc]
      refine (hstarts.append_right _).trans ?_
      unfold openStarts
      rw [List.append_assoc]
      exact List.perm_append_comm.append_left _
    · rw [openSessions_of_core hperf.tasks, hperf.sessionEnds]
      exact hsessions
    · have htask : (c'.tasks.map SessionTask.core)[j]? = some t.core := by
        rw [List.getElem?_map, ht]
        rfl
      rw [hperf.tasks, List.getElem?_map, Option.map_eq_some_iff] at htask
      obtain ⟨s, hs, hcore⟩ := htask
      rw [hperf.sessionTasks, ← SessionTask.id_of_core hcore]
      exact hheld j s hs fun hds => hd ((SessionTask.done_of_core hcore).1 hds)
    · cases hg.symm.trans hplace
  | awaiting _ hphase hrec =>
    have htasks : (c.handled e).tasks = c.tasks := congrArg (·.tasks) hrec
    have hmap : (c.handled e).sessionTasks = c.sessionTasks := congrArg (·.sessionTasks) hrec
    refine ⟨hsup, hreach, nofun, nofun, nofun, fun _ j t ht hd => ?_, fun _ t' ht' => ?_, nofun⟩
    · obtain ⟨s, hs, hcore, -⟩ :=
        exists_of_stopSessions (c := c.handled e) (fun _ => true) ht
      rw [htasks] at hs
      change (c.handled e).sessionTasks t.id = some j
      rw [hmap, SessionTask.id_of_core hcore]
      exact h.held hne j s hs fun hds => hd ((SessionTask.done_of_core hcore).2 hds)
    · obtain ⟨j, hj⟩ := List.mem_iff_getElem?.1 ht'
      obtain ⟨s, hs, hcore, -, hstop⟩ :=
        exists_of_stopSessions (c := c.handled e) (fun _ => true) hj
      rw [htasks] at hs
      rw [SessionTask.done_of_core hcore]
      by_cases hd : s.Done
      · exact .inl hd
      · exact .inr (hstop rfl (hmap ▸ h.held hne j s hs hd))
  | @terminated tx errors error hstart hphase htasks =>
    have hdone := h.done_of_startup hp hstart
    have hdone' : ∀ t' ∈ ({ c.handled e with report := some (.error error) }.leave).tasks,
        t'.Done := by
      intro t' ht'
      obtain ⟨j, hj⟩ := List.mem_iff_getElem?.1 ht'
      obtain ⟨s, hs, hcore, -⟩ := exists_of_stopSessions (fun _ => true) hj
      have hs : (c.receive e).tasks[j]? = some s := hs
      rw [htasks] at hs
      exact (SessionTask.done_of_core hcore).2 (hdone s (List.mem_of_getElem? hs))
    exact ⟨hsup, hreach, nofun, nofun, nofun, fun hg => absurd rfl hg,
      fun _ t ht => .inl (hdone' t ht), fun _ => .inr hdone'⟩

/-! ## Runs -/

/-- The events a step of the controller shows. -/
def ControllerLabel.event? : ControllerLabel → Option Event
  | .turn e => some e
  | _ => none

/-- The controller with its tasks is simulated by the system. -/
theorem simulation (params : KindSupervisorParams K E) (enforceMonotonic : Bool) :
    LTS.Simulation (Moves params enforceMonotonic) System.Turn ControllerLabel.event?
      (Refines params) where
  visible := by
    rintro c a c' y e h ⟨sig, sent, hs⟩ hshow
    cases hs with
    | turn hp he =>
      cases hshow
      obtain ⟨hturn, hrel⟩ := h.turn hp he
      exact ⟨_, hturn, hrel⟩
    | _ => cases hshow
  silent := by
    rintro c a c' y h ⟨sig, sent, hs⟩ hshow
    cases hs with
    | turn => cases hshow
    | answered hm => exact h.answer hm _
    | awaited hp hall =>
      have hdone : ∀ t ∈ c.tasks, t.Done := by
        intro t ht
        by_contra hd
        obtain ⟨j, hj⟩ := List.mem_iff_getElem?.1 ht
        exact hd (hall t.id j t (h.held (by simp [hp]) j t hj hd) hj)
      exact h.leave (by simp [hp]) (.inr hdone)
    | abort => exact ⟨h.sup, h.reach, h.live, h.starts, h.sessions, h.held, h.told,
        fun hg => .inl rfl⟩
    | cancelled ha hp => exact h.leave hp (.inl ha)
    | @arrive j t updates ht _ => exact h.setTask ht (t.advances_arrive updates) rfl
    | @close j t ht => exact h.setTask ht t.advances_close rfl
    | @poll j now t t' gate ht hpoll =>
      obtain ⟨hadv, hsel, hnd⟩ := SessionTask.advances_of_poll hpoll
      refine (h.setTask ht hadv ?_).setGate _ _
      rw [SessionTask.notified_of_not_done hnd,
        SessionTask.notified_of_not_done (SessionTask.not_done_of_place hsel nofun)]
    | @send j t t' sent ht hsend =>
      obtain ⟨hadv, hnd, hnd'⟩ := SessionTask.advances_of_send hsend
      refine h.setTask ht hadv ?_
      rw [SessionTask.notified_of_not_done hnd, SessionTask.notified_of_not_done hnd']
    | @finish j t t' gate notify ht hfin =>
      obtain ⟨hadv, hn, hplace⟩ := SessionTask.advances_of_finish hfin
      exact (h.finish ht hadv hn hplace).setGate _ _
    | reap => exact h.setGate _ _

/-- The controller enters its loop as the system starts. -/
theorem refines_launch (hn : params.providers ≠ []) : Refines params (launch params)
    (System.start params) := by
  have hreach := System.start_reach hn
  have hlaunch : launch params =
      { sup := (System.kick params).1
        starting := launched (System.kick params).2
        answers := []
        sessionEnds := []
        tasks := []
        sessionTasks := fun _ => none
        gates := fun _ => .new
        report := none
        aborted := false
        place := .looping } := if_neg (by simpa using hn)
  rw [hlaunch]
  refine ⟨rfl, hreach, fun _ => ?_, fun _ => ?_, fun _ => .refl _, fun _ j t ht => ?_, nofun, nofun⟩
  · rw [System.start_phase hn]
    trivial
  · rw [openStarts, List.map_nil, List.append_nil]
    exact .refl _
  · cases ht

/-- Of a controller that was reached with providers there is a system it comes to. -/
theorem Reached.exists_refines (hn : params.providers ≠ []) (h : c.Reached params enforceMonotonic) :
    ∃ y, Refines params c y := by
  obtain ⟨tr, hp⟩ := h
  obtain ⟨-, y, -, hrel, -⟩ := (simulation params enforceMonotonic).path (refines_launch hn) hp
  exact ⟨y, hrel⟩

/-- Every run of a controller with its tasks is a run of the supervisor composed with its starts and
sessions: the controller's turns are the turns of that run, in order, and at its end the supervisor
is the same and its starts and sessions are those the controller has open. -/
theorem refines (hn : params.providers ≠ []) {tr : List (LTS.Step (Controller K E) ControllerLabel)}
    (h : LTS.Path (Moves params enforceMonotonic) (launch params) tr c) :
    ∃ tr' y, Run params tr' y ∧ Refines params c y ∧
      tr'.map (·.label) = tr.filterMap fun st => ControllerLabel.event? st.label := by
  obtain ⟨tr', y, hp, hrel, hl⟩ := (simulation params enforceMonotonic).path (refines_launch hn) h
  exact ⟨tr', y, ⟨hn, hp⟩, hrel, hl⟩

/-- One provider. -/
def soloChain : KindSupervisorParams Unit Unit :=
  quoteChain (some ⟨0⟩) 500 30000 2 [[⟨"X"⟩]]

/-- Its session is opened. -/
theorem solo_path : ∃ tr c, LTS.Path (Moves soloChain false) (launch soloChain) tr c ∧
    c.tasks = [.new 0 [⟨"X"⟩]] ∧
      (tr.filterMap fun st => ControllerLabel.event? st.label) =
        [.providerStartSucceeded 0 [⟨"X"⟩]] := by
  have h1 : Step soloChain false ⟨false, false, false, true⟩ (launch soloChain)
      (.answered 0 [⟨"X"⟩] none) _ _ := .answered (List.mem_of_elem_eq_true rfl)
  have h2 : Step soloChain false ⟨false, false, false, true⟩
      ((launch soloChain).answer soloChain 0 [⟨"X"⟩] none)
      (.turn (.providerStartSucceeded 0 [⟨"X"⟩])) _ _ := .turn rfl (by unfold Ready; rfl)
  exact ⟨_, _, (LTS.Path.single ⟨_, _, h1⟩).snoc ⟨_, _, h2⟩, rfl, rfl⟩

/-- That run is a run of the system. -/
theorem solo_refines : ∃ tr' y, Run soloChain tr' y ∧
    tr'.map (·.label) = [.providerStartSucceeded 0 [⟨"X"⟩]] := by
  obtain ⟨tr, c, hp, -, hl⟩ := solo_path
  obtain ⟨tr', y, hrun, -, hl'⟩ := refines (by decide) hp
  exact ⟨tr', y, hrun, hl'.trans hl⟩

end Controller

end Borsa
