import Borsa.Streaming.ControllerTask
import Borsa.Streaming.Reach

/-!
# Turns of a controller with its tasks

What `perform` does, by the shape of the actions: those that neither wait nor return only put starts
in flight, report and send stop signals (`Performed`), a shutdown stops every session and waits, and
a failed startup returns. `turn_cases` says which of the three a turn is.
-/

namespace Borsa

open Supervisor

variable {K E : Type}

/-! ## Stop signals -/

/-- The task but for its stop signal. -/
def SessionTask.core (t : SessionTask) : SessionTask := { t with sessionStop := false }

namespace SessionTask

variable {t t' : SessionTask}

theorem id_of_core (h : t'.core = t.core) : t'.id = t.id := congrArg (·.id) h

theorem place_of_core (h : t'.core = t.core) : t'.place = t.place := congrArg (·.place) h

theorem done_of_core (h : t'.core = t.core) : t'.Done ↔ t.Done := by
  unfold Done
  rw [place_of_core h]

end SessionTask

/-- The sessions of these tasks whose end the controller has not been told. -/
def openSessions (tasks : List SessionTask) : List (Nat × List Symbol) :=
  tasks.filterMap fun t => if t.notified then none else some (t.id, t.symbols)

@[simp] theorem openSessions_append (a b : List SessionTask) :
    openSessions (a ++ b) = openSessions a ++ openSessions b :=
  List.filterMap_append ..

/-- Stop signals change no session. -/
theorem openSessions_of_core {tasks tasks' : List SessionTask}
    (h : tasks'.map SessionTask.core = tasks.map SessionTask.core) :
    openSessions tasks' = openSessions tasks := by
  have hfac : ∀ l : List SessionTask, openSessions l = openSessions (l.map SessionTask.core) := by
    intro l
    rw [openSessions, openSessions, List.filterMap_map]
    rfl
  rw [hfac tasks', h, ← hfac]

namespace Controller

variable {c : Controller K E}

theorem getElem?_stopSessions (c : Controller K E) (sel : Nat → Bool) (j : Nat) :
    (c.stopSessions sel).tasks[j]? = (c.tasks[j]?).map fun t =>
      if sel t.id && c.sessionTasks t.id == some j then { t with sessionStop := true } else t :=
  List.getElem?_mapIdx

theorem core_stopSessions (c : Controller K E) (sel : Nat → Bool) :
    (c.stopSessions sel).tasks.map SessionTask.core = c.tasks.map SessionTask.core := by
  refine List.ext_getElem? fun j => ?_
  rw [List.getElem?_map, getElem?_stopSessions, List.getElem?_map, Option.map_map]
  congr 1
  funext t
  simp only [Function.comp_apply]
  split <;> rfl

/-- A task of stopped sessions is the task it was, but for its stop signal, which stays sent. -/
theorem exists_of_stopSessions (sel : Nat → Bool) {j : Nat} {t' : SessionTask}
    (h : (c.stopSessions sel).tasks[j]? = some t') :
    ∃ t, c.tasks[j]? = some t ∧ t'.core = t.core ∧
      (t.sessionStop = true → t'.sessionStop = true) ∧
      (sel t.id = true → c.sessionTasks t.id = some j → t'.sessionStop = true) := by
  rw [getElem?_stopSessions, Option.map_eq_some_iff] at h
  obtain ⟨t, ht, rfl⟩ := h
  refine ⟨t, ht, by split <;> rfl, fun hs => by split <;> simp [hs], fun hsel hmap => ?_⟩
  rw [if_pos (by simp [hsel, hmap])]

/-! ## Actions that neither wait nor return -/

/-- The action neither waits for the sessions nor, in this phase, returns. -/
def Calm (phase : Phase) : Action K E → Prop
  | .awaitAll => False
  | .notifyInitial .. => phase.Live
  | _ => True

/-- What carrying out calm actions does: the starts among them are in flight, the last report has
been sent, and sessions have been told to stop. -/
structure Performed (c : Controller K E) (actions : List (Action K E)) (c' : Controller K E) :
    Prop where
  sup : c'.sup = c.sup
  starting : c'.starting = c.starting ++ launched actions
  answers : c'.answers = c.answers
  sessionEnds : c'.sessionEnds = c.sessionEnds
  tasks : c'.tasks.map SessionTask.core = c.tasks.map SessionTask.core
  sessionTasks : c'.sessionTasks = c.sessionTasks
  gates : c'.gates = c.gates
  report : c'.report = ((notified actions).getLast?.map (·.2)).or c.report
  aborted : c'.aborted = c.aborted
  place : c'.place = c.place

/-- Calm actions are carried out to the last. -/
theorem perform_calm {actions : List (Action K E)} (h : ∀ a ∈ actions, Calm c.sup.phase a) :
    Performed c actions (c.perform actions) := by
  induction actions generalizing c with
  | nil => exact ⟨rfl, by simp [launched, perform], rfl, rfl, rfl, rfl, rfl, rfl, rfl, rfl⟩
  | cons a actions ih =>
    obtain ⟨ha, hrest⟩ := List.forall_mem_cons.1 h
    cases a with
    | requestStart id instruments =>
      have hp := ih (c := { c with starting := c.starting ++ [(id, symbolsOf instruments)] }) hrest
      exact ⟨hp.sup, hp.starting.trans (by simp [launched]), hp.answers, hp.sessionEnds, hp.tasks,
        hp.sessionTasks, hp.gates, hp.report, hp.aborted, hp.place⟩
    | stopAll =>
      have hp := ih (c := c.stopSessions fun _ => true) hrest
      exact ⟨hp.sup, hp.starting, hp.answers, hp.sessionEnds,
        hp.tasks.trans (core_stopSessions ..), hp.sessionTasks, hp.gates, hp.report, hp.aborted,
        hp.place⟩
    | awaitAll => exact ha.elim
    | notifyInitial tx result =>
      have hp := ih (c := { c with report := some result }) hrest
      have heq : c.perform (.notifyInitial tx result :: actions) =
          { c with report := some result }.perform actions := by
        rw [perform]
        dsimp only
        split
        · next hterm =>
          rw [Calm, hterm] at ha
          exact ha.elim
        · rfl
      rw [heq]
      refine ⟨hp.sup, hp.starting, hp.answers, hp.sessionEnds, hp.tasks, hp.sessionTasks, hp.gates,
        hp.report.trans ?_, hp.aborted, hp.place⟩
      rw [show notified (Action.notifyInitial tx result :: actions) =
        (tx, result) :: notified actions from rfl, List.getLast?_cons]
      cases (notified actions).getLast? <;> rfl
    | scheduleBackoffTick delayMs =>
      have hp := ih (c := c) hrest
      exact ⟨hp.sup, hp.starting, hp.answers, hp.sessionEnds, hp.tasks, hp.sessionTasks, hp.gates,
        hp.report, hp.aborted, hp.place⟩
    | preemptSessions providerIds =>
      have hp := ih (c := c.stopSessions fun id => providerIds.contains id) hrest
      exact ⟨hp.sup, hp.starting, hp.answers, hp.sessionEnds,
        hp.tasks.trans (core_stopSessions ..), hp.sessionTasks, hp.gates, hp.report, hp.aborted,
        hp.place⟩

/-- Starts are calm. -/
theorem calm_of_starts {self next : Supervisor K E} {reqs : List (Action K E)}
    (h : Starts self reqs next) (phase : Phase) : ∀ a ∈ reqs, Calm phase a := by
  induction h with
  | nil => simp
  | cons _ _ ih => exact List.forall_mem_cons.2 ⟨trivial, ih⟩

/-- What a success calls for is calm while the supervisor runs. -/
theorem calm_succeeded (s : Supervisor K E) (id : Nat) (symbols : List Symbol) {phase : Phase}
    (hl : phase.Live) : ∀ a ∈ s.notifyOk ++ (s.preemptions id symbols ++
      [.scheduleBackoffTick (s.activated id symbols).backoffMs]), Calm phase a := by
  simp only [List.forall_mem_append, List.forall_mem_singleton]
  refine ⟨?_, ?_, trivial⟩
  · unfold notifyOk
    split
    · exact List.forall_mem_singleton.2 hl
    · simp
  · unfold preemptions
    dsimp only
    split
    · simp
    · exact List.forall_mem_singleton.2 trivial

/-! ## Turns -/

/-- The controller as it enters the actions of a turn. -/
def handled (c : Controller K E) (e : Event) : Controller K E :=
  { c.receive e with sup := (c.sup.handle e).1 }

/-- A turn keeps the controller in its loop, or the stream is shut down and it waits for its
sessions, or the startup failed and it returns. -/
inductive TurnCases (c : Controller K E) (e : Event) : Controller K E → Prop
  | looping {c' : Controller K E} (hlive : (c.sup.handle e).1.phase.Live)
      (h : Performed (c.handled e) (c.sup.handle e).2 c') : TurnCases c e c'
  | awaiting (he : e = .shutdown ∨ e = .downstreamClosed)
      (hphase : (c.sup.handle e).1.phase = .shuttingDown) (hrec : c.receive e = c) :
      TurnCases c e { (c.handled e).stopSessions (fun _ => true) with place := .awaiting }
  | terminated {tx : InitialSender} {errors : List BorsaError} {error : BorsaError}
      (hstart : c.sup.phase = .startup (some tx) errors)
      (hphase : (c.sup.handle e).1.phase = .terminated) (htasks : (c.receive e).tasks = c.tasks) :
      TurnCases c e { c.handled e with report := some (.error error) }.leave

theorem turn_cases (hl : c.sup.phase.Live) (hn : c.sup.providers ≠ []) (e : Event) :
    TurnCases c e (c.turn e) := by
  obtain ⟨reqs, next, hh⟩ := handle_spec hl hn e
  have ht := transition_cases hl e
  have hphase : (c.sup.handle e).1.phase = (c.sup.transitionForEvent e).1.phase := by
    rw [hh.state, hh.starts.frame]
  have hreqs := calm_of_starts hh.starts (c.sup.transitionForEvent e).1.phase
  -- What is left to show of a transition whose actions are calm.
  have calm : (c.sup.transitionForEvent e).1.phase.Live →
      (∀ a ∈ (c.sup.transitionForEvent e).2, Calm (c.sup.transitionForEvent e).1.phase a) →
      TurnCases c e (c.turn e) := by
    intro hlive hacts
    refine .looping (hphase ▸ hlive) (perform_calm (c := c.handled e) ?_)
    rw [hh.actions]
    change ∀ a ∈ _, Calm (c.sup.handle e).1.phase a
    rw [hphase, List.forall_mem_append]
    exact ⟨hacts, hreqs⟩
  have stopped : e = .shutdown ∨ e = .downstreamClosed →
      (c.sup.transitionForEvent e).1.phase = .shuttingDown →
      (c.sup.transitionForEvent e).2 = [.stopAll, .awaitAll] → c.receive e = c →
      TurnCases c e (c.turn e) := by
    intro he hp hacts hrec
    have heq : c.turn e =
        { (c.handled e).stopSessions (fun _ => true) with place := .awaiting } := by
      rw [turn, hh.actions, hacts]
      rfl
    rw [heq]
    exact .awaiting he (hphase.trans hp) hrec
  have terminated : ∀ tx errors error, c.sup.phase = .startup (some tx) errors →
      (c.sup.transitionForEvent e).1.phase = .terminated →
      (c.sup.transitionForEvent e).2 = [.notifyInitial tx (.error error)] →
      (c.receive e).tasks = c.tasks → TurnCases c e (c.turn e) := by
    intro tx errors error hstart hp hacts htasks
    have heq : c.turn e = { c.handled e with report := some (.error error) }.leave := by
      rw [turn, hh.actions, hacts, List.singleton_append, perform]
      dsimp only
      rw [hphase, hp]
      rfl
    rw [heq]
    exact .terminated hstart (hphase.trans hp) htasks
  generalize htr : c.sup.transitionForEvent e = tr at ht calm stopped terminated
  obtain ⟨t, acts⟩ := tr
  dsimp only at ht calm stopped terminated
  cases ht with
  | succeeded id symbols => exact calm trivial (calm_succeeded _ _ _ trivial)
  | startupFailed => exact calm trivial (by simp)
  | startupTerminated hp => exact terminated _ _ _ hp rfl rfl rfl
  | runningFailed hp => exact calm hl (by simp)
  | ended => exact calm hl (by simp)
  | tickTerminated hp => exact terminated _ _ _ hp rfl rfl rfl
  | tickQuiet | tickActive | tickInactive =>
    exact calm hl (List.forall_mem_singleton.2 trivial)
  | shutdown => exact stopped (.inl rfl) rfl rfl rfl
  | downstreamClosed => exact stopped (.inr rfl) rfl rfl rfl

end Controller

end Borsa
