import Borsa.Streaming.ControllerStop

/-!
# The streams a controller holds open

What the tasks of a controller hold of its providers, in every state that it reaches and whatever it
is doing, shutting down and being aborted among it. A provider never has two of its streams open at
once: between a start and the answer to it, and from there until the session's task has stopped the
stream, there is no other (`Controller.Reached.one_stream_each`). And what a session sends is of a
symbol its provider may stream (`Controller.Reached.confined`).
-/

namespace Borsa

open Supervisor

variable {K E : Type}

namespace Controller

variable {params : KindSupervisorParams K E} {enforceMonotonic : Bool} {sig : Signals}
  {c c' : Controller K E} {label : ControllerLabel} {sent : Option (Nat × Update)}

/-! ## Reached controllers -/

theorem Step.gone (h : Step params enforceMonotonic sig c label c' sent) (hp : c.place = .gone) :
    c'.place = .gone := by
  cases h with
  | turn hl | awaited hl => cases hp.symm.trans hl
  | cancelled _ hl => exact absurd hp hl
  | answered | abort | arrive | close | poll | send | finish | reap => exact hp

/-- A controller in its loop comes to a system. -/
theorem Reached.refines_of_looping (h : c.Reached params enforceMonotonic)
    (hp : c.place = .looping) : ∃ y, Refines params c y := by
  refine h.exists_refines fun hn => ?_
  obtain ⟨tr, hpath⟩ := h
  have hgone : c.place = .gone := by
    refine hpath.inv (I := fun c => c.place = .gone) ?_ fun c l c' hg hm => ?_
    · rw [launch, if_pos (by simpa using hn)]
    · obtain ⟨sig, sent, hstep⟩ := hm
      exact hstep.gone hg
  cases hp.symm.trans hgone

/-- What holds of a controller as it is launched and is kept by every step it takes from where it has
got to. -/
theorem Reached.induction {I : Controller K E → Prop} (h0 : I (launch params))
    (hstep : ∀ sig c label c' sent, c.Reached params enforceMonotonic → I c →
      Step params enforceMonotonic sig c label c' sent → I c')
    (h : c.Reached params enforceMonotonic) : I c := by
  obtain ⟨tr, hpath⟩ := h
  induction hpath with
  | nil => exact h0
  | @snoc tr c c' label hp hm ih =>
    obtain ⟨sig, sent, hs⟩ := hm
    exact hstep sig c label c' sent ⟨tr, hp⟩ ih hs

/-! ## One stream for each provider -/

/-- The session's task has not completed. -/
def openTask (id : Nat) (t : SessionTask) : Bool := t.id == id && !decide t.Done

/-- The streams of a provider that are being started, wait to be received or are being read. -/
def streamsOf (c : Controller K E) (id : Nat) : Nat :=
  c.openStarts.countP (·.1 == id) + c.tasks.countP (openTask id)

/-- Stop signals leave the tasks open that are. -/
theorem countP_openTask_of_core {tasks tasks' : List SessionTask}
    (h : tasks'.map SessionTask.core = tasks.map SessionTask.core) (id : Nat) :
    tasks'.countP (openTask id) = tasks.countP (openTask id) := by
  have hfac : ∀ l : List SessionTask,
      l.countP (openTask id) = (l.map SessionTask.core).countP (openTask id) := by
    intro l
    rw [List.countP_map]
    rfl
  rw [hfac tasks', h, ← hfac]

/-- A step of a task opens none. -/
theorem countP_openTask_set_le {tasks : List SessionTask} {j : Nat} {t t' : SessionTask}
    (ht : tasks[j]? = some t) (hadv : t.Advances t') (id : Nat) :
    (tasks.set j t').countP (openTask id) ≤ tasks.countP (openTask id) := by
  have himp : openTask id t' = true → openTask id t = true := by
    unfold openTask
    rw [hadv.id]
    simp only [Bool.and_eq_true, Bool.not_eq_true', decide_eq_false_iff_not]
    exact fun h => ⟨h.1, fun hd => h.2 (hadv.done hd)⟩
  rw [(Slots.perm_cons_eraseIdx ht).countP_eq, (Slots.set_perm_cons_eraseIdx ht t').countP_eq,
    List.countP_cons, List.countP_cons]
  refine Nat.add_le_add_left ?_ _
  split
  · next h => rw [if_pos (himp h)]
  · exact Nat.zero_le _

theorem streamsOf_setTask_le {j : Nat} {t t' : SessionTask} (ht : c.tasks[j]? = some t)
    (hadv : t.Advances t') (id : Nat) : (c.setTask j t').streamsOf id ≤ c.streamsOf id :=
  Nat.add_le_add_left (countP_openTask_set_le ht hadv id) _

/-- Sessions whose tasks have not completed have not been told of. -/
theorem countP_openTask_le (tasks : List SessionTask) (id : Nat) :
    tasks.countP (openTask id) ≤ (openSessions tasks).countP (·.1 == id) := by
  rw [openSessions, List.countP_filterMap]
  refine List.countP_mono_left fun t _ ht => ?_
  rw [openTask, Bool.and_eq_true, Bool.not_eq_true', decide_eq_false_iff_not] at ht
  rw [SessionTask.notified_of_not_done ht.2]
  exact ht.1

/-- A controller in its loop holds open what its supervisor's record says. -/
theorem Refines.streamsOf_le {y : System K E} (h : Refines params c y) (hp : c.place = .looping)
    (id : Nat) : c.streamsOf id ≤ 1 := by
  have hstarts := ((h.starts hp).countP_eq (·.1 == id)).symm
  have hsessions := ((h.sessions hp).countP_eq (·.1 == id)).symm
  have htasks := countP_openTask_le c.tasks id
  have hagrees := h.reach.agrees id
  have hcount : (Keyed.atKey y.starts id).length + (Keyed.atKey y.sessions id).length ≤ 1 := by
    have hst : Keyed.atKey y.starts id = _ := congrArg Prod.fst hagrees
    have hse : Keyed.atKey y.sessions id = _ := congrArg Prod.snd hagrees
    rw [hst, hse]
    cases y.sup.providers[id]? with
    | none => exact Nat.zero_le _
    | some p => cases p <;> exact Nat.le_of_ble_eq_true rfl
  rw [Keyed.length_atKey, Keyed.length_atKey] at hcount
  rw [List.countP_append] at hsessions
  unfold streamsOf
  omega

theorem streamsOf_leave_le (c : Controller K E) (id : Nat) :
    c.leave.streamsOf id ≤ c.streamsOf id := by
  have hsub : c.leave.openStarts.Sublist c.openStarts :=
    (List.nil_sublist _).append_left c.starting
  exact Nat.add_le_add hsub.countP_le (countP_openTask_of_core c.core_leave id).le

/-- An answer keeps the start open, or drops it where the controller is gone. -/
theorem countP_openStarts_answer_le (params : KindSupervisorParams K E) {id : Nat}
    {symbols : List Symbol} (hm : (id, symbols) ∈ c.starting) (raised : Option BorsaError)
    (p : Nat × List Symbol → Bool) :
    (c.answer params id symbols raised).openStarts.countP p ≤ c.openStarts.countP p := by
  have hperm := List.perm_cons_erase hm
  unfold openStarts answer
  dsimp only
  by_cases hg : c.place = .gone
  · rw [if_pos hg]
    exact ((List.erase_sublist ..).append_right _).countP_le
  · rw [if_neg hg, List.map_append, ← List.append_assoc]
    refine Eq.le (List.Perm.countP_eq p ?_)
    exact (List.perm_append_singleton ..).trans (hperm.symm.append_right _)

/-- Once it is past its loop, a controller opens no stream. -/
theorem Step.streamsOf_le (h : Step params enforceMonotonic sig c label c' sent)
    (hrel : c.place = .looping → ∃ y, Refines params c y) (hp : c'.place ≠ .looping) (id : Nat) :
    c'.streamsOf id ≤ c.streamsOf id := by
  cases h with
  | answered hm => exact Nat.add_le_add_right (countP_openStarts_answer_le params hm _ _) _
  | @turn e hl he =>
    obtain ⟨y, hy⟩ := hrel hl
    have hcases := turn_cases (hy.sup ▸ hy.live hl) (hy.sup ▸ hy.reach.providers_ne_nil) e
    generalize c.turn e = c' at hcases hp
    cases hcases with
    | looping _ hperf =>
      refine absurd (hperf.place.trans ?_) hp
      rw [← hl]
      cases e <;> rfl
    | awaiting _ _ hrec =>
      have hcount : ((c.handled e).stopSessions fun _ => true).tasks.countP (openTask id) =
          c.tasks.countP (openTask id) :=
        countP_openTask_of_core ((core_stopSessions ..).trans (by rw [handled, hrec])) id
      have hopen : (c.handled e).openStarts = c.openStarts := by rw [handled, hrec]; rfl
      exact Nat.add_le_add (by rw [← hopen]; rfl) hcount.le
    | @terminated _ _ error _ _ htasks =>
      have hstarting : (c.receive e).starting = c.starting := by cases e <;> rfl
      have hsub : ((c.receive e).starting ++ []).Sublist c.openStarts :=
        hstarting ▸ (List.nil_sublist _).append_left c.starting
      refine Nat.add_le_add hsub.countP_le ((countP_openTask_of_core (core_leave _) id).trans ?_).le
      exact congrArg (List.countP _) htasks
  | awaited | cancelled => exact streamsOf_leave_le c id
  | abort | reap => exact Nat.le_refl _
  | @arrive j t updates ht => exact streamsOf_setTask_le ht (t.advances_arrive updates) id
  | @close j t ht => exact streamsOf_setTask_le ht t.advances_close id
  | poll ht hpoll => exact streamsOf_setTask_le ht (SessionTask.advances_of_poll hpoll).1 id
  | send ht hsend => exact streamsOf_setTask_le ht (SessionTask.advances_of_send hsend).1 id
  | finish ht hfin => exact streamsOf_setTask_le ht (SessionTask.advances_of_finish hfin).1 id

/-- A provider never has two streams open at once. -/
theorem Reached.one_stream_each (h : c.Reached params enforceMonotonic) (id : Nat) :
    c.streamsOf id ≤ 1 := by
  refine h.induction (I := fun c => c.streamsOf id ≤ 1) ?_ ?_
  · by_cases hn : params.providers = []
    · rw [launch, if_pos (by simpa using hn)]
      exact Nat.zero_le _
    · refine (refines_launch hn).streamsOf_le ?_ id
      rw [launch, if_neg (by simpa using hn)]
  · intro sig c label c' sent hreach hle hstep
    by_cases hp' : c'.place = .looping
    · obtain ⟨tr, hpath⟩ := hreach
      obtain ⟨y, hrel⟩ := Reached.refines_of_looping ⟨_, hpath.snoc ⟨sig, sent, hstep⟩⟩ hp'
      exact hrel.streamsOf_le hp' id
    · exact (hstep.streamsOf_le (fun hp => hreach.refines_of_looping hp) hp' id).trans hle

/-- So it is of one whose session is open. -/
theorem solo_one_stream_each : ∃ c : Controller Unit Unit, c.tasks = [.new 0 [⟨"X"⟩]] ∧
    ∀ id, c.streamsOf id ≤ 1 := by
  obtain ⟨tr, c, hp, htasks, -⟩ := solo_path
  exact ⟨c, htasks, fun id => Reached.one_stream_each ⟨tr, hp⟩ id⟩

/-! ## What is sent -/

/-- The update is of a symbol that the provider may stream. -/
def MaySend (params : KindSupervisorParams K E) (id : Nat) (u : Update) : Prop :=
  id < params.providers.length ∧
    ∀ allow, params.providerAllow[id]? = some allow → u.streamSymbol ∈ allow

/-- The task belongs to one of the providers, and sends what that one may stream. -/
structure Confined (params : KindSupervisorParams K E) (t : SessionTask) : Prop where
  lt : t.id < params.providers.length
  forwarded : ∀ u ∈ t.forwarded, MaySend params t.id u
  sending : ∀ u, t.place = .sending u → MaySend params t.id u

/-- Being confined does not depend on the stop signal. -/
theorem Confined.of_core {t t' : SessionTask} (h : Confined params t) (hcore : t'.core = t.core) :
    Confined params t' := by
  obtain ⟨hlt, hfor, hsend⟩ := h
  have hid := SessionTask.id_of_core hcore
  have hf : t'.forwarded = t.forwarded := congrArg (·.forwarded) hcore
  exact ⟨hid ▸ hlt, fun u hu => hid ▸ hfor u (hf ▸ hu),
    fun u hu => hid ▸ hsend u ((SessionTask.place_of_core hcore).symm.trans hu)⟩

/-- What is sent in a step of a controller with confined tasks may be sent. -/
theorem Step.maySend (h : Step params enforceMonotonic sig c label c' sent)
    (hc : ∀ t ∈ c.tasks, Confined params t) {x : Nat × Update} (hx : sent = some x) :
    MaySend params x.1 x.2 := by
  cases h with
  | send ht hsend =>
    obtain ⟨u, hp, ⟨-, -, rfl⟩ | ⟨-, -, -, rfl⟩⟩ := SessionTask.send_cases hsend
    · cases hx
    · cases hx
      exact (hc _ (List.mem_of_getElem? ht)).sending u hp
  | _ => cases hx

/-- The sessions of a controller belong to its providers and send what these may stream. -/
theorem Reached.confined (h : c.Reached params enforceMonotonic) :
    ∀ t ∈ c.tasks, Confined params t := by
  refine h.induction (I := fun c => ∀ t ∈ c.tasks, Confined params t) ?_ ?_
  · unfold launch
    dsimp only
    split <;> exact nofun
  intro sig c label c' sent hreach hc hstep
  -- Tasks that differ in their stop signals.
  have kept : ∀ {tasks tasks' : List SessionTask},
      tasks'.map SessionTask.core = tasks.map SessionTask.core →
      (∀ t ∈ tasks, Confined params t) → ∀ t ∈ tasks', Confined params t := by
    intro tasks tasks' hcore hall t' ht'
    obtain ⟨t, ht, heq⟩ := exists_of_core hcore ht'
    exact (hall t ht).of_core heq
  -- A step of a task.
  have moved : ∀ {j : Nat} {t t' : SessionTask}, c.tasks[j]? = some t →
      (Confined params t → Confined params t') →
      ∀ t ∈ (c.setTask j t').tasks, Confined params t := by
    intro j t t' ht himp s hs
    rcases List.mem_or_eq_of_mem_set hs with hs | rfl
    · exact hc s hs
    · exact himp (hc t (List.mem_of_getElem? ht))
  cases hstep with
  | answered | abort | reap => exact hc
  | @turn e hl he =>
    obtain ⟨y, hrel⟩ := hreach.refines_of_looping hl
    refine kept (core_turn c e).1 fun t ht => ?_
    rcases List.mem_append.1 ht with ht | ht
    · exact hc t ht
    · obtain ⟨id, symbols, rfl, rfl⟩ := mem_spawnedBy.1 ht
      have hconn := hrel.reach.agrees.connecting (hrel.enabled hl he)
      have hlt := (List.getElem?_eq_some_iff.1 hconn).1
      exact ⟨hrel.reach.length ▸ hlt, nofun, nofun⟩
  | awaited | cancelled => exact kept c.core_leave hc
  | arrive ht | close ht => exact moved ht fun h => ⟨h.lt, h.forwarded, h.sending⟩
  | @poll j now t t' gate ht hpoll =>
    obtain ⟨-, hid, hf, hsend⟩ := SessionTask.poll_cases hpoll
    refine moved ht fun h => ⟨hid ▸ h.lt, fun u hu => hid ▸ h.forwarded u (hf ▸ hu), fun u hu => ?_⟩
    rw [hid]
    exact ⟨h.lt, hsend u hu⟩
  | send ht hsend =>
    obtain ⟨u, hp, ⟨-, rfl, -⟩ | ⟨-, -, rfl, -⟩⟩ := SessionTask.send_cases hsend
    · exact moved ht fun h => ⟨h.lt, h.forwarded, nofun⟩
    · refine moved ht fun h => ⟨h.lt, fun v hv => ?_, nofun⟩
      rcases List.mem_append.1 hv with hv | hv
      · exact h.forwarded v hv
      · rw [List.mem_singleton.1 hv]
        exact h.sending u hp
  | finish ht hfin =>
    obtain ⟨reset, hp, rfl⟩ := SessionTask.finish_cases hfin
    exact moved ht fun h => ⟨h.lt, h.forwarded, nofun⟩

end Controller

end Borsa
