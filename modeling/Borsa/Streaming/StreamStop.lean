import Borsa.Streaming.ControllerStop

/-!
# Stopping a stream

What becomes of a stream that has been told to stop. Once `StreamHandle::stop` has returned nothing
of the stream runs any more and nothing more is sent (`Stream.finished_down`); after the stop is
broadcast only the updates that sessions were already sending can still be sent
(`Stream.sent_after_stop`); and `Stream.comes_down_iff` says from which states the stream comes down
at all. A session looks at no stop signal while it waits for room in the channel, so a consumer that
holds its receiver without reading keeps a full stream from stopping.
-/

namespace Borsa

variable {K E : Type}

namespace Stream

section
variable {n : Nat}

/-- Nothing of the stream's controllers runs any more. -/
def Down (s : Stream K E n) : Prop := ∀ i, (s.controllers i).Down

/-- The updates the sessions are sending. -/
def pending (s : Stream K E n) : Multiset Sent := ∑ i, (s.controllers i).pending i

/-- How many steps the stream is from its end. -/
def weight (s : Stream K E n) : Nat := ∑ i, (s.controllers i).weight

end

variable {plan : List (KindSupervisorParams K E)} {enforceMonotonic : Bool} {capability : Capability}
  {s s' : Stream K E plan.length} {label : StreamLabel plan.length}
  {tr tr' : List (LTS.Step (Stream K E plan.length) (StreamLabel plan.length))}

/-- A step of a stream whose stop has been broadcast sends only what was being sent. -/
theorem Step.pending_eq (h : Step plan enforceMonotonic capability s label s')
    (hs : s.stopped = true) : s'.stopped = true ∧ ∃ (more : List Sent) (dropped : Multiset Sent),
      s'.sent = s.sent ++ more ∧ s.pending = s'.pending + more + dropped ∧
        (s.receiverDropped = false → dropped = 0) := by
  -- A step that sends nothing and leaves what is being sent.
  have quiet : s'.sent = s.sent → s'.pending = s.pending →
      ∃ (more : List Sent) (dropped : Multiset Sent), s'.sent = s.sent ++ more ∧
        s.pending = s'.pending + more + dropped ∧ (s.receiverDropped = false → dropped = 0) := by
    intro hsent hpend
    exact ⟨[], 0, by simpa using hsent, by simp [hpend], fun _ => rfl⟩
  cases h with
  | @controller i l c sent hstep _ =>
    obtain ⟨dropped, heq, hdrop⟩ := hstep.pending_eq hs i
    obtain ⟨rest, hrest, hupd⟩ :=
      Slots.exists_sum_update (fun (k : Fin plan.length) c => Controller.pending k c) s.controllers i
    refine ⟨hs, _, dropped, (List.append_assoc ..).symm, hrest.trans ?_, hdrop⟩
    change _ = ∑ k : Fin plan.length, (Function.update s.controllers i c k).pending k + _ + _
    rw [heq, hupd]
    abel
  | returnedError => exact ⟨rfl, quiet rfl rfl⟩
  | wake => exact ⟨rfl, quiet rfl rfl⟩
  | receive _ _ hx =>
    refine ⟨hs, quiet ?_ rfl⟩
    simp [sent, hx]
  | initOk | initError | returnedOk | joined | ownerCancelled | stop | abort | abandon
  | dropReceiver => exact ⟨hs, quiet rfl rfl⟩

/-! ## After the stop has been awaited -/

/-- Where the owner is, and what it knows of its controllers: only a failed call aborts them, and
after the owner has awaited them they are down. -/
structure Owned (s : Stream K E plan.length) : Prop where
  aborted : (∀ e, s.owner ≠ .failed e) → ∀ i, (s.controllers i).aborted = false
  finished : s.owner = .finished → s.Down

theorem Down.step (hd : s.Down) (h : Step plan enforceMonotonic capability s label s') :
    s'.Down ∧ s'.sent = s.sent := by
  cases h with
  | @controller i l c sent hstep _ =>
    obtain ⟨hdown, rfl⟩ := (hd i).step hstep
    refine ⟨fun k => ?_, by simp [Stream.sent, move]⟩
    rcases eq_or_ne k i with rfl | hk
    · rwa [controllers_move_self]
    · rw [controllers_move_of_ne _ hk]
      exact hd k
  | returnedError => exact ⟨fun i => hd i, rfl⟩
  | receive _ _ hx => exact ⟨hd, by simp [sent, hx]⟩
  | initOk | initError | returnedOk | wake | joined | ownerCancelled | stop | abort | abandon
  | dropReceiver => exact ⟨hd, rfl⟩

theorem Run.owned (h : Run plan enforceMonotonic capability tr s) : Owned s := by
  induction h with
  | nil =>
    refine ⟨fun _ i => ?_, nofun⟩
    change (Controller.launch (plan.get i)).aborted = false
    unfold Controller.launch
    dsimp only
    split <;> rfl
  | @snoc tr s s' label hp hstep ih =>
    have hreach := Run.controller (.snoc hp hstep)
    have hdown := fun ho => (ih.finished ho).step hstep
    have of_owner : ∀ o, s.owner = o → (∀ e, o ≠ .failed e) →
        ∀ i, (s.controllers i).aborted = false := fun o ho hne => ih.aborted (ho ▸ hne)
    cases hstep with
    | @controller i l c sent hc hl =>
      refine ⟨fun hne k => ?_, fun ho => (hdown ho).1⟩
      rcases eq_or_ne k i with rfl | hk
      · rw [controllers_move_self, hc.aborted hl]
        exact ih.aborted hne k
      · rw [controllers_move_of_ne _ hk]
        exact ih.aborted hne k
    | returnedError => exact ⟨fun hne => absurd rfl (hne _), nofun⟩
    | initOk ho | initError ho | returnedOk ho | wake ho | abandon ho =>
      exact ⟨fun _ => of_owner _ ho nofun, nofun⟩
    | ownerCancelled _ ho => exact ⟨fun _ => ho.elim (of_owner _ · nofun) (of_owner _ · nofun), nofun⟩
    | joined ho hgone =>
      have ha := of_owner _ ho nofun
      exact ⟨fun _ => ha, fun _ i => (hreach i).down (hgone i) (ha i)⟩
    | stop | abort | receive | dropReceiver =>
      exact ⟨ih.aborted, fun ho => (hdown ho).1⟩

/-! ## Coming down -/

/-- A step of a controller or one of its tasks: neither the owner nor the caller takes part. -/
def Internal (plan : List (KindSupervisorParams K E)) (enforceMonotonic : Bool)
    (capability : Capability) (s : Stream K E plan.length) (label : StreamLabel plan.length)
    (s' : Stream K E plan.length) : Prop :=
  Step plan enforceMonotonic capability s label s' ∧ ∃ i l, label = .controller i l

/-- Where the stop was broadcast, nobody receives any more or the channel has room for every update
that is being sent; where the stop broadcast was dropped without it, no session is left that turns
at its `select!`. -/
def CanComeDown {n : Nat} (s : Stream K E n) : Prop :=
  if s.stopped then
    s.receiverDropped = true ∨ s.channel.length + s.pending.card ≤ channelCapacity
  else ∀ i, ∀ t ∈ (s.controllers i).tasks, t.place.Loose s.receiverDropped

/-- The channel holds no more than its capacity. -/
theorem Run.channel_le (h : Run plan enforceMonotonic capability tr s) :
    s.channel.length ≤ channelCapacity := by
  refine h.inv (I := fun x => x.channel.length ≤ channelCapacity) (Nat.zero_le _) ?_
  intro x l x' hx hstep
  cases hstep with
  | @controller i l c sent hc _ =>
    cases sent with
    | none => simpa [move] using hx
    | some u =>
      have hroom : x.channel.length < channelCapacity := of_decide_eq_true (hc.room nofun)
      simpa [move] using hroom
  | receive _ _ hq =>
    rw [hq, List.length_cons] at hx
    exact Nat.le_of_succ_le hx
  | initOk | initError | returnedOk | returnedError | wake | joined | ownerCancelled | stop | abort
  | abandon | dropReceiver => exact hx

theorem pending_of_down {n : Nat} {s : Stream K E n} (hd : s.Down) : s.pending = 0 := by
  refine Finset.sum_eq_zero fun i _ => List.sum_eq_zero fun x hx => ?_
  obtain ⟨t, ht, rfl⟩ := List.mem_map.1 hx
  exact SessionTask.pending_of_done ((hd i).2 t ht) i

/-- What internal steps leave as it is. -/
structure Framed {n : Nat} (s s' : Stream K E n) : Prop where
  owner : s'.owner = s.owner
  stopped : s'.stopped = s.stopped
  senderDropped : s'.senderDropped = s.senderDropped
  receiverDropped : s'.receiverDropped = s.receiverDropped
  received : s'.received = s.received

theorem Internal.frame (h : Internal plan enforceMonotonic capability s label s') :
    Framed s s' := by
  obtain ⟨hstep, i, l, rfl⟩ := h
  cases hstep
  exact ⟨rfl, rfl, rfl, rfl, rfl⟩

theorem Run.internal (h : Run plan enforceMonotonic capability tr s)
    (h' : LTS.Path (Internal plan enforceMonotonic capability) s tr' s') :
    ∃ tr'', Run plan enforceMonotonic capability tr'' s' := by
  induction h' with
  | nil => exact ⟨tr, h⟩
  | snoc _ hstep ih =>
    obtain ⟨tr'', hrun⟩ := ih
    exact ⟨_, hrun.snoc hstep.1⟩

/-- After the stop the channel and the sends take up no more than before; while the consumer holds
its receiver, no less either. -/
theorem Internal.load (h : Internal plan enforceMonotonic capability s label s')
    (hs : s.stopped = true) :
    s'.channel.length + s'.pending.card ≤ s.channel.length + s.pending.card ∧
      (s.receiverDropped = false →
        s'.channel.length + s'.pending.card = s.channel.length + s.pending.card) := by
  obtain ⟨-, more, dropped, hsent, heq, hdrop⟩ := h.1.pending_eq hs
  have hlen := congrArg List.length hsent
  have hcard := congrArg Multiset.card heq
  rw [sent, sent, h.frame.received] at hlen
  rw [Multiset.card_add, Multiset.card_add, Multiset.coe_card] at hcard
  simp only [List.length_append] at hlen
  refine ⟨by omega, fun hr => ?_⟩
  rw [hdrop hr, Multiset.card_zero] at hcard
  omega

/-- A stream that came down had room for every update that was being sent. -/
theorem Run.load_le (h : Run plan enforceMonotonic capability tr s) (hs : s.stopped = true)
    (hr : s.receiverDropped = false)
    (h' : LTS.Path (Internal plan enforceMonotonic capability) s tr' s') (hd : s'.Down) :
    s.channel.length + s.pending.card ≤ channelCapacity := by
  obtain ⟨tr'', hrun⟩ := h.internal h'
  have hload : s'.stopped = true ∧ s'.receiverDropped = false ∧
      s'.channel.length + s'.pending.card = s.channel.length + s.pending.card := by
    refine h'.inv (I := fun x => x.stopped = true ∧ x.receiverDropped = false ∧
      x.channel.length + x.pending.card = s.channel.length + s.pending.card) ⟨hs, hr, rfl⟩ ?_
    rintro x l x' ⟨hx, hxr, heq⟩ hstep
    have hf := hstep.frame
    exact ⟨hf.stopped.trans hx, hf.receiverDropped.trans hxr, ((hstep.load hx).2 hxr).trans heq⟩
  rw [← hload.2.2, pending_of_down hd, Multiset.card_zero, add_zero]
  exact hrun.channel_le

/-- A session that turns at its `select!` keeps its stream from coming down. -/
theorem loose_of_down (hs : s.stopped = false) (hsd : s.senderDropped = true)
    (h : LTS.Path (Internal plan enforceMonotonic capability) s tr s') (hd : s'.Down)
    (i : Fin plan.length) : ∀ t ∈ (s.controllers i).tasks, t.place.Loose s.receiverDropped := by
  by_contra hn
  push Not at hn
  have hinv : s'.stopped = false ∧ s'.senderDropped = true ∧
      ∃ t ∈ (s'.controllers i).tasks, ¬ t.place.Loose s'.receiverDropped := by
    refine h.inv (I := fun x => x.stopped = false ∧ x.senderDropped = true ∧
      ∃ t ∈ (x.controllers i).tasks, ¬ t.place.Loose x.receiverDropped) ⟨hs, hsd, hn⟩ ?_
    rintro x l x' ⟨hx, hxd, hl⟩ hstep
    have hf := hstep.frame
    refine ⟨hf.stopped.trans hx, hf.senderDropped.trans hxd, ?_⟩
    rw [hf.receiverDropped]
    obtain ⟨hstep, k, l, rfl⟩ := hstep
    cases hstep with
    | @controller _ _ c sent hc _ =>
      rcases eq_or_ne i k with rfl | hik
      · rw [controllers_move_self]
        exact hc.not_loose hx hxd hl
      · rwa [controllers_move_of_ne _ hik]
  obtain ⟨-, -, t, ht, hn⟩ := hinv
  obtain ⟨n, hp⟩ := (hd i).2 t ht
  exact hn (hp ▸ trivial)

theorem pending_pos {i : Fin plan.length} {t : SessionTask} (ht : t ∈ (s.controllers i).tasks)
    {u : Update} (hp : t.place = .sending u) : 0 < s.pending.card := by
  obtain ⟨j, hj⟩ := List.mem_iff_getElem?.1 ht
  obtain ⟨rest, heq, -⟩ := Slots.exists_sum_set (SessionTask.pending i) hj
  refine Multiset.card_pos_iff_exists_mem.2 ⟨⟨i, t.id, u⟩, ?_⟩
  refine Multiset.mem_sum.2 ⟨i, Finset.mem_univ i, ?_⟩
  rw [Controller.pending, heq, SessionTask.pending, hp]
  exact Multiset.mem_add.2 (.inl (Multiset.mem_singleton_self _))

/-- In a stream that can come down every session can move. -/
theorem CanComeDown.movable (hc : s.CanComeDown) {i : Fin plan.length} {t : SessionTask}
    (ht : t ∈ (s.controllers i).tasks) : t.place.Movable s.signals := by
  unfold CanComeDown at hc
  cases hst : s.stopped with
  | true =>
    rw [hst, if_pos rfl] at hc
    cases hp : t.place with
    | selecting => exact hst
    | sending u =>
      refine hc.imp_right fun hload => ?_
      have hpos := pending_pos ht hp
      have hlt : s.channel.length < channelCapacity := by omega
      exact decide_eq_true hlt
    | stopping | ended => trivial
  | false =>
    rw [hst, if_neg Bool.false_ne_true] at hc
    have hl := hc i t ht
    cases hp : t.place with
    | selecting =>
      rw [hp] at hl
      exact hl.elim
    | sending u =>
      rw [hp] at hl
      exact .inl hl
    | stopping | ended => trivial

/-- A stream that can come down and has not is brought nearer to it by some step. -/
theorem CanComeDown.exists_step (enforceMonotonic : Bool) (capability : Capability)
    (hs : s.stopped = true ∨ s.senderDropped = true) (hc : s.CanComeDown) (hd : ¬ s.Down) :
    ∃ label s',
      Internal plan enforceMonotonic capability s label s' ∧ s'.CanComeDown ∧
        s'.weight < s.weight := by
  unfold Down at hd
  push Not at hd
  obtain ⟨i, hi⟩ := hd
  obtain ⟨l, c, sent, hstep, hl, hlt, hloose⟩ := Controller.exists_step_of_movable (plan.get i)
    enforceMonotonic s.signals hs (fun t ht => hc.movable ht) hi
  have hint : Internal plan enforceMonotonic capability s (.controller i l) _ :=
    ⟨.controller hstep hl, i, l, rfl⟩
  refine ⟨_, _, hint, ?_, ?_⟩
  · have hload := hint.load
    unfold CanComeDown at hc ⊢
    change if s.stopped = true then _ else _
    cases hst : s.stopped with
    | true =>
      rw [hst, if_pos rfl] at hc
      rw [if_pos rfl]
      exact hc.imp_right fun hle => (hload hst).1.trans hle
    | false =>
      rw [hst, if_neg Bool.false_ne_true] at hc
      rw [if_neg Bool.false_ne_true]
      intro k
      rcases eq_or_ne k i with rfl | hk
      · rw [controllers_move_self]
        exact hloose (hc k)
      · rw [controllers_move_of_ne _ hk]
        exact hc k
  · obtain ⟨rest, hrest, hupd⟩ := Slots.exists_sum_update
      (fun (_ : Fin plan.length) c => Controller.weight c) s.controllers i
    change ∑ k, (Function.update s.controllers i c k).weight < ∑ k, (s.controllers k).weight
    rw [hupd, hrest]
    exact Nat.add_lt_add_right hlt rest

/-- A stream that can come down does so in some run that its caller takes no part in. -/
theorem CanComeDown.exists_path (enforceMonotonic : Bool) (capability : Capability)
    (hs : s.stopped = true ∨ s.senderDropped = true) (hc : s.CanComeDown) :
    ∃ tr' s', LTS.Path (Internal plan enforceMonotonic capability) s tr' s' ∧ s'.Down := by
  have progress : ∀ x : Stream K E plan.length,
      (x.stopped = true ∨ x.senderDropped = true) ∧ x.CanComeDown → x.Down ∨ ∃ label x',
        Internal plan enforceMonotonic capability x label x' ∧
          ((x'.stopped = true ∨ x'.senderDropped = true) ∧ x'.CanComeDown) ∧
          x'.weight < x.weight := by
    intro x hx
    by_cases hd : x.Down
    · exact .inl hd
    · obtain ⟨label, x', hstep, hc', hlt⟩ := hx.2.exists_step enforceMonotonic capability hx.1 hd
      have hf := hstep.frame
      exact .inr ⟨label, x', hstep, ⟨by rw [hf.stopped, hf.senderDropped]; exact hx.1, hc'⟩, hlt⟩
  obtain ⟨tr', s', hp, -, hd⟩ := LTS.Path.exists_of_measure weight progress ⟨hs, hc⟩
  exact ⟨tr', s', hp, hd⟩

/-! ## A stream of one provider -/

/-- The plan of a stream of one provider. -/
def soloPlan : List (KindSupervisorParams Unit Unit) := [Controller.soloChain]

/-- Its only controller. -/
def solo : Fin soloPlan.length := ⟨0, Nat.zero_lt_one⟩

/-- The stream is up, and is told to stop while its session is sending. -/
theorem solo_joining : ∃ tr s, Run soloPlan false .streamQuotes tr s ∧ s.owner = .joining ∧
    s.stopped = true ∧ s.receiverDropped = false ∧ s.channel = [] ∧
      s.signals = ⟨true, false, false, true⟩ ∧ (s.controllers solo).place = .looping ∧
        (s.controllers solo).tasks = [{ SessionTask.new 0 [⟨"X"⟩] with
          place := .sending ⟨⟨"X"⟩, 5⟩ }] := by
  have h0 : Run soloPlan false .streamQuotes [] (start soloPlan) := .nil
  have h1 := h0.act solo (.answered 0 [⟨"X"⟩] none) nofun (.answered (List.mem_of_elem_eq_true rfl))
  have h2 := h1.act solo (.turn (.providerStartSucceeded 0 [⟨"X"⟩])) nofun
    (.turn rfl (by unfold Controller.Ready; rfl))
  have h3 := h2.snoc (.initOk rfl (by decide) rfl)
  have h4 := LTS.Path.snoc h3 (.returnedOk rfl (by decide))
  have h5 := Run.act h4 solo (.arrive 0 [⟨⟨"X"⟩, 5⟩]) nofun (.arrive rfl rfl)
  have h6 := h5.act solo (.poll 0 0) nofun (.poll rfl rfl)
  have h7 := h6.snoc (.stop trivial rfl)
  have h8 := LTS.Path.snoc h7 (.wake rfl (.inl rfl))
  exact ⟨_, _, h8, rfl, rfl, rfl, rfl, rfl, rfl, rfl⟩

/-- Its session finds room, so it comes down, and the stop is awaited. -/
theorem solo_finished : ∃ tr s, Run soloPlan false .streamQuotes tr s ∧ s.owner = .finished := by
  obtain ⟨tr, s, h, ho, hs, hr, hc, -, -, htasks⟩ := solo_joining
  have hload : s.CanComeDown := by
    unfold CanComeDown
    rw [if_pos hs, hc]
    refine .inr ?_
    have hpend : s.pending = (s.controllers solo).pending 0 := Fin.sum_univ_one _
    rw [hpend, Controller.pending, htasks]
    decide
  obtain ⟨tr', s', hp, hd⟩ := hload.exists_path false .streamQuotes (.inl hs)
  obtain ⟨tr'', hrun⟩ := h.internal hp
  have ho' : s'.owner = .joining := hp.inv (I := fun x => x.owner = .joining) ho
    fun _ _ _ hx hstep => hstep.frame.owner.trans hx
  exact ⟨_, _, hrun.snoc (.joined ho' fun i => (hd i).1), rfl⟩

/-! ## Main results -/

/-- Once the stop has been broadcast, what is still sent to the consumer is among the updates that
sessions were sending then, each at most once. -/
theorem sent_after_stop (hs : s.stopped = true)
    (h : LTS.Path (Step plan enforceMonotonic capability) s tr s') :
    ∃ more : List Sent, s'.sent = s.sent ++ more ∧ (more : Multiset Sent) ≤ s.pending := by
  have hinv : s'.stopped = true ∧ ∃ more : List Sent, s'.sent = s.sent ++ more ∧
      s'.pending + (more : Multiset Sent) ≤ s.pending := by
    refine h.inv (I := fun x => x.stopped = true ∧ ∃ more : List Sent, x.sent = s.sent ++ more ∧
      x.pending + (more : Multiset Sent) ≤ s.pending) ⟨hs, [], by simp, by simp⟩ ?_
    rintro x l x' ⟨hx, more, hsent, hle⟩ hstep
    obtain ⟨hx', more', dropped, hsent', heq, -⟩ := hstep.pending_eq hx
    refine ⟨hx', more ++ more', by rw [hsent', hsent, List.append_assoc], ?_⟩
    refine le_trans ?_ hle
    rw [heq, ← Multiset.coe_add]
    exact Multiset.le_iff_exists_add.2 ⟨dropped, by abel⟩
  obtain ⟨-, more, hsent, hle⟩ := hinv
  exact ⟨more, hsent, le_trans (Multiset.le_add_left ..) hle⟩

/-- The session that was sending when the stream was told to stop sends its update. -/
theorem solo_sent_after_stop : ∃ s s' : Stream Unit Unit soloPlan.length, s'.channel ≠ [] ∧
    ∃ more : List Sent, s'.sent = s.sent ++ more ∧ (more : Multiset Sent) ≤ s.pending := by
  obtain ⟨tr, s, -, -, hs, -, -, hsig, -, htasks⟩ := solo_joining
  have hj : (s.controllers solo).tasks[0]? = some { SessionTask.new 0 [⟨"X"⟩] with
      place := .sending ⟨⟨"X"⟩, 5⟩ } := by
    rw [htasks]
    rfl
  have hstep : Step soloPlan false .streamQuotes s (.controller solo (.send 0)) _ :=
    .controller (.send hj (by rw [hsig]; rfl)) nofun
  refine ⟨s, _, ?_, sent_after_stop hs (.single hstep)⟩
  simp [move]

/-- Once `StreamHandle::stop` has returned, nothing of the stream runs any more, and nothing more is
ever sent. -/
theorem finished_down (h : Run plan enforceMonotonic capability tr s) (ho : s.owner = .finished)
    (h' : LTS.Path (Step plan enforceMonotonic capability) s tr' s') :
    s'.Down ∧ s'.sent = s.sent := by
  refine h'.inv (I := fun x => x.Down ∧ x.sent = s.sent) ⟨h.owned.finished ho, rfl⟩ ?_
  rintro x l x' ⟨hd, hsent⟩ hstep
  obtain ⟨hd', hsent'⟩ := hd.step hstep
  exact ⟨hd', hsent'.trans hsent⟩

/-- So it is of the stream of one provider. -/
theorem solo_finished_down : ∃ tr s, Run soloPlan false .streamQuotes tr s ∧
    ∀ tr' s', LTS.Path (Step soloPlan false .streamQuotes) s tr' s' →
      s'.Down ∧ s'.sent = s.sent := by
  obtain ⟨tr, s, h, ho⟩ := solo_finished
  exact ⟨tr, s, h, fun _ _ h' => finished_down h ho h'⟩

/-- A stream that was told to stop comes down without its caller's help exactly where it can. -/
theorem comes_down_iff (h : Run plan enforceMonotonic capability tr s)
    (hs : s.stopped = true ∨ s.senderDropped = true) :
    (∃ tr' s', LTS.Path (Internal plan enforceMonotonic capability) s tr' s' ∧ s'.Down) ↔
      s.CanComeDown := by
  refine ⟨?_, fun hc => hc.exists_path enforceMonotonic capability hs⟩
  rintro ⟨tr', s', hp, hd⟩
  unfold CanComeDown
  cases hst : s.stopped with
  | true =>
    rw [if_pos rfl]
    cases hr : s.receiverDropped with
    | true => exact .inl rfl
    | false => exact .inr (h.load_le hst hr hp hd)
  | false =>
    rw [if_neg Bool.false_ne_true]
    exact loose_of_down hst (hs.resolve_left (by simp [hst])) hp hd

/-- So it is of the stream of one provider. -/
theorem solo_comes_down_iff : ∃ tr s, Run soloPlan false .streamQuotes tr s ∧
    ((∃ tr' s', LTS.Path (Internal soloPlan false .streamQuotes) s tr' s' ∧ s'.Down) ↔
      s.CanComeDown) := by
  obtain ⟨tr, s, h, -, hs, -⟩ := solo_joining
  exact ⟨tr, s, h, comes_down_iff h (.inl hs)⟩

end Stream

end Borsa
