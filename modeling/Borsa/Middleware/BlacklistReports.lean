import Borsa.Lib.Path
import Borsa.Middleware.Blacklist

/-!
# Concurrent reports to one blacklist

Calls that were admitted before a block can fail while it is in force, each with a window of its own.
Such a call reads the clock, and then stores its deadline over the one that is there. If the deadline is
beyond the last instant, it panics and stores nothing. So the block lasts until the latest deadline
exactly when every report comes with one that is an instant and no earlier than the one in force
(`blacklist_longest`).
-/

namespace Borsa

open LTS

/-- What happens at a blacklist layer. -/
inductive BlacklistEvent where
  /-- A user's call runs the check. -/
  | check
  /-- An admitted call returns anything but a rate limit. -/
  | returns
  /-- An admitted call returns a rate limit, and reads the clock. It goes on to store its deadline, or
  panics. -/
  | rateLimited (windowMs : UInt64)
  /-- It stores its deadline. -/
  | report (deadline : ℕ)

/-- A blacklist layer with the calls that are under way, and the deadlines reported so far. -/
structure BlacklistTraffic where
  now : ℕ
  connector : BlacklistConnector
  /-- The number of admitted calls that have not returned. -/
  inFlight : ℕ
  /-- The deadlines of the calls that have read the clock. -/
  reporting : List ℕ
  /-- The deadlines that have been stored, or at which a call has panicked. -/
  reported : List ℕ

namespace BlacklistTraffic

/-- A new layer. -/
def new (defaultDuration : ℕ) : BlacklistTraffic := ⟨0, .new defaultDuration, 0, [], []⟩

/-- One event at the instant `time`, not before the last one, where `fits` tells the instants. -/
inductive Step (fits : ℕ → Prop) : BlacklistTraffic → BlacklistEvent → BlacklistTraffic → Prop
  | check (s : BlacklistTraffic) (time : ℕ) (h : s.now ≤ time) :
    Step fits s .check { s with
      now := time
      connector := (s.connector.preCall .external time).1
      inFlight :=
        if (s.connector.preCall .external time).2.isOk then s.inFlight + 1 else s.inFlight }
  | returns (s : BlacklistTraffic) (time : ℕ) (h : s.now ≤ time) (hcall : 0 < s.inFlight) :
    Step fits s .returns { s with now := time, inFlight := s.inFlight - 1 }
  | rateLimited (s : BlacklistTraffic) (time : ℕ) (windowMs : UInt64) (h : s.now ≤ time)
    (hcall : 0 < s.inFlight) (hfits : fits (time + s.connector.blockFor windowMs)) :
    Step fits s (.rateLimited windowMs) { s with
      now := time
      inFlight := s.inFlight - 1
      reporting := (time + s.connector.blockFor windowMs) :: s.reporting }
  | panics (s : BlacklistTraffic) (time : ℕ) (windowMs : UInt64) (h : s.now ≤ time)
    (hcall : 0 < s.inFlight) (htime : fits time)
    (hfits : ¬ fits (time + s.connector.blockFor windowMs)) :
    Step fits s (.rateLimited windowMs) { s with
      now := time
      inFlight := s.inFlight - 1
      reported := (time + s.connector.blockFor windowMs) :: s.reported }
  | report (s : BlacklistTraffic) (time deadline : ℕ) (h : s.now ≤ time)
    (hcall : deadline ∈ s.reporting) :
    Step fits s (.report deadline) { s with
      now := time
      connector := s.connector.blacklistUntil deadline
      reporting := s.reporting.erase deadline
      reported := deadline :: s.reported }

/-- The layer's answer to a user's call at the instant. -/
def Rejects (s : BlacklistTraffic) (time : ℕ) : Prop :=
  ∃ ms, (s.connector.preCall .external time).2 = .error (.temporarilyBlacklisted ms)

/-- From now on the layer rejects the user's calls until the latest deadline reported, and accepts
them once it has been reached. -/
def Longest (s : BlacklistTraffic) : Prop :=
  ∀ time, s.now ≤ time →
    (s.Rejects time ↔ ∃ d ∈ s.reported, time < d) ∧
      (s.Rejects time ∨ (s.connector.preCall .external time).2 = .ok ())

/-- A report comes with a deadline that is no earlier than the one in force. -/
def NoShorter (st : LTS.Step BlacklistTraffic BlacklistEvent) : Prop :=
  ∀ deadline, st.label = .report deadline → st.pre.connector.Blocks st.post.now →
    ∀ d ∈ st.pre.connector.state, d ≤ deadline

/-- The deadline of a rate limit is an instant. -/
def DeadlineFits (fits : ℕ → Prop) (st : LTS.Step BlacklistTraffic BlacklistEvent) : Prop :=
  ∀ windowMs, st.label = .rateLimited windowMs →
    fits (st.post.now + st.pre.connector.blockFor windowMs)

/-- The deadlines that are stored and about to be stored are instants. -/
structure StoredFit (fits : ℕ → Prop) (s : BlacklistTraffic) : Prop where
  state : ∀ d ∈ s.connector.state, fits d
  reporting : ∀ d ∈ s.reporting, fits d

section
variable {fits : ℕ → Prop} {s s' : BlacklistTraffic} {e : BlacklistEvent}

theorem rejects_iff (s : BlacklistTraffic) (time : ℕ) :
    s.Rejects time ↔ s.connector.Blocks time := by
  rw [Rejects]
  rcases s.connector.preCall_external time with ⟨hblocks, ms, -, heq⟩ | ⟨hfree, heq⟩
  · exact iff_of_true ⟨ms, by rw [heq]⟩ hblocks
  · refine iff_of_false ?_ hfree
    rintro ⟨ms, h⟩
    rw [heq] at h
    cases h

theorem longest_iff (s : BlacklistTraffic) :
    s.Longest ↔ ∀ time, s.now ≤ time →
      (s.connector.Blocks time ↔ ∃ d ∈ s.reported, time < d) := by
  refine forall₂_congr fun time _ => ?_
  rw [rejects_iff]
  refine and_iff_left ?_
  rcases s.connector.preCall_external time with ⟨hblocks, -⟩ | ⟨-, heq⟩
  · exact .inl hblocks
  · exact .inr (by rw [heq])

/-- The check leaves the block as it is. -/
theorem blocks_preCall (b : BlacklistConnector) {now time : ℕ} (h : now ≤ time) :
    (b.preCall .external now).1.Blocks time ↔ b.Blocks time := by
  rcases b.preCall_external now with ⟨-, ms, -, heq⟩ | ⟨hfree, heq⟩ <;> rw [heq]
  refine iff_of_false (by simp [BlacklistConnector.Blocks]) fun ⟨d, hd, hlt⟩ => hfree ⟨d, hd, ?_⟩
  exact h.trans_lt hlt

theorem StoredFit.step (h : s.StoredFit fits) (hstep : Step fits s e s') : s'.StoredFit fits := by
  cases hstep with
  | check time hle =>
    refine ⟨?_, h.reporting⟩
    rcases s.connector.preCall_external time with ⟨-, ms, -, heq⟩ | ⟨-, heq⟩ <;> dsimp only <;>
      rw [heq]
    · exact h.state
    · intro d hd
      cases hd
  | returns | panics => exact ⟨h.state, h.reporting⟩
  | rateLimited time windowMs hle hcall hfits =>
    exact ⟨h.state, List.forall_mem_cons.2 ⟨hfits, h.reporting⟩⟩
  | report time deadline hle hcall =>
    refine ⟨?_, fun d hd => h.reporting d (List.mem_of_mem_erase hd)⟩
    rintro _ ⟨⟩
    exact h.reporting deadline hcall

/-- From any instant on there is one at which the layer does not block. -/
theorem StoredFit.exists_free (h : s.StoredFit fits) {time : ℕ} (htime : fits time) :
    ∃ t, time ≤ t ∧ fits t ∧ ¬ s.connector.Blocks t := by
  by_cases hb : s.connector.Blocks time
  · obtain ⟨d, hd, hlt⟩ := hb
    refine ⟨d, hlt.le, h.state d hd, ?_⟩
    rintro ⟨d', hd', hlt'⟩
    obtain rfl := Option.mem_unique hd hd'
    exact lt_irrefl d hlt'
  · exact ⟨time, le_rfl, htime, hb⟩

/-- A step keeps the longest block exactly when it is neither a shorter report nor a panic. -/
theorem Longest.step_iff (hfits : Antitone fits) (hstored : s.StoredFit fits) (h : s.Longest)
    (hstep : Step fits s e s') :
    s'.Longest ↔ NoShorter ⟨s, e, s'⟩ ∧ DeadlineFits fits ⟨s, e, s'⟩ := by
  rw [longest_iff] at h ⊢
  have hkeep {t : BlacklistTraffic} (hnow : s.now ≤ t.now) (hrep : t.reported = s.reported)
      (hblocks : ∀ time, t.now ≤ time → (t.connector.Blocks time ↔ s.connector.Blocks time)) :
      ∀ time, t.now ≤ time → (t.connector.Blocks time ↔ ∃ d ∈ t.reported, time < d) := by
    intro time htime
    rw [hblocks time htime, hrep]
    exact h time (hnow.trans htime)
  cases hstep with
  | check time hle =>
    exact iff_of_true (hkeep hle rfl fun time' h' => blocks_preCall _ h')
      ⟨(fun _ h => by cases h), fun _ h => by cases h⟩
  | returns time hle hcall =>
    exact iff_of_true (hkeep hle rfl fun _ _ => Iff.rfl)
      ⟨(fun _ h => by cases h), fun _ h => by cases h⟩
  | rateLimited time windowMs hle hcall hdeadline =>
    refine iff_of_true (hkeep hle rfl fun _ _ => Iff.rfl) ⟨(fun _ h => by cases h), ?_⟩
    rintro _ ⟨⟩
    exact hdeadline
  | panics time windowMs hle hcall htime hdeadline =>
    refine iff_of_false (fun hlong => ?_) fun hcond => hdeadline (hcond.2 windowMs rfl)
    -- the deadline is later than any instant, and the layer does not block until then
    obtain ⟨t, hle', ht, hfree⟩ := hstored.exists_free htime
    have hlt : t < time + s.connector.blockFor windowMs :=
      not_le.1 fun hge => hdeadline (hfits hge ht)
    exact hfree ((hlong t hle').2 ⟨_, List.mem_cons_self .., hlt⟩)
  | report time deadline hle hcall =>
    rw [and_iff_left (show DeadlineFits fits _ from fun _ h => by cases h)]
    simp only [NoShorter, BlacklistEvent.report.injEq, forall_eq',
      BlacklistConnector.blocks_blacklistUntil, List.mem_cons, exists_eq_or_imp]
    constructor
    · rintro hlong ⟨d, hd, hlt⟩ d' hd'
      obtain rfl := Option.mem_unique hd hd'
      -- were the report shorter, the layer would accept a call at its deadline
      by_contra hshort
      have hmax : time ≤ max time deadline := le_max_left _ _
      have hin : s.connector.Blocks (max time deadline) := ⟨d, hd, by omega⟩
      have := (hlong _ hmax).2 (.inr ((h _ (hle.trans hmax)).1 hin))
      omega
    · intro hlong time' htime'
      rw [← h time' (hle.trans htime')]
      refine ⟨.inl, ?_⟩
      rintro (hlt | ⟨d, hd, hlt⟩)
      · exact hlt
      · exact hlt.trans_le (hlong ⟨d, hd, htime'.trans_lt hlt⟩ d hd)

theorem longest_new (defaultDuration : ℕ) : (new defaultDuration).Longest := by
  rw [longest_iff]
  simp [new, BlacklistConnector.new, BlacklistConnector.Blocks]

theorem storedFit_new (defaultDuration : ℕ) : (new defaultDuration).StoredFit fits :=
  ⟨(fun _ h => by cases h), List.forall_mem_nil _⟩

end

/-- When the blacklist only lengthens. In every state of a run the layer blocks until the latest
deadline reported so far, exactly when each report comes with a deadline that is an instant and no
earlier than the one in force. -/
theorem blacklist_longest {range : InstantRange} {defaultDuration : ℕ}
    {tr : List (LTS.Step BlacklistTraffic BlacklistEvent)} {s : BlacklistTraffic}
    (hrun : Path (Step range.Contains) (new defaultDuration) tr s) :
    (∀ st ∈ tr, st.post.Longest) ↔
      ∀ st ∈ tr, NoShorter st ∧ DeadlineFits range.Contains st :=
  hrun.forall_iff_of_keeps (I := fun s => s.Longest ∧ s.StoredFit range.Contains)
    ⟨longest_new defaultDuration, storedFit_new defaultDuration⟩
    (fun _ _ _ h hstep => h.1.step_iff range.antitone_contains h.2 hstep)
    fun _ _ _ h hstep hlong => ⟨hlong, h.2.step hstep⟩

/-- Two calls under way report windows of one and of ten seconds, in this order: the block lasts until
the second deadline. -/
theorem blacklist_longest_ascending : ∃ tr s, Path (Step aYear.Contains) (new 0) tr s ∧
    s.reported = [10000000000, 1000000000] ∧ ∀ st ∈ tr, st.post.Longest := by
  have hrun := Path.snoc (R := Step aYear.Contains) (.snoc (.snoc (.snoc (.snoc (.snoc .nil
    (Step.check (new 0) 0 le_rfl))
    (Step.check _ 0 le_rfl))
    (Step.rateLimited _ 0 1000 le_rfl (by decide) (show _ ≤ aYear.last by decide)))
    (Step.rateLimited _ 0 10000 le_rfl (by decide) (show _ ≤ aYear.last by decide)))
    (Step.report _ 0 1000000000 le_rfl (by decide)))
    (Step.report _ 0 10000000000 le_rfl (by decide))
  refine ⟨_, _, hrun, rfl, (blacklist_longest hrun).2 ?_⟩
  simp only [List.forall_mem_append, List.forall_mem_singleton]
  have hquiet : ∀ st : LTS.Step BlacklistTraffic BlacklistEvent, st.label = .check →
      NoShorter st ∧ DeadlineFits aYear.Contains st := fun st hst =>
    ⟨(fun _ h => by cases hst.symm.trans h), fun _ h => by cases hst.symm.trans h⟩
  refine ⟨⟨⟨⟨⟨⟨List.forall_mem_nil _, hquiet _ rfl⟩, hquiet _ rfl⟩, ?_⟩, ?_⟩, ?_⟩, ?_⟩
  · refine ⟨(fun _ h => by cases h), ?_⟩
    rintro _ ⟨⟩
    exact show _ ≤ aYear.last by decide
  · refine ⟨(fun _ h => by cases h), ?_⟩
    rintro _ ⟨⟩
    exact show _ ≤ aYear.last by decide
  · refine ⟨?_, fun _ h => by cases h⟩
    rintro _ - ⟨_, hd, -⟩
    cases hd
  · refine ⟨?_, fun _ h => by cases h⟩
    rintro _ heq - d hd
    obtain rfl := BlacklistEvent.report.inj heq
    obtain rfl : 1000000000 = d := Option.some.inj hd
    decide

/-- In the other order the second report ends the block nine seconds early. -/
theorem blacklist_not_longest : ¬ ∀ {defaultDuration : ℕ}
    {tr : List (LTS.Step BlacklistTraffic BlacklistEvent)} {s : BlacklistTraffic},
    Path (Step aYear.Contains) (new defaultDuration) tr s → ∀ st ∈ tr, st.post.Longest := by
  intro h
  have hrun := Path.snoc (R := Step aYear.Contains) (.snoc (.snoc (.snoc (.snoc (.snoc .nil
    (Step.check (new 0) 0 le_rfl))
    (Step.check _ 0 le_rfl))
    (Step.rateLimited _ 0 10000 le_rfl (by decide) (show _ ≤ aYear.last by decide)))
    (Step.rateLimited _ 0 1000 le_rfl (by decide) (show _ ≤ aYear.last by decide)))
    (Step.report _ 0 10000000000 le_rfl (by decide)))
    (Step.report _ 0 1000000000 le_rfl (by decide))
  have hlong := h hrun _ (List.mem_append_right _ (List.mem_singleton_self _)) 5000000000 (by decide)
  rw [rejects_iff] at hlong
  exact absurd (hlong.1.2 ⟨10000000000, by decide, by decide⟩) (by decide)

end BlacklistTraffic

end Borsa
