import Borsa.History.Request
import Borsa.Lib.Best

/-!
# Interval plans

What `choose_effective_interval` is for: it asks a provider for the longest supported interval of
which the requested one is a multiple, or, for daily and weekly requests, for one that is no coarser.
It reads the lengths of intervals in minutes. A request of seconds that is no whole number of minutes
is passed on as it is, and a supported interval of seconds is passed over, unless it is a whole number
of minutes and the request is intraday. `plansSoundly_iff` says when neither matters.
-/

namespace Borsa

open Best

section
variable {I : Type} [Interval I]

/-! ## Lengths -/

/-- The length of an intraday interval, in seconds. -/
def lengthSecs (iv : I) : Option ℤ :=
  ((Interval.minutes iv).map (60 * ·)).or (Interval.seconds iv)

/-- The intraday intervals are those with a length, which is at most a day. -/
class LawfulInterval (I : Type) [Interval I] : Prop where
  length_pos : ∀ (iv : I) (l : ℤ), lengthSecs iv = some l → 0 < l
  length_le : ∀ (iv : I) (l : ℤ), lengthSecs iv = some l → l ≤ 86400
  lengthSecs_d1 : lengthSecs (Interval.d1 : I) = none
  lengthSecs_w1 : lengthSecs (Interval.w1 : I) = none
  d1_ne_w1 : (Interval.d1 : I) ≠ Interval.w1

theorem wholeMinutes_eq_some {iv : I} {m : ℤ} :
    wholeMinutes iv = some m ↔ lengthSecs iv = some (60 * m) := by
  rw [wholeMinutes, lengthSecs]
  cases Interval.minutes iv with
  | some m' =>
    simp only [Option.some_or, Option.map_some, Option.some.injEq]
    omega
  | none =>
    cases Interval.seconds iv with
    | none => simp
    | some s =>
      simp only [Option.none_or, Option.map_none, Option.bind_some, Option.some.injEq]
      split
      · simp only [Option.some.injEq]
        omega
      · simp only [reduceCtorEq, false_iff]
        omega

theorem wholeMinutes_eq_none {iv : I} {l : ℤ} (hl : lengthSecs iv = some l) (hnot : ¬ 60 ∣ l) :
    wholeMinutes iv = none := by
  refine Option.eq_none_iff_forall_ne_some.2 fun m hm => hnot ⟨m, ?_⟩
  exact Option.some.inj (hl.symm.trans (wholeMinutes_eq_some.1 hm))

theorem wholeMinutes_of_length_none {iv : I} (hl : lengthSecs iv = none) :
    wholeMinutes iv = none := by
  refine Option.eq_none_iff_forall_ne_some.2 fun m hm => ?_
  cases hl.symm.trans (wholeMinutes_eq_some.1 hm)

/-! ## The loops over the supported intervals -/

/-- The whole minutes of an interval that divides the requested ones. -/
def divisorOf (reqMin : ℤ) (s : I) : Option ℤ :=
  (wholeMinutes s).filter fun m => m ≤ reqMin ∧ reqMin % m = 0

/-- The loop finds the longest divisor. -/
theorem isBest_bestDivisor (reqMin : ℤ) (supported : List I) :
    IsBest (divisorOf reqMin) supported (bestDivisor reqMin supported) := by
  refine Keeps.isBest_foldl ⟨fun best s hs => ?_, fun best s m hs => ?_⟩ supported
  · cases hm : wholeMinutes s with
    | none => rfl
    | some m =>
      have hnot : ¬ (m ≤ reqMin ∧ reqMin % m = 0) := by simpa [divisorOf, hm] using hs
      exact if_neg fun h => hnot ⟨h.1, h.2.1⟩
  · obtain ⟨hm, hdiv⟩ : wholeMinutes s = some m ∧ m ≤ reqMin ∧ reqMin % m = 0 := by
      simpa [divisorOf, Option.filter_eq_some_iff] using hs
    simp only [hm, hdiv, true_and]
    cases best with
    | none => exact .inl ⟨rfl, by simp⟩
    | some b =>
      by_cases hlt : b.2 < m
      · exact .inl ⟨by simp [hlt], by simpa using hlt.le⟩
      · exact .inr ⟨by simp [hlt], b, rfl, not_lt.1 hlt⟩

/-- `coarsest_intraday` is the longest interval of minutes. -/
theorem isBest_coarsestIntraday (supported : List I) :
    IsBest Interval.minutes supported (coarsestIntraday supported) := by
  refine Keeps.isBest_foldl ⟨fun best s hs => ?_, fun best s m hs => ?_⟩ supported
  · simp only [hs]
  · simp only [hs]
    cases best with
    | none => exact .inl ⟨rfl, by simp⟩
    | some b =>
      by_cases hle : b.2 ≤ m
      · exact .inl ⟨by simp [hle], by simpa using hle⟩
      · exact .inr ⟨by simp [hle], b, rfl, (not_le.1 hle).le⟩

/-- Divisors of whole minutes are those of their seconds. -/
theorem divisorOf_eq_some [LawfulInterval I] {reqMin : ℤ} (hreq : 0 < reqMin) {s : I} {m : ℤ} :
    divisorOf reqMin s = some m ↔ lengthSecs s = some (60 * m) ∧ 60 * m ∣ 60 * reqMin := by
  rw [divisorOf, Option.filter_eq_some_iff, wholeMinutes_eq_some]
  refine and_congr_right fun hm => ?_
  rw [decide_eq_true_iff, mul_dvd_mul_iff_left (by decide), ← Int.dvd_iff_emod_eq_zero]
  exact and_iff_right_of_imp (Int.le_of_dvd hreq)

/-! ## What a plan should be -/

section
variable [DecidableEq I]

/-- An intraday request of `l` seconds is answered from the longest supported interval that divides
it. -/
structure IntradayPlanned (supported : List I) (requested : I) (l : ℤ) : Prop where
  mem : ∀ eff plan, chooseEffectiveInterval supported requested = .ok (eff, plan) → eff ∈ supported
  longest : ∀ eff plan, chooseEffectiveInterval supported requested = .ok (eff, plan) →
    ∃ m, lengthSecs eff = some m ∧ m ∣ l ∧
      ∀ s ∈ supported, ∀ n, lengthSecs s = some n → n ∣ l → n ≤ m
  plan_eq_none : ∀ eff plan, chooseEffectiveInterval supported requested = .ok (eff, plan) →
    (plan = none ↔ eff = requested)
  plan_eq : ∀ eff plan, chooseEffectiveInterval supported requested = .ok (eff, plan) →
    eff ≠ requested → ∃ mins, plan = some (.minutes mins) ∧ 60 * mins = l
  error_iff : (∃ e, chooseEffectiveInterval supported requested = .error e) ↔
    ∀ s ∈ supported, ∀ n, lengthSecs s = some n → ¬ n ∣ l

/-- The length of an interval up to a week. -/
def spanSecs (iv : I) : Option ℤ :=
  if iv = Interval.d1 then some 86400
  else if iv = Interval.w1 then some 604800
  else lengthSecs iv

/-- The interval is no coarser than the requested one. -/
def NoCoarser (iv requested : I) : Prop :=
  ∃ l n, spanSecs iv = some l ∧ spanSecs requested = some n ∧ l ≤ n

/-- A daily or weekly request is answered as it is, if it is supported, and else from an interval that
is no coarser, a daily one before any other. -/
structure CalendarPlanned (supported : List I) (requested : I) (plan : ResamplePlan) : Prop where
  exact : requested ∈ supported → chooseEffectiveInterval supported requested = .ok (requested, none)
  mem : ∀ eff p, chooseEffectiveInterval supported requested = .ok (eff, p) → eff ∈ supported
  noCoarser : ∀ eff p, chooseEffectiveInterval supported requested = .ok (eff, p) →
    NoCoarser eff requested
  plan_eq : requested ∉ supported → ∀ eff p,
    chooseEffectiveInterval supported requested = .ok (eff, p) → p = some plan
  daily_first : requested ∉ supported → Interval.d1 ∈ supported → ∀ eff p,
    chooseEffectiveInterval supported requested = .ok (eff, p) → eff = Interval.d1
  error_iff : (∃ e, chooseEffectiveInterval supported requested = .error e) ↔
    ∀ s ∈ supported, ¬ NoCoarser s requested

/-- The plan for a request is as it should be. -/
structure PlansSoundly (supported : List I) (requested : I) : Prop where
  intraday : ∀ l, lengthSecs requested = some l → IntradayPlanned supported requested l
  daily : requested = Interval.d1 → CalendarPlanned supported requested .daily
  weekly : requested = Interval.w1 → CalendarPlanned supported requested .weekly

/-- A plan for an intraday request is as it should be if its interval is the longest that divides
it. -/
theorem IntradayPlanned.of_ok {supported : List I} {requested eff : I} {plan : Option ResamplePlan}
    {l m : ℤ} (hchoose : chooseEffectiveInterval supported requested = .ok (eff, plan))
    (hmem : eff ∈ supported) (hm : lengthSecs eff = some m) (hdvd : m ∣ l)
    (hmax : ∀ s ∈ supported, ∀ n, lengthSecs s = some n → n ∣ l → n ≤ m)
    (hnone : plan = none ↔ eff = requested)
    (hplan : eff ≠ requested → ∃ mins, plan = some (.minutes mins) ∧ 60 * mins = l) :
    IntradayPlanned supported requested l := by
  have hok : ∀ eff' plan', chooseEffectiveInterval supported requested = .ok (eff', plan') →
      eff' = eff ∧ plan' = plan := fun eff' plan' h => by
    cases h.symm.trans hchoose
    exact ⟨rfl, rfl⟩
  refine ⟨fun eff' plan' h => ?_, fun eff' plan' h => ?_, fun eff' plan' h => ?_,
    fun eff' plan' h => ?_, iff_of_false ?_ fun h => h eff hmem m hm hdvd⟩
  · rw [(hok eff' plan' h).1]
    exact hmem
  · rw [(hok eff' plan' h).1]
    exact ⟨m, hm, hdvd, hmax⟩
  · rw [(hok eff' plan' h).1, (hok eff' plan' h).2]
    exact hnone
  · rw [(hok eff' plan' h).1, (hok eff' plan' h).2]
    exact hplan
  · rintro ⟨e, he⟩
    cases he.symm.trans hchoose

/-- A failure for an intraday request is as it should be if no supported interval divides it. -/
theorem IntradayPlanned.of_error {supported : List I} {requested : I} {e : BorsaError} {l : ℤ}
    (hchoose : chooseEffectiveInterval supported requested = .error e)
    (hnone : ∀ s ∈ supported, ∀ n, lengthSecs s = some n → ¬ n ∣ l) :
    IntradayPlanned supported requested l := by
  have hfail : ∀ eff plan, chooseEffectiveInterval supported requested ≠ .ok (eff, plan) :=
    fun eff plan h => by cases h.symm.trans hchoose
  exact ⟨fun _ _ h => absurd h (hfail _ _), fun _ _ h => absurd h (hfail _ _),
    fun _ _ h => absurd h (hfail _ _), fun _ _ h => absurd h (hfail _ _),
    iff_of_true ⟨e, hchoose⟩ hnone⟩

/-- A plan for a daily or weekly request is as it should be if its interval is the request or one
that is no coarser. -/
theorem CalendarPlanned.of_ok {supported : List I} {requested eff : I} {p : Option ResamplePlan}
    {plan : ResamplePlan}
    (hchoose : chooseEffectiveInterval supported requested = .ok (eff, p))
    (hmem : eff ∈ supported) (hfine : NoCoarser eff requested)
    (hexact : requested ∈ supported → eff = requested ∧ p = none)
    (hplan : requested ∉ supported →
      p = some plan ∧ (Interval.d1 ∈ supported → eff = Interval.d1)) :
    CalendarPlanned supported requested plan := by
  have hok : ∀ eff' p', chooseEffectiveInterval supported requested = .ok (eff', p') →
      eff' = eff ∧ p' = p := fun eff' p' h => by
    cases h.symm.trans hchoose
    exact ⟨rfl, rfl⟩
  refine ⟨fun h => ?_, fun eff' p' h => ?_, fun eff' p' h => ?_, fun hnot eff' p' h => ?_,
    fun hnot hd1 eff' p' h => ?_, iff_of_false ?_ fun h => h eff hmem hfine⟩
  · rw [hchoose, (hexact h).1, (hexact h).2]
  · rw [(hok eff' p' h).1]
    exact hmem
  · rw [(hok eff' p' h).1]
    exact hfine
  · rw [(hok eff' p' h).2]
    exact (hplan hnot).1
  · rw [(hok eff' p' h).1]
    exact (hplan hnot).2 hd1
  · rintro ⟨e, he⟩
    cases he.symm.trans hchoose

/-- A failure for such a request is as it should be if every supported interval is coarser. -/
theorem CalendarPlanned.of_error {supported : List I} {requested : I} {e : BorsaError}
    {plan : ResamplePlan} (hchoose : chooseEffectiveInterval supported requested = .error e)
    (hmem : requested ∉ supported) (hnone : ∀ s ∈ supported, ¬ NoCoarser s requested) :
    CalendarPlanned supported requested plan := by
  have hfail : ∀ eff p, chooseEffectiveInterval supported requested ≠ .ok (eff, p) :=
    fun eff p h => by cases h.symm.trans hchoose
  exact ⟨fun h => absurd h hmem, fun _ _ h => absurd h (hfail _ _),
    fun _ _ h => absurd h (hfail _ _), fun _ _ _ h => absurd h (hfail _ _),
    fun _ _ _ _ h => absurd h (hfail _ _), iff_of_true ⟨e, hchoose⟩ hnone⟩

/-! ## Intraday requests -/

/-- A request of whole minutes, where the longest supported intervals that divide it include one of
whole minutes. -/
def WholeMinuteDivisors (supported : List I) (l : ℤ) : Prop :=
  60 ∣ l ∧ ∀ s ∈ supported, ∀ n, lengthSecs s = some n → n ∣ l →
    ∃ s' ∈ supported, ∃ n', lengthSecs s' = some n' ∧ n' ∣ l ∧ 60 ∣ n' ∧ n ≤ n'

theorem chooseEffectiveInterval_of_mem {supported : List I} {requested : I}
    (h : requested ∈ supported) :
    chooseEffectiveInterval supported requested = .ok (requested, none) := if_pos h

theorem chooseEffectiveInterval_of_wholeMinutes {supported : List I} {requested : I} {reqMin : ℤ}
    (hnot : requested ∉ supported) (hmin : wholeMinutes requested = some reqMin) :
    chooseEffectiveInterval supported requested =
      (bestDivisor reqMin supported).elim
        (.error (.unsupported "history interval (intraday too fine for provider)"))
        fun best => .ok (best.1, some (.minutes reqMin)) := by
  rw [chooseEffectiveInterval, if_neg hnot, hmin]
  dsimp only
  cases bestDivisor reqMin supported <;> rfl

/-- An intraday request of seconds that are no whole minutes is passed on. -/
theorem chooseEffectiveInterval_of_seconds [LawfulInterval I] {supported : List I} {requested : I}
    {l : ℤ} (hnot : requested ∉ supported) (hl : lengthSecs requested = some l)
    (hsecs : ¬ 60 ∣ l) :
    chooseEffectiveInterval supported requested = .ok (requested, none) := by
  have hd1 : requested ≠ Interval.d1 := fun heq => by
    rw [heq, LawfulInterval.lengthSecs_d1] at hl
    cases hl
  have hw1 : requested ≠ Interval.w1 := fun heq => by
    rw [heq, LawfulInterval.lengthSecs_w1] at hl
    cases hl
  rw [chooseEffectiveInterval, if_neg hnot, wholeMinutes_eq_none hl hsecs]
  simp only [hd1, hw1, if_false]

/-- A supported request is its own longest divisor. -/
theorem intradayPlanned_of_mem [LawfulInterval I] {supported : List I} {requested : I} {l : ℤ}
    (hl : lengthSecs requested = some l) (hmem : requested ∈ supported) :
    IntradayPlanned supported requested l := by
  have hpos := LawfulInterval.length_pos requested l hl
  exact .of_ok (chooseEffectiveInterval_of_mem hmem) hmem hl dvd_rfl
    (fun _ _ _ _ => Int.le_of_dvd hpos) (iff_of_true rfl rfl) fun hne => absurd rfl hne

/-- When an intraday request that is not supported is planned as it should be. -/
theorem intradayPlanned_of_wholeMinutes_iff [LawfulInterval I] {supported : List I} {requested : I}
    {reqMin : ℤ} (hl : lengthSecs requested = some (60 * reqMin)) (hnot : requested ∉ supported) :
    IntradayPlanned supported requested (60 * reqMin) ↔
      WholeMinuteDivisors supported (60 * reqMin) := by
  have hpos : 0 < reqMin := by
    have := LawfulInterval.length_pos requested _ hl
    omega
  have hchoose := chooseEffectiveInterval_of_wholeMinutes hnot (wholeMinutes_eq_some.2 hl)
  have hbest := isBest_bestDivisor reqMin supported
  rcases hb : bestDivisor reqMin supported with _ | ⟨eff, m⟩
  all_goals rw [hb] at hchoose hbest
  · -- no interval of whole minutes divides the request
    have hno : ∀ s ∈ supported, ∀ n', lengthSecs s = some n' → n' ∣ 60 * reqMin → ¬ 60 ∣ n' := by
      rintro s hs n' hn' hdvd ⟨m, rfl⟩
      have := (divisorOf_eq_some hpos).2 ⟨hn', hdvd⟩
      rw [hbest s hs] at this
      cases this
    constructor
    · intro h
      refine ⟨dvd_mul_right _ _, fun s hs n hn hdvd => ?_⟩
      exact absurd hdvd (h.error_iff.1 ⟨_, hchoose⟩ s hs n hn)
    · rintro ⟨-, hcover⟩
      refine .of_error hchoose fun s hs n hn hdvd => ?_
      obtain ⟨s', hs', n', hn', hdvd', hwhole, -⟩ := hcover s hs n hn hdvd
      exact hno s' hs' n' hn' hdvd' hwhole
  · obtain ⟨heff, hm, hall⟩ := hbest
    obtain ⟨hm, hdvdm⟩ := (divisorOf_eq_some hpos).1 hm
    have hne : eff ≠ requested := fun heq => hnot (heq ▸ heff)
    constructor
    · intro h
      refine ⟨dvd_mul_right _ _, fun s hs n hn hdvd => ?_⟩
      obtain ⟨m', hm', -, hmax⟩ := h.longest eff _ hchoose
      cases hm'.symm.trans hm
      exact ⟨eff, heff, _, hm, hdvdm, dvd_mul_right _ _, hmax s hs n hn hdvd⟩
    · rintro ⟨-, hcover⟩
      refine .of_ok hchoose heff hm hdvdm (fun s hs n hn hdvd => ?_) (iff_of_false nofun hne)
        fun _ => ⟨reqMin, rfl, rfl⟩
      obtain ⟨s', hs', n', hn', hdvd', ⟨k, rfl⟩, hle⟩ := hcover s hs n hn hdvd
      have := hall s' hs' k ((divisorOf_eq_some hpos).2 ⟨hn', hdvd'⟩)
      omega

/-- When an intraday request is planned as it should be. -/
theorem intradayPlanned_iff [LawfulInterval I] {supported : List I} {requested : I} {l : ℤ}
    (hl : lengthSecs requested = some l) :
    IntradayPlanned supported requested l ↔
      requested ∈ supported ∨ WholeMinuteDivisors supported l := by
  by_cases hmem : requested ∈ supported
  · exact iff_of_true (intradayPlanned_of_mem hl hmem) (.inl hmem)
  · by_cases hwhole : 60 ∣ l
    · obtain ⟨reqMin, rfl⟩ := hwhole
      rw [intradayPlanned_of_wholeMinutes_iff hl hmem, or_iff_right hmem]
    · refine iff_of_false (fun h => hmem ?_) (not_or.2 ⟨hmem, fun h => hwhole h.1⟩)
      exact h.mem _ _ (chooseEffectiveInterval_of_seconds hmem hl hwhole)

/-! ## Daily and weekly requests -/

/-- If any supported interval is intraday, one has its length in minutes. -/
def MinutesSupported (supported : List I) : Prop :=
  (∃ s ∈ supported, (lengthSecs s).isSome) → ∃ s ∈ supported, (Interval.minutes s).isSome

theorem chooseEffectiveInterval_d1 [LawfulInterval I] {supported : List I}
    (hnot : Interval.d1 ∉ supported) :
    chooseEffectiveInterval supported Interval.d1 =
      (coarsestIntraday supported).elim
        (.error (.unsupported "history interval (daily requires daily or intraday)"))
        fun best => .ok (best.1, some .daily) := by
  rw [chooseEffectiveInterval, if_neg hnot,
    wholeMinutes_of_length_none LawfulInterval.lengthSecs_d1]
  simp only [if_true, hnot, if_false]
  cases coarsestIntraday supported <;> rfl

theorem chooseEffectiveInterval_w1_of_d1 [LawfulInterval I] {supported : List I}
    (hnot : Interval.w1 ∉ supported) (hd1 : Interval.d1 ∈ supported) :
    chooseEffectiveInterval supported Interval.w1 = .ok (Interval.d1, some .weekly) := by
  rw [chooseEffectiveInterval, if_neg hnot,
    wholeMinutes_of_length_none LawfulInterval.lengthSecs_w1]
  simp only [LawfulInterval.d1_ne_w1.symm, hnot, hd1, if_true, if_false]

theorem chooseEffectiveInterval_w1 [LawfulInterval I] {supported : List I}
    (hnot : Interval.w1 ∉ supported) (hd1 : Interval.d1 ∉ supported) :
    chooseEffectiveInterval supported Interval.w1 =
      (coarsestIntraday supported).elim
        (.error (.unsupported "history interval (weekly requires weekly/daily/intraday)"))
        fun best => .ok (best.1, some .weekly) := by
  rw [chooseEffectiveInterval, if_neg hnot,
    wholeMinutes_of_length_none LawfulInterval.lengthSecs_w1]
  simp only [LawfulInterval.d1_ne_w1.symm, hnot, hd1, if_true, if_false]
  cases coarsestIntraday supported <;> rfl

theorem spanSecs_d1 : spanSecs (Interval.d1 : I) = some 86400 := if_pos rfl

theorem spanSecs_w1 [LawfulInterval I] : spanSecs (Interval.w1 : I) = some 604800 := by
  rw [spanSecs, if_neg LawfulInterval.d1_ne_w1.symm, if_pos rfl]

/-- A daily or weekly request spans a day or more. -/
theorem exists_spanSecs [LawfulInterval I] {requested : I}
    (hreq : requested = Interval.d1 ∨ requested = Interval.w1) :
    ∃ n, spanSecs requested = some n ∧ 86400 ≤ n := by
  rcases hreq with rfl | rfl
  · exact ⟨_, spanSecs_d1, le_rfl⟩
  · exact ⟨_, spanSecs_w1, by decide⟩

/-- Besides a day and the request itself, what is no coarser than the request is intraday. -/
theorem noCoarser_iff [LawfulInterval I] {s requested : I}
    (hreq : requested = Interval.d1 ∨ requested = Interval.w1) (hd1 : s ≠ Interval.d1)
    (hne : s ≠ requested) : NoCoarser s requested ↔ (lengthSecs s).isSome := by
  obtain ⟨n, hn, hday⟩ := exists_spanSecs hreq
  constructor
  · rintro ⟨l, n', hl, hn', hle⟩
    rw [spanSecs, if_neg hd1] at hl
    split at hl
    · next hw1 =>
      -- a week is coarser than a day
      obtain rfl : requested = Interval.d1 := hreq.resolve_right fun h => hne (hw1.trans h.symm)
      rw [spanSecs_d1] at hn'
      cases hn'
      cases hl
      exact absurd hle (by decide)
    · exact Option.isSome_iff_exists.2 ⟨l, hl⟩
  · intro h
    obtain ⟨l, hl⟩ := Option.isSome_iff_exists.1 h
    have hw1 : s ≠ Interval.w1 := fun heq => by
      rw [heq, LawfulInterval.lengthSecs_w1] at hl
      cases hl
    refine ⟨l, n, ?_, hn, (LawfulInterval.length_le s l hl).trans hday⟩
    rw [spanSecs, if_neg hd1, if_neg hw1, hl]

/-- A daily or weekly request that is supported is answered as it is. -/
theorem calendarPlanned_of_mem [LawfulInterval I] {supported : List I} {requested : I}
    (hreq : requested = Interval.d1 ∨ requested = Interval.w1) (hmem : requested ∈ supported)
    (plan : ResamplePlan) : CalendarPlanned supported requested plan := by
  obtain ⟨n, hn, -⟩ := exists_spanSecs hreq
  exact .of_ok (chooseEffectiveInterval_of_mem hmem) hmem ⟨n, n, hn, hn, le_rfl⟩
    (fun _ => ⟨rfl, rfl⟩) fun hnot => absurd hmem hnot

/-- Without the request and a day, the longest interval of minutes is chosen, if there is one. -/
theorem calendarPlanned_of_coarsest_iff [LawfulInterval I] {supported : List I} {requested : I}
    {plan : ResamplePlan} {e : BorsaError}
    (hreq : requested = Interval.d1 ∨ requested = Interval.w1) (hnot : requested ∉ supported)
    (hd1 : Interval.d1 ∉ supported)
    (hchoose : chooseEffectiveInterval supported requested =
      (coarsestIntraday supported).elim (.error e) fun best => .ok (best.1, some plan)) :
    CalendarPlanned supported requested plan ↔ MinutesSupported supported := by
  have hfine : ∀ s ∈ supported, NoCoarser s requested ↔ (lengthSecs s).isSome := fun s hs =>
    noCoarser_iff hreq (fun h => hd1 (h ▸ hs)) fun h => hnot (h ▸ hs)
  have hbest := isBest_coarsestIntraday supported
  rcases hb : coarsestIntraday supported with _ | ⟨eff, m⟩
  all_goals rw [hb] at hchoose hbest
  · have hnone : ¬ ∃ s ∈ supported, (Interval.minutes s).isSome := by
      rintro ⟨s, hs, hm⟩
      rw [hbest s hs] at hm
      cases hm
    rw [MinutesSupported, iff_false_intro hnone]
    constructor
    · rintro h ⟨s, hs, hl⟩
      exact h.error_iff.1 ⟨_, hchoose⟩ s hs ((hfine s hs).2 hl)
    · intro hno
      exact .of_error hchoose hnot fun s hs h => hno ⟨s, hs, (hfine s hs).1 h⟩
  · obtain ⟨heff, hm, -⟩ := hbest
    have hlen : (lengthSecs eff).isSome := by
      rw [lengthSecs, hm]
      rfl
    refine iff_of_true ?_ fun _ => ⟨eff, heff, by rw [hm]; rfl⟩
    exact .of_ok hchoose heff ((hfine eff heff).2 hlen) (fun hmem => absurd hmem hnot)
      fun _ => ⟨rfl, fun hmem => absurd hmem hd1⟩

/-- When a daily request is planned as it should be. -/
theorem calendarPlanned_d1_iff [LawfulInterval I] {supported : List I} :
    CalendarPlanned supported Interval.d1 .daily ↔
      Interval.d1 ∈ supported ∨ MinutesSupported supported := by
  by_cases hmem : Interval.d1 ∈ supported
  · exact iff_of_true (calendarPlanned_of_mem (.inl rfl) hmem _) (.inl hmem)
  · rw [or_iff_right hmem]
    exact calendarPlanned_of_coarsest_iff (.inl rfl) hmem hmem (chooseEffectiveInterval_d1 hmem)

/-- When a weekly request is planned as it should be. -/
theorem calendarPlanned_w1_iff [LawfulInterval I] {supported : List I} :
    CalendarPlanned supported Interval.w1 .weekly ↔
      Interval.w1 ∈ supported ∨ Interval.d1 ∈ supported ∨ MinutesSupported supported := by
  by_cases hmem : Interval.w1 ∈ supported
  · exact iff_of_true (calendarPlanned_of_mem (.inr rfl) hmem _) (.inl hmem)
  by_cases hd1 : Interval.d1 ∈ supported
  · refine iff_of_true ?_ (.inr (.inl hd1))
    have hfine : NoCoarser (Interval.d1 : I) Interval.w1 :=
      ⟨_, _, spanSecs_d1, spanSecs_w1, by decide⟩
    exact .of_ok (chooseEffectiveInterval_w1_of_d1 hmem hd1) hd1 hfine (fun h => absurd h hmem)
      fun _ => ⟨rfl, fun _ => rfl⟩
  · rw [or_iff_right hmem, or_iff_right hd1]
    exact calendarPlanned_of_coarsest_iff (.inr rfl) hmem hd1 (chooseEffectiveInterval_w1 hmem hd1)

/-! ## The result -/

/-- The supported intervals are such that reading lengths in minutes is enough for the request. -/
structure MinutesSuffice (supported : List I) (requested : I) : Prop where
  intraday : ∀ l, lengthSecs requested = some l →
    requested ∈ supported ∨ WholeMinuteDivisors supported l
  daily : requested = Interval.d1 → Interval.d1 ∈ supported ∨ MinutesSupported supported
  weekly : requested = Interval.w1 →
    Interval.w1 ∈ supported ∨ Interval.d1 ∈ supported ∨ MinutesSupported supported

/-- When the plan for a request is as it should be. -/
theorem plansSoundly_iff [LawfulInterval I] (supported : List I) (requested : I) :
    PlansSoundly supported requested ↔ MinutesSuffice supported requested := by
  constructor
  · rintro ⟨hintraday, hdaily, hweekly⟩
    refine ⟨fun l hl => (intradayPlanned_iff hl).1 (hintraday l hl), ?_, ?_⟩
    · rintro rfl
      exact calendarPlanned_d1_iff.1 (hdaily rfl)
    · rintro rfl
      exact calendarPlanned_w1_iff.1 (hweekly rfl)
  · rintro ⟨hintraday, hdaily, hweekly⟩
    refine ⟨fun l hl => (intradayPlanned_iff hl).2 (hintraday l hl), ?_, ?_⟩
    · rintro rfl
      exact calendarPlanned_d1_iff.2 (hdaily rfl)
    · rintro rfl
      exact calendarPlanned_w1_iff.2 (hweekly rfl)

end

end

/-! ## A few intervals -/

/-- A half minute, one minute, three minutes, a day and a week. -/
inductive FewIntervals where
  | s30
  | m1
  | m3
  | d1
  | w1
  deriving DecidableEq

instance : Interval FewIntervals where
  minutes
    | .m1 => some 1
    | .m3 => some 3
    | _ => none
  seconds
    | .s30 => some 30
    | _ => none
  d1 := .d1
  w1 := .w1

instance : LawfulInterval FewIntervals where
  length_pos := by rintro (_ | _ | _ | _ | _) l h <;> cases h <;> decide
  length_le := by rintro (_ | _ | _ | _ | _) l h <;> cases h <;> decide
  lengthSecs_d1 := rfl
  lengthSecs_w1 := rfl
  d1_ne_w1 := nofun

/-- Three minutes are planned from one minute. -/
theorem plansSoundly_minutes : PlansSoundly [FewIntervals.d1, .m1] .m3 := by
  refine (plansSoundly_iff _ _).2 ⟨fun l hl => .inr ?_, nofun, nofun⟩
  obtain rfl : 180 = l := Option.some.inj hl
  refine ⟨by decide, List.forall_mem_cons.2 ⟨nofun, List.forall_mem_singleton.2 ?_⟩⟩
  rintro n hn -
  exact ⟨.m1, by decide, n, hn, by cases hn; decide, by cases hn; decide, le_rfl⟩

/-- A request of half a minute is passed on to a provider that does not support it. -/
theorem not_plansSoundly :
    ¬ ∀ (supported : List FewIntervals) (requested : FewIntervals),
      PlansSoundly supported requested := by
  intro h
  have hmem := ((h [.m1] .s30).intraday 30 rfl).mem .s30 none rfl
  exact absurd hmem (by decide)

end Borsa
