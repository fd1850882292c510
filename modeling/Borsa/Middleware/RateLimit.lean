import Borsa.Middleware.Stack

/-!
# Which rate limits trip the blacklist

The raw connector reports a rate limit bare or under tags that name connectors. A quota layer takes one
tag off (`translate_provider_error`), and a blacklist layer knows the bare error only
(`handle_error`). So a rate limit reaches the blacklist bare in two cases only. Then the layer rejects
the external calls until the reported window has passed, if the end of the block is an instant; if it is
not, or if that happens in a blacklist below, the call panics (`rate_limit_trips`).
-/

namespace Borsa

open LTS

/-- An error under tags, the outermost first. -/
def BorsaError.tagged (tags : List String) (e : BorsaError) : BorsaError :=
  tags.foldr BorsaError.connector e

/-- What a rate limit under tags has become below the blacklist, with or without a quota layer on the
way: it is bare, or it still has a tag. -/
theorem limited_cases (tags : List String) (limit windowMs : UInt64) (quota : Bool) :
    let e := BorsaError.tagged tags (.rateLimitExceeded limit windowMs)
    let e' := if quota then translateProviderError e else e
    (e' = .rateLimitExceeded limit windowMs ∧ (tags = [] ∨ tags.length = 1 ∧ quota = true)) ∨
      ((∃ tag inner, e' = .connector tag inner) ∧ ¬ (tags = [] ∨ tags.length = 1 ∧ quota = true)) := by
  match tags with
  | [] =>
    refine .inl ⟨?_, .inl rfl⟩
    cases quota <;> rfl
  | [tag] =>
    cases quota with
    | true => exact .inl ⟨rfl, .inr ⟨rfl, rfl⟩⟩
    | false => exact .inr ⟨⟨tag, _, rfl⟩, by simp⟩
  | tag :: tag' :: tags =>
    refine .inr ⟨⟨tag, .tagged (tag' :: tags) (.rateLimitExceeded limit windowMs), ?_⟩, by simp⟩
    cases quota <;> rfl

@[simp] theorem translateProviderError_idem (e : BorsaError) :
    translateProviderError (translateProviderError e) = translateProviderError e := by
  cases e with
  | connector connector inner => cases inner <;> rfl
  | _ => rfl

section
variable {K E V : Type}

/-- The layer is a quota. -/
def Layer.isQuota : Layer K E V → Bool
  | .quota _ => true
  | _ => false

/-- What an external call's error is above the layers: it has lost a tag if it came through a quota, and
through several as if through one. -/
def passedError (layers : List (Layer K E V)) (e : BorsaError) : BorsaError :=
  if layers.any Layer.isQuota then translateProviderError e else e

theorem passedError_cons_quota (rt : QuotaRuntime) (rest : List (Layer K E V)) (e : BorsaError) :
    passedError (.quota rt :: rest) e = translateProviderError (passedError rest e) := by
  have hany : (Layer.quota rt :: rest).any Layer.isQuota = true := rfl
  rw [passedError, if_pos hany, passedError]
  by_cases h : rest.any Layer.isQuota = true
  · rw [if_pos h, translateProviderError_idem]
  · rw [if_neg h]

/-- A rate limit under these tags is bare above these layers. -/
def ComesBare (tags : List String) (layers : List (Layer K E V)) : Prop :=
  tags = [] ∨ tags.length = 1 ∧ ∃ rt, .quota rt ∈ layers

theorem comesBare_iff (tags : List String) (layers : List (Layer K E V)) :
    ComesBare tags layers ↔ tags = [] ∨ tags.length = 1 ∧ layers.any Layer.isQuota = true := by
  have hquota : (∃ rt, Layer.quota rt ∈ layers) ↔ layers.any Layer.isQuota = true := by
    rw [List.any_eq_true]
    constructor
    · rintro ⟨rt, hrt⟩
      exact ⟨_, hrt, rfl⟩
    · rintro ⟨layer, hmem, hq⟩
      cases layer with
      | quota rt => exact ⟨rt, hmem⟩
      | _ => cases hq
  rw [ComesBare, hquota]

/-- A rate limit is bare above the layers or still has a tag. -/
theorem passedError_cases (tags : List String) (limit windowMs : UInt64)
    (layers : List (Layer K E V)) :
    (ComesBare tags layers ∧ passedError layers (.tagged tags (.rateLimitExceeded limit windowMs)) =
      .rateLimitExceeded limit windowMs) ∨
    (¬ ComesBare tags layers ∧ ∃ tag e,
      passedError layers (.tagged tags (.rateLimitExceeded limit windowMs)) = .connector tag e) := by
  rw [comesBare_iff]
  rcases limited_cases tags limit windowMs (layers.any Layer.isQuota) with
    ⟨he, hbare⟩ | ⟨htag, hbare⟩
  · exact .inl ⟨hbare, he⟩
  · exact .inr ⟨hbare, htag⟩

end

/-! ## What a blacklist makes of it -/

/-- A layer that does not block gets a rate limit that has come through the layers below: it blocks, or it
panics, or it does not know the error. -/
theorem BlacklistConnector.answered_limited {K E V : Type} (range : InstantRange)
    (b : BlacklistConnector) (leave : ℕ) (tags : List String) (limit windowMs : UInt64)
    (inner : List (Layer K E V)) :
    let e := passedError inner (.tagged tags (.rateLimitExceeded limit windowMs))
    let after := b.answered range leave (some (.error e) : Option (Except BorsaError V))
    (ComesBare tags inner ∧ leave + b.blockFor windowMs ≤ range.last ∧
      after = ({ b with state := some (leave + b.blockFor windowMs) }, some (.error e))) ∨
    (ComesBare tags inner ∧ range.last < leave + b.blockFor windowMs ∧
      after = ({ b with state := none }, none)) ∨
    (¬ ComesBare tags inner ∧ after = ({ b with state := none }, some (.error e))) := by
  dsimp only
  rcases passedError_cases tags limit windowMs inner with ⟨hbare, he⟩ | ⟨hbare, tag, e, he⟩ <;> rw [he]
  · rcases le_or_gt (leave + b.blockFor windowMs) range.last with hle | hlt
    · refine .inl ⟨hbare, hle, ?_⟩
      simp only [answered, handleError_fits (b := { b with state := none }) limit hle]
      rfl
    · refine .inr (.inl ⟨hbare, hlt, ?_⟩)
      simp only [answered, handleError_beyond (b := { b with state := none }) limit hlt]
  · exact .inr (.inr ⟨hbare, rfl⟩)

/-- A duration beyond all instants: the layer panics and does not block. -/
example : (BlacklistConnector.new (2 ^ 94)).answered aYear 0
    (some (.error (.rateLimitExceeded 5 0)) : Option (Except BorsaError ℕ)) =
      (.new (2 ^ 94), none) := rfl

section
variable {K E I R T V : Type} [Fieldless I] [Fieldless R] [Fieldless T] [DecidableEq K]
  [DecidableEq E] {range : InstantRange} {call : StackCall K E I R T V} {tags : List String}
  {limit windowMs : UInt64}

/-- A blacklist among the layers that gets the rate limit bare blocks until an instant of the
platform. -/
def DeadlinesFit (range : InstantRange) (call : StackCall K E I R T V) (tags : List String)
    (windowMs : UInt64) : ℕ → List (Layer K E V) → Prop
  | _, [] => True
  | depth, layer :: rest =>
    DeadlinesFit range call tags windowMs (depth + 1) rest ∧
      ∀ b, layer = .blacklist b → ComesBare tags rest →
        call.leave depth + b.blockFor windowMs ≤ range.last

omit [Fieldless I] [Fieldless R] [Fieldless T] [DecidableEq K] [DecidableEq E] in
/-- Only blacklists have deadlines. -/
theorem deadlinesFit_cons {layer : Layer K E V} (hlayer : ∀ b, layer ≠ .blacklist b)
    {rest : List (Layer K E V)} {depth : ℕ} :
    DeadlinesFit range call tags windowMs depth (layer :: rest) ↔
      DeadlinesFit range call tags windowMs (depth + 1) rest :=
  and_iff_left fun b hb => (hlayer b hb).elim

/-- The answer to an external call whose rate limit comes from the raw connector: as the layers have
passed it on, or none if one of them panicked. -/
theorem callLayers_limited (hext : call.origin = .external)
    (hraw : call.raw = .error (.tagged tags (.rateLimitExceeded limit windowMs))) {n : ℕ}
    (layers : List (Layer K E V)) (depth : ℕ)
    (hreached : (callLayers range call depth layers n).1.2 = n + 1) :
    (DeadlinesFit range call tags windowMs depth layers ∧ (callLayers range call depth layers n).2 =
      some (.error (passedError layers (.tagged tags (.rateLimitExceeded limit windowMs))))) ∨
    (¬ DeadlinesFit range call tags windowMs depth layers ∧
      (callLayers range call depth layers n).2 = none) := by
  have hne : n ≠ n + 1 := (Nat.succ_ne_self n).symm
  induction layers generalizing depth with
  | nil => exact .inl ⟨trivial, congrArg some hraw⟩
  | cons layer rest ih =>
    cases layer with
    | cache caches =>
      rcases serve_cases caches call.request (fun _ => callLayers range call (depth + 1) rest n)
        (rest, n) with ⟨-, res, heq, -⟩ | ⟨-, caches', heq, -⟩ <;>
        rw [callLayers_cache range call depth rest n caches heq] at hreached ⊢
      · exact absurd hreached hne
      · rw [deadlinesFit_cons (fun b hb => by cases hb)]
        exact ih (depth + 1) hreached
    | quota rt =>
      rcases callLayers_quota_cases range call depth rt rest n with ⟨rt', e, heq⟩ | ⟨rt', heq⟩ <;>
        rw [heq] at hreached ⊢
      · exact absurd hreached hne
      · rw [deadlinesFit_cons (fun b hb => by cases hb), passedError_cons_quota, hext]
        rcases ih (depth + 1) hreached with ⟨hfits, hres⟩ | ⟨hfits, hres⟩ <;> rw [hres]
        · exact .inl ⟨hfits, rfl⟩
        · exact .inr ⟨hfits, rfl⟩
    | blacklist b =>
      by_cases hb : b.Blocks (call.enter depth)
      · obtain ⟨ms, heq⟩ := callLayers_blocked range hext hb rest n
        rw [heq] at hreached
        exact absurd hreached hne
      · rw [callLayers_admitted range hext hb rest n] at hreached ⊢
        have hpass : passedError (.blacklist b :: rest) = passedError rest := rfl
        rw [hpass]
        rcases ih (depth + 1) hreached with ⟨hfits, hres⟩ | ⟨hfits, hres⟩ <;> rw [hres]
        · rcases b.answered_limited range (call.leave depth) tags limit windowMs rest with
            ⟨-, hle, hafter⟩ | ⟨hbare, hlt, hafter⟩ | ⟨hbare, hafter⟩ <;> rw [hafter]
          · refine .inl ⟨⟨hfits, ?_⟩, rfl⟩
            rintro _ ⟨⟩ -
            exact hle
          · exact .inr ⟨fun h => absurd (h.2 b rfl hbare) hlt.not_ge, rfl⟩
          · exact .inl ⟨⟨hfits, fun _ _ h => (hbare h).elim⟩, rfl⟩
        · exact .inr ⟨fun h => hfits h.1, rfl⟩

/-- Such a call leaves a blacklist blocked for the rate limit if that came there bare and all deadlines
fit, and otherwise not blocked. -/
theorem callLayers_blacklist_limited (hext : call.origin = .external)
    (hraw : call.raw = .error (.tagged tags (.rateLimitExceeded limit windowMs))) {depth n : ℕ}
    {b : BlacklistConnector} {inner : List (Layer K E V)}
    (hreached : (callLayers range call depth (.blacklist b :: inner) n).1.2 = n + 1) :
    ∃ state inner', (callLayers range call depth (.blacklist b :: inner) n).1.1 =
        .blacklist ⟨state, b.defaultDuration⟩ :: inner' ∧
      ((ComesBare tags inner ∧ DeadlinesFit range call tags windowMs depth (.blacklist b :: inner)) ∧
        state = some (call.leave depth + b.blockFor windowMs) ∨
      ¬ (ComesBare tags inner ∧ DeadlinesFit range call tags windowMs depth (.blacklist b :: inner)) ∧
        state = none) := by
  by_cases hb : b.Blocks (call.enter depth)
  · obtain ⟨ms, heq⟩ := callLayers_blocked range hext hb inner n
    rw [heq] at hreached
    exact absurd hreached (Nat.succ_ne_self n).symm
  · rw [callLayers_admitted range hext hb inner n] at hreached ⊢
    rcases callLayers_limited hext hraw inner (depth + 1) hreached with ⟨hfits, hres⟩ | ⟨hfits, hres⟩ <;>
      rw [hres]
    · rcases b.answered_limited range (call.leave depth) tags limit windowMs inner with
        ⟨hbare, hle, hafter⟩ | ⟨hbare, hlt, hafter⟩ | ⟨hbare, hafter⟩ <;> rw [hafter]
      · refine ⟨_, _, rfl, .inl ⟨⟨hbare, hfits, ?_⟩, rfl⟩⟩
        rintro _ ⟨⟩ -
        exact hle
      · exact ⟨_, _, rfl, .inr ⟨fun h => absurd (h.2.2 b rfl hbare) hlt.not_ge, rfl⟩⟩
      · exact ⟨_, _, rfl, .inr ⟨fun h => hbare h.1, rfl⟩⟩
    · exact ⟨_, _, rfl, .inr ⟨fun h => hfits h.2.1, rfl⟩⟩

end

/-! ## The block -/

namespace Stack

variable {K E V : Type}

/-- The layer at the depth is a blacklist that blocks until the instant at least. -/
def BlockedUntil (s : Stack K E V) (depth deadline : ℕ) : Prop :=
  ∃ outer b inner d, s.layers = outer ++ .blacklist b :: inner ∧ outer.length = depth ∧
    b.state = some d ∧ deadline ≤ d

section
variable {I R T : Type} [Fieldless I] [Fieldless R] [Fieldless T] [DecidableEq K] [DecidableEq E]

/-- Calls that come to the layer before the instant. -/
def Before (depth deadline : ℕ) (st : LTS.Step (Stack K E V) (StackEvent K E I R T V)) : Prop :=
  ∀ call answer, st.label = .call call answer → call.enter depth < deadline

/-- An external call does not reach the raw connector, and the layer rejects it if it comes there. -/
def Shielded (range : InstantRange) (depth : ℕ)
    (st : LTS.Step (Stack K E V) (StackEvent K E I R T V)) : Prop :=
  ∀ call answer, st.label = .call call answer → call.origin = .external →
    st.post.rawCalls = st.pre.rawCalls ∧ ∃ ms,
      callLayers range call depth (st.pre.layers.drop depth) st.pre.rawCalls =
        ((st.pre.layers.drop depth, st.pre.rawCalls), some (.error (.temporarilyBlacklisted ms)))

variable {range : InstantRange} {s t : Stack K E V} {a : StackEvent K E I R T V}
  {depth deadline : ℕ}

omit [DecidableEq K] [DecidableEq E] in
/-- A cache that changes leaves the block as it is. -/
theorem BlockedUntil.set (h : s.BlockedUntil depth deadline) {k : ℕ} {caches : Caches K E V}
    (hk : s.layers[k]? = some (.cache caches)) (caches' : Caches K E V) :
    BlockedUntil { s with layers := s.layers.set k (.cache caches') } depth deadline := by
  obtain ⟨outer, b, inner, d, hlayers, rfl, hd, hle⟩ := h
  rw [hlayers] at hk
  rcases lt_or_ge k outer.length with hlt | hge
  · refine ⟨outer.set k (.cache caches'), b, inner, d, ?_, List.length_set, hd, hle⟩
    rw [hlayers, List.set_append_left k _ hlt]
  · rw [List.getElem?_append_right hge] at hk
    cases hsub : k - outer.length with
    | zero =>
      rw [hsub] at hk
      cases hk
    | succ j =>
      refine ⟨outer, b, inner.set j (.cache caches'), d, ?_, rfl, hd, hle⟩
      rw [hlayers, List.set_append_right k _ hge, hsub]
      rfl

/-- Before its end the block is kept, and it shields the raw connector. -/
theorem BlockedUntil.step (h : s.BlockedUntil depth deadline) (hstep : Step range s a t)
    (hbefore : Before depth deadline ⟨s, a, t⟩) :
    t.BlockedUntil depth deadline ∧ Shielded range depth ⟨s, a, t⟩ := by
  cases hstep with
  | losePos k caches cap key hk | loseNeg k caches cap key hk =>
    refine ⟨h.set hk _, ?_⟩
    rintro _ _ ⟨⟩
  | call call hclock =>
    obtain ⟨outer, b, inner, d, hlayers, rfl, hd, hle⟩ := h
    have hb : b.Blocks (call.enter outer.length) := ⟨d, hd, (hbefore call _ rfl).trans_le hle⟩
    obtain ⟨outer', hlen, hcall⟩ := callLayers_append range call outer (.blacklist b :: inner) s.rawCalls 0
    rw [← hlayers, zero_add] at hcall
    cases horigin : call.origin with
    | external =>
      obtain ⟨ms, hlayer⟩ := callLayers_blocked range horigin hb inner s.rawCalls
      rw [hlayer, or_self] at hcall
      rw [hcall]
      refine ⟨⟨outer', b, inner, d, rfl, hlen, hd, hle⟩, ?_⟩
      rintro _ _ ⟨⟩ -
      exact ⟨rfl, ms, by rw [hlayers, List.drop_left, hlayer]⟩
    | internal parent stage =>
      have hint : call.origin.isInternal = true := by
        rw [horigin]
        rfl
      rw [callLayers_internal range hint] at hcall
      refine ⟨?_, ?_⟩
      · rcases hcall with hcall | hcall <;> rw [hcall]
        · exact ⟨outer', b, inner, d, rfl, hlen, hd, hle⟩
        · exact ⟨outer', b, _, d, rfl, hlen, hd, hle⟩
      · rintro _ _ ⟨⟩ hext
        cases horigin.symm.trans hext

/-- While calls come before its end, the block shields the raw connector. -/
theorem BlockedUntil.run (h : s.BlockedUntil depth deadline)
    {tr : List (LTS.Step (Stack K E V) (StackEvent K E I R T V))} (hrun : Path (Step range) s tr t)
    (hbefore : ∀ st ∈ tr, Before depth deadline st) : ∀ st ∈ tr, Shielded range depth st := by
  intro st hst
  obtain ⟨hstep, tr₁, tr₂, rfl, hpre⟩ := hrun.step_mem hst
  have hblocked : st.pre.BlockedUntil depth deadline :=
    hpre.inv_of_steps (I := fun s => s.BlockedUntil depth deadline) (C := Before depth deadline) h
      (fun _ _ _ h hstep hbefore => (h.step hstep hbefore).1)
      fun st' hst' => hbefore st' (List.mem_append_left _ hst')
  exact (hblocked.step hstep (hbefore st hst)).2

variable (I R T) in
/-- The layer at the depth is blocked until the instant at least, and from then on no external call
that comes there before reaches the raw connector. -/
def Tripped (range : InstantRange) (s : Stack K E V) (depth deadline : ℕ) : Prop :=
  s.BlockedUntil depth deadline ∧
    ∀ (tr : List (LTS.Step (Stack K E V) (StackEvent K E I R T V))) t, Path (Step range) s tr t →
      (∀ st ∈ tr, Before depth deadline st) → ∀ st ∈ tr, Shielded range depth st

theorem tripped_iff : s.Tripped I R T range depth deadline ↔ s.BlockedUntil depth deadline :=
  and_iff_left_of_imp fun h _ _ hrun hbefore => h.run hrun hbefore

/-- When a rate limit trips the blacklist. Let the raw connector answer an external call with a rate
limit under tags. Then a blacklist layer of the stack is blocked until the reported window has passed,
or its own duration if that is zero, exactly when the error comes there bare (it has no tag, or one tag
and a quota layer lies below) and no such block, here or at a blacklist below, is to last beyond the
last instant. -/
theorem rate_limit_trips {outer inner : List (Layer K E V)} {b : BlacklistConnector}
    (hlayers : s.layers = outer ++ .blacklist b :: inner) {call : StackCall K E I R T V}
    (hext : call.origin = .external) {tags : List String} {limit windowMs : UInt64}
    (hraw : call.raw = .error (.tagged tags (.rateLimitExceeded limit windowMs)))
    {answer : Option (Except BorsaError V)} (hstep : Step range s (.call call answer) t)
    (hreached : t.rawCalls = s.rawCalls + 1) :
    t.Tripped I R T range outer.length (call.leave outer.length + b.blockFor windowMs) ↔
      ComesBare tags inner ∧
        DeadlinesFit range call tags windowMs outer.length (.blacklist b :: inner) := by
  rw [tripped_iff]
  cases hstep with
  | call _ hclock =>
    obtain ⟨outer', hlen, hcall⟩ :=
      callLayers_append range call outer (.blacklist b :: inner) s.rawCalls 0
    rw [← hlayers, zero_add] at hcall
    dsimp only at hreached
    replace hcall := hcall.resolve_left fun h => by
      rw [h] at hreached
      exact absurd hreached (Nat.succ_ne_self _).symm
    rw [hcall] at hreached
    obtain ⟨state, inner', hlayer, ⟨hcond, rfl⟩ | ⟨hcond, rfl⟩⟩ :=
      callLayers_blacklist_limited hext hraw hreached <;> rw [hcall, hlayer]
    · exact iff_of_true ⟨outer', _, inner', _, rfl, hlen, rfl, le_rfl⟩ hcond
    · refine iff_of_false ?_ hcond
      rintro ⟨outer₂, b₂, inner₂, d, heq, hlen₂, hd, -⟩
      obtain ⟨-, htail⟩ := List.append_inj heq (hlen.trans hlen₂.symm)
      obtain rfl := Layer.blacklist.inj (List.cons.inj htail).1
      cases hd

end

/-- A call by the user that the Yahoo adapter answers with its rate limit. -/
def yahooLimited : StackCall Bool Bool Bool Bool Bool ℕ where
  request := none
  origin := .external
  enter _ := 0
  leave _ := 0
  raw := .error (.tagged ["borsa-yfinance"] (.rateLimitExceeded 0 0))

theorem yahooLimited_clocked : yahooLimited.Clocked 0 :=
  ⟨le_rfl, fun _ => le_rfl, fun _ => le_rfl, fun _ => le_rfl⟩

/-- A blacklist of five minutes around a quota. -/
def guarded : Stack Bool Bool ℕ :=
  ⟨[.blacklist (.new 300000000000), .quota (.new .default 0 0)], 0, 0⟩

/-- Under it the adapter's rate limit blocks for them. -/
theorem rate_limit_trips_yahoo : ∃ answer, ∃ t : Stack Bool Bool ℕ,
    Step aYear guarded (.call yahooLimited answer) t ∧
    t.Tripped Bool Bool Bool aYear 0 (0 + (BlacklistConnector.new 300000000000).blockFor 0) := by
  have hlayers : guarded.layers =
    [] ++ .blacklist (.new 300000000000) :: [.quota (.new .default 0 0)] := rfl
  have hstep : Step aYear guarded _ _ := .call guarded yahooLimited yahooLimited_clocked
  have hraw : yahooLimited.raw =
    .error (.tagged ["borsa-yfinance"] (.rateLimitExceeded 0 0)) := rfl
  have htrips := rate_limit_trips hlayers rfl hraw hstep rfl
  refine ⟨_, _, hstep, htrips.2 ⟨.inr ⟨rfl, _, List.mem_singleton_self _⟩, ⟨trivial, ?_⟩, ?_⟩⟩
  · rintro b hb
    cases hb
  · rintro b hb -
    cases hb
    decide

/-- Without the quota the blacklist does not notice. -/
theorem rate_limit_not_trips : ¬ ∀ {s t : Stack Bool Bool ℕ} {outer inner : List (Layer Bool Bool ℕ)}
    {b : BlacklistConnector}, s.layers = outer ++ .blacklist b :: inner →
    ∀ {call : StackCall Bool Bool Bool Bool Bool ℕ}, call.origin = .external →
    ∀ {tags : List String} {limit windowMs : UInt64},
    call.raw = .error (.tagged tags (.rateLimitExceeded limit windowMs)) →
    ∀ {answer}, Step aYear s (.call call answer) t → t.rawCalls = s.rawCalls + 1 →
      t.Tripped Bool Bool Bool aYear outer.length
        (call.leave outer.length + b.blockFor windowMs) := by
  intro h
  have hlayers : [.blacklist (.new 300000000000)] =
    ([] ++ .blacklist (.new 300000000000) :: [] : List (Layer Bool Bool ℕ)) := rfl
  have hstep : Step aYear ⟨[.blacklist (.new 300000000000)], 0, 0⟩ _ _ :=
    .call (⟨[.blacklist (.new 300000000000)], 0, 0⟩ : Stack Bool Bool ℕ) yahooLimited
      yahooLimited_clocked
  have hraw : yahooLimited.raw =
    .error (.tagged ["borsa-yfinance"] (.rateLimitExceeded 0 0)) := rfl
  obtain ⟨⟨outer, b, inner, d, heq, hlen, hd, -⟩, -⟩ := h hlayers rfl hraw hstep rfl
  obtain rfl := List.length_eq_zero_iff.1 hlen
  obtain rfl := Layer.blacklist.inj (List.cons.inj heq).1
  cases hd

end Stack

end Borsa
