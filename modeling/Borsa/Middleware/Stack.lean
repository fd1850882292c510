import Borsa.Lib.Path
import Borsa.Middleware.Blacklist
import Borsa.Middleware.Cache
import Borsa.Middleware.Quota

/-!
# Stacks of layers

A connector is wrapped in layers, outermost first. The blacklist and the quota wrap a call to their
inner connector in two hooks (`delegate`), `pre_call` on the way in and `map_error` on the way out; a
cache answers it from its stores or passes it on. `callLayers` is a call through such a stack down to the
raw connector. A call gets no answer when a blacklist on its way back panics.
-/

namespace Borsa

/-! ## Delegation -/

section
variable {α σ V : Type}

/-- `borsa_delegate_provider_impls`: `pre_call`, then the inner connector, whose error goes through
`map_error`. There is no answer where the inner connector or `map_error` panics. -/
def delegate (preCall : α → α × Except BorsaError Unit)
    (mapError : α → BorsaError → Option (α × BorsaError))
    (inner : σ → σ × Option (Except BorsaError V)) (layer : α) (s : σ) :
    α × σ × Option (Except BorsaError V) :=
  match preCall layer with
  | (layer, .error e) => (layer, s, some (.error e))
  | (layer, .ok ()) =>
    match inner s with
    | (s, none) => (layer, s, none)
    | (s, some (.ok v)) => (layer, s, some (.ok v))
    | (s, some (.error e)) =>
      match mapError layer e with
      | some (layer, e) => (layer, s, some (.error e))
      | none => (layer, s, none)

/-- A provider method of `BlacklistConnector`, which reads the clock before and after. -/
def BlacklistConnector.call (range : InstantRange) (b : BlacklistConnector) (origin : CallOrigin)
    (enter leave : ℕ) (inner : σ → σ × Option (Except BorsaError V)) (s : σ) :
    BlacklistConnector × σ × Option (Except BorsaError V) :=
  delegate (fun b => b.preCall origin enter) (fun b e => b.mapError range origin leave e) inner b s

/-- A provider method of `QuotaAwareConnector`, which reads the clock before. -/
def QuotaRuntime.call (rt : QuotaRuntime) (origin : CallOrigin) (enter : ℕ)
    (inner : σ → σ × Option (Except BorsaError V)) (s : σ) :
    QuotaRuntime × σ × Option (Except BorsaError V) :=
  delegate (fun rt => rt.preCall origin enter) (fun rt e => some (rt, quotaMapError origin e)) inner rt
    s

variable {K E I R T : Type} [Fieldless I] [Fieldless R] [Fieldless T] [DecidableEq K]
  [DecidableEq E]

/-- What the stores answer. -/
def Caches.stored (caches : Caches K E V) (r : ProviderCall K E I R T) :
    Option (Except BorsaError V) :=
  match (caches r.capability).neg.bind fun neg => neg r.key with
  | some err => some (.error err)
  | none => ((caches r.capability).pos.bind fun pos => pos r.key).map .ok

/-- A provider method of `CachingConnector`, where `none` starts a stream, which is passed on. -/
def Caches.serve (caches : Caches K E V) (request : Option (ProviderCall K E I R T))
    (inner : σ → σ × Option (Except BorsaError V)) (s : σ) :
    Caches K E V × σ × Option (Except BorsaError V) :=
  match request with
  | some r =>
    match caches.stored r with
    | some res => (caches, s, some res)
    | none =>
      match inner s with
      -- A load that panics stores nothing.
      | (s, none) => (caches, s, none)
      | (s, some res) =>
        let (caches, s, res) := caches.call (fun _ s => (s, res)) r s
        (caches, s, some res)
  | none => (caches, inner s)

end

/-! ## Stacks -/

/-- A layer, with its state. -/
inductive Layer (K E V : Type) where
  | cache (caches : Caches K E V)
  | blacklist (b : BlacklistConnector)
  | quota (rt : QuotaRuntime)

/-- A call through a stack. -/
structure StackCall (K E I R T V : Type) where
  /-- What is asked for, where `none` starts a stream. -/
  request : Option (ProviderCall K E I R T)
  origin : CallOrigin
  /-- What the layer at each depth reads from the clock before it asks its inner connector. -/
  enter : ℕ → ℕ
  /-- What it reads after that. -/
  leave : ℕ → ℕ
  /-- What the raw connector answers, if the call reaches it. -/
  raw : Except BorsaError V

/-- The readings of the clock do not decrease, from the instant `now` on. -/
structure StackCall.Clocked {K E I R T V : Type} (call : StackCall K E I R T V) (now : ℕ) : Prop where
  starts : now ≤ call.enter 0
  enters : ∀ depth, call.enter depth ≤ call.enter (depth + 1)
  turns : ∀ depth, call.enter depth ≤ call.leave depth
  leaves : ∀ depth, call.leave (depth + 1) ≤ call.leave depth

section
variable {K E I R T V : Type} [Fieldless I] [Fieldless R] [Fieldless T] [DecidableEq K]
  [DecidableEq E]

/-- A call through the layers from a depth on, to a raw connector that has been called `n` times. -/
def callLayers (range : InstantRange) (call : StackCall K E I R T V) :
    ℕ → List (Layer K E V) → ℕ → (List (Layer K E V) × ℕ) × Option (Except BorsaError V)
  | _, [], n => (([], n + 1), some call.raw)
  | depth, layer :: rest, n =>
    -- A layer asks its inner connector at most once.
    let inner := fun _ => callLayers range call (depth + 1) rest n
    match layer with
    | .cache caches =>
      let (caches, (rest, n), res) := caches.serve call.request inner (rest, n)
      ((.cache caches :: rest, n), res)
    | .blacklist b =>
      let (b, (rest, n), res) :=
        b.call range call.origin (call.enter depth) (call.leave depth) inner (rest, n)
      ((.blacklist b :: rest, n), res)
    | .quota rt =>
      let (rt, (rest, n), res) := rt.call call.origin (call.enter depth) inner (rest, n)
      ((.quota rt :: rest, n), res)

/-- A stack, how often its raw connector has been called, and the instant of the last call. -/
structure Stack (K E V : Type) where
  layers : List (Layer K E V)
  rawCalls : ℕ
  now : ℕ

/-- What happens at a stack: a call with its answer, if it gets one, or a cache loses an entry. -/
inductive StackEvent (K E I R T V : Type) where
  | call (call : StackCall K E I R T V) (answer : Option (Except BorsaError V))
  | losePos (depth : ℕ) (cap : Capability) (key : CacheKey K E)
  | loseNeg (depth : ℕ) (cap : Capability) (key : CacheKey K E)

/-- One event at a stack. Calls follow each other. -/
inductive Stack.Step (range : InstantRange) :
    Stack K E V → StackEvent K E I R T V → Stack K E V → Prop
  | call (s : Stack K E V) (call : StackCall K E I R T V) (h : call.Clocked s.now) :
    Step range s (.call call (callLayers range call 0 s.layers s.rawCalls).2)
      ⟨(callLayers range call 0 s.layers s.rawCalls).1.1,
        (callLayers range call 0 s.layers s.rawCalls).1.2, call.leave 0⟩
  | losePos (s : Stack K E V) (depth : ℕ) (caches : Caches K E V) (cap : Capability)
    (key : CacheKey K E) (h : s.layers[depth]? = some (.cache caches)) :
    Step range s (.losePos depth cap key)
      { s with layers := s.layers.set depth (.cache (caches.losePos cap key)) }
  | loseNeg (s : Stack K E V) (depth : ℕ) (caches : Caches K E V) (cap : Capability)
    (key : CacheKey K E) (h : s.layers[depth]? = some (.cache caches)) :
    Step range s (.loseNeg depth cap key)
      { s with layers := s.layers.set depth (.cache (caches.loseNeg cap key)) }

/-! ## What a layer does with a call -/

/-- What a layer makes of the answer of its inner connector. -/
def Layer.pass (origin : CallOrigin) : Layer K E V → Except BorsaError V → Except BorsaError V
  | .quota _, res => res.mapError (quotaMapError origin)
  | _, res => res

omit [Fieldless I] [Fieldless R] [Fieldless T] [DecidableEq K] [DecidableEq E] in
/-- A layer answers the call itself and leaves its inner connector alone, or it passes it on and maps
the answer, if there is one. -/
theorem delegate_cases {α σ : Type} (preCall : α → α × Except BorsaError Unit)
    (mapError : α → BorsaError → Option (α × BorsaError))
    (inner : σ → σ × Option (Except BorsaError V)) (layer : α) (s : σ) :
    (∃ l e, preCall layer = (l, .error e) ∧
      delegate preCall mapError inner layer s = (l, s, some (.error e))) ∨
    (∃ l, preCall layer = (l, .ok ()) ∧
      ((∀ e, (inner s).2 ≠ some (.error e)) ∧
        delegate preCall mapError inner layer s = (l, inner s) ∨
      (∃ e, (inner s).2 = some (.error e) ∧
        ((∃ l' e', mapError l e = some (l', e') ∧
          delegate preCall mapError inner layer s = (l', (inner s).1, some (.error e'))) ∨
        (mapError l e = none ∧
          delegate preCall mapError inner layer s = (l, (inner s).1, none)))))) := by
  rw [delegate]
  rcases preCall layer with ⟨l, _ | ⟨⟩⟩
  · exact .inl ⟨l, _, rfl, rfl⟩
  · refine .inr ⟨l, rfl, ?_⟩
    rcases inner s with ⟨s, _ | e | v⟩
    · exact .inl ⟨(fun e h => by cases h), rfl⟩
    · refine .inr ⟨e, rfl, ?_⟩
      dsimp only
      cases mapError l e with
      | none => exact .inr ⟨rfl, rfl⟩
      | some mapped => exact .inl ⟨mapped.1, mapped.2, rfl, rfl⟩
    · exact .inl ⟨(fun e h => by cases h), rfl⟩

/-- A store of the cache has an entry for what is asked for. -/
def Caches.Hit (caches : Caches K E V) (request : Option (ProviderCall K E I R T)) : Prop :=
  ∃ r ∈ request, (∃ neg ∈ (caches r.capability).neg, ∃ e, neg r.key = some e) ∨
    ∃ pos ∈ (caches r.capability).pos, ∃ v, pos r.key = some v

/-- Every error the cache has stored is permanent. -/
def Caches.NegPermanent (caches : Caches K E V) : Prop :=
  ∀ cap, ∀ neg ∈ (caches cap).neg, Table.All (fun _ e => e.isPermanent = true) neg

omit [DecidableEq K] [DecidableEq E] in
theorem Caches.NegPermanent.update {caches : Caches K E V} (h : caches.NegPermanent)
    {cap : Capability} {stores : CacheStores (CacheKey K E) V}
    (hstores : ∀ neg ∈ stores.neg, Table.All (fun _ e => e.isPermanent = true) neg) :
    Caches.NegPermanent (Function.update caches cap stores) := by
  intro cap'
  by_cases hcap : cap' = cap
  · subst hcap
    rwa [Function.update_self]
  · rw [Function.update_of_ne hcap]
    exact h cap'

theorem Caches.NegPermanent.losePos {caches : Caches K E V} (h : caches.NegPermanent)
    (cap : Capability) (key : CacheKey K E) : (caches.losePos cap key).NegPermanent :=
  h.update (h cap)

theorem Caches.NegPermanent.loseNeg {caches : Caches K E V} (h : caches.NegPermanent)
    (cap : Capability) (key : CacheKey K E) : (caches.loseNeg cap key).NegPermanent := by
  refine h.update fun neg' hneg' => ?_
  obtain ⟨neg, hneg, rfl⟩ := Option.map_eq_some_iff.1 hneg'
  exact (h cap neg hneg).lose

omit [DecidableEq K] [DecidableEq E] in
/-- The stores answer exactly when there is a hit, with a permanent error if with one. -/
theorem Caches.stored_cases (caches : Caches K E V) (r : ProviderCall K E I R T) :
    (∃ res, caches.stored r = some res ∧ caches.Hit (some r) ∧
      ∀ e, res = .error e → caches.NegPermanent → e.isPermanent = true) ∨
    (caches.stored r = none ∧ ¬ caches.Hit (some r)) := by
  rw [Caches.stored]
  cases hneg : (caches r.capability).neg.bind fun neg => neg r.key with
  | some err =>
    obtain ⟨neg, hn, hkey⟩ := Option.bind_eq_some_iff.1 hneg
    refine .inl ⟨_, rfl, ⟨r, rfl, .inl ⟨neg, hn, err, hkey⟩⟩, ?_⟩
    rintro e ⟨⟩ hperm
    exact hperm _ neg hn _ _ hkey
  | none =>
    cases hpos : (caches r.capability).pos.bind fun pos => pos r.key with
    | some v =>
      obtain ⟨pos, hp, hkey⟩ := Option.bind_eq_some_iff.1 hpos
      exact .inl ⟨_, rfl, ⟨r, rfl, .inr ⟨pos, hp, v, hkey⟩⟩, fun e he => by cases he⟩
    | none =>
      refine .inr ⟨rfl, ?_⟩
      rintro ⟨_, ⟨⟩, ⟨neg, hn, e, hkey⟩ | ⟨pos, hp, v, hkey⟩⟩
      · cases hneg.symm.trans (Option.bind_eq_some_iff.2 ⟨neg, hn, hkey⟩)
      · cases hpos.symm.trans (Option.bind_eq_some_iff.2 ⟨pos, hp, hkey⟩)

/-- A call that misses gives the answer that is loaded, and only stores it if it is a value or a permanent
error. -/
theorem Caches.call_miss {caches : Caches K E V} {r : ProviderCall K E I R T}
    (hmiss : ¬ caches.Hit (some r)) {σ : Type} (s : σ) (res : Except BorsaError V) :
    ∃ caches', caches.call (fun _ s => (s, res)) r s = (caches', s, res) ∧
      (∀ e, res = .error e → e.isPermanent = false → caches' = caches) ∧
      (caches.NegPermanent → caches'.NegPermanent) := by
  rw [Caches.call]
  rcases cachedOrLoadNeg_cases (caches r.capability) r.key (fun s => (s, res)) s with
    ⟨neg, err, hneg, hkey, -⟩ | ⟨pos, v, hpos, hkey, -⟩ | ⟨-, -, ⟨v, hv, heq⟩ | ⟨e, he, heq⟩⟩
  · exact (hmiss ⟨r, rfl, .inl ⟨neg, hneg, err, hkey⟩⟩).elim
  · exact (hmiss ⟨r, rfl, .inr ⟨pos, hpos, v, hkey⟩⟩).elim
  · obtain rfl : res = .ok v := hv
    rw [heq]
    exact ⟨_, rfl, (fun e he => by cases he), fun hperm => hperm.update (hperm _)⟩
  · obtain rfl : res = .error e := he
    rw [heq]
    refine ⟨_, rfl, fun e' he' hperm => ?_, fun hperm => hperm.update fun neg' hneg' => ?_⟩
    · cases he'
      rw [hperm, if_neg (by decide)]
      exact Function.update_eq_self ..
    · dsimp only at hneg'
      by_cases hp : e.isPermanent = true
      · rw [if_pos hp] at hneg'
        obtain ⟨neg, hn, rfl⟩ := Option.map_eq_some_iff.1 hneg'
        exact (hperm _ neg hn).insert hp
      · rw [if_neg hp] at hneg'
        exact hperm _ neg' hneg'

/-- What a cache does: it answers from one of its stores and changes nothing, or it passes the call on
and gives its answer, which it stores if that is a value or a permanent error. -/
theorem serve_cases {σ : Type} (caches : Caches K E V) (request : Option (ProviderCall K E I R T))
    (inner : σ → σ × Option (Except BorsaError V)) (s : σ) :
    (caches.Hit request ∧ ∃ res, caches.serve request inner s = (caches, s, some res) ∧
      ∀ e, res = .error e → caches.NegPermanent → e.isPermanent = true) ∨
    (¬ caches.Hit request ∧ ∃ caches', caches.serve request inner s = (caches', inner s) ∧
      (∀ e, (inner s).2 = some (.error e) → e.isPermanent = false → caches' = caches) ∧
      (caches.NegPermanent → caches'.NegPermanent)) := by
  cases request with
  | none =>
    refine .inr ⟨?_, caches, rfl, fun _ _ _ => rfl, id⟩
    rintro ⟨r, hr, -⟩
    cases hr
  | some r =>
    rcases caches.stored_cases r with ⟨res, hstored, hhit, hperm⟩ | ⟨hstored, hmiss⟩ <;>
      simp only [Caches.serve, hstored]
    · exact .inl ⟨hhit, res, rfl, hperm⟩
    · refine .inr ⟨hmiss, ?_⟩
      rcases inner s with ⟨s', _ | res⟩
      · exact ⟨caches, rfl, (fun e he => by cases he), id⟩
      · obtain ⟨caches', hcall, hsame, hperm⟩ := Caches.call_miss hmiss s' res
        simp only [hcall]
        exact ⟨caches', rfl, fun e he => hsame e (Option.some.inj he), hperm⟩

/-! ## Calls through a stack -/

section
variable (range : InstantRange) (call : StackCall K E I R T V) (depth : ℕ)
  (rest : List (Layer K E V)) (n : ℕ)

/-- A call through a cache and what is below. -/
theorem callLayers_cache (caches : Caches K E V) {caches' : Caches K E V}
    {inner : (List (Layer K E V) × ℕ) × Option (Except BorsaError V)}
    (h : caches.serve call.request (fun _ => callLayers range call (depth + 1) rest n) (rest, n) =
      (caches', inner)) :
    callLayers range call depth (.cache caches :: rest) n =
      ((.cache caches' :: inner.1.1, inner.1.2), inner.2) := by
  rw [callLayers.eq_def]
  simp only [h]

/-- A call through a blacklist and what is below. -/
theorem callLayers_blacklist (b : BlacklistConnector) {b' : BlacklistConnector}
    {inner : (List (Layer K E V) × ℕ) × Option (Except BorsaError V)}
    (h : b.call range call.origin (call.enter depth) (call.leave depth)
      (fun _ => callLayers range call (depth + 1) rest n) (rest, n) = (b', inner)) :
    callLayers range call depth (.blacklist b :: rest) n =
      ((.blacklist b' :: inner.1.1, inner.1.2), inner.2) := by
  rw [callLayers.eq_def]
  simp only [h]

/-- A call through a quota and what is below. -/
theorem callLayers_quota (rt : QuotaRuntime) {rt' : QuotaRuntime}
    {inner : (List (Layer K E V) × ℕ) × Option (Except BorsaError V)}
    (h : rt.call call.origin (call.enter depth)
      (fun _ => callLayers range call (depth + 1) rest n) (rest, n) = (rt', inner)) :
    callLayers range call depth (.quota rt :: rest) n =
      ((.quota rt' :: inner.1.1, inner.1.2), inner.2) := by
  rw [callLayers.eq_def]
  simp only [h]

end

/-- A quota rejects the call, which changes nothing below it, or it passes the call on and its answer
back, if there is one. -/
theorem callLayers_quota_cases (range : InstantRange) (call : StackCall K E I R T V) (depth : ℕ)
    (rt : QuotaRuntime) (rest : List (Layer K E V)) (n : ℕ) :
    (∃ rt' e, callLayers range call depth (.quota rt :: rest) n =
      ((.quota rt' :: rest, n), some (.error e))) ∨
    ∃ rt', callLayers range call depth (.quota rt :: rest) n =
      ((.quota rt' :: (callLayers range call (depth + 1) rest n).1.1,
        (callLayers range call (depth + 1) rest n).1.2),
        (callLayers range call (depth + 1) rest n).2.map
          fun res => res.mapError (quotaMapError call.origin)) := by
  rcases delegate_cases (fun rt => rt.preCall call.origin (call.enter depth))
    (fun rt e => some (rt, quotaMapError call.origin e))
    (fun _ => callLayers range call (depth + 1) rest n) rt (rest, n) with
    ⟨rt', e, -, heq⟩ | ⟨rt', -, ⟨hok, heq⟩ | ⟨e, he, ⟨rt'', e', hmap, heq⟩ | ⟨hmap, -⟩⟩⟩
  · exact .inl ⟨rt', e, callLayers_quota range call depth rest n rt heq⟩
  · refine .inr ⟨rt', (callLayers_quota range call depth rest n rt heq).trans ?_⟩
    generalize callLayers range call (depth + 1) rest n = inner at hok ⊢
    rcases inner with ⟨s, _ | e | v⟩
    · rfl
    · exact (hok e rfl).elim
    · rfl
  · cases hmap
    refine .inr ⟨rt', (callLayers_quota range call depth rest n rt heq).trans ?_⟩
    dsimp only at he ⊢
    rw [he]
    rfl
  · cases hmap

/-- A layer answers the call itself and leaves its inner connector alone, or it passes the call on, and
its answer back if it does not panic. -/
theorem callLayers_cons (range : InstantRange) (call : StackCall K E I R T V) (depth : ℕ)
    (layer : Layer K E V) (rest : List (Layer K E V)) (n : ℕ) :
    (∃ layer' res, callLayers range call depth (layer :: rest) n = ((layer' :: rest, n), some res)) ∨
    ∃ layer' answer, callLayers range call depth (layer :: rest) n =
        ((layer' :: (callLayers range call (depth + 1) rest n).1.1,
          (callLayers range call (depth + 1) rest n).1.2), answer) ∧
      (answer = none ∨
        answer = (callLayers range call (depth + 1) rest n).2.map (layer.pass call.origin)) := by
  cases layer with
  | cache caches =>
    rcases serve_cases caches call.request (fun _ => callLayers range call (depth + 1) rest n)
      (rest, n) with ⟨-, res, heq, -⟩ | ⟨-, caches', heq, -⟩
    · exact .inl ⟨_, _, callLayers_cache range call depth rest n caches heq⟩
    · exact .inr ⟨_, _, callLayers_cache range call depth rest n caches heq,
        .inr Option.map_id'.symm⟩
  | blacklist b =>
    rcases delegate_cases (fun b => b.preCall call.origin (call.enter depth))
      (fun b e => b.mapError range call.origin (call.leave depth) e)
      (fun _ => callLayers range call (depth + 1) rest n) b (rest, n) with
      ⟨b', e, -, heq⟩ | ⟨b', -, ⟨-, heq⟩ | ⟨e, he, ⟨b'', e', hmap, heq⟩ | ⟨-, heq⟩⟩⟩ <;>
      have hcall := callLayers_blacklist range call depth rest n b heq
    · exact .inl ⟨_, _, hcall⟩
    · exact .inr ⟨_, _, hcall, .inr Option.map_id'.symm⟩
    · obtain rfl := BlacklistConnector.mapError_snd hmap
      refine .inr ⟨_, _, hcall, .inr ?_⟩
      rw [he]
      rfl
    · exact .inr ⟨_, _, hcall, .inl rfl⟩
  | quota rt =>
    rcases callLayers_quota_cases range call depth rt rest n with ⟨rt', e, heq⟩ | ⟨rt', heq⟩
    · exact .inl ⟨_, _, heq⟩
    · exact .inr ⟨_, _, heq, .inr rfl⟩

/-- A call through more layers: one of the outer ones answers it, or the inner ones do. -/
theorem callLayers_append (range : InstantRange) (call : StackCall K E I R T V)
    (outer rest : List (Layer K E V)) (n : ℕ) (depth : ℕ) :
    ∃ outer', outer'.length = outer.length ∧
      ((callLayers range call depth (outer ++ rest) n).1 = (outer' ++ rest, n) ∨
        (callLayers range call depth (outer ++ rest) n).1 =
          (outer' ++ (callLayers range call (depth + outer.length) rest n).1.1,
            (callLayers range call (depth + outer.length) rest n).1.2)) := by
  induction outer generalizing depth with
  | nil => exact ⟨[], rfl, .inr rfl⟩
  | cons layer outer ih =>
    obtain ⟨outer', hlen, hinner⟩ := ih (depth + 1)
    have hdepth : depth + 1 + outer.length = depth + (layer :: outer).length := by
      rw [List.length_cons]
      omega
    rw [hdepth] at hinner
    rcases callLayers_cons range call depth layer (outer ++ rest) n with
      ⟨layer', res, heq⟩ | ⟨layer', answer, heq, -⟩
    · exact ⟨layer' :: outer, rfl, .inl (by rw [List.cons_append, heq]; rfl)⟩
    · refine ⟨layer' :: outer', by rw [List.length_cons, hlen, List.length_cons], ?_⟩
      rw [List.cons_append, heq]
      rcases hinner with hinner | hinner <;> rw [hinner]
      · exact .inl rfl
      · exact .inr rfl

/-! ## Calls through a blacklist -/

section
variable (range : InstantRange) {call : StackCall K E I R T V} {depth : ℕ}

/-- While the layer blocks it rejects external calls, which changes nothing. -/
theorem callLayers_blocked (hext : call.origin = .external) {b : BlacklistConnector}
    (hb : b.Blocks (call.enter depth)) (inner : List (Layer K E V)) (n : ℕ) :
    ∃ ms, callLayers range call depth (.blacklist b :: inner) n =
      ((.blacklist b :: inner, n), some (.error (.temporarilyBlacklisted ms))) := by
  obtain ⟨-, ms, -, hpre⟩ := (b.preCall_external (call.enter depth)).resolve_right fun h => h.1 hb
  have hcall : b.call range call.origin (call.enter depth) (call.leave depth)
      (fun _ => callLayers range call (depth + 1) inner n) (inner, n) =
      (b, (inner, n), some (.error (.temporarilyBlacklisted ms))) := by
    rw [BlacklistConnector.call, delegate, hext, hpre]
  exact ⟨ms, callLayers_blacklist range call depth inner n b hcall⟩

/-- What becomes of a layer that did not block, and of its inner connector's answer. -/
def BlacklistConnector.answered (range : InstantRange) (b : BlacklistConnector) (leave : ℕ)
    (answer : Option (Except BorsaError V)) :
    BlacklistConnector × Option (Except BorsaError V) :=
  let b := { b with state := none }
  match answer with
  | some (.error e) =>
    match b.handleError range leave e with
    | some (b, e) => (b, some (.error e))
    | none => (b, none)
  | answer => (b, answer)

/-- When the layer does not block it passes external calls on, and their answers back. -/
theorem callLayers_admitted (hext : call.origin = .external) {b : BlacklistConnector}
    (hb : ¬ b.Blocks (call.enter depth)) (inner : List (Layer K E V)) (n : ℕ) :
    callLayers range call depth (.blacklist b :: inner) n =
      ((.blacklist (b.answered range (call.leave depth)
          (callLayers range call (depth + 1) inner n).2).1 ::
        (callLayers range call (depth + 1) inner n).1.1,
        (callLayers range call (depth + 1) inner n).1.2),
        (b.answered range (call.leave depth) (callLayers range call (depth + 1) inner n).2).2) := by
  obtain ⟨-, hpre⟩ := (b.preCall_external (call.enter depth)).resolve_left fun h => hb h.1
  have hcall : b.call range call.origin (call.enter depth) (call.leave depth)
      (fun _ => callLayers range call (depth + 1) inner n) (inner, n) =
      ((b.answered range (call.leave depth) (callLayers range call (depth + 1) inner n).2).1,
        (callLayers range call (depth + 1) inner n).1,
        (b.answered range (call.leave depth) (callLayers range call (depth + 1) inner n).2).2) := by
    simp only [BlacklistConnector.call, delegate, hext, hpre, BlacklistConnector.mapError_external]
    rcases callLayers range call (depth + 1) inner n with ⟨s, _ | e | v⟩
    · rfl
    · simp only [BlacklistConnector.answered]
      cases BlacklistConnector.handleError range { b with state := none } (call.leave depth) e <;> rfl
    · rfl
  exact callLayers_blacklist range call depth inner n b hcall

/-- An internal call goes through the layer as if it were not there. -/
theorem callLayers_internal (hint : call.origin.isInternal = true) (b : BlacklistConnector)
    (inner : List (Layer K E V)) (n : ℕ) :
    callLayers range call depth (.blacklist b :: inner) n =
      ((.blacklist b :: (callLayers range call (depth + 1) inner n).1.1,
        (callLayers range call (depth + 1) inner n).1.2),
        (callLayers range call (depth + 1) inner n).2) := by
  have hcall : b.call range call.origin (call.enter depth) (call.leave depth)
      (fun _ => callLayers range call (depth + 1) inner n) (inner, n) =
      (b, callLayers range call (depth + 1) inner n) := by
    rw [BlacklistConnector.call, delegate, BlacklistConnector.preCall_internal hint]
    rcases callLayers range call (depth + 1) inner n with ⟨s, _ | e | v⟩
    · rfl
    · simp only [BlacklistConnector.mapError_internal hint]
    · rfl
  exact callLayers_blacklist range call depth inner n b hcall

end

end

end Borsa
