import Borsa.Lib.Path
import Borsa.Middleware.Cache

/-!
# Whether the cache is transparent

A key that two different requests share makes the cache answer one with the other's data. Two of the
keys do not tell all requests apart: that of a search leaves out the language and the region, and that
of a history cuts the bounds of the period to whole seconds (`key_eq_iff`). On requests that agree in
these the cache is transparent, and on no others (`cache_transparent`).
-/

namespace Borsa

open LTS

section
variable {K E I R T V : Type} [Fieldless I] [Fieldless R] [Fieldless T]

/-! ## What the keys leave out -/

/-- The nanoseconds of the bounds of a period beyond whole seconds. -/
def subsecNanos (period : DateTime × DateTime) : ℤ × ℤ :=
  (period.1.nanos % 1000000000, period.2.nanos % 1000000000)

/-- The requests agree in what their keys leave out. -/
def ProviderCall.AgreesBeyondKey : ProviderCall K E I R T → ProviderCall K E I R T → Prop
  | .search q, .search q' => q.lang = q'.lang ∧ q.region = q'.region
  | .history _ h, .history _ h' => h.period.map subsecNanos = h'.period.map subsecNanos
  | _, _ => True

theorem historyFlags_injective {a b c d a' b' c' d' : Bool}
    (h : historyFlags a b c d = historyFlags a' b' c' d') :
    a = a' ∧ b = b' ∧ c = c' ∧ d = d' := by
  revert h
  revert a b c d a' b' c' d'
  decide

/-- An instant is its whole seconds and the nanoseconds beyond. -/
theorem DateTime.eq_of_timestamp {t u : DateTime} (hs : t.timestamp = u.timestamp)
    (hn : t.nanos % 1000000000 = u.nanos % 1000000000) : t = u := by
  apply DateTime.nanos_injective
  rw [DateTime.timestamp, DateTime.timestamp] at hs
  omega

theorem period_eq {p p' : Option (DateTime × DateTime)}
    (hs : (p.map fun (s, e) => (s.timestamp, e.timestamp)) =
      p'.map fun (s, e) => (s.timestamp, e.timestamp))
    (hn : p.map subsecNanos = p'.map subsecNanos) : p = p' := by
  match p, p' with
  | none, none => rfl
  | none, some _ => simp at hs
  | some _, none => simp at hs
  | some (s, e), some (s', e') =>
    simp only [Option.map_some, Option.some.injEq, Prod.mk.injEq, subsecNanos] at hs hn
    rw [DateTime.eq_of_timestamp hs.1 hn.1, DateTime.eq_of_timestamp hs.2 hn.2]

theorem InstrumentProvider.capability_injective :
    Function.Injective InstrumentProvider.capability := by
  intro p p' h
  cases p <;> cases p' <;> first | rfl | cases h

theorem StatementProvider.capability_injective :
    Function.Injective StatementProvider.capability := by
  intro p p' h
  cases p <;> cases p' <;> first | rfl | cases h

omit [Fieldless I] [Fieldless R] [Fieldless T] in
theorem ProviderCall.AgreesBeyondKey.refl (r : ProviderCall K E I R T) : r.AgreesBeyondKey r := by
  cases r <;> simp [ProviderCall.AgreesBeyondKey]

/-- Requests of one capability with one key are the same exactly when they agree in what the key
leaves out. -/
theorem ProviderCall.key_eq_iff {r r' : ProviderCall K E I R T}
    (hcap : r.capability = r'.capability) (hkey : r.key = r'.key) :
    r = r' ↔ r.AgreesBeyondKey r' := by
  refine ⟨fun h => h ▸ .refl r, fun hbeyond => ?_⟩
  cases r <;> cases r' <;> simp only [ProviderCall.key, CacheKey.instrument.injEq, reduceCtorEq,
    CacheKey.boolByInstrument.injEq, CacheKey.history.injEq, CacheKey.news.injEq,
    CacheKey.optionChain.injEq, CacheKey.search.injEq] at hkey
  case instrument.instrument p inst p' inst' =>
    rw [InstrumentProvider.capability_injective hcap, hkey]
  case statement.statement p inst q p' inst' q' =>
    rw [StatementProvider.capability_injective hcap, hkey.1, hkey.2]
  case history.history inst req inst' req' =>
    simp only [HistoryKey.fromRequest, HistoryKey.mk.injEq] at hkey
    obtain ⟨rfl, hint, hrange, hperiod, hflags⟩ := hkey
    obtain ⟨range, period, interval, prepost, actions, adjust, keepna⟩ := req
    obtain ⟨range', period', interval', prepost', actions', adjust', keepna'⟩ := req'
    obtain rfl := Fieldless.injective hint
    obtain rfl := Option.map_injective Fieldless.injective hrange
    obtain rfl := period_eq hperiod hbeyond
    obtain ⟨rfl, rfl, rfl, rfl⟩ := historyFlags_injective hflags
    rfl
  case news.news inst req inst' req' =>
    obtain ⟨count, tab⟩ := req
    obtain ⟨count', tab'⟩ := req'
    obtain ⟨rfl, hcount, htab⟩ := hkey
    obtain rfl : count = count' := hcount
    obtain rfl := Fieldless.injective htab
    rfl
  case optionChain.optionChain => rw [hkey.1, hkey.2]
  case search.search req req' =>
    obtain ⟨query, kind, limit, lang, region⟩ := req
    obtain ⟨query', kind', limit', lang', region'⟩ := req'
    obtain ⟨hquery, hkind, hlimit⟩ := hkey
    obtain ⟨hlang, hregion⟩ := hbeyond
    dsimp only at *
    subst hquery hkind hlimit hlang hregion
    rfl

end

/-! ## Runs -/

/-- What happens at a cache: a call with its answer, or the loss of an entry, which expires or is
evicted. -/
inductive CacheEvent (K E I R T V : Type) where
  | call (r : ProviderCall K E I R T) (answer : Except BorsaError V)
  | losePos (cap : Capability) (key : CacheKey K E)
  | loseNeg (cap : Capability) (key : CacheKey K E)

namespace Caches

section
variable {K E I R T V : Type} [Fieldless I] [Fieldless R] [Fieldless T] [DecidableEq K]
  [DecidableEq E]

/-- One event at a cache whose inner connector is the function `inner` of the request. -/
inductive Step (inner : ProviderCall K E I R T → Except BorsaError V) :
    Caches K E V → CacheEvent K E I R T V → Caches K E V → Prop
  | call (c : Caches K E V) (r : ProviderCall K E I R T) :
    Step inner c (.call r (c.call (fun r s => (s, inner r)) r ()).2.2)
      (c.call (fun r s => (s, inner r)) r ()).1
  | losePos (c : Caches K E V) (cap : Capability) (key : CacheKey K E) :
    Step inner c (.losePos cap key) (c.losePos cap key)
  | loseNeg (c : Caches K E V) (cap : Capability) (key : CacheKey K E) :
    Step inner c (.loseNeg cap key) (c.loseNeg cap key)

/-- The calls of a run are of these requests. -/
def CallsOf (S : Set (ProviderCall K E I R T))
    (tr : List (LTS.Step (Caches K E V) (CacheEvent K E I R T V))) : Prop :=
  ∀ st ∈ tr, ∀ r answer, st.label = .call r answer → r ∈ S

/-- In every run with calls of these requests, whatever is lost in between, each call is answered as
the inner connector would. -/
def Transparent (V : Type) (cfg : CacheConfig) (S : Set (ProviderCall K E I R T)) : Prop :=
  ∀ (inner : ProviderCall K E I R T → Except BorsaError V) tr c,
    Path (Step inner) (new cfg) tr c → CallsOf S tr →
      ∀ st ∈ tr, ∀ r answer, st.label = .call r answer → answer = inner r

/-- Each entry is the inner connector's answer to a request of the capability with the entry's key, in
a store that the configuration enables. -/
structure Holds (inner : ProviderCall K E I R T → Except BorsaError V) (cfg : CacheConfig)
    (S : Set (ProviderCall K E I R T)) (c : Caches K E V) : Prop where
  pos : ∀ cap, ∀ pos ∈ (c cap).pos, (cfg.ttlFor cap).isSome ∧
    Table.All (fun k v => ∃ r ∈ S, r.capability = cap ∧ r.key = k ∧ inner r = .ok v) pos
  neg : ∀ cap, ∀ neg ∈ (c cap).neg, (cfg.negativeTtlFor cap).isSome ∧
    Table.All (fun k e => ∃ r ∈ S, r.capability = cap ∧ r.key = k ∧ inner r = .error e) neg

/-- The configuration enables a store of the capability. -/
def Enabled (cfg : CacheConfig) (cap : Capability) : Prop :=
  (cfg.ttlFor cap).isSome ∨ (cfg.negativeTtlFor cap).isSome

variable {inner : ProviderCall K E I R T → Except BorsaError V} {cfg : CacheConfig}
  {S : Set (ProviderCall K E I R T)} {c c' : Caches K E V}

omit [DecidableEq K] [DecidableEq E] in
theorem holds_new : Holds inner cfg S (new cfg) where
  pos := by
    intro cap pos hpos
    obtain ⟨_, httl, rfl⟩ := Option.map_eq_some_iff.1 hpos
    exact ⟨by rw [httl]; rfl, .empty⟩
  neg := by
    intro cap neg hneg
    obtain ⟨_, httl, rfl⟩ := Option.map_eq_some_iff.1 hneg
    exact ⟨by rw [httl]; rfl, .empty⟩

omit [DecidableEq K] [DecidableEq E] in
/-- Replacing the stores of one capability by stores that hold keeps the invariant. -/
theorem Holds.update (h : Holds inner cfg S c) {cap : Capability}
    {stores : CacheStores (CacheKey K E) V}
    (hpos : ∀ pos ∈ stores.pos, (cfg.ttlFor cap).isSome ∧
      Table.All (fun k v => ∃ r ∈ S, r.capability = cap ∧ r.key = k ∧ inner r = .ok v) pos)
    (hneg : ∀ neg ∈ stores.neg, (cfg.negativeTtlFor cap).isSome ∧
      Table.All (fun k e => ∃ r ∈ S, r.capability = cap ∧ r.key = k ∧ inner r = .error e) neg) :
    Holds inner cfg S (Function.update c cap stores) := by
  constructor <;> intro cap' <;> by_cases hcap : cap' = cap
  · subst hcap
    rwa [Function.update_self]
  · rw [Function.update_of_ne hcap]
    exact h.pos cap'
  · subst hcap
    rwa [Function.update_self]
  · rw [Function.update_of_ne hcap]
    exact h.neg cap'

/-- A call of one of the requests keeps the invariant, and is answered as the inner connector answers
some request with the same key, the call's own unless a store is enabled. -/
theorem Holds.call (h : Holds inner cfg S c) {r : ProviderCall K E I R T} (hr : r ∈ S) :
    Holds inner cfg S (c.call (fun r s => (s, inner r)) r ()).1 ∧
      ∃ r' ∈ S, r'.capability = r.capability ∧ r'.key = r.key ∧
        (r' = r ∨ Enabled cfg r.capability) ∧
        (c.call (fun r s => (s, inner r)) r ()).2.2 = inner r' := by
  have hpos := h.pos r.capability
  have hneg := h.neg r.capability
  rw [Caches.call]
  rcases cachedOrLoadNeg_cases (c r.capability) r.key (fun s : Unit => (s, inner r)) () with
    ⟨neg, err, hn, hk, heq⟩ | ⟨pos, v, hp, hk, heq⟩ | ⟨-, -, ⟨v, hv, heq⟩ | ⟨e, he, heq⟩⟩ <;>
    rw [heq]
  · obtain ⟨hen, hall⟩ := hneg neg hn
    obtain ⟨r', hr', hcap, hkey, hans⟩ := hall _ _ hk
    exact ⟨h.update hpos hneg, r', hr', hcap, hkey, .inr (.inr hen), hans.symm⟩
  · obtain ⟨hen, hall⟩ := hpos pos hp
    obtain ⟨r', hr', hcap, hkey, hans⟩ := hall _ _ hk
    exact ⟨h.update hpos hneg, r', hr', hcap, hkey, .inr (.inl hen), hans.symm⟩
  · refine ⟨h.update ?_ hneg, r, hr, rfl, rfl, .inl rfl, hv.symm⟩
    intro pos' hpos'
    obtain ⟨pos, hp, rfl⟩ := Option.map_eq_some_iff.1 hpos'
    exact ⟨(hpos pos hp).1, (hpos pos hp).2.insert ⟨r, hr, rfl, rfl, hv⟩⟩
  · refine ⟨h.update hpos ?_, r, hr, rfl, rfl, .inl rfl, he.symm⟩
    intro neg' hneg'
    dsimp only at hneg'
    split at hneg'
    · obtain ⟨neg, hn, rfl⟩ := Option.map_eq_some_iff.1 hneg'
      exact ⟨(hneg neg hn).1, (hneg neg hn).2.insert ⟨r, hr, rfl, rfl, he⟩⟩
    · exact hneg neg' hneg'

theorem Holds.step (h : Holds inner cfg S c) {e : CacheEvent K E I R T V}
    (hstep : Step inner c e c') (hr : ∀ r answer, e = .call r answer → r ∈ S) :
    Holds inner cfg S c' := by
  cases hstep with
  | call r => exact (h.call (hr r _ rfl)).1
  | losePos cap key =>
    refine h.update (fun pos' hpos' => ?_) (h.neg cap)
    obtain ⟨pos, hp, rfl⟩ := Option.map_eq_some_iff.1 hpos'
    exact ⟨(h.pos cap pos hp).1, (h.pos cap pos hp).2.lose⟩
  | loseNeg cap key =>
    refine h.update (h.pos cap) fun neg' hneg' => ?_
    obtain ⟨neg, hn, rfl⟩ := Option.map_eq_some_iff.1 hneg'
    exact ⟨(h.neg cap neg hn).1, (h.neg cap neg hn).2.lose⟩

omit [Fieldless I] [Fieldless R] [Fieldless T] [DecidableEq K] [DecidableEq E] in
theorem callsOf_snoc {tr : List (LTS.Step (Caches K E V) (CacheEvent K E I R T V))}
    {st : LTS.Step (Caches K E V) (CacheEvent K E I R T V)} :
    CallsOf S (tr ++ [st]) ↔ CallsOf S tr ∧ ∀ r answer, st.label = .call r answer → r ∈ S := by
  simp only [CallsOf, List.forall_mem_append, List.forall_mem_singleton]

theorem Holds.run {tr : List (LTS.Step (Caches K E V) (CacheEvent K E I R T V))}
    (hrun : Path (Step inner) (new cfg) tr c) (hcalls : CallsOf S tr) : Holds inner cfg S c := by
  induction hrun with
  | nil => exact holds_new
  | snoc _ hstep ih =>
    obtain ⟨hcalls, hlast⟩ := callsOf_snoc.1 hcalls
    exact (ih hcalls).step hstep hlast

/-- If the requests with a common key agree in what the key leaves out, the cache is transparent. -/
theorem transparent_of_agrees
    (hS : ∀ r ∈ S, ∀ r' ∈ S, r.capability = r'.capability → r.key = r'.key →
      Enabled cfg r.capability → r.AgreesBeyondKey r') : Transparent V cfg S := by
  rintro inner tr c hrun hcalls ⟨pre, label, post⟩ hst r answer rfl
  obtain ⟨hstep, tr₁, tr₂, rfl, hpre⟩ := hrun.step_mem hst
  have hr := hcalls _ hst r answer rfl
  have hholds : Holds inner cfg S pre :=
    .run hpre fun st hst => hcalls st (List.mem_append_left _ hst)
  dsimp only at hstep
  cases hstep with
  | call r =>
    obtain ⟨-, r', hr', hcap, hkey, rfl | hen, hans⟩ := hholds.call hr
    · exact hans
    · obtain rfl := (ProviderCall.key_eq_iff hcap hkey).2 (hS r' hr' r hr hcap hkey (hcap ▸ hen))
      exact hans

/-! ## Requests that the key confuses -/

/-- The second call with a key is answered like the first one, if that loaded a value and the
capability has a store of values. -/
theorem second_of_ok {r r' : ProviderCall K E I R T} {v : V} (hcap : r.capability = r'.capability)
    (hkey : r.key = r'.key) (hen : (cfg.ttlFor r.capability).isSome) (hok : inner r = .ok v) :
    (((new cfg : Caches K E V).call (fun r s => (s, inner r)) r ()).1.call
      (fun r s => (s, inner r)) r' ()).2.2 = .ok v := by
  obtain ⟨ttl, httl⟩ := Option.isSome_iff_exists.1 hen
  cases hneg : cfg.negativeTtlFor r.capability <;>
    simp [Caches.call, ← hcap, ← hkey, new, cachedOrLoadNeg, getOrTryPutWith, httl, hneg, hok,
      Table.empty]

/-- The second call with a key is answered like the first one, if that loaded a permanent error and
the capability has a store of errors. -/
theorem second_of_error {r r' : ProviderCall K E I R T} {e : BorsaError}
    (hcap : r.capability = r'.capability) (hkey : r.key = r'.key)
    (hen : (cfg.negativeTtlFor r.capability).isSome) (herr : inner r = .error e)
    (hperm : e.isPermanent) :
    (((new cfg : Caches K E V).call (fun r s => (s, inner r)) r ()).1.call
      (fun r s => (s, inner r)) r' ()).2.2 = .error e := by
  obtain ⟨ttl, httl⟩ := Option.isSome_iff_exists.1 hen
  cases hpos : cfg.ttlFor r.capability <;>
    simp [Caches.call, ← hcap, ← hkey, new, cachedOrLoadNeg, getOrTryPutWith, httl, hpos, herr,
      hperm, Table.empty]

/-- If the cache is transparent, the second of two calls is answered as the inner connector would. -/
theorem Transparent.second (h : Transparent V cfg S) {r r' : ProviderCall K E I R T} (hr : r ∈ S)
    (hr' : r' ∈ S) (inner : ProviderCall K E I R T → Except BorsaError V) :
    (((new cfg : Caches K E V).call (fun r s => (s, inner r)) r ()).1.call
      (fun r s => (s, inner r)) r' ()).2.2 = inner r' := by
  refine h inner _ _ (.snoc (.snoc .nil (.call (new cfg) r)) (.call _ r')) ?_ _
    (List.mem_append_right _ (List.mem_singleton_self _)) r' _ rfl
  intro st hst q answer hlabel
  simp only [List.mem_append, List.not_mem_nil, List.mem_singleton, false_or] at hst
  rcases hst with rfl | rfl <;> obtain ⟨rfl, -⟩ := CacheEvent.call.inj hlabel
  · exact hr
  · exact hr'

/-- If the cache is transparent, the requests with a common key agree in what the key leaves out. -/
theorem Transparent.agrees [Inhabited V] (h : Transparent V cfg S) {r r' : ProviderCall K E I R T}
    (hr : r ∈ S) (hr' : r' ∈ S) (hcap : r.capability = r'.capability) (hkey : r.key = r'.key)
    (hen : Enabled cfg r.capability) : r.AgreesBeyondKey r' := by
  classical
  refine (ProviderCall.key_eq_iff hcap hkey).1 ?_
  by_contra hne
  -- An inner connector that finds one of the requests only shows up in the store that is enabled.
  rcases hen with hen | hen
  · have hsecond := h.second hr hr' fun q => if q = r then .ok default else .error (.notFound "")
    rw [second_of_ok hcap hkey hen (if_pos rfl), if_neg (Ne.symm hne)] at hsecond
    cases hsecond
  · have hsecond := h.second hr hr' fun q => if q = r then .error (.notFound "") else .ok default
    rw [second_of_error hcap hkey hen (if_pos rfl) rfl, if_neg (Ne.symm hne)] at hsecond
    cases hsecond

/-- When the cache is transparent. Requests of one capability with one key are the same exactly when
they agree in what the key leaves out, the language and the region of a search and the nanoseconds of
the bounds of a history's period; and on a set of requests the cache is transparent exactly when those
with a common key agree so, unless no store is enabled for them. -/
theorem cache_transparent [Inhabited V] :
    (∀ r r' : ProviderCall K E I R T, r.capability = r'.capability → r.key = r'.key →
      (r = r' ↔ r.AgreesBeyondKey r')) ∧
    ∀ (cfg : CacheConfig) (S : Set (ProviderCall K E I R T)), Transparent V cfg S ↔
      ∀ r ∈ S, ∀ r' ∈ S, r.capability = r'.capability → r.key = r'.key →
        Enabled cfg r.capability → r.AgreesBeyondKey r' :=
  ⟨fun _ _ => ProviderCall.key_eq_iff, fun _ _ =>
    ⟨fun h _ hr _ hr' hcap hkey hen => h.agrees hr hr' hcap hkey hen, transparent_of_agrees⟩⟩

end

/-- A search for a company, in a language. -/
def searchIn (lang : String) : ProviderCall Bool Bool Bool Bool Bool :=
  .search ⟨"nestle", none, none, some lang, none⟩

/-- Five minutes for values and one minute for errors, with room for two thousand entries. -/
def fiveMinutes : CacheConfig := ⟨300000, .empty, 2000, .empty, 60000, .empty⟩

/-- A question about Nestlé's shares. -/
def aboutNestle (provider : InstrumentProvider) : ProviderCall Bool Bool Bool Bool Bool :=
  .instrument provider ⟨.security ⟨⟨"NESN"⟩, some true⟩, true⟩

/-- The quote and the profile of one instrument have one key, and stores of their own. -/
theorem cache_transparent_instrument :
    (aboutNestle .quote).key = (aboutNestle .profile).key ∧
    Transparent ℕ fiveMinutes {aboutNestle .quote, aboutNestle .profile, searchIn "en"} := by
  refine ⟨rfl, (cache_transparent.2 fiveMinutes _).2 ?_⟩
  rintro _ (rfl | rfl | rfl) _ (rfl | rfl | rfl) hcap hkey -
  all_goals first | exact .refl _ | cases hcap

/-- Two searches in different languages have the same key, and the second one is answered with what was
found for the first. -/
theorem cache_not_transparent :
    (searchIn "en").capability = (searchIn "de").capability ∧
    (searchIn "en").key = (searchIn "de").key ∧ searchIn "en" ≠ searchIn "de" ∧
    ¬ Transparent ℕ fiveMinutes (Set.univ : Set (ProviderCall Bool Bool Bool Bool Bool)) := by
  have hne : searchIn "en" ≠ searchIn "de" := by simp [searchIn]
  refine ⟨rfl, rfl, hne, fun h => ?_⟩
  have hagree : (searchIn "en").AgreesBeyondKey (searchIn "de") :=
    h.agrees (Set.mem_univ _) (Set.mem_univ _) rfl rfl (.inl rfl)
  exact absurd hagree.1 (by simp)

end Caches

end Borsa
