import Borsa.Lib.Path
import Borsa.Middleware.Cache

/-!
# Concurrent calls with one key

A call through `cached_or_load_neg` looks into the negative store, then into the positive store or
joins the load of its key, and after a permanent error inserts it into the negative store. Other calls
take their steps in between. `CacheRace.Step` is one such step, and a call whose steps nothing
separates does what `cachedOrLoadNeg` computes (`exists_alone`).

A value that is stored is fresh when no call from now on is answered with an error loaded before it.
Nothing removes an error from the negative store when a value is loaded, so freshness depends on the
order of the steps (`stored_fresh`).
-/

namespace Borsa

open LTS

/-- Where a call stands. Loads are numbered in the order in which they end. -/
inductive CachedCall (V : Type) where
  /-- The negative store had no entry. -/
  | checked
  /-- It waits for a load. -/
  | loading
  /-- Its load failed, and the error is still to be inserted. -/
  | failed (load : ℕ) (e : BorsaError)
  /-- It has its answer, from this load. -/
  | returned (load : ℕ) (answer : Except BorsaError V)

namespace CachedCall

variable {V : Type}

/-- The load that the call has an error from. -/
def errorLoad : CachedCall V → Option ℕ
  | .failed n _ | .returned n (.error _) => some n
  | _ => none

/-- A call whose load has ended. -/
def loaded (n : ℕ) : Except BorsaError V → CachedCall V
  | .ok v => .returned n (.ok v)
  | .error e => .failed n e

/-- What the end of a load does to the calls that share it. -/
def shareLoad (n : ℕ) (res : Except BorsaError V) : CachedCall V → CachedCall V
  | .loading => loaded n res
  | call => call

end CachedCall

/-- The two stores at one key, each with the load its entry is from, and the calls with this key. A
store that is disabled is `none`. -/
structure CacheRace (V : Type) where
  pos : Option (Option (ℕ × V))
  neg : Option (Option (ℕ × BorsaError))
  loads : ℕ
  calls : List (CachedCall V)

/-- A step of one of the calls, or the loss of an entry. -/
inductive CacheRaceEvent (V : Type) where
  /-- A call starts with the negative lookup. -/
  | start
  | lookup (i : ℕ)
  | finish (i : ℕ) (res : Except BorsaError V)
  | insert (i : ℕ)
  | losePos
  | loseNeg

namespace CacheRace

variable {V : Type}

/-- No calls yet, and empty stores where they are enabled. -/
def new (posEnabled negEnabled : Bool) : CacheRace V where
  pos := if posEnabled then some none else none
  neg := if negEnabled then some none else none
  loads := 0
  calls := []

/-- The negative lookup of a new call. -/
def start (s : CacheRace V) : CacheRace V :=
  let call : CachedCall V :=
    match s.neg.join with
    | some (n, err) => .returned n (.error err)
    | none => .checked
  { s with calls := s.calls ++ [call] }

/-- The positive lookup: the call is answered from the store, or it loads. -/
def lookup (s : CacheRace V) (i : ℕ) : CacheRace V :=
  let call : CachedCall V :=
    match s.pos.join with
    | some (n, v) => .returned n (.ok v)
    | none => .loading
  { s with calls := s.calls.set i call }

/-- A load ends. Through a store it is the only load of the key, and all calls that wait for it share
its result; without a store each call loads for itself. -/
def finish (s : CacheRace V) (i : ℕ) (res : Except BorsaError V) : CacheRace V :=
  let pos :=
    match res with
    | .ok v => s.pos.map fun _ => some (s.loads, v)
    | .error _ => s.pos
  let calls :=
    if s.pos.isSome then s.calls.map (CachedCall.shareLoad s.loads res)
    else s.calls.set i (CachedCall.loaded s.loads res)
  { s with pos, loads := s.loads + 1, calls }

/-- The negative insert, which a call makes if its error is permanent. -/
def insert (s : CacheRace V) (i n : ℕ) (e : BorsaError) : CacheRace V :=
  { s with
    neg := if e.isPermanent then s.neg.map fun _ => some (n, e) else s.neg
    calls := s.calls.set i (.returned n (.error e)) }

/-- One step of the calls with the key. -/
inductive Step : CacheRace V → CacheRaceEvent V → CacheRace V → Prop
  | start (s : CacheRace V) : Step s .start s.start
  | lookup (s : CacheRace V) (i : ℕ) (h : s.calls[i]? = some .checked) :
    Step s (.lookup i) (s.lookup i)
  | finish (s : CacheRace V) (i : ℕ) (res : Except BorsaError V)
    (h : s.calls[i]? = some .loading) : Step s (.finish i res) (s.finish i res)
  | insert (s : CacheRace V) (i n : ℕ) (e : BorsaError) (h : s.calls[i]? = some (.failed n e)) :
    Step s (.insert i) (s.insert i n e)
  | losePos (s : CacheRace V) : Step s .losePos { s with pos := s.pos.map fun _ => none }
  | loseNeg (s : CacheRace V) : Step s .loseNeg { s with neg := s.neg.map fun _ => none }

variable {s t : CacheRace V} {a : CacheRaceEvent V}

/-! ## A call alone -/

/-- The stores of a cache with this key only. -/
def stores (s : CacheRace V) : CacheStores Unit V where
  pos := s.pos.map fun entry _ => entry.map Prod.snd
  neg := s.neg.map fun entry _ => entry.map Prod.snd

theorem map_shareLoad {calls : List (CachedCall V)} (h : .loading ∉ calls) (n : ℕ)
    (res : Except BorsaError V) : calls.map (CachedCall.shareLoad n res) = calls := by
  refine (List.map_congr_left fun call hcall => ?_).trans calls.map_id
  cases call with
  | loading => exact absurd hcall h
  | _ => rfl

theorem insert_unit {β : Type} (t : Table Unit β) (v : β) : t.insert () v = fun _ => some v := by
  funext u
  exact Table.insert_self

/-- A call that starts when no other call loads, and whose steps are not separated, ends with the
stores and the answer of `cachedOrLoadNeg`, whatever its load results in. -/
theorem exists_alone (hs : .loading ∉ s.calls) (res : Except BorsaError V) :
    ∃ tr t n answer, Path Step s tr t ∧ t.calls = s.calls ++ [.returned n answer] ∧
      cachedOrLoadNeg s.stores () (fun u => (u, res)) () = (t.stores, (), answer) := by
  obtain ⟨pos, neg, loads, calls⟩ := s
  have hstart := Path.single (Step.start ⟨pos, neg, loads, calls⟩)
  cases hneg : neg.join with
  | some entry =>
    obtain ⟨n, err⟩ := entry
    obtain rfl : neg = some (some (n, err)) := Option.join_eq_some_iff.1 hneg
    exact ⟨_, _, n, .error err, hstart, rfl, rfl⟩
  | none =>
    have hlookup := hstart.snoc (.lookup _ calls.length (by simp [start, hneg]))
    have hneg' : neg = none ∨ neg = some none := Option.join_eq_none_iff.1 hneg
    cases hpos : pos.join with
    | some entry =>
      obtain ⟨n, v⟩ := entry
      obtain rfl : pos = some (some (n, v)) := Option.join_eq_some_iff.1 hpos
      refine ⟨_, _, n, .ok v, hlookup, by simp [start, lookup], ?_⟩
      rcases hneg' with rfl | rfl <;>
        simp [cachedOrLoadNeg, getOrTryPutWith, stores, start, lookup]
    | none =>
      have hfinish := hlookup.snoc (.finish _ calls.length res (by simp [start, lookup, hpos]))
      have hpos' : pos = none ∨ pos = some none := Option.join_eq_none_iff.1 hpos
      cases res with
      | ok v =>
        refine ⟨_, _, loads, .ok v, hfinish, ?_, ?_⟩
        · rcases hpos' with rfl | rfl <;> simp [start, lookup, finish, map_shareLoad hs,
            CachedCall.shareLoad, CachedCall.loaded]
        · rcases hpos' with rfl | rfl <;> rcases hneg' with rfl | rfl <;>
            simp [cachedOrLoadNeg, getOrTryPutWith, stores, start, lookup, finish, insert_unit]
      | error e =>
        have hinsert := hfinish.snoc (.insert _ calls.length loads e (by
          rcases hpos' with rfl | rfl <;> simp [start, lookup, finish, map_shareLoad hs,
            CachedCall.shareLoad, CachedCall.loaded]))
        refine ⟨_, _, loads, .error e, hinsert, ?_, ?_⟩
        · rcases hpos' with rfl | rfl <;> simp [start, lookup, finish, insert, map_shareLoad hs]
        · rcases hpos' with rfl | rfl <;> rcases hneg' with rfl | rfl <;>
            cases hperm : e.isPermanent <;> simp [cachedOrLoadNeg, getOrTryPutWith, stores, start,
              lookup, finish, insert, insert_unit, hperm]

/-! ## The order of the loads -/

/-- What is in the stores and under way is from loads that ended; while a value is stored no call
loads, and the errors are from loads before the value's. -/
structure Ordered (s : CacheRace V) : Prop where
  neg : ∀ n e, s.neg.join = some (n, e) → n < s.loads
  failed : ∀ n e, .failed n e ∈ s.calls → n < s.loads
  pos : ∀ n v, s.pos.join = some (n, v) → n < s.loads ∧ .loading ∉ s.calls ∧
    (∀ m e, s.neg.join = some (m, e) → m < n) ∧ ∀ m e, .failed m e ∈ s.calls → m < n

theorem ordered_new (posEnabled negEnabled : Bool) :
    (new posEnabled negEnabled : CacheRace V).Ordered := by
  constructor <;> cases posEnabled <;> cases negEnabled <;> simp [new]

theorem failed_of_shareLoad {n m : ℕ} {e : BorsaError} {res : Except BorsaError V}
    {call : CachedCall V} (h : call.shareLoad n res = .failed m e) :
    call = .failed m e ∨ m = n ∧ res = .error e := by
  cases call with
  | loading =>
    cases res with
    | ok v => cases h
    | error e' =>
      cases h
      exact .inr ⟨rfl, rfl⟩
  | _ => exact .inl h

theorem failed_of_loaded {n m : ℕ} {e : BorsaError} {res : Except BorsaError V}
    (h : CachedCall.loaded n res = .failed m e) : m = n ∧ res = .error e := by
  change CachedCall.loading.shareLoad n res = .failed m e at h
  exact (failed_of_shareLoad h).resolve_left nofun

/-- A call fails when a load does. -/
theorem Step.failed_mem (hstep : Step s a t) {n : ℕ} {e : BorsaError}
    (h : CachedCall.failed n e ∈ t.calls) :
    .failed n e ∈ s.calls ∨ n = s.loads ∧ ∃ i, a = .finish i (.error e) := by
  cases hstep with
  | start =>
    rcases List.mem_append.1 h with h | h
    · exact .inl h
    · split at h <;> simp at h
  | lookup i =>
    rcases List.mem_or_eq_of_mem_set h with h | h
    · exact .inl h
    · split at h <;> cases h
  | finish i res =>
    simp only [CacheRace.finish] at h
    split at h
    · obtain ⟨call, hcall, heq⟩ := List.mem_map.1 h
      rcases failed_of_shareLoad heq with rfl | ⟨rfl, rfl⟩
      · exact .inl hcall
      · exact .inr ⟨rfl, i, rfl⟩
    · rcases List.mem_or_eq_of_mem_set h with h | h
      · exact .inl h
      · obtain ⟨rfl, rfl⟩ := failed_of_loaded h.symm
        exact .inr ⟨rfl, i, rfl⟩
  | insert i =>
    rcases List.mem_or_eq_of_mem_set h with h | h
    · exact .inl h
    · cases h
  | losePos | loseNeg => exact .inl h

/-- A call comes to load by a lookup that finds no value. -/
theorem Step.loading_mem (hstep : Step s a t) (h : CachedCall.loading ∈ t.calls) :
    .loading ∈ s.calls ∨ s.pos.join = none ∧ ∃ i, a = .lookup i := by
  cases hstep with
  | start =>
    rcases List.mem_append.1 h with h | h
    · exact .inl h
    · split at h <;> simp at h
  | lookup i =>
    rcases List.mem_or_eq_of_mem_set h with h | h
    · exact .inl h
    · split at h
      · cases h
      · exact .inr ⟨by assumption, i, rfl⟩
  | finish i res hi => exact .inl (List.mem_of_getElem? hi)
  | insert i =>
    rcases List.mem_or_eq_of_mem_set h with h | h
    · exact .inl h
    · cases h
  | losePos | loseNeg => exact .inl h

/-- A value is stored when its load ends. -/
theorem Step.pos_eq (hstep : Step s a t) {n : ℕ} {v : V} (h : t.pos.join = some (n, v)) :
    s.pos.join = some (n, v) ∨ n = s.loads ∧ ∃ i, a = .finish i (.ok v) := by
  cases hstep with
  | finish i res =>
    cases res with
    | error e => exact .inl h
    | ok w =>
      cases hpos : s.pos <;> simp [CacheRace.finish, hpos] at h
      obtain ⟨rfl, rfl⟩ := h
      exact .inr ⟨rfl, i, rfl⟩
  | losePos => cases hpos : s.pos <;> simp [hpos] at h
  | _ => exact .inl h

/-- An error is stored when the call inserts it whose load failed with it. -/
theorem Step.neg_eq (hstep : Step s a t) {n : ℕ} {e : BorsaError} (h : t.neg.join = some (n, e)) :
    s.neg.join = some (n, e) ∨ .failed n e ∈ s.calls ∧ ∃ i, a = .insert i := by
  cases hstep with
  | insert i m e' hi =>
    rw [CacheRace.insert] at h
    dsimp only at h
    split at h
    · cases hneg : s.neg <;> simp [hneg] at h
      obtain ⟨rfl, rfl⟩ := h
      exact .inr ⟨List.mem_of_getElem? hi, i, rfl⟩
    · exact .inl h
  | loseNeg => cases hneg : s.neg <;> simp [hneg] at h
  | _ => exact .inl h

theorem Step.loads_le (hstep : Step s a t) : s.loads ≤ t.loads := by
  cases hstep with
  | finish => exact Nat.le_succ _
  | _ => rfl

theorem Step.of_finish {i : ℕ} {res : Except BorsaError V} (hstep : Step s (.finish i res) t) :
    .loading ∈ s.calls ∧ t = s.finish i res := by
  cases hstep with
  | finish _ _ hi => exact ⟨List.mem_of_getElem? hi, rfl⟩

/-- A load that ends in a stored value was the only one. -/
theorem loading_not_mem_finish {i n : ℕ} {res : Except BorsaError V} {v : V}
    (h : (s.finish i res).pos.join = some (n, v)) : .loading ∉ (s.finish i res).calls := by
  have hsome : s.pos.isSome := by
    cases hpos : s.pos with
    | none => cases res <;> simp [CacheRace.finish, hpos] at h
    | some => rfl
  simp only [finish, if_pos hsome, List.mem_map, not_exists, not_and]
  rintro call - heq
  cases call <;> cases res <;> cases heq

theorem Ordered.step (h : s.Ordered) (hstep : Step s a t) : t.Ordered where
  neg n e hneg := by
    refine lt_of_lt_of_le ?_ hstep.loads_le
    rcases hstep.neg_eq hneg with hneg | ⟨hfailed, -⟩
    · exact h.neg n e hneg
    · exact h.failed n e hfailed
  failed n e hfailed := by
    rcases hstep.failed_mem hfailed with hfailed | ⟨rfl, i, rfl⟩
    · exact (h.failed n e hfailed).trans_le hstep.loads_le
    · rw [hstep.of_finish.2]
      exact Nat.lt_succ_self _
  pos n v hpos := by
    rcases hstep.pos_eq hpos with hpos | ⟨rfl, i, rfl⟩
    · -- The value was there, so no load ends in this step.
      obtain ⟨hlt, hloading, hneg, hfailed⟩ := h.pos n v hpos
      refine ⟨hlt.trans_le hstep.loads_le, fun hmem => ?_, fun m e hm => ?_, fun m e hm => ?_⟩
      · rcases hstep.loading_mem hmem with hmem | ⟨hnone, -⟩
        · exact hloading hmem
        · simp [hpos] at hnone
      · rcases hstep.neg_eq hm with hm | ⟨hm, -⟩
        · exact hneg m e hm
        · exact hfailed m e hm
      · rcases hstep.failed_mem hm with hm | ⟨-, i, rfl⟩
        · exact hfailed m e hm
        · exact absurd hstep.of_finish.1 hloading
    · -- The value is the latest load's.
      obtain ⟨-, rfl⟩ := hstep.of_finish
      refine ⟨Nat.lt_succ_self _, loading_not_mem_finish hpos, fun m e hm => ?_, fun m e hm => ?_⟩
      · rcases hstep.neg_eq hm with hm | ⟨-, i', heq⟩
        · exact h.neg m e hm
        · cases heq
      · rcases hstep.failed_mem hm with hm | ⟨-, i', heq⟩
        · exact h.failed m e hm
        · cases heq

/-- A run from empty stores. -/
theorem Ordered.run {posEnabled negEnabled : Bool}
    {tr : List (LTS.Step (CacheRace V) (CacheRaceEvent V))}
    (hrun : Path Step (new posEnabled negEnabled) tr s) : s.Ordered :=
  hrun.inv (ordered_new posEnabled negEnabled) fun _ _ _ h hstep => h.step hstep

/-! ## Freshness -/

/-- If a value is stored, no call that starts now is ever answered with an error from a load before
the value's. -/
def Fresh (s : CacheRace V) : Prop :=
  ∀ n v, s.pos.join = some (n, v) →
    ∀ s' tr t, Step s .start s' → Path Step s' tr t →
      ∀ m e, t.calls[s.calls.length]? = some (.returned m (.error e)) → ¬ m < n

theorem errorLoad_shareLoad {n m : ℕ} {res : Except BorsaError V} {call : CachedCall V}
    (h : (call.shareLoad n res).errorLoad = some m) : call.errorLoad = some m ∨ m = n := by
  cases call with
  | loading =>
    cases res with
    | ok v => cases h
    | error e => exact .inr (Option.some.inj h).symm
  | _ => exact .inl h

/-- What a step does to a call that has started: it keeps the load of its error, or gets an error from
the load that ends. -/
theorem Step.errorLoad (hstep : Step s a t) {i : ℕ} {call : CachedCall V}
    (hcall : s.calls[i]? = some call) : ∃ call', t.calls[i]? = some call' ∧
      ∀ m, call'.errorLoad = some m → call.errorLoad = some m ∨ m = s.loads := by
  have hlt := (List.getElem?_eq_some_iff.1 hcall).1
  have hset : ∀ (j : ℕ) (new : CachedCall V), (j = i → ∀ m, new.errorLoad = some m →
      call.errorLoad = some m ∨ m = s.loads) → ∃ call', (s.calls.set j new)[i]? = some call' ∧
        ∀ m, call'.errorLoad = some m → call.errorLoad = some m ∨ m = s.loads := by
    intro j new hnew
    by_cases hij : j = i
    · subst hij
      exact ⟨new, List.getElem?_set_self hlt, hnew rfl⟩
    · exact ⟨call, by rw [List.getElem?_set_ne hij, hcall], fun m hm => .inl hm⟩
  cases hstep with
  | start => exact ⟨call, (List.getElem?_append_left hlt).trans hcall, fun m hm => .inl hm⟩
  | lookup j =>
    refine hset j _ fun _ m hm => ?_
    split at hm <;> cases hm
  | finish j res hj =>
    simp only [CacheRace.finish]
    split
    · exact ⟨call.shareLoad s.loads res, by rw [List.getElem?_map, hcall]; rfl,
        fun m hm => errorLoad_shareLoad hm⟩
    · refine hset j _ fun hij m hm => ?_
      subst hij
      obtain rfl := Option.some.inj (hcall.symm.trans hj)
      change (CachedCall.loading.shareLoad s.loads res).errorLoad = some m at hm
      exact errorLoad_shareLoad hm
  | insert j n e hj =>
    refine hset j _ fun hij m hm => .inl ?_
    subst hij
    obtain rfl := Option.some.inj (hcall.symm.trans hj)
    exact hm
  | losePos | loseNeg => exact ⟨call, hcall, fun m hm => .inl hm⟩

/-- A call has an error only from the `L`-th load on, and so far `L` loads have ended at least. -/
def ErrorsFrom (L i : ℕ) (s : CacheRace V) : Prop :=
  L ≤ s.loads ∧ ∃ call, s.calls[i]? = some call ∧ ∀ m, call.errorLoad = some m → L ≤ m

theorem ErrorsFrom.step {L i : ℕ} (h : s.ErrorsFrom L i) (hstep : Step s a t) :
    t.ErrorsFrom L i := by
  obtain ⟨hL, call, hcall, hfrom⟩ := h
  obtain ⟨call', hcall', hload⟩ := hstep.errorLoad hcall
  refine ⟨hL.trans hstep.loads_le, call', hcall', fun m hm => ?_⟩
  rcases hload m hm with hm | rfl
  · exact hfrom m hm
  · exact hL

/-- A stored value is fresh when no error is stored beside it. -/
theorem fresh_iff (h : s.Ordered) : s.Fresh ↔ ¬ (s.pos.join.isSome ∧ s.neg.join.isSome) := by
  constructor
  · rintro hfresh ⟨hp, hn⟩
    obtain ⟨⟨n, v⟩, hpos⟩ := Option.isSome_iff_exists.1 hp
    obtain ⟨⟨m, e⟩, hneg⟩ := Option.isSome_iff_exists.1 hn
    refine hfresh n v hpos _ [] _ (.start s) .nil m e ?_ ((h.pos n v hpos).2.2.1 m e hneg)
    simp [start, hneg]
  · intro hboth n v hpos s' tr t hstart hrun m e hret hlt
    have hneg : s.neg.join = none := by
      rw [← Option.not_isSome_iff_eq_none]
      exact fun hn => hboth ⟨by rw [hpos]; rfl, hn⟩
    cases hstart
    -- The new call found no error, so those it can still get are from loads that end later.
    have hstart : s.start.ErrorsFrom s.loads s.calls.length :=
      ⟨le_rfl, .checked, by simp [start, hneg], nofun⟩
    obtain ⟨-, call, hcall, hfrom⟩ := hrun.inv hstart fun _ _ _ h hstep => h.step hstep
    obtain rfl := Option.some.inj (hcall.symm.trans hret)
    have hge : s.loads ≤ m := hfrom m rfl
    have hn := (h.pos n v hpos).1
    omega

/-- The step stores no value beside an error, and no error beside a value. -/
def NoOverlap (st : LTS.Step (CacheRace V) (CacheRaceEvent V)) : Prop :=
  (∀ i v, st.label = .finish i (.ok v) → st.pre.pos.isSome → st.pre.neg.join = none) ∧
    ∀ i n e, st.label = .insert i → st.pre.calls[i]? = some (.failed n e) → e.isPermanent →
      st.pre.neg.isSome → st.pre.pos.join = none

theorem Fresh.step_iff (h : s.Ordered) (hfresh : s.Fresh) (hstep : Step s a t) :
    t.Fresh ↔ NoOverlap ⟨s, a, t⟩ := by
  rw [fresh_iff (h.step hstep)]
  rw [fresh_iff h] at hfresh
  cases hstep with
  | start => exact iff_of_true hfresh ⟨nofun, nofun⟩
  | lookup => exact iff_of_true hfresh ⟨nofun, nofun⟩
  | finish i res =>
    cases res with
    | error e => exact iff_of_true hfresh ⟨nofun, nofun⟩
    | ok v =>
      cases hpos : s.pos <;> simp [NoOverlap, CacheRace.finish, hpos]
  | insert i n e hi =>
    have hno : NoOverlap ⟨s, .insert i, s.insert i n e⟩ ↔
        (e.isPermanent → s.neg.isSome → s.pos.join = none) := by
      refine ⟨fun h => h.2 i n e rfl hi, fun h => ⟨nofun, ?_⟩⟩
      rintro _ n' e' ⟨⟩ hi'
      obtain ⟨rfl, rfl⟩ := CachedCall.failed.inj (Option.some.inj (hi.symm.trans hi'))
      exact h
    rw [hno]
    cases hneg : s.neg <;> cases hperm : e.isPermanent <;>
      simp_all [CacheRace.insert]
  | losePos =>
    refine iff_of_true ?_ ⟨nofun, nofun⟩
    cases s.pos <;> simp
  | loseNeg =>
    refine iff_of_true ?_ ⟨nofun, nofun⟩
    cases s.neg <;> simp

/-- When a fresh success is not masked. In every state of a run the stored value is fresh, exactly when
no load ends in a stored value while an error is stored, and no permanent error is inserted while a
value is. -/
theorem stored_fresh {posEnabled negEnabled : Bool}
    {tr : List (LTS.Step (CacheRace V) (CacheRaceEvent V))}
    (hrun : Path Step (new posEnabled negEnabled) tr s) :
    (∀ st ∈ tr, st.post.Fresh) ↔ ∀ st ∈ tr, NoOverlap st := by
  have hordered : ∀ st ∈ tr, st.post.Ordered := fun st hst =>
    (hrun.inv_step (ordered_new posEnabled negEnabled) (fun _ _ _ h hs => h.step hs) hst).2.2
  have hnew : (new posEnabled negEnabled : CacheRace V).Fresh := by
    rw [fresh_iff (ordered_new posEnabled negEnabled)]
    cases posEnabled <;> simp [new]
  have hiff := hrun.forall_iff_of_inv (I := fun s => s.Ordered ∧ s.Fresh) (C := NoOverlap)
    ⟨ordered_new posEnabled negEnabled, hnew⟩ fun t a u h hstep =>
      (and_iff_right (h.1.step hstep)).trans (h.2.step_iff h.1 hstep)
  rw [← hiff]
  exact forall₂_congr fun st hst => (and_iff_right (hordered st hst)).symm

/-- The first call fails, and with its error the second one is answered. Once the error is lost, the third
call loads a value. -/
theorem stored_fresh_failing : ∃ tr, ∃ s : CacheRace ℕ, Path Step (new true true) tr s ∧
    s.pos = some (some (1, 7)) ∧ s.calls = [.returned 0 (.error (.notFound "ACME")),
      .returned 0 (.error (.notFound "ACME")), .returned 1 (.ok 7)] ∧
    ∀ st ∈ tr, st.post.Fresh := by
  have hrun := Path.snoc (.snoc (.snoc (.snoc (.snoc (.snoc (.snoc (.snoc (.snoc .nil
    (Step.start (new true true : CacheRace ℕ)))
    (.lookup _ 0 rfl))
    (.finish _ 0 (.error (.notFound "ACME")) rfl))
    (.insert _ 0 0 (.notFound "ACME") rfl))
    (.start _))
    (.loseNeg _))
    (.start _))
    (.lookup _ 2 rfl))
    (.finish _ 2 (.ok 7) rfl)
  refine ⟨_, _, hrun, rfl, rfl, (stored_fresh hrun).2 ?_⟩
  simp only [List.forall_mem_append, List.forall_mem_singleton]
  have hquiet : ∀ st : LTS.Step (CacheRace ℕ) (CacheRaceEvent ℕ),
      (∀ i v, st.label ≠ .finish i (.ok v)) → (∀ i, st.label ≠ .insert i) → NoOverlap st :=
    fun st hfinish hinsert =>
      ⟨fun i v h => (hfinish i v h).elim, fun i n e h => (hinsert i h).elim⟩
  refine ⟨⟨⟨⟨⟨⟨⟨⟨⟨List.forall_mem_nil _, ?_⟩, ?_⟩, ?_⟩, ?_⟩, ?_⟩, ?_⟩, ?_⟩, ?_⟩, ?_⟩
  · exact hquiet _ (fun _ _ h => by cases h) fun _ h => by cases h
  · exact hquiet _ (fun _ _ h => by cases h) fun _ h => by cases h
  · exact hquiet _ (fun _ _ h => by cases h) fun _ h => by cases h
  · exact ⟨(fun _ _ h => by cases h), fun _ _ _ _ _ _ _ => rfl⟩
  · exact hquiet _ (fun _ _ h => by cases h) fun _ h => by cases h
  · exact hquiet _ (fun _ _ h => by cases h) fun _ h => by cases h
  · exact hquiet _ (fun _ _ h => by cases h) fun _ h => by cases h
  · exact hquiet _ (fun _ _ h => by cases h) fun _ h => by cases h
  · exact ⟨fun _ _ _ _ => rfl, fun _ _ _ h => by cases h⟩

/-- Of two calls that found no error the first one fails, the second one then loads a value, and the
first one inserts its error, with which a third call is answered. -/
theorem stored_not_fresh : ¬ ∀ {posEnabled negEnabled : Bool}
    {tr : List (LTS.Step (CacheRace ℕ) (CacheRaceEvent ℕ))} {s : CacheRace ℕ},
    Path Step (new posEnabled negEnabled) tr s → ∀ st ∈ tr, st.post.Fresh := by
  intro h
  have hrun := Path.snoc (.snoc (.snoc (.snoc (.snoc (.snoc (.snoc .nil
    (Step.start (new true true : CacheRace ℕ)))
    (.start _))
    (.lookup _ 0 rfl))
    (.finish _ 0 (.error (.notFound "ACME")) rfl))
    (.lookup _ 1 rfl))
    (.finish _ 1 (.ok 7) rfl))
    (.insert _ 0 0 (.notFound "ACME") rfl)
  exact h hrun _ (List.mem_append_right _ (List.mem_singleton_self _)) 1 7 rfl _ [] _ (.start _)
    .nil 0 (.notFound "ACME") rfl Nat.zero_lt_one

end CacheRace

end Borsa
