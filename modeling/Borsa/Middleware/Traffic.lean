import Borsa.Middleware.Stack

/-!
# Concurrent calls through a stack

`callLayers` takes a call through the layers in one go. In the program calls are concurrent: each of
them runs the checks of the layers one after another, waits for the raw connector, and has its error
mapped on the way back, and others run in between. A call whose future is dropped, because it has
timed out or because another provider was faster, stops where it is.

`StackTraffic` is a stack with its calls, and a `Step` is one access of a call to one layer. A
blacklist that is told of a rate limit reads the clock before it stores the deadline. There is no cache
among the layers: one above them answers calls itself or sends them on.

The windows of the quotas are positive and the deadlines of the blacklists are instants: with others a
layer panics, and the call is gone as if it had been dropped there. An undisturbed call comes to what
`callLayers` says (`run_of_call`).
-/

namespace Borsa

open LTS

/-- A layer that checks calls and maps their errors. -/
inductive Guard where
  | blacklist (b : BlacklistConnector)
  | quota (rt : QuotaRuntime)
  deriving DecidableEq

namespace Guard

/-- The layer of a stack. -/
def toLayer {K E V : Type} : Guard → Layer K E V
  | .blacklist b => .blacklist b
  | .quota rt => .quota rt

/-- `pre_call`. -/
def preCall (g : Guard) (origin : CallOrigin) (now : ℕ) : Guard × Except BorsaError Unit :=
  match g with
  | .blacklist b =>
    let (b, res) := b.preCall origin now
    (.blacklist b, res)
  | .quota rt =>
    let (rt, res) := rt.preCall origin now
    (.quota rt, res)

theorem preCall_blacklist {b : BlacklistConnector} {origin : CallOrigin} {now : ℕ} {g : Guard}
    {res : Except BorsaError Unit} (h : (blacklist b).preCall origin now = (g, res)) :
    ∃ b', b.preCall origin now = (b', res) ∧ g = blacklist b' := by
  cases h
  exact ⟨_, rfl, rfl⟩

theorem preCall_quota {rt : QuotaRuntime} {origin : CallOrigin} {now : ℕ} {g : Guard}
    {res : Except BorsaError Unit} (h : (quota rt).preCall origin now = (g, res)) :
    ∃ rt', rt.preCall origin now = (rt', res) ∧ g = quota rt' := by
  cases h
  exact ⟨_, rfl, rfl⟩

/-- The window of a rate limit for which `map_error` blocks. -/
def noticed {V : Type} (g : Guard) (origin : CallOrigin) (res : Except BorsaError V) :
    Option UInt64 :=
  match g, origin, res with
  | .blacklist _, .external, .error (.rateLimitExceeded _ windowMs) => some windowMs
  | _, _, _ => none

/-- What `map_error` makes of a result. -/
def pass {V : Type} (g : Guard) (origin : CallOrigin) (res : Except BorsaError V) :
    Except BorsaError V :=
  match g with
  | .blacklist _ => res
  | .quota _ => res.mapError (quotaMapError origin)

/-- The layer once it has seen a result. -/
def told {V : Type} (g : Guard) (origin : CallOrigin) (now : ℕ) (res : Except BorsaError V) :
    Guard :=
  match g.noticed origin res, g with
  | some windowMs, .blacklist b => .blacklist (b.blacklistUntil (now + b.blockFor windowMs))
  | _, g => g

theorem told_of_none {V : Type} {g : Guard} {origin : CallOrigin} {res : Except BorsaError V}
    (h : g.noticed origin res = none) (now : ℕ) : g.told origin now res = g := by
  simp only [told, h]

@[simp] theorem noticed_ok {V : Type} (g : Guard) (origin : CallOrigin) (v : V) :
    g.noticed origin (.ok v) = none := by
  cases g <;> cases origin <;> rfl

end Guard

section
variable {V : Type}

/-! ## Calls under way -/

/-- Where a call is. -/
inductive CallPlace (V : Type) where
  /-- It comes to the layer of this depth, or to the raw connector below the last one. -/
  | entering (depth : ℕ)
  /-- The raw connector works on it. -/
  | raw
  /-- It comes back with a result, which the layers above the depth have still to map. -/
  | leaving (depth : ℕ) (res : Except BorsaError V)
  /-- The blacklist of this depth has read the clock, and is about to store the deadline. -/
  | reporting (depth deadline : ℕ) (err : BorsaError)
  /-- It has been answered, or dropped. -/
  | gone (answer : Option (Except BorsaError V))

/-- A call. -/
structure CallState (V : Type) where
  origin : CallOrigin
  place : CallPlace V
  /-- The instants at which it has passed the layers, the outermost first. -/
  passes : List ℕ

/-- A call can be dropped while it waits; a layer that maps an error does not wait. -/
def CallPlace.Waits : CallPlace V → Prop
  | .entering _ | .raw | .leaving .. => True
  | .reporting .. | .gone _ => False

/-- One access of a call to a layer or to the raw connector. -/
inductive CallAct (V : Type) where
  | arrive
  /-- A layer runs its check, with this outcome. -/
  | enter (outcome : Except BorsaError Unit)
  /-- The raw connector is called. -/
  | reach
  | answer (res : Except BorsaError V)
  /-- A layer passes a result on. -/
  | leave
  /-- A blacklist is told of a rate limit, and reads the clock. -/
  | limited (windowMs : UInt64)
  /-- It stores the deadline. -/
  | report
  | finish
  /-- Its future is dropped, or has panicked. -/
  | drop

/-- A call after the check of the layer at this depth. -/
def CallState.checked (c : CallState V) (depth time : ℕ) :
    Except BorsaError Unit → CallState V
  | .ok () => { c with place := .entering (depth + 1), passes := c.passes ++ [time] }
  | .error e => { c with place := .leaving depth (.error e) }

/-- What a call can do among these layers. -/
inductive CallStep (layers : List Guard) (c : CallState V) (time : ℕ) :
    CallAct V → List Guard → CallState V → Prop
  | enter {depth : ℕ} {g : Guard} (hp : c.place = .entering depth) (hg : layers[depth]? = some g) :
    CallStep layers c time (.enter (g.preCall c.origin time).2)
      (layers.set depth (g.preCall c.origin time).1)
      (c.checked depth time (g.preCall c.origin time).2)
  | reach (hp : c.place = .entering layers.length) :
    CallStep layers c time .reach layers { c with place := .raw }
  | answer (res : Except BorsaError V) (hp : c.place = .raw) :
    CallStep layers c time (.answer res) layers { c with place := .leaving layers.length res }
  | leave {depth : ℕ} {g : Guard} {res : Except BorsaError V}
    (hp : c.place = .leaving (depth + 1) res) (hg : layers[depth]? = some g)
    (hn : g.noticed c.origin res = none) :
    CallStep layers c time .leave layers
      { c with place := .leaving depth (g.pass c.origin res) }
  | limited {depth : ℕ} {b : BlacklistConnector} {err : BorsaError} {windowMs : UInt64}
    (hp : c.place = .leaving (depth + 1) (.error err)) (hg : layers[depth]? = some (.blacklist b))
    (hn : (Guard.blacklist b).noticed c.origin (.error err : Except BorsaError V) =
      some windowMs) :
    CallStep layers c time (.limited windowMs) layers
      { c with place := .reporting depth (time + b.blockFor windowMs) err }
  | report {depth deadline : ℕ} {b : BlacklistConnector} {err : BorsaError}
    (hp : c.place = .reporting depth deadline err) (hg : layers[depth]? = some (.blacklist b)) :
    CallStep layers c time .report (layers.set depth (.blacklist (b.blacklistUntil deadline)))
      { c with place := .leaving depth (.error err) }
  | finish {res : Except BorsaError V} (hp : c.place = .leaving 0 res) :
    CallStep layers c time .finish layers { c with place := .gone (some res) }
  | drop (hp : c.place.Waits) : CallStep layers c time .drop layers { c with place := .gone none }

/-! ## A stack with its calls -/

/-- A stack with the calls that have come to it. -/
structure StackTraffic (V : Type) where
  now : ℕ
  /-- The layers, the outermost first. -/
  layers : List Guard
  calls : List (CallState V)

/-- What happened: which call did what, at which instant, and how it was before. -/
structure TrafficEvent (V : Type) where
  id : ℕ
  time : ℕ
  call : CallState V
  act : CallAct V

namespace StackTraffic

/-- A stack without calls. -/
def start (V : Type) (now : ℕ) (layers : List Guard) : StackTraffic V := ⟨now, layers, []⟩

/-- A new call. -/
def arrival (origin : CallOrigin) : CallState V := ⟨origin, .entering 0, []⟩

/-- A call arrives, or one of those under way does something. -/
inductive Step : StackTraffic V → TrafficEvent V → StackTraffic V → Prop
  | arrive (s : StackTraffic V) (origin : CallOrigin) :
    Step s ⟨s.calls.length, s.now, arrival origin, .arrive⟩
      { s with calls := s.calls ++ [arrival origin] }
  | act {s : StackTraffic V} {i time : ℕ} {c c' : CallState V} {a : CallAct V}
    {layers : List Guard} (ht : s.now ≤ time) (hc : s.calls[i]? = some c)
    (h : CallStep s.layers c time a layers c') :
    Step s ⟨i, time, c, a⟩ ⟨time, layers, s.calls.set i c'⟩

/-- How often the raw connector has been called. -/
def rawCalls (tr : List (LTS.Step (StackTraffic V) (TrafficEvent V))) : ℕ :=
  tr.countP fun st => match st.label.act with
    | .reach => true
    | _ => false

theorem rawCalls_append (tr tr' : List (LTS.Step (StackTraffic V) (TrafficEvent V))) :
    rawCalls (tr ++ tr') = rawCalls tr + rawCalls tr' :=
  List.countP_append

/-! ## An undisturbed call -/

/-- The layer of a depth is replaced. -/
theorem set_layers (outer inner : List Guard) (g g' : Guard) :
    (outer ++ g :: inner).set outer.length g' = outer ++ g' :: inner := by
  rw [List.set_append_right _ _ le_rfl, Nat.sub_self, List.set_cons_zero]

/-- A result goes back through a layer at an instant. -/
theorem exists_path_leave {now time i : ℕ} {calls : List (CallState V)} {c : CallState V}
    {res : Except BorsaError V} (outer inner : List Guard) (g : Guard) (hle : now ≤ time)
    (hc : calls[i]? = some c) (hp : c.place = .leaving (outer.length + 1) res) :
    ∃ tr, Path Step ⟨now, outer ++ g :: inner, calls⟩ tr
        ⟨time, outer ++ g.told c.origin time res :: inner,
          calls.set i { c with place := .leaving outer.length (g.pass c.origin res) }⟩ ∧
      rawCalls tr = 0 := by
  have hg : (outer ++ g :: inner)[outer.length]? = some g := by simp
  obtain ⟨hlt, -⟩ := List.getElem?_eq_some_iff.1 hc
  cases hn : g.noticed c.origin res with
  | none =>
    rw [Guard.told_of_none hn]
    exact ⟨_, .single (.act hle hc (.leave hp hg hn)), rfl⟩
  | some windowMs =>
    obtain ⟨b, err, rfl, rfl⟩ : ∃ b err, g = .blacklist b ∧ res = .error err := by
      cases g with
      | quota rt => cases hn
      | blacklist b =>
        cases res with
        | ok v =>
          rw [Guard.noticed_ok] at hn
          cases hn
        | error err => exact ⟨b, err, rfl, rfl⟩
    have hlimited := Step.act (s := ⟨now, outer ++ .blacklist b :: inner, calls⟩) hle hc
      (.limited hp hg hn)
    have hc' := List.getElem?_set_self (a := { c with
      place := .reporting outer.length (time + b.blockFor windowMs) err }) hlt
    have hreport := Step.act (s := ⟨time, outer ++ .blacklist b :: inner, _⟩) le_rfl hc'
      (.report rfl hg)
    rw [List.set_set, set_layers] at hreport
    have htold : (Guard.blacklist b).told c.origin time (.error err : Except BorsaError V) =
        .blacklist (b.blacklistUntil (time + b.blockFor windowMs)) := by
      simp only [Guard.told, hn]
    rw [htold]
    exact ⟨_, .snoc (.single hlimited) hreport, rfl⟩

end StackTraffic

section
variable {K E I R T : Type} [Fieldless I] [Fieldless R] [Fieldless T] [DecidableEq K]
  [DecidableEq E] {call : StackCall K E I R T V} {depth n : ℕ} {g g' : Guard}
  {rest : List (Layer K E V)}

/-- A call that the check of a layer rejects. -/
theorem callLayers_rejected (range : InstantRange) {e : BorsaError}
    (h : g.preCall call.origin (call.enter depth) = (g', .error e)) :
    callLayers range call depth (g.toLayer :: rest) n =
      ((g'.toLayer :: rest, n), some (.error e)) := by
  cases g with
  | blacklist b =>
    obtain ⟨b', hpre, rfl⟩ := Guard.preCall_blacklist h
    have hcall : b.call range call.origin (call.enter depth) (call.leave depth)
        (fun _ => callLayers range call (depth + 1) rest n) (rest, n) =
        (b', (rest, n), some (.error e)) := by
      rw [BlacklistConnector.call, delegate, hpre]
    exact callLayers_blacklist range call depth rest n b hcall
  | quota rt =>
    obtain ⟨rt', hpre, rfl⟩ := Guard.preCall_quota h
    have hcall : rt.call call.origin (call.enter depth)
        (fun _ => callLayers range call (depth + 1) rest n) (rest, n) =
        (rt', (rest, n), some (.error e)) := by
      rw [QuotaRuntime.call, delegate, hpre]
    exact callLayers_quota range call depth rest n rt hcall

/-- What a blacklist does with an error, if it does not panic. -/
theorem mapError_told (range : InstantRange) (b : BlacklistConnector) (origin : CallOrigin) (now : ℕ)
    (e : BorsaError) : b.mapError range origin now e = none ∨
      ∃ b', b.mapError range origin now e = some (b', e) ∧
        Guard.blacklist b' = (Guard.blacklist b).told origin now (.error e : Except BorsaError V) := by
  cases origin with
  | internal parent stage => exact .inr ⟨b, rfl, rfl⟩
  | external =>
    cases e with
    | rateLimitExceeded limit windowMs =>
      rcases le_or_gt (now + b.blockFor windowMs) range.last with hle | hlt
      · exact .inr ⟨_, BlacklistConnector.handleError_fits limit hle, rfl⟩
      · exact .inl (BlacklistConnector.handleError_beyond limit hlt)
    | _ => exact .inr ⟨b, rfl, rfl⟩

/-- A call that the check of a layer admits and that comes back from below: it panics here, or the layer
passes the result on. -/
theorem callLayers_passed (range : InstantRange)
    (h : g.preCall call.origin (call.enter depth) = (g', .ok ()))
    {layers : List (Layer K E V)} {m : ℕ} {res : Except BorsaError V}
    (hin : callLayers range call (depth + 1) rest n = ((layers, m), some res)) :
    callLayers range call depth (g.toLayer :: rest) n = ((g'.toLayer :: layers, m), none) ∨
    callLayers range call depth (g.toLayer :: rest) n =
      (((g'.told call.origin (call.leave depth) res).toLayer :: layers, m),
        some (g'.pass call.origin res)) := by
  cases g with
  | blacklist b =>
    obtain ⟨b', hpre, rfl⟩ := Guard.preCall_blacklist h
    cases res with
    | ok v =>
      rw [Guard.told_of_none (Guard.noticed_ok _ _ v)]
      have hcall : b.call range call.origin (call.enter depth) (call.leave depth)
          (fun _ => callLayers range call (depth + 1) rest n) (rest, n) =
          (b', (layers, m), some (.ok v)) := by
        rw [BlacklistConnector.call, delegate, hpre]
        simp only [hin]
      exact .inr (callLayers_blacklist range call depth rest n b hcall)
    | error e =>
      rcases mapError_told (V := V) range b' call.origin (call.leave depth) e with
        hmap | ⟨b'', hmap, htold⟩
      · have hcall : b.call range call.origin (call.enter depth) (call.leave depth)
            (fun _ => callLayers range call (depth + 1) rest n) (rest, n) =
            (b', (layers, m), none) := by
          rw [BlacklistConnector.call, delegate, hpre]
          simp only [hin, hmap]
        exact .inl (callLayers_blacklist range call depth rest n b hcall)
      · have hcall : b.call range call.origin (call.enter depth) (call.leave depth)
            (fun _ => callLayers range call (depth + 1) rest n) (rest, n) =
            (b'', (layers, m), some (.error e)) := by
          rw [BlacklistConnector.call, delegate, hpre]
          simp only [hin, hmap]
        rw [← htold]
        exact .inr (callLayers_blacklist range call depth rest n b hcall)
  | quota rt =>
    obtain ⟨rt', hpre, rfl⟩ := Guard.preCall_quota h
    have hcall : rt.call call.origin (call.enter depth)
        (fun _ => callLayers range call (depth + 1) rest n) (rest, n) =
        (rt', (layers, m), some (res.mapError (quotaMapError call.origin))) := by
      rw [QuotaRuntime.call, delegate, hpre]
      cases res <;> simp only [hin] <;> rfl
    exact .inr (callLayers_quota range call depth rest n rt hcall)

/-- A call that the check of a layer admits and that panics below. -/
theorem callLayers_panicked (range : InstantRange)
    (h : g.preCall call.origin (call.enter depth) = (g', .ok ()))
    {layers : List (Layer K E V)} {m : ℕ}
    (hin : callLayers range call (depth + 1) rest n = ((layers, m), none)) :
    callLayers range call depth (g.toLayer :: rest) n = ((g'.toLayer :: layers, m), none) := by
  cases g with
  | blacklist b =>
    obtain ⟨b', hpre, rfl⟩ := Guard.preCall_blacklist h
    have hcall : b.call range call.origin (call.enter depth) (call.leave depth)
        (fun _ => callLayers range call (depth + 1) rest n) (rest, n) = (b', (layers, m), none) := by
      rw [BlacklistConnector.call, delegate, hpre]
      simp only [hin]
    exact callLayers_blacklist range call depth rest n b hcall
  | quota rt =>
    obtain ⟨rt', hpre, rfl⟩ := Guard.preCall_quota h
    have hcall : rt.call call.origin (call.enter depth)
        (fun _ => callLayers range call (depth + 1) rest n) (rest, n) = (rt', (layers, m), none) := by
      rw [QuotaRuntime.call, delegate, hpre]
      simp only [hin]
    exact callLayers_quota range call depth rest n rt hcall

namespace StackTraffic

/-- Where a call is whose answer comes out of the layer of a depth: a panic leaves none. -/
def placeOf (depth : ℕ) : Option (Except BorsaError V) → CallPlace V
  | some res => .leaving depth res
  | none => .gone none

/-- An undisturbed call from a layer on does what `callLayers` says. -/
theorem exists_path_of_callLayers (range : InstantRange) {clock : ℕ} (hclock : call.Clocked clock)
    (outer inner : List Guard) {calls : List (CallState V)} {now i n : ℕ} {passes : List ℕ}
    (hc : calls[i]? = some ⟨call.origin, .entering outer.length, passes⟩)
    (hnow : now ≤ call.enter outer.length) :
    ∃ (inner' : List Guard) (answer : Option (Except BorsaError V)) (passes' : List ℕ) (now' : ℕ)
      (tr : List (LTS.Step (StackTraffic V) (TrafficEvent V))),
      Path Step ⟨now, outer ++ inner, calls⟩ tr ⟨now', outer ++ inner',
        calls.set i ⟨call.origin, placeOf outer.length answer, passes'⟩⟩ ∧
      now' ≤ call.leave outer.length ∧
      callLayers range call outer.length (inner.map (Guard.toLayer (K := K) (E := E))) n =
        ((inner'.map Guard.toLayer, n + rawCalls tr), answer) := by
  obtain ⟨hlt, -⟩ := List.getElem?_eq_some_iff.1 hc
  induction inner generalizing outer calls now n passes with
  | nil =>
    have hreach := Step.act (s := ⟨now, outer, calls⟩) hnow hc (.reach rfl)
    have hc' := List.getElem?_set_self
      (a := (⟨call.origin, .raw, passes⟩ : CallState V)) hlt
    have hanswer := Step.act (s := ⟨call.enter outer.length, outer, _⟩) le_rfl hc'
      (.answer call.raw rfl)
    rw [List.set_set] at hanswer
    obtain ⟨tr, hpath, hraw⟩ : ∃ tr, Path Step ⟨now, outer, calls⟩ tr ⟨call.enter outer.length, outer,
        calls.set i ⟨call.origin, .leaving outer.length call.raw, passes⟩⟩ ∧ rawCalls tr = 1 :=
      ⟨_, .snoc (.single hreach) hanswer, rfl⟩
    refine ⟨[], some call.raw, passes, _, tr, ?_, hclock.turns _, ?_⟩
    · rwa [List.append_nil]
    · rw [hraw]
      rfl
  | cons g inner ih =>
    have hg : (outer ++ g :: inner)[outer.length]? = some g := by simp
    have henter := Step.act (s := ⟨now, outer ++ g :: inner, calls⟩) hnow hc (.enter rfl hg)
    generalize hpre : g.preCall call.origin (call.enter outer.length) = r at henter
    obtain ⟨g', checked⟩ := r
    dsimp only at henter
    rw [set_layers] at henter
    cases checked with
    | error e =>
      exact ⟨g' :: inner, some (.error e), passes, _, _, .single henter, hclock.turns _,
        callLayers_rejected range hpre⟩
    | ok u =>
      have hlen : outer.length + 1 = (outer ++ [g']).length := by simp
      have hle : call.enter outer.length ≤ call.enter (outer ++ [g']).length := by
        rw [← hlen]
        exact hclock.enters _
      have hlt' : i < (calls.set i ((⟨call.origin, .entering outer.length, passes⟩ :
          CallState V).checked outer.length (call.enter outer.length) (.ok u))).length := by
        rwa [List.length_set]
      obtain ⟨inner', answer, passes', now', tr, hpath, hnow', hcall⟩ := ih (n := n) (outer ++ [g'])
        (by rw [List.getElem?_set_self hlt, ← hlen]; rfl) hle hlt'
      rw [← hlen] at hcall hnow' hpath
      rw [List.set_set, List.append_assoc, List.append_assoc, List.singleton_append,
        List.singleton_append] at hpath
      obtain ⟨tr₀, hpath₀, hraw₀⟩ : ∃ tr₀, Path Step _ tr₀ _ ∧ rawCalls tr₀ = 0 :=
        ⟨_, .single henter, rfl⟩
      have hbelow := hpath₀.append hpath
      have hleft := hnow'.trans (hclock.leaves _)
      cases answer with
      | none =>
        refine ⟨g' :: inner', none, passes', now', _, hbelow, hleft, ?_⟩
        rw [rawCalls_append, hraw₀, Nat.zero_add]
        exact callLayers_panicked range hpre hcall
      | some res =>
        have hc' := List.getElem?_set_self (l := calls)
          (a := (⟨call.origin, .leaving (outer.length + 1) res, passes'⟩ : CallState V)) hlt
        rcases callLayers_passed range hpre hcall with hpanic | hpass
        · have hdrop := Step.act (s := ⟨now', outer ++ g' :: inner', _⟩) le_rfl hc' (.drop trivial)
          rw [List.set_set] at hdrop
          refine ⟨g' :: inner', none, passes', now', _, hbelow.snoc hdrop, hleft, hpanic.trans ?_⟩
          rw [rawCalls_append, rawCalls_append, hraw₀, Nat.zero_add]
          rfl
        · obtain ⟨tr', hleave, hraw⟩ := exists_path_leave outer inner' g' hleft hc' rfl
          rw [List.set_set] at hleave
          refine ⟨_, some (g'.pass call.origin res), passes', _, _, Path.append hbelow hleave, le_rfl,
            hpass.trans ?_⟩
          rw [rawCalls_append, rawCalls_append, hraw₀, hraw, Nat.zero_add, Nat.add_zero]
          rfl

/-- An undisturbed call does what `callLayers` says, whatever other calls there are: the layers it
leaves behind, the number of raw calls and the answer are the same. If it panics it is gone without
one. -/
theorem run_of_call (range : InstantRange) {now : ℕ} (hclock : call.Clocked now)
    (layers : List Guard) (calls : List (CallState V)) (n : ℕ) :
    ∃ (layers' : List Guard) (answer : Option (Except BorsaError V)) (passes : List ℕ) (now' : ℕ)
      (tr : List (LTS.Step (StackTraffic V) (TrafficEvent V))),
      Path Step ⟨now, layers, calls⟩ tr ⟨now', layers',
        calls ++ [⟨call.origin, .gone answer, passes⟩]⟩ ∧
      (answer.isSome = true → now' = call.leave 0) ∧
      callLayers range call 0 (layers.map (Guard.toLayer (K := K) (E := E))) n =
        ((layers'.map Guard.toLayer, n + rawCalls tr), answer) := by
  have hget : ∀ c : CallState V, (calls ++ [c])[calls.length]? = some c := fun c => by simp
  have hset : ∀ c c' : CallState V, (calls ++ [c]).set calls.length c' = calls ++ [c'] := by
    intro c c'
    rw [List.set_append_right _ _ le_rfl, Nat.sub_self, List.set_cons_zero]
  obtain ⟨layers', answer, passes, now', tr, hpath, hnow, hcall⟩ := exists_path_of_callLayers
    (n := n) range hclock [] layers (hget (arrival call.origin)) hclock.starts
  have harrive := Step.arrive (⟨now, layers, calls⟩ : StackTraffic V) call.origin
  rw [hset] at hpath
  obtain ⟨tr₁, hpath₁, hraw₁⟩ : ∃ tr₁, Path Step _ tr₁ _ ∧ rawCalls tr₁ = rawCalls tr := by
    refine ⟨_, (Path.single harrive).append hpath, ?_⟩
    rw [rawCalls_append]
    exact Nat.zero_add _
  cases answer with
  | none =>
    rw [← hraw₁] at hcall
    exact ⟨layers', none, passes, now', tr₁, hpath₁, (fun h => by cases h), hcall⟩
  | some res =>
    have hfinish := Step.act (s := ⟨now', layers', _⟩) hnow
      (hget ⟨call.origin, .leaving 0 res, passes⟩) (.finish rfl)
    rw [hset] at hfinish
    obtain ⟨tr₂, hpath₂, hraw₂⟩ : ∃ tr₂, Path Step _ tr₂ _ ∧ rawCalls tr₂ = rawCalls tr := by
      refine ⟨_, hpath₁.snoc hfinish, ?_⟩
      rw [rawCalls_append, hraw₁]
      rfl
    rw [← hraw₂] at hcall
    exact ⟨layers', some res, passes, call.leave 0, tr₂, hpath₂, fun _ => rfl, hcall⟩

/-- A call that the raw connector answers with a rate limit. -/
def limitedCall : StackCall Bool Bool Bool Bool Bool ℕ where
  request := none
  origin := .external
  enter _ := 1
  leave _ := 2
  raw := .error (.rateLimitExceeded 5 1000)

/-- It comes to a blacklist above a quota. -/
theorem run_of_call_limited : ∃ layers' passes tr,
    Path Step ⟨0, [.blacklist (.new 0), .quota (.new .default 0 0)], []⟩ tr
      ⟨2, layers', [⟨.external, .gone (some limitedCall.raw), passes⟩]⟩ ∧ rawCalls tr = 1 := by
  have hclock : limitedCall.Clocked 0 :=
    ⟨Nat.zero_le 1, fun _ => le_rfl, fun _ => Nat.le_succ 1, fun _ => le_rfl⟩
  obtain ⟨layers', answer, passes, now', tr, hrun, hleft, hcall⟩ := run_of_call aYear hclock
    [.blacklist (.new 0), .quota (.new .default 0 0)] [] 0
  obtain ⟨hstack, hanswer⟩ := Prod.ext_iff.1 hcall
  obtain ⟨-, hraw⟩ := Prod.ext_iff.1 hstack
  obtain rfl : some limitedCall.raw = answer := hanswer
  obtain rfl : now' = 2 := hleft rfl
  exact ⟨layers', passes, tr, hrun, ((Nat.zero_add _).symm.trans hraw.symm)⟩

end StackTraffic

end

end

end Borsa
