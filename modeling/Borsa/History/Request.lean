import Borsa.Fetch
import Borsa.Timeseries.Resample

/-!
# History requests

What a provider is asked for: `choose_effective_interval` picks a supported interval and a plan for
resampling the answer to the requested one, and `build_effective_request` puts the interval into the
request.

The intervals and the request builder are those of the `paft` crate. An interval is read through its
length, in whole minutes or in seconds, which is positive; the validation of a request is a
parameter.
-/

namespace Borsa

/-- What the router reads of an interval. -/
class Interval (I : Type) where
  minutes : I → Option ℤ
  seconds : I → Option ℤ
  /-- `Interval::D1`. -/
  d1 : I
  /-- `Interval::W1`. -/
  w1 : I

/-- The resampling of a provider's answer to the requested cadence. -/
inductive ResamplePlan where
  | minutes (mins : ℤ)
  | daily
  | weekly
  deriving DecidableEq

section
variable {I : Type} [Interval I]

/-- The length of an intraday interval in minutes, if it is a whole number of them. -/
def wholeMinutes (iv : I) : Option ℤ :=
  (Interval.minutes iv).or
    ((Interval.seconds iv).bind fun s => if s % 60 = 0 then some (s / 60) else none)

/-- The loop for the largest supported divisor of the requested number of minutes. -/
def bestDivisor (reqMin : ℤ) (supported : List I) : Option (I × ℤ) :=
  supported.foldl (fun best s =>
    match wholeMinutes s with
    | some m =>
      if m ≤ reqMin ∧ reqMin % m = 0 ∧ best.all (fun b => decide (b.2 < m)) then some (s, m)
      else best
    | none => best) none

/-- `coarsest_intraday`: the last of the longest intervals in minutes. -/
def coarsestIntraday (supported : List I) : Option (I × ℤ) :=
  supported.foldl (fun best s =>
    match Interval.minutes s with
    | some m => if best.all (fun b => decide (b.2 ≤ m)) then some (s, m) else best
    | none => best) none

/-- `choose_effective_interval`. -/
def chooseEffectiveInterval [DecidableEq I] (supported : List I) (requested : I) :
    Except BorsaError (I × Option ResamplePlan) :=
  if requested ∈ supported then .ok (requested, none)
  else
    match wholeMinutes requested with
    | some reqMin =>
      match bestDivisor reqMin supported with
      | some (eff, _) => .ok (eff, some (.minutes reqMin))
      | none => .error (.unsupported "history interval (intraday too fine for provider)")
    | none =>
      if requested = Interval.d1 then
        if Interval.d1 ∈ supported then .ok (Interval.d1, none)
        else
          match coarsestIntraday supported with
          | some (eff, _) => .ok (eff, some .daily)
          | none => .error (.unsupported "history interval (daily requires daily or intraday)")
      else if requested = Interval.w1 then
        if Interval.w1 ∈ supported then .ok (Interval.w1, none)
        else if Interval.d1 ∈ supported then .ok (Interval.d1, some .weekly)
        else
          match coarsestIntraday supported with
          | some (eff, _) => .ok (eff, some .weekly)
          | none =>
            .error (.unsupported "history interval (weekly requires weekly/daily/intraday)")
      else .ok (requested, none)

end

/-- A history request, over the ranges `R`. -/
structure HistoryRequest (I R : Type) where
  range : Option R
  period : Option (DateTime × DateTime)
  interval : I
  includePrepost : Bool
  includeActions : Bool
  autoAdjust : Bool
  keepna : Bool

/-- A provider's history endpoint. -/
structure HistoryProvider (K E I R A : Type) where
  supportedHistoryIntervals : K → List I
  history : Instrument K E → HistoryRequest I R → Fut (HistoryResponse A)

/-- `HistoryRequestBuilder::build`: the validation of a request. -/
abbrev RequestBuild (I R : Type) := HistoryRequest I R → Except BorsaError (HistoryRequest I R)

section
variable {K E I R A : Type} [Interval I] [DecidableEq I]

/-- `build_effective_request`. A period is only carried over where there is no range. -/
def buildEffectiveRequest (build : RequestBuild I R) (c : HistoryProvider K E I R A) (kind : K)
    (req : HistoryRequest I R) : Except BorsaError (HistoryRequest I R × Option ResamplePlan) := do
  let supported := c.supportedHistoryIntervals kind
  let (effectiveInterval, resamplePlan) ← chooseEffectiveInterval supported req.interval
  let effReq ← build { req with
    period := if req.range.isSome then none else req.period
    interval := effectiveInterval }
  return (effReq, resamplePlan)

end

end Borsa
