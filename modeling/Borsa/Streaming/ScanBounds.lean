import Borsa.Streaming.Terminal

/-!
# Bounds of the start scan

The loop of `compute_needed_starts` is a do-while over a cyclic index. `scanLoop` is that loop with
the indices it visits; `compute_needed_starts_bounds` says how often it goes round, which indices it
visits, and what it leaves: a start requested at most once for each provider, every other provider
as it was, and no visited provider idle with work.
-/

namespace Borsa

namespace Supervisor

variable {K E : Type}

/-! ## Requests -/

/-- The providers a list of actions requests a start for. -/
def requestedIds (actions : List (Action K E)) : List Nat :=
  actions.filterMap fun a =>
    match a with
    | .requestStart id _ => some id
    | _ => none

theorem requestedIds_cons (id : Nat) (instruments : List (Instrument K E))
    (actions : List (Action K E)) :
    requestedIds (.requestStart id instruments :: actions) = id :: requestedIds actions := rfl

namespace Starts

variable {self next : Supervisor K E} {reqs : List (Action K E)}

/-- A start is requested of idle providers only. -/
theorem isIdle_of_mem (h : Starts self reqs next) : ∀ i ∈ requestedIds reqs, self.IsIdle i := by
  induction h with
  | nil => simp [requestedIds]
  | cons hid _ ih =>
    intro i hi
    rw [requestedIds_cons] at hi
    rcases List.mem_cons.1 hi with rfl | hi
    · exact hid.idle
    · exact (isIdle_of_connect (ih i hi)).1

/-- A start is requested at most once for each provider: the first request leaves it connecting. -/
theorem nodup_requestedIds (h : Starts self reqs next) : (requestedIds reqs).Nodup := by
  induction h with
  | nil => exact List.nodup_nil
  | cons _ hrest ih =>
    rw [requestedIds_cons]
    refine List.nodup_cons.2 ⟨fun hmem => ?_, ih⟩
    exact (isIdle_of_connect (hrest.isIdle_of_mem _ hmem)).2 rfl

/-- A provider for which no start is requested keeps its state. -/
theorem getElem?_of_not_mem (h : Starts self reqs next) {i : Nat} (hi : i ∉ requestedIds reqs) :
    next.providers[i]? = self.providers[i]? := by
  induction h with
  | nil => rfl
  | cons _ _ ih =>
    rw [requestedIds_cons, List.mem_cons, not_or] at hi
    rw [ih hi.2, connect, List.getElem?_set_ne (Ne.symm hi.1)]

end Starts

/-! ## The loop -/

/-- The scan loop, with at most `fuel` iterations, and the indices it visits. -/
def scanLoop (self : Supervisor K E) (fuel : Nat) :
    Option ((Supervisor K E × List (Action K E)) × List Nat) :=
  Cyclic.loop self.providers.length (self.startIndex % self.providers.length)
    (fun i acc => (visitProvider i acc.1, acc.2 ++ [i])) fuel
    (self.scanCursor % self.providers.length) true ((self, []), [])

/-- The loop ends within one iteration more than there are providers. -/
theorem scanLoop_eq {self : Supervisor K E} (hn : 0 < self.providers.length)
    (hr : self.roundExhausted = false) {fuel : Nat} (hfuel : self.providers.length + 1 ≤ fuel) :
    self.scanLoop fuel = some (self.computeNeededStarts, self.scanned) := by
  rw [scanLoop, Cyclic.loop_trace (Nat.mod_lt _ hn) (fun i acc => visitProvider i acc) hfuel,
    computeNeededStarts_eq (List.length_pos_iff.1 hn) hr]
  rfl

/-- What the scan visits: from the cursor on, cyclically, up to its first return to the start
index. -/
structure ScanRange (self : Supervisor K E) (visited : List Nat) : Prop where
  /-- The indices follow each other cyclically from the cursor. -/
  eq_range : visited = (List.range visited.length).map
    fun d => (self.scanCursor + d) % self.providers.length
  length_le : visited.length ≤ self.providers.length + 1
  /-- After the first iteration, the last index and no earlier one is the start index. -/
  stop : ∀ d, 0 < d → d < visited.length →
    ((self.scanCursor + d) % self.providers.length = self.startIndex % self.providers.length ↔
      d + 1 = visited.length)
  two_le : 2 ≤ visited.length
  /-- All of them are visited, the first one twice, when the cursor is at the start index. -/
  full : self.scanCursor % self.providers.length = self.startIndex % self.providers.length →
    visited.length = self.providers.length + 1 ∧ ∀ i, i < self.providers.length → i ∈ visited

theorem scanRange_scanned {self : Supervisor K E} (hn : 0 < self.providers.length) :
    ScanRange self self.scanned := by
  have hi : self.scanCursor % self.providers.length < self.providers.length := Nat.mod_lt _ hn
  have hs : self.startIndex % self.providers.length < self.providers.length := Nat.mod_lt _ hn
  obtain ⟨⟨htwo, hle⟩, hstop, hfull⟩ := Cyclic.span_spec hi hs
  have heq : self.scanned = Cyclic.indices self.providers.length self.scanCursor
      (Cyclic.span self.providers.length (self.scanCursor % self.providers.length)
        (self.startIndex % self.providers.length)) := by
    rw [scanned, Cyclic.arc_eq_indices hi, Cyclic.indices_mod]
  have hlen : self.scanned.length = Cyclic.span self.providers.length
      (self.scanCursor % self.providers.length) (self.startIndex % self.providers.length) := by
    rw [heq, Cyclic.indices, List.length_map, List.length_range]
  constructor
  · rw [hlen]
    exact heq
  · rw [hlen]
    exact hle
  · intro d h0 hlt
    rw [hlen] at hlt ⊢
    rw [← hstop d h0 hlt, Nat.mod_add_mod]
  · rw [hlen]
    exact htwo
  · intro hcoincide
    refine ⟨by rw [hlen, hfull.2 hcoincide], fun i hlt => ?_⟩
    rw [scanned, ← hcoincide]
    exact (Cyclic.mem_arc_self hi).2 hlt

/-- **The start scan ends and starts each provider at most once.** -/
theorem compute_needed_starts_bounds (self : Supervisor K E) (hn : 0 < self.providers.length)
    (hr : self.roundExhausted = false) :
    ∃ visited, (∀ fuel, self.providers.length + 1 ≤ fuel →
        self.scanLoop fuel = some (self.computeNeededStarts, visited)) ∧
      ScanRange self visited ∧
      (∀ a ∈ self.computeNeededStarts.2, ∃ id instruments, a = .requestStart id instruments) ∧
      (requestedIds self.computeNeededStarts.2).Nodup ∧
      self.computeNeededStarts.1 =
        { self with providers := self.computeNeededStarts.1.providers } ∧
      (∀ i, i ∉ requestedIds self.computeNeededStarts.2 →
        self.computeNeededStarts.1.providers[i]? = self.providers[i]?) ∧
      ∀ i ∈ visited, self.computeNeededStarts.1.IsIdle i →
        self.computeNeededStarts.1.canProviderStream i = true →
        self.computeNeededStarts.1.computeNeededInstrumentsFor i = [] := by
  obtain ⟨hstarts, hdone, -⟩ := computeNeededStarts_spec (List.length_pos_iff.1 hn) hr
  refine ⟨self.scanned, fun fuel hfuel => scanLoop_eq hn hr hfuel, scanRange_scanned hn,
    hstarts.eq_requestStart, hstarts.nodup_requestedIds, hstarts.frame,
    fun i hi => hstarts.getElem?_of_not_mem hi, fun i hi hidle hcan => ?_⟩
  by_contra hwork
  exact hdone i hi ⟨hidle, hcan, hwork⟩

/-- A new stream over two providers that share a symbol. -/
def freshPair : Supervisor Unit Unit :=
  (quoteChain none 500 30000 2 [[⟨"X"⟩], [⟨"X"⟩, ⟨"Y"⟩]]).supervisor

/-- Its first scan ends after three iterations and requests each start once. -/
theorem freshPair_bounds :
    ∃ visited, freshPair.scanLoop 3 = some (freshPair.computeNeededStarts, visited) ∧
      ScanRange freshPair visited ∧ (requestedIds freshPair.computeNeededStarts.2).Nodup := by
  obtain ⟨visited, hloop, hrange, -, hnodup, -⟩ :=
    compute_needed_starts_bounds freshPair (by decide) rfl
  exact ⟨visited, hloop 3 (by decide), hrange, hnodup⟩

end Supervisor

end Borsa
