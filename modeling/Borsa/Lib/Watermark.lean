import Mathlib

/-!
# Watermarks per key

Values are offered under keys. A value passes if it is not below any value of its key that has been
accepted, and then it is accepted itself. What has been accepted of a key is forgotten when the key
is cleared, and when an expiry finds that the key has not been offered for longer than a time to
live.

All that need be remembered of a key is one entry: the greatest value accepted since it was forgotten
and the instant of its last offer, whether that passed or not. `Tracks` says that an entry is that,
and the lemmas below it how an entry is kept up to date.

Histories are written newest event first.
-/

namespace Watermark

variable {κ τ : Type}

inductive Event (κ τ : Type) where
  | offer (key : κ) (value : τ) (now : ℕ)
  /-- These keys are cleared. -/
  | clear (keys : List κ)
  /-- The keys that have not been offered for longer than the time to live expire. -/
  | expire (now : ℕ)

/-- The instant of an event; clearing has none. -/
def Event.now? : Event κ τ → Option ℕ
  | .offer _ _ now => some now
  | .clear _ => none
  | .expire now => some now

section
variable [DecidableEq κ]

/-- The instants at which a key was offered. -/
def offers (key : κ) : List (Event κ τ) → List ℕ
  | [] => []
  | .offer k _ now :: earlier => if k = key then now :: offers key earlier else offers key earlier
  | .clear _ :: earlier | .expire _ :: earlier => offers key earlier

theorem mem_offers {key : κ} {events : List (Event κ τ)} {t : ℕ} :
    t ∈ offers key events ↔ ∃ value, .offer key value t ∈ events := by
  induction events with
  | nil => simp [offers]
  | cons e earlier ih =>
    cases e with
    | offer k value now =>
      rw [offers]
      split
      · next heq =>
        subst heq
        simp [ih, exists_or]
      · next hne => simp [ih, Ne.symm hne]
    | clear _ | expire _ => simpa [offers] using ih

/-- The key has not been offered for longer than the time to live. -/
def Quiet (ttl : ℕ) (key : κ) (now : ℕ) (earlier : List (Event κ τ)) : Prop :=
  ∀ t ∈ offers key earlier, ttl < now - t

instance (ttl : ℕ) (key : κ) (now : ℕ) (earlier : List (Event κ τ)) :
    Decidable (Quiet ttl key now earlier) :=
  inferInstanceAs (Decidable (∀ t ∈ offers key earlier, ttl < now - t))

variable [LinearOrder τ]

/-- The values of a key accepted since it was last forgotten. -/
def accepted (ttl : ℕ) (key : κ) : List (Event κ τ) → List τ
  | [] => []
  | .offer k value _ :: earlier =>
    if k = key ∧ ∀ w ∈ accepted ttl key earlier, w ≤ value then
      value :: accepted ttl key earlier
    else accepted ttl key earlier
  | .clear keys :: earlier => if key ∈ keys then [] else accepted ttl key earlier
  | .expire now :: earlier =>
    if Quiet ttl key now earlier then [] else accepted ttl key earlier

/-- The value is not below any accepted one. -/
def Passes (ttl : ℕ) (key : κ) (value : τ) (earlier : List (Event κ τ)) : Prop :=
  ∀ w ∈ accepted ttl key earlier, w ≤ value

instance (ttl : ℕ) (key : κ) (value : τ) (earlier : List (Event κ τ)) :
    Decidable (Passes ttl key value earlier) :=
  inferInstanceAs (Decidable (∀ w ∈ accepted ttl key earlier, w ≤ value))

/-- Nothing has been accepted of a key that was cleared and not offered since. -/
theorem accepted_eq_nil_of_clear {ttl : ℕ} {key : κ} {keys : List κ} (hk : key ∈ keys)
    {later earlier : List (Event κ τ)} (h : offers key later = []) :
    accepted ttl key (later ++ .clear keys :: earlier) = [] := by
  induction later with
  | nil => exact if_pos hk
  | cons e later ih =>
    cases e with
    | offer k value now =>
      rw [offers] at h
      split at h
      · cases h
      · next hne =>
        rw [List.cons_append, accepted, if_neg (mt And.left hne)]
        exact ih h
    | clear _ | expire _ =>
      rw [List.cons_append, accepted, ih h]
      exact ite_self _

/-! ## Histories in time -/

/-- The events happened in the order of their instants, the last one not after `clock`. -/
def Timed (clock : ℕ) : List (Event κ τ) → Prop
  | [] => True
  | e :: earlier => (∀ now ∈ e.now?, now ≤ clock) ∧ Timed (e.now?.getD clock) earlier

omit [DecidableEq κ] [LinearOrder τ] in
theorem Timed.mono {c d : ℕ} (h : c ≤ d) {events : List (Event κ τ)} (ht : Timed c events) :
    Timed d events := by
  induction events generalizing c d with
  | nil => trivial
  | cons e earlier ih =>
    refine ⟨fun now hn => (ht.1 now hn).trans h, ?_⟩
    cases hn : e.now? with
    | none =>
      have hrest := ht.2
      rw [hn] at hrest
      exact ih h hrest
    | some now =>
      have hrest := ht.2
      rw [hn] at hrest
      exact hrest

omit [LinearOrder τ] in
/-- No offer is after the clock. -/
theorem Timed.offers_le {clock : ℕ} {events : List (Event κ τ)} (h : Timed clock events) {key : κ}
    {t : ℕ} (ht : t ∈ offers key events) : t ≤ clock := by
  induction events generalizing clock with
  | nil => cases ht
  | cons e earlier ih =>
    obtain ⟨hnow, hrest⟩ := h
    cases e with
    | offer k value now =>
      have hle : now ≤ clock := hnow now rfl
      rw [offers] at ht
      split at ht
      · rcases List.mem_cons.1 ht with rfl | ht
        · exact hle
        · exact (ih hrest ht).trans hle
      · exact (ih hrest ht).trans hle
    | clear keys => exact ih hrest ht
    | expire now => exact (ih hrest ht).trans (hnow now rfl)

/-! ## Entries -/

/-- What an entry says of the history of its key. -/
structure Tracks (ttl : ℕ) (key : κ) (events : List (Event κ τ)) (entry : Option (τ × ℕ)) :
    Prop where
  /-- Without an entry nothing has been accepted. -/
  absent : entry = none → accepted ttl key events = []
  /-- The value of an entry is the greatest accepted one. -/
  greatest : ∀ e ∈ entry, e.1 ∈ accepted ttl key events ∧ ∀ w ∈ accepted ttl key events, w ≤ e.1
  /-- The instant of an entry is that of the last offer. -/
  seen : ∀ e ∈ entry, e.2 ∈ offers key events ∧ ∀ t ∈ offers key events, t ≤ e.2

namespace Tracks

variable {ttl : ℕ} {key : κ} {events : List (Event κ τ)} {entry : Option (τ × ℕ)}

theorem nil : Tracks ttl key ([] : List (Event κ τ)) none :=
  ⟨fun _ => rfl, nofun, nofun⟩

/-- A value passes if it is not below the entry's, and without an entry always. -/
theorem passes_iff (h : Tracks ttl key events entry) {value : τ} :
    Passes ttl key value events ↔ ∀ e ∈ entry, e.1 ≤ value := by
  cases entry with
  | none =>
    rw [Passes, h.absent rfl]
    simp
  | some e =>
    obtain ⟨hmem, hmax⟩ := h.greatest e rfl
    constructor
    · rintro hp e' he'
      cases he'
      exact hp _ hmem
    · intro hp w hw
      exact (hmax w hw).trans (hp e rfl)

/-- The offer of another key leaves the entry. -/
theorem offer_of_ne (h : Tracks ttl key events entry) {k : κ} (hk : k ≠ key) (value : τ)
    (now : ℕ) : Tracks ttl key (.offer k value now :: events) entry := by
  have hacc : accepted ttl key (.offer k value now :: events) = accepted ttl key events :=
    if_neg (mt And.left hk)
  have hoff : offers key (.offer k value now :: events) = offers key events := if_neg hk
  exact ⟨fun he => hacc.trans (h.absent he), by rw [hacc]; exact h.greatest,
    by rw [hoff]; exact h.seen⟩

/-- A value that passes becomes the entry's. -/
theorem offer_passed {clock now : ℕ} (ht : Timed clock events) (hc : clock ≤ now) {value : τ}
    (hp : Passes ttl key value events) :
    Tracks ttl key (.offer key value now :: events) (some (value, now)) := by
  have hacc : accepted ttl key (.offer key value now :: events) =
      value :: accepted ttl key events := if_pos ⟨rfl, hp⟩
  have hoff : offers key (.offer key value now :: events) = now :: offers key events := if_pos rfl
  refine ⟨nofun, ?_, ?_⟩
  · rintro _ ⟨⟩
    rw [hacc]
    exact ⟨List.mem_cons_self .., List.forall_mem_cons.2 ⟨le_rfl, hp⟩⟩
  · rintro _ ⟨⟩
    rw [hoff]
    exact ⟨List.mem_cons_self ..,
      List.forall_mem_cons.2 ⟨le_rfl, fun t hm => (ht.offers_le hm).trans hc⟩⟩

/-- A value that does not pass is still an offer. -/
theorem offer_refused {e : τ × ℕ} (h : Tracks ttl key events (some e)) {clock now : ℕ}
    (ht : Timed clock events) (hc : clock ≤ now) {value : τ}
    (hp : ¬ Passes ttl key value events) :
    Tracks ttl key (.offer key value now :: events) (some (e.1, now)) := by
  have hacc : accepted ttl key (.offer key value now :: events) = accepted ttl key events :=
    if_neg (mt And.right hp)
  have hoff : offers key (.offer key value now :: events) = now :: offers key events := if_pos rfl
  refine ⟨nofun, ?_, ?_⟩
  · rintro _ ⟨⟩
    rw [hacc]
    exact h.greatest e rfl
  · rintro _ ⟨⟩
    rw [hoff]
    exact ⟨List.mem_cons_self ..,
      List.forall_mem_cons.2 ⟨le_rfl, fun t hm => (ht.offers_le hm).trans hc⟩⟩

/-- Clearing removes the entries of the cleared keys. -/
theorem clear (h : Tracks ttl key events entry) (keys : List κ) :
    Tracks ttl key (.clear keys :: events) (if key ∈ keys then none else entry) := by
  by_cases hk : key ∈ keys
  · rw [if_pos hk]
    exact ⟨fun _ => if_pos hk, nofun, nofun⟩
  · have hacc : accepted ttl key (.clear keys :: events) = accepted ttl key events := if_neg hk
    rw [if_neg hk]
    exact ⟨fun he => hacc.trans (h.absent he), by rw [hacc]; exact h.greatest, h.seen⟩

/-- A key expires by the instant of its entry. -/
theorem quiet_iff {e : τ × ℕ} (h : Tracks ttl key events (some e)) {now : ℕ} :
    Quiet ttl key now events ↔ ttl < now - e.2 := by
  obtain ⟨hmem, hmax⟩ := h.seen e rfl
  refine ⟨fun hq => hq _ hmem, fun hlt t ht => ?_⟩
  have hle := hmax t ht
  omega

/-- An expiry removes the entries whose instant is too long ago. -/
theorem expire (h : Tracks ttl key events entry) (now : ℕ) :
    Tracks ttl key (.expire now :: events)
      (entry.filter fun e => decide (now - e.2 ≤ ttl)) := by
  cases entry with
  | none => exact ⟨fun _ => by rw [accepted, h.absent rfl, ite_self], nofun, nofun⟩
  | some e =>
    by_cases hq : Quiet ttl key now events
    · have hlt : ¬ now - e.2 ≤ ttl := Nat.not_le.2 (h.quiet_iff.1 hq)
      rw [Option.filter_some_neg (by simpa using hlt)]
      exact ⟨fun _ => if_pos hq, nofun, nofun⟩
    · have hle : now - e.2 ≤ ttl := Nat.not_lt.1 (mt h.quiet_iff.2 hq)
      have hacc : accepted ttl key (.expire now :: events) = accepted ttl key events := if_neg hq
      rw [Option.filter_some_pos (by simpa using hle)]
      exact ⟨nofun, by rw [hacc]; exact h.greatest, h.seen⟩

end Tracks

end

end Watermark
