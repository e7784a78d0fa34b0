import UniLLM.Provider.Upstream

/-!
# What a breaker has seen

Anyone may call a breaker's methods, in any order: a failure may be recorded while the
breaker is open, a success while it is not closed.  The state is a function of the past
all the same.  Three things count: how many failures there were since the last success,
when the last failure was, and whether anyone has been let through since.
-/

namespace UniLLM.Provider

/-- A call of one of the methods, with what the clock says. -/
inductive BreakerCall where
  | allow (now : Int)
  | recordSuccess
  | recordFailure (now : Int)

/-- A call that has returned. -/
inductive Returned where
  | allow (now : Int) (answer : Bool)
  | recordSuccess
  | recordFailure (now : Int)

/-- A breaker and its past, the last call first. -/
structure Traced where
  breaker : CircuitBreaker
  past : List Returned

def Traced.call (s : Traced) : BreakerCall → Traced
  | .allow now =>
    let (answer, cb) := s.breaker.allow now
    ⟨cb, .allow now answer :: s.past⟩
  | .recordSuccess => ⟨s.breaker.recordSuccess, .recordSuccess :: s.past⟩
  | .recordFailure now => ⟨s.breaker.recordFailure now, .recordFailure now :: s.past⟩

/-- A new breaker after these calls. -/
def trace (threshold resetTimeout : Int) (calls : List BreakerCall) : Traced :=
  calls.foldl Traced.call ⟨newCircuitBreaker threshold resetTimeout, []⟩

/-! ### The past -/

/-- How many failures were recorded since the last success, or at all if there is none. -/
def failuresSinceSuccess : List Returned → Nat
  | [] => 0
  | .recordSuccess :: _ => 0
  | .recordFailure _ :: past => failuresSinceSuccess past + 1
  | .allow _ _ :: past => failuresSinceSuccess past

/-- The time of the last failure. -/
def lastFailure : List Returned → Option Int
  | [] => none
  | .recordFailure now :: _ => some now
  | _ :: past => lastFailure past

/-- `Allow` has returned true since the last failure. -/
def admittedSinceFailure : List Returned → Bool
  | [] => false
  | .recordFailure _ :: _ => false
  | .allow _ answer :: past => answer || admittedSinceFailure past
  | .recordSuccess :: past => admittedSinceFailure past

theorem lastFailure_of_failuresSinceSuccess {past : List Returned}
    (h : 0 < failuresSinceSuccess past) : ∃ t, lastFailure past = some t := by
  induction past with
  | nil => exact absurd h (Nat.lt_irrefl 0)
  | cons entry past ih =>
    cases entry with
    | allow now answer => exact ih h
    | recordSuccess => exact absurd h (Nat.lt_irrefl 0)
    | recordFailure now => exact ⟨now, rfl⟩

/-! ### The invariant -/

/-- The fields of the breaker are what the past says. -/
structure Traced.Tracks (threshold resetTimeout : Int) (s : Traced) : Prop where
  threshold_eq : s.breaker.threshold = threshold
  resetTimeout_eq : s.breaker.resetTimeout = resetTimeout
  failures_eq : s.breaker.failures = failuresSinceSuccess s.past
  lastFailure_eq : ∀ t, lastFailure s.past = some t → s.breaker.lastFailure = t
  closed_iff : s.breaker.state = .closed ↔ (failuresSinceSuccess s.past : Int) < threshold
  open_iff : s.breaker.state = .open ↔
    threshold ≤ failuresSinceSuccess s.past ∧ admittedSinceFailure s.past = false

variable {threshold resetTimeout : Int} {s : Traced}

theorem tracks_new (hthreshold : 1 ≤ threshold) :
    Traced.Tracks threshold resetTimeout ⟨newCircuitBreaker threshold resetTimeout, []⟩ := by
  refine ⟨rfl, rfl, rfl, fun t ht => (by cases ht), ?_, ?_⟩
  · simp only [newCircuitBreaker, failuresSinceSuccess, true_iff]
    omega
  · simp only [newCircuitBreaker, failuresSinceSuccess, reduceCtorEq, false_iff]
    omega

/-- `Allow` changes the breaker only when it lets somebody through an open one. -/
theorem CircuitBreaker.allow_cases (cb : CircuitBreaker) (now : Int) :
    (cb.state ≠ .open ∧ cb.allow now = (true, cb)) ∨
      (cb.state = .open ∧ cb.resetTimeout < now - cb.lastFailure ∧
        cb.allow now = (true, { cb with state := .halfOpen })) ∨
      (cb.state = .open ∧ now - cb.lastFailure ≤ cb.resetTimeout ∧ cb.allow now = (false, cb)) := by
  unfold CircuitBreaker.allow
  cases hstate : cb.state with
  | closed => exact Or.inl ⟨by simp, rfl⟩
  | halfOpen => exact Or.inl ⟨by simp, rfl⟩
  | «open» =>
    by_cases hlate : cb.resetTimeout < now - cb.lastFailure
    · exact Or.inr (Or.inl ⟨rfl, hlate, if_pos hlate⟩)
    · exact Or.inr (Or.inr ⟨rfl, Int.not_lt.mp hlate, if_neg hlate⟩)

theorem Traced.Tracks.allow (h : s.Tracks threshold resetTimeout) (now : Int) :
    (s.call (.allow now)).Tracks threshold resetTimeout := by
  rcases s.breaker.allow_cases now with ⟨hnot, hallow⟩ | ⟨hopen, -, hallow⟩ | ⟨hopen, -, hallow⟩
  · -- closed or half open: nothing changes, and nothing was open before
    simp only [Traced.call, hallow]
    refine ⟨h.threshold_eq, h.resetTimeout_eq, h.failures_eq, h.lastFailure_eq, h.closed_iff, ?_⟩
    simp [hnot, admittedSinceFailure]
  · -- the first to be let through an open breaker
    have hcount := (h.open_iff.mp hopen).1
    simp only [Traced.call, hallow]
    refine ⟨h.threshold_eq, h.resetTimeout_eq, h.failures_eq, h.lastFailure_eq, ?_, ?_⟩
    · simp only [failuresSinceSuccess, reduceCtorEq, false_iff]
      omega
    · simp [admittedSinceFailure]
  · simp only [Traced.call, hallow]
    refine ⟨h.threshold_eq, h.resetTimeout_eq, h.failures_eq, h.lastFailure_eq, h.closed_iff, ?_⟩
    simpa only [failuresSinceSuccess, admittedSinceFailure, Bool.false_or] using h.open_iff

theorem Traced.Tracks.recordSuccess (hthreshold : 1 ≤ threshold)
    (h : s.Tracks threshold resetTimeout) :
    (s.call .recordSuccess).Tracks threshold resetTimeout := by
  refine ⟨h.threshold_eq, h.resetTimeout_eq, rfl, h.lastFailure_eq, ?_, ?_⟩
  · simp only [Traced.call, CircuitBreaker.recordSuccess, failuresSinceSuccess, true_iff]
    omega
  · simp only [Traced.call, CircuitBreaker.recordSuccess, failuresSinceSuccess, reduceCtorEq,
      false_iff]
    omega

theorem Traced.Tracks.recordFailure (h : s.Tracks threshold resetTimeout) (now : Int) :
    (s.call (.recordFailure now)).Tracks threshold resetTimeout := by
  have hfailures : s.breaker.failures + 1 = (failuresSinceSuccess s.past + 1 : Nat) := by
    rw [h.failures_eq, Nat.cast_succ]
  have hstate : (s.call (.recordFailure now)).breaker.state =
      if threshold ≤ (failuresSinceSuccess s.past + 1 : Nat) then .open else s.breaker.state := by
    simp only [Traced.call, CircuitBreaker.recordFailure, hfailures, h.threshold_eq, ge_iff_le]
  refine ⟨h.threshold_eq, h.resetTimeout_eq, hfailures, fun t ht => Option.some.inj ht, ?_, ?_⟩
  · rw [hstate]
    simp only [Traced.call, failuresSinceSuccess]
    split
    · simp only [reduceCtorEq, false_iff]
      omega
    · -- fewer failures before too, so it was closed
      rw [h.closed_iff]
      omega
  · rw [hstate]
    simp only [Traced.call, failuresSinceSuccess, admittedSinceFailure, and_true]
    split
    · rename_i hreached
      exact ⟨fun _ => hreached, fun _ => rfl⟩
    · rename_i hfew
      rw [h.open_iff]
      omega

/-- **One call.** -/
theorem Traced.Tracks.call (hthreshold : 1 ≤ threshold) (h : s.Tracks threshold resetTimeout)
    (c : BreakerCall) : (s.call c).Tracks threshold resetTimeout := by
  cases c with
  | allow now => exact h.allow now
  | recordSuccess => exact h.recordSuccess hthreshold
  | recordFailure now => exact h.recordFailure now

/-- The run lemma. -/
theorem trace_tracks (hthreshold : 1 ≤ threshold) (calls : List BreakerCall) :
    (trace threshold resetTimeout calls).Tracks threshold resetTimeout := by
  have hrun : ∀ s : Traced, s.Tracks threshold resetTimeout →
      (calls.foldl Traced.call s).Tracks threshold resetTimeout := by
    induction calls with
    | nil => exact fun s h => h
    | cons c calls ih => exact fun s h => ih (s.call c) (h.call hthreshold c)
  exact hrun _ (tracks_new hthreshold)

/-! ### The state, told by the past -/

/-- What the past says about the state and about the next call of `Allow`. -/
structure Traced.ToldByPast (threshold resetTimeout : Int) (s : Traced) : Prop where
  closed_iff : s.breaker.state = .closed ↔ (failuresSinceSuccess s.past : Int) < threshold
  refuses_iff : ∀ now, (s.breaker.allow now).1 = false ↔
    threshold ≤ failuresSinceSuccess s.past ∧ admittedSinceFailure s.past = false ∧
      ∃ t, lastFailure s.past = some t ∧ now - t ≤ resetTimeout

theorem Traced.Tracks.toldByPast (hthreshold : 1 ≤ threshold)
    (h : s.Tracks threshold resetTimeout) : s.ToldByPast threshold resetTimeout := by
  refine ⟨h.closed_iff, fun now => ?_⟩
  constructor
  · intro hrefused
    rcases s.breaker.allow_cases now with ⟨-, hallow⟩ | ⟨-, -, hallow⟩ | ⟨hopen, hearly, -⟩
    · simp [hallow] at hrefused
    · simp [hallow] at hrefused
    · obtain ⟨hcount, hnone⟩ := h.open_iff.mp hopen
      have hfailed : 0 < failuresSinceSuccess s.past := by omega
      obtain ⟨t, ht⟩ := lastFailure_of_failuresSinceSuccess hfailed
      rw [h.lastFailure_eq t ht, h.resetTimeout_eq] at hearly
      exact ⟨hcount, hnone, t, ht, hearly⟩
  · rintro ⟨hcount, hnone, t, ht, hearly⟩
    have hopen := h.open_iff.mpr ⟨hcount, hnone⟩
    rw [← h.lastFailure_eq t ht, ← h.resetTimeout_eq] at hearly
    rcases s.breaker.allow_cases now with ⟨hnot, -⟩ | ⟨-, hlate, -⟩ | ⟨-, -, hallow⟩
    · exact absurd hopen hnot
    · exact absurd hearly (Int.not_le.mpr hlate)
    · rw [hallow]

/-- **The state of a breaker is told by its past**, whoever has called it in whatever
order. -/
theorem trace_toldByPast (hthreshold : 1 ≤ threshold) (calls : List BreakerCall) :
    (trace threshold resetTimeout calls).ToldByPast threshold resetTimeout :=
  (trace_tracks hthreshold calls).toldByPast hthreshold

/-- Two failures open a breaker; one more comes late, and then the timeout is over. -/
theorem trace_toldByPast_late_failure :
    (trace 2 30 [.recordFailure 0, .recordFailure 5, .allow 20, .recordFailure 21,
      .allow 52]).ToldByPast 2 30 :=
  trace_toldByPast (by decide) _

end UniLLM.Provider
