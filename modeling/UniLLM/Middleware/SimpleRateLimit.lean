import UniLLM.Go.Strings
import UniLLM.Lib.SlidingWindow
import Mathlib.Logic.Function.Basic

/-!
# The in-memory rate limiter

`SimpleRateLimiter` keeps, for each key, the times of the requests it admitted.  `Allow`
drops those that are a window old and admits the request if fewer than the limit are
left; a cleanup pass drops them for every key.  Both hold the lock from before they read
the clock, so a run is a list of these steps with a clock that does not go back.

Times and windows are in nanoseconds.  The filter loops write into the slice they read
from, but never ahead of where they read, so they are filters.
-/

namespace UniLLM.Middleware
open Go SlidingWindow

/-- The settings; the map `requests` is the state.  A key without requests is one with an
empty slice. -/
structure SimpleRateLimiter where
  limit : Int
  window : Int

/-- `rl.requests`. -/
abbrev Requests := GoString → List Int

/-- The entries after the cutoff. -/
def SimpleRateLimiter.valid (rl : SimpleRateLimiter) (now : Int) (reqs : List Int) : List Int :=
  reqs.filter fun t => now - rl.window < t

def SimpleRateLimiter.allow (rl : SimpleRateLimiter) (requests : Requests) (key : GoString)
    (now : Int) : Bool × Requests :=
  let valid := rl.valid now (requests key)
  if (valid.length : Int) ≥ rl.limit then (false, Function.update requests key valid)
  else (true, Function.update requests key (valid ++ [now]))

/-- One pass of `cleanup`. -/
def SimpleRateLimiter.cleanup (rl : SimpleRateLimiter) (requests : Requests) (now : Int) :
    Requests :=
  fun key => rl.valid now (requests key)

/-! ### Runs -/

inductive LimiterEvent where
  | allow (key : GoString) (now : Int)
  | cleanup (now : Int)

def LimiterEvent.time : LimiterEvent → Int
  | .allow _ now => now
  | .cleanup now => now

/-- The map after an event, and the call it answered. -/
def SimpleRateLimiter.step (rl : SimpleRateLimiter) (requests : Requests) :
    LimiterEvent → Requests × List (SlidingWindow.Call GoString Int)
  | .allow key now =>
    let (admitted, requests) := rl.allow requests key now
    (requests, [⟨key, now, admitted⟩])
  | .cleanup now => (rl.cleanup requests now, [])

/-- The map and the log after a run of a new limiter. -/
def SimpleRateLimiter.run (rl : SimpleRateLimiter) (events : List LimiterEvent) :
    Requests × List (SlidingWindow.Call GoString Int) :=
  events.foldl (fun s event => ((rl.step s.1 event).1, s.2 ++ (rl.step s.1 event).2))
    (fun _ => [], [])

/-- The calls of a run and their answers. -/
def SimpleRateLimiter.log (rl : SimpleRateLimiter) (events : List LimiterEvent) :
    List (SlidingWindow.Call GoString Int) :=
  (rl.run events).2

/-- The same calls again, without cleanup passes. -/
def replay (log : List (SlidingWindow.Call GoString Int)) : List LimiterEvent :=
  log.map fun c => .allow c.key c.time

variable {rl : SimpleRateLimiter} {events : List LimiterEvent}

/-- The call an event makes. -/
def LimiterEvent.call : LimiterEvent → Option (GoString × Int)
  | .allow key now => some (key, now)
  | .cleanup _ => none

theorem run_concat (event : LimiterEvent) :
    rl.run (events ++ [event]) =
      ((rl.step (rl.run events).1 event).1, rl.log events ++ (rl.step (rl.run events).1 event).2) := by
  simp [SimpleRateLimiter.run, SimpleRateLimiter.log]

/-! ### What the limiter keeps -/

/-- In every window that is still to come, the map has the admitted requests. -/
def Keeps (rl : SimpleRateLimiter) (requests : Requests)
    (log : List (SlidingWindow.Call GoString Int))
    (clock : Int) : Prop :=
  ∀ key now, clock ≤ now → rl.valid now (requests key) = recent rl.window key now log

/-- Pruning a key's entries changes no window to come. -/
theorem Keeps.valid {requests : Requests} {log : List (SlidingWindow.Call GoString Int)}
    {clock now now' : Int}
    (h : Keeps rl requests log clock) (hle : clock ≤ now) (hle' : now ≤ now') (key : GoString) :
    rl.valid now' (rl.valid now (requests key)) = recent rl.window key now' log := by
  rw [← h key now' (hle.trans hle')]
  exact filter_window hle' (requests key)

/-- **`Allow` answers by its log**, and keeps what it needs. -/
theorem allow_spec {requests : Requests}
    {log : List (SlidingWindow.Call GoString Int)} {clock now : Int}
    (h : Keeps rl requests log clock) (hle : clock ≤ now) (key : GoString) :
    (rl.allow requests key now).1 = admits rl.limit rl.window log key now ∧
      Keeps rl (rl.allow requests key now).2
        (log ++ [⟨key, now, (rl.allow requests key now).1⟩]) now := by
  have hvalid := h key now hle
  unfold SimpleRateLimiter.allow
  simp only [hvalid]
  by_cases hfull : ((recent rl.window key now log).length : Int) ≥ rl.limit
  · rw [if_pos hfull]
    refine ⟨?_, ?_⟩
    · rw [admits, eq_comm, decide_eq_false_iff_not]
      exact Int.not_lt.mpr hfull
    · intro other now' hle'
      show rl.valid now' (Function.update requests key (recent rl.window key now log) other) =
        recent rl.window other now' (log ++ [⟨key, now, false⟩])
      have hnone : recent rl.window other now'
        [(⟨key, now, false⟩ : SlidingWindow.Call GoString Int)] = [] := rfl
      rw [recent_append, hnone, List.append_nil]
      by_cases hkey : other = key
      · subst hkey
        rw [Function.update_self, ← hvalid]
        exact h.valid hle hle' other
      · rw [Function.update_of_ne hkey]
        exact h other now' (hle.trans hle')
  · rw [if_neg hfull]
    refine ⟨?_, ?_⟩
    · rw [admits, eq_comm, decide_eq_true_eq]
      exact Int.not_le.mp hfull
    · intro other now' hle'
      show rl.valid now' (Function.update requests key (recent rl.window key now log ++ [now]) other) =
        recent rl.window other now' (log ++ [⟨key, now, true⟩])
      rw [recent_append]
      by_cases hkey : other = key
      · subst hkey
        have hnew : recent rl.window other now' [⟨other, now, true⟩] = rl.valid now' [now] := by
          simp [recent, admissions, SimpleRateLimiter.valid]
        rw [Function.update_self, hnew, ← h.valid hle hle' other, ← hvalid]
        exact List.filter_append ..
      · have hnone : recent rl.window other now' [⟨key, now, true⟩] = [] := by
          simp [recent, admissions, Ne.symm hkey]
        rw [Function.update_of_ne hkey, hnone, List.append_nil]
        exact h other now' (hle.trans hle')

/-- **The run lemma.**  A run's log is exact, and the map keeps what it needs from the
last event on. -/
theorem run_spec (hclock : (events.map LimiterEvent.time).Pairwise (· ≤ ·)) :
    Exact rl.limit rl.window (rl.log events) ∧
      ∀ clock, (∀ event ∈ events, event.time ≤ clock) →
        Keeps rl (rl.run events).1 (rl.log events) clock := by
  induction events using List.reverseRecOn with
  | nil =>
    refine ⟨exact_nil, ?_⟩
    intro clock _ key now _
    rfl
  | append_singleton events event ih =>
    rw [List.map_append, List.pairwise_append] at hclock
    obtain ⟨hbefore, -, hlast⟩ := hclock
    obtain ⟨hexact, hkeeps⟩ := ih hbefore
    have hlate : ∀ e ∈ events, e.time ≤ event.time := fun e he =>
      hlast e.time (List.mem_map_of_mem he) event.time (List.mem_singleton_self _)
    have hnow := hkeeps event.time hlate
    rw [SimpleRateLimiter.log, run_concat]
    cases event with
    | allow key now =>
      obtain ⟨hanswer, hkeep⟩ := allow_spec hnow (le_refl now) key
      refine ⟨exact_concat.mpr ⟨hexact, hanswer⟩, ?_⟩
      intro clock hclock other now' hle'
      have hevent : now ≤ clock := hclock _ (List.mem_append_right _ (List.mem_singleton_self _))
      exact hkeep other now' (hevent.trans hle')
    | cleanup now =>
      simp only [SimpleRateLimiter.step, List.append_nil]
      refine ⟨hexact, ?_⟩
      intro clock hclock other now' hle'
      have hevent : now ≤ clock := hclock _ (List.mem_append_right _ (List.mem_singleton_self _))
      exact hnow.valid (le_refl now) (hevent.trans hle') other

/-! ### The calls of a run -/

/-- The log has the calls of the run. -/
theorem log_calls (rl : SimpleRateLimiter) (events : List LimiterEvent) :
    (rl.log events).map (fun c => (c.key, c.time)) = events.filterMap LimiterEvent.call := by
  induction events using List.reverseRecOn with
  | nil => rfl
  | append_singleton events event ih =>
    rw [SimpleRateLimiter.log, run_concat, List.map_append, ih, List.filterMap_append]
    cases event with
    | allow key now => rfl
    | cleanup now => rfl

theorem log_ordered (hclock : (events.map LimiterEvent.time).Pairwise (· ≤ ·)) :
    Ordered (rl.log events) := by
  have hsub : ((events.filterMap LimiterEvent.call).map Prod.snd).Sublist
      (events.map LimiterEvent.time) := by
    clear hclock
    induction events with
    | nil => exact List.Sublist.refl _
    | cons event events ih =>
      cases event with
      | allow key now => exact ih.cons_cons now
      | cleanup now => exact ih.cons now
  have htimes := congrArg (List.map Prod.snd) (log_calls rl events)
  rw [List.map_map] at htimes
  have heq : (rl.log events).map SlidingWindow.Call.time =
    (events.filterMap LimiterEvent.call).map Prod.snd := htimes
  rw [Ordered, heq]
  exact hclock.sublist hsub

/-- Calls that were answered exactly are answered the same when they are made again. -/
theorem log_replay {log : List (SlidingWindow.Call GoString Int)}
    (hexact : Exact rl.limit rl.window log)
    (hordered : Ordered log) : rl.log (replay log) = log := by
  have htimes : ((replay log).map LimiterEvent.time) = log.map SlidingWindow.Call.time := by
    rw [replay, List.map_map]
    rfl
  have hcalls : (replay log).filterMap LimiterEvent.call = log.map fun c => (c.key, c.time) := by
    rw [replay, List.filterMap_map, ← List.filterMap_eq_map]
    rfl
  refine Exact.unique (run_spec ?_).1 hexact ?_
  · rw [htimes]
    exact hordered
  · rw [log_calls, hcalls]

/-! ### Exactness -/

/-- What a sliding window is meant to do in a run. -/
structure SlidesExactly (rl : SimpleRateLimiter) (events : List LimiterEvent) : Prop where
  /-- A call is admitted exactly when fewer than `limit` earlier calls of its key were
  admitted in the window that ends with it. -/
  admitted_iff : ∀ pre c post, rl.log events = pre ++ c :: post →
    (c.admitted = true ↔
      (((admissions c.key pre).filter fun t => c.time - rl.window < t ∧ t ≤ c.time).length : Int) <
        rl.limit)
  /-- No half-open interval of length `window` has more than `limit` admitted calls. -/
  interval_le : ∀ key beginning,
    ((admissions key (rl.log events)).filter fun t =>
        beginning ≤ t ∧ t < beginning + rl.window).length ≤ rl.limit.toNat ∧
      ((admissions key (rl.log events)).filter fun t =>
        beginning < t ∧ t ≤ beginning + rl.window).length ≤ rl.limit.toNat
  /-- Without the cleanup passes the answers are the same. -/
  without_cleanup : rl.log (replay (rl.log events)) = rl.log events
  /-- So they are without the rejected calls. -/
  without_rejected : rl.log (replay ((rl.log events).filter SlidingWindow.Call.admitted)) =
    (rl.log events).filter SlidingWindow.Call.admitted
  /-- And without the calls for other keys. -/
  without_others : ∀ key, rl.log (replay ((rl.log events).filter fun c => decide (c.key = key))) =
    (rl.log events).filter fun c => decide (c.key = key)

/-- **The sliding window is exact** in every run with a clock that does not go back. -/
theorem slidesExactly (hclock : (events.map LimiterEvent.time).Pairwise (· ≤ ·)) :
    SlidesExactly rl events := by
  have hexact : Exact rl.limit rl.window (rl.log events) := (run_spec hclock).1
  have hordered : Ordered (rl.log events) := log_ordered hclock
  have hpart : ∀ p : SlidingWindow.Call GoString Int → Bool,
      Ordered ((rl.log events).filter p) := fun p =>
    List.Pairwise.sublist (List.filter_sublist.map SlidingWindow.Call.time) hordered
  refine ⟨?_, ?_, log_replay hexact hordered, log_replay hexact.filter_admitted (hpart _),
    fun key => log_replay (hexact.filter_key key) (hpart _)⟩
  · intro pre c post hlog
    -- earlier calls are not later than this one
    have hle : ∀ t ∈ admissions c.key pre, t ≤ c.time := by
      intro t ht
      obtain ⟨d, hd, -, -, rfl⟩ := mem_admissions.mp ht
      have hall := hordered
      rw [hlog, Ordered, List.map_append, List.pairwise_append] at hall
      exact hall.2.2 d.time (List.mem_map_of_mem hd) c.time List.mem_cons_self
    have hwindow : ((admissions c.key pre).filter fun t => c.time - rl.window < t ∧ t ≤ c.time) =
        recent rl.window c.key c.time pre := by
      refine List.filter_congr ?_
      intro t ht
      simp [hle t ht]
    rw [hexact pre c post hlog, admits, decide_eq_true_eq, hwindow]
  · intro key beginning
    refine ⟨hexact.length_le hordered key ?_, hexact.length_le hordered key ?_⟩
    · intro t t' ht ht'
      rw [decide_eq_true_eq] at ht ht'
      omega
    · intro t t' ht ht'
      rw [decide_eq_true_eq] at ht ht'
      omega

/-- Two calls fill the limit, a third comes too early, and after a cleanup pass a fourth
comes when the first is exactly a window old. -/
theorem slidesExactly_four_calls :
    SlidesExactly ⟨2, 60⟩
        [.allow (lit "1") 0, .allow (lit "1") 10, .allow (lit "1") 59, .cleanup 60,
      .allow (lit "1") 60] :=
  slidesExactly (by decide)

end UniLLM.Middleware
