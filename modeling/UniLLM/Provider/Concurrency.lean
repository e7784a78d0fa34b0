import Mathlib.Data.List.Induction
import UniLLM.Lib.Transition
import UniLLM.Provider.Upstream

/-!
# Permits of a concurrency limit

`ConcurrencyLimitedProvider` takes a permit of a semaphore for each call.  A completion
gives it back when it returns, a stream that does not open at once; a stream that opens
takes the permit along, and its first `Close` gives it back.  Calls interleave as they
like, but a stream is closed by one caller at a time.

The semaphore is that of `golang.org/x/sync`, and what it does is a parameter.  Its
documentation is a hypothesis; nobody waits for this one, as `Acquire` is not called.
-/

namespace UniLLM.Provider
open Go OpenAI Transition

namespace Concurrency

/-! ### Semaphores -/

/-- `semaphore.Weighted`, with the weight that is held. -/
structure Semaphore (σ : Type) where
  newWeighted : Int → σ
  tryAcquire : σ → Int → Bool × σ
  /-- `none` is a panic. -/
  release : σ → Int → Option σ
  size : σ → Int
  held : σ → Int

variable {σ : Type}

/-- What the documentation says of a semaphore that nobody waits for. -/
structure Semaphore.Documented (sem : Semaphore σ) : Prop where
  size_new : ∀ n, sem.size (sem.newWeighted n) = n
  held_new : ∀ n, sem.held (sem.newWeighted n) = 0
  acquires : ∀ s n, sem.held s + n ≤ sem.size s → ∃ s', sem.tryAcquire s n = (true, s') ∧
    sem.held s' = sem.held s + n ∧ sem.size s' = sem.size s
  fails : ∀ s n, sem.size s < sem.held s + n → sem.tryAcquire s n = (false, s)
  releases : ∀ s n, n ≤ sem.held s → ∃ s', sem.release s n = some s' ∧
    sem.held s' = sem.held s - n ∧ sem.size s' = sem.size s

/-! ### Calls -/

/-- Wraps a provider with a concurrency limit. -/
structure ConcurrencyLimitedProvider where
  name : GoString
  limit : Int

def ConcurrencyLimitedProvider.capacityError (p : ConcurrencyLimitedProvider) : GoString :=
  lit "provider " ++ p.name ++ lit " at capacity (" ++ formatInt p.limit ++
    lit " concurrent), try again later"

/-- A stream that has been returned. -/
structure SemaphoreReleasingReader where
  released : Bool := false

/-- Where a call is. -/
inductive CallPhase where
  | refused (e : GoString)
  /-- In the inner `ChatCompletion`. -/
  | running
  | completed (result : Except GoString ChatCompletionResponse)
  /-- In the inner `ChatCompletionStream`. -/
  | opening
  | openFailed (e : GoString)
  /-- With how often `Close` has returned, and whether it is running now. -/
  | stream (reader : SemaphoreReleasingReader) (closed : Nat) (closing : Bool)

structure State (σ : Type) where
  sem : σ
  calls : List CallPhase
  panicked : Bool

inductive CallEvent where
  | answer (result : Except GoString ChatCompletionResponse)
  /-- The inner `ChatCompletionStream` returns, with an error if there is one. -/
  | opened (e : Option GoString)
  | close
  /-- The inner `Close` returns, and the rest of `Close` follows. -/
  | closed (e : Option GoString)

inductive Action where
  | chatCompletion
  | chatCompletionStream
  | event (j : Nat) (event : CallEvent)

/-- The next phase of a call, and whether it releases a permit on the way. -/
def advance : CallPhase → CallEvent → Option (CallPhase × Bool)
  | .running, .answer result => some (.completed result, true)
  | .opening, .opened (some e) => some (.openFailed e, true)
  | .opening, .opened none => some (.stream {} 0 false, false)
  | .stream r n false, .close => some (.stream r n true, false)
  -- a failure of the inner `Close` is returned, after the release
  | .stream r n true, .closed _ => some (.stream ⟨true⟩ (n + 1) false, !r.released)
  | _, _ => none

variable (sem : Semaphore σ) (p : ConcurrencyLimitedProvider)

def newConcurrencyLimitedProvider : State σ := ⟨sem.newWeighted p.limit, [], false⟩

/-- A call begins: `TryAcquire`. -/
def begin (s : State σ) (admitted : CallPhase) : State σ :=
  match sem.tryAcquire s.sem 1 with
  | (true, sem) => { s with sem := sem, calls := s.calls ++ [admitted] }
  | (false, sem) => { s with sem := sem, calls := s.calls ++ [.refused p.capacityError] }

def release (s : State σ) : State σ :=
  match sem.release s.sem 1 with
  | some sem => { s with sem := sem }
  | none => { s with panicked := true }

def step (s : State σ) : Action → Option (State σ)
  | .chatCompletion => some (begin sem p s .running)
  | .chatCompletionStream => some (begin sem p s .opening)
  | .event j event =>
    (s.calls[j]?).bind fun c => (advance c event).map fun (c', releases) =>
      let s := { s with calls := s.calls.set j c' }
      if releases then release sem s else s

/-! ### Who holds a permit -/

def CallPhase.isRunning : CallPhase → Bool
  | .running => true
  | _ => false

def CallPhase.isOpening : CallPhase → Bool
  | .opening => true
  | _ => false

/-- A stream of which no `Close` has returned. -/
def CallPhase.isUnclosed : CallPhase → Bool
  | .stream _ closed _ => closed = 0
  | _ => false

/-- The running completions, the streams that are being opened and the streams not yet
closed. -/
def permits (calls : List CallPhase) : Nat :=
  calls.countP CallPhase.isRunning + calls.countP CallPhase.isOpening +
    calls.countP CallPhase.isUnclosed

def CallPhase.isRefused : CallPhase → Bool
  | .refused _ => true
  | _ => false

/-- A call begins. -/
def Action.isStart : Action → Bool
  | .event _ _ => false
  | _ => true

/-- A step of the run began call `j`, which is now in the phase `c`: refused exactly if the limit
was reached at that step. -/
def Begun (as : List Action) (j : Nat) (c : CallPhase) : Prop :=
  ∃ pre a post t, as = pre ++ a :: post ∧ a.isStart = true ∧
    exec (step sem p) (newConcurrencyLimitedProvider sem p) pre = some t ∧ t.calls.length = j ∧
    (c.isRefused = true ↔ p.limit ≤ sem.held t.sem)

/-- Permits are neither leaked nor released twice in the run `as`. -/
structure Balanced (as : List Action) (s : State σ) : Prop where
  held_eq : sem.held s.sem = permits s.calls
  /-- A limit below zero admits nobody. -/
  held_le : sem.held s.sem ≤ max p.limit 0
  nonneg : 0 ≤ sem.held s.sem
  not_panicked : s.panicked = false
  all_back : (∀ c ∈ s.calls, c.isRunning = false ∧ c.isOpening = false ∧ c.isUnclosed = false) →
    sem.held s.sem = 0
  calls_length : s.calls.length = as.countP Action.isStart
  /-- A call is refused only at the limit. -/
  begun : ∀ j c, s.calls[j]? = some c → Begun sem p as j c

/-! ### The invariant -/

theorem permits_append (cs cs' : List CallPhase) :
    permits (cs ++ cs') = permits cs + permits cs' := by
  simp only [permits, List.countP_append]
  omega

/-- The reader knows whether it has been closed. -/
def CallPhase.Consistent : CallPhase → Prop
  | .stream r closed _ => r.released = true ↔ closed ≠ 0
  | _ => True

structure Inv (s : State σ) : Prop where
  size_eq : sem.size s.sem = p.limit
  held_eq : sem.held s.sem = permits s.calls
  held_le : sem.held s.sem ≤ max p.limit 0
  not_panicked : s.panicked = false
  consistent : ∀ c ∈ s.calls, c.Consistent

variable {sem p} {s s' : State σ} {a : Action}

/-- What an event does to the permits of its call. -/
theorem advance_permits {c c' : CallPhase} {event : CallEvent} {releases : Bool}
    (h : advance c event = some (c', releases)) (hc : c.Consistent) :
    c'.Consistent ∧ permits [c] = permits [c'] + if releases then 1 else 0 := by
  cases c with
  | running =>
    cases event with
    | answer result =>
      obtain ⟨rfl, rfl⟩ := Prod.mk.inj (Option.some.inj h)
      exact ⟨trivial, rfl⟩
    | _ => cases h
  | opening =>
    cases event with
    | opened e =>
      cases e with
      | none =>
        obtain ⟨rfl, rfl⟩ := Prod.mk.inj (Option.some.inj h)
        exact ⟨by simp [CallPhase.Consistent], rfl⟩
      | some e =>
        obtain ⟨rfl, rfl⟩ := Prod.mk.inj (Option.some.inj h)
        exact ⟨trivial, rfl⟩
    | _ => cases h
  | stream r n closing =>
    cases closing with
    | false =>
      cases event with
      | close =>
        obtain ⟨rfl, rfl⟩ := Prod.mk.inj (Option.some.inj h)
        exact ⟨hc, rfl⟩
      | _ => cases h
    | true =>
      cases event with
      | closed e =>
        obtain ⟨rfl, rfl⟩ := Prod.mk.inj (Option.some.inj h)
        refine ⟨by simp [CallPhase.Consistent], ?_⟩
        -- only the first `Close` finds the permit unreleased
        rw [CallPhase.Consistent] at hc
        cases hreleased : r.released with
        | false =>
          have hn : n = 0 := by simpa [hreleased] using hc
          simp [permits, CallPhase.isRunning, CallPhase.isOpening, CallPhase.isUnclosed, hn]
        | true =>
          have hn : n ≠ 0 := hc.mp hreleased
          simp [permits, CallPhase.isRunning, CallPhase.isOpening, CallPhase.isUnclosed, hn]
      | _ => cases h
  | _ => cases event <;> cases h

theorem inv_begin (hdoc : sem.Documented) (h : Inv sem p s) {admitted : CallPhase}
    (hone : permits [admitted] = 1) (hconsistent : admitted.Consistent) :
    Inv sem p (begin sem p s admitted) := by
  have hcalls : ∀ c : CallPhase, c.Consistent → ∀ c' ∈ s.calls ++ [c], c'.Consistent := by
    intro c hc c' hc'
    rcases List.mem_append.mp hc' with hold | hnew
    · exact h.consistent c' hold
    · rw [List.mem_singleton.mp hnew]
      exact hc
  unfold begin
  by_cases hfree : sem.held s.sem + 1 ≤ sem.size s.sem
  · obtain ⟨sem', hacquire, hheld, hsize⟩ := hdoc.acquires s.sem 1 hfree
    rw [hacquire]
    refine ⟨hsize.trans h.size_eq, ?_, ?_, h.not_panicked, hcalls _ hconsistent⟩
    · simp only [permits_append, hone, hheld, h.held_eq]
      omega
    · simp only [hheld]
      rw [h.size_eq] at hfree
      exact hfree.trans (le_max_left _ _)
  · rw [hdoc.fails s.sem 1 (Int.not_le.mp hfree)]
    refine ⟨h.size_eq, ?_, h.held_le, h.not_panicked, hcalls _ trivial⟩
    simp only [permits_append, h.held_eq]
    rfl

/-- **One step.** -/
theorem step_inv (hdoc : sem.Documented) (h : Inv sem p s) (hstep : step sem p s a = some s') :
    Inv sem p s' := by
  cases a with
  | chatCompletion =>
    obtain rfl := Option.some.inj hstep
    exact inv_begin hdoc h rfl trivial
  | chatCompletionStream =>
    obtain rfl := Option.some.inj hstep
    exact inv_begin hdoc h rfl trivial
  | event j event =>
    obtain ⟨c, hc, hstep⟩ := Option.bind_eq_some_iff.mp hstep
    obtain ⟨⟨c', releases⟩, hadvance, rfl⟩ := Option.map_eq_some_iff.mp hstep
    obtain ⟨hconsistent, hpermits⟩ :=
      advance_permits hadvance (h.consistent c (List.mem_of_getElem? hc))
    obtain ⟨front, back, hcalls, hset⟩ := split_at hc
    have hall : ∀ x ∈ s.calls.set j c', x.Consistent := by
      intro x hx
      rcases List.mem_or_eq_of_mem_set hx with hold | rfl
      · exact h.consistent x hold
      · exact hconsistent
    have hcount : permits s.calls = permits (s.calls.set j c') + if releases then 1 else 0 := by
      rw [hset, hcalls]
      simp only [permits_append, hpermits]
      omega
    cases releases with
    | false =>
      refine ⟨h.size_eq, ?_, h.held_le, h.not_panicked, hall⟩
      simp only [Bool.false_eq_true, if_false, Nat.add_zero] at hcount ⊢
      rw [h.held_eq, hcount]
    | true =>
      have hheld : sem.held s.sem = permits (s.calls.set j c') + 1 := by
        rw [h.held_eq, hcount]
        rfl
      obtain ⟨sem', hrelease, hless, hsize⟩ := hdoc.releases s.sem 1 (by omega)
      simp only [if_true, release, hrelease]
      refine ⟨hsize.trans h.size_eq, ?_, ?_, h.not_panicked, hall⟩
      · simp only [hless, hheld]
        omega
      · simp only [hless]
        have hle := h.held_le
        omega

/-- Nothing is held when nobody needs a permit. -/
theorem permits_eq_zero {calls : List CallPhase}
    (h : ∀ c ∈ calls, c.isRunning = false ∧ c.isOpening = false ∧ c.isUnclosed = false) :
    permits calls = 0 := by
  have hnone : ∀ f : CallPhase → Bool, (∀ c ∈ calls, f c = false) → calls.countP f = 0 := by
    intro f hf
    rw [List.countP_eq_zero]
    intro c hc
    simp [hf c hc]
  rw [permits, hnone _ fun c hc => (h c hc).1, hnone _ fun c hc => (h c hc).2.1,
    hnone _ fun c hc => (h c hc).2.2]

/-! ### Who is refused -/

theorem begin_calls (hdoc : sem.Documented) (hsize : sem.size s.sem = p.limit)
    {admitted : CallPhase} (hadmitted : admitted.isRefused = false) :
    ∃ c, (begin sem p s admitted).calls = s.calls ++ [c] ∧
      (c.isRefused = true ↔ p.limit ≤ sem.held s.sem) := by
  unfold begin
  by_cases hfree : sem.held s.sem + 1 ≤ sem.size s.sem
  · obtain ⟨sem', hacquire, -⟩ := hdoc.acquires s.sem 1 hfree
    rw [hacquire]
    refine ⟨admitted, rfl, ?_⟩
    rw [hadmitted]
    exact iff_of_false Bool.false_ne_true (by omega)
  · rw [hdoc.fails s.sem 1 (Int.not_le.mp hfree)]
    exact ⟨_, rfl, iff_of_true rfl (by omega)⟩

/-- No call that has begun is refused later. -/
theorem advance_isRefused {c c' : CallPhase} {event : CallEvent} {releases : Bool}
    (h : advance c event = some (c', releases)) : c'.isRefused = c.isRefused := by
  unfold advance at h
  split at h
  all_goals cases h
  all_goals rfl

/-- A step begins a call or goes on with one. -/
theorem calls_of_step (hdoc : sem.Documented) (hsize : sem.size s.sem = p.limit)
    (hstep : step sem p s a = some s') :
    (a.isStart = true ∧ ∃ c, s'.calls = s.calls ++ [c] ∧
        (c.isRefused = true ↔ p.limit ≤ sem.held s.sem)) ∨
      (a.isStart = false ∧ ∃ j c c', s.calls[j]? = some c ∧ s'.calls = s.calls.set j c' ∧
        c'.isRefused = c.isRefused) := by
  cases a with
  | chatCompletion =>
    obtain rfl := Option.some.inj hstep
    exact .inl ⟨rfl, begin_calls hdoc hsize rfl⟩
  | chatCompletionStream =>
    obtain rfl := Option.some.inj hstep
    exact .inl ⟨rfl, begin_calls hdoc hsize rfl⟩
  | event j event =>
    obtain ⟨c, hc, hstep⟩ := Option.bind_eq_some_iff.mp hstep
    obtain ⟨⟨c', releases⟩, hadvance, rfl⟩ := Option.map_eq_some_iff.mp hstep
    refine .inr ⟨rfl, j, c, c', hc, ?_, advance_isRefused hadvance⟩
    cases releases with
    | false => rfl
    | true =>
      simp only [if_true, release]
      split <;> rfl

variable {as : List Action}

theorem Begun.concat {j : Nat} {c : CallPhase} (h : Begun sem p as j c) (a : Action) :
    Begun sem p (as ++ [a]) j c := by
  obtain ⟨pre, b, post, t, rfl, hrest⟩ := h
  exact ⟨pre, b, post ++ [a], t, by simp, hrest⟩

theorem Begun.congr {j : Nat} {c c' : CallPhase} (h : Begun sem p as j c)
    (hsame : c'.isRefused = c.isRefused) : Begun sem p as j c' := by
  unfold Begun at h ⊢
  rwa [hsame]

theorem inv_of_exec (hdoc : sem.Documented)
    (h : exec (step sem p) (newConcurrencyLimitedProvider sem p) as = some s) : Inv sem p s := by
  have hstart : Inv sem p (newConcurrencyLimitedProvider sem p) := by
    refine ⟨hdoc.size_new _, hdoc.held_new _, ?_, rfl, fun c hc => absurd hc List.not_mem_nil⟩
    rw [newConcurrencyLimitedProvider, hdoc.held_new]
    exact le_max_right _ _
  exact Reachable.invariant (motive := Inv sem p) (fun _ _ _ => step_inv hdoc) hstart ⟨as, h⟩

/-- **The calls of a run** are those that its steps began, each with what was decided then. -/
theorem begun_of_exec (hdoc : sem.Documented)
    (h : exec (step sem p) (newConcurrencyLimitedProvider sem p) as = some s) :
    s.calls.length = as.countP Action.isStart ∧
      ∀ j c, s.calls[j]? = some c → Begun sem p as j c := by
  induction as using List.reverseRecOn generalizing s with
  | nil =>
    obtain rfl := Option.some.inj h
    exact ⟨rfl, fun j c hc => by cases hc⟩
  | append_singleton as a ih =>
    obtain ⟨t, ht, hstep⟩ := exec_concat_eq_some.mp h
    obtain ⟨hlength, hbegun⟩ := ih ht
    rw [List.countP_append, List.countP_singleton, ← hlength]
    rcases calls_of_step hdoc (inv_of_exec hdoc ht).size_eq hstep with
      ⟨hstart, new, hcalls, hrefused⟩ | ⟨hevent, i, old, new, hold, hcalls, hsame⟩
    · rw [hcalls, hstart]
      refine ⟨by simp, fun j c hc => ?_⟩
      by_cases hj : j < t.calls.length
      · rw [List.getElem?_append_left hj] at hc
        exact (hbegun j c hc).concat a
      · rw [List.getElem?_append_right (not_lt.mp hj), List.getElem?_singleton] at hc
        obtain ⟨hlast, hc⟩ := Option.ite_none_right_eq_some.mp hc
        obtain rfl := Option.some.inj hc
        exact ⟨as, a, [], t, rfl, hstart, ht, by omega, hrefused⟩
    · rw [hcalls, hevent]
      refine ⟨by simp, fun j c hc => ?_⟩
      by_cases hj : i = j
      · subst hj
        rw [List.getElem?_set_self (List.getElem?_eq_some_iff.mp hold).1] at hc
        obtain rfl := Option.some.inj hc
        exact ((hbegun i old hold).congr hsame).concat a
      · rw [List.getElem?_set_ne hj] at hc
        exact (hbegun j c hc).concat a

/-- **Permits balance** in every run: the permits held are those of the calls and streams that
are not over, and a call is refused exactly if the limit is reached when it begins. -/
theorem balanced_of_exec (hdoc : sem.Documented)
    (h : exec (step sem p) (newConcurrencyLimitedProvider sem p) as = some s) :
    Balanced sem p as s := by
  have hinv := inv_of_exec hdoc h
  obtain ⟨hlength, hbegun⟩ := begun_of_exec hdoc h
  refine ⟨hinv.held_eq, hinv.held_le, ?_, hinv.not_panicked, fun hdone => ?_, hlength, hbegun⟩
  · rw [hinv.held_eq]
    exact Int.natCast_nonneg _
  · rw [hinv.held_eq, permits_eq_zero hdone]
    rfl

/-! ### A counter -/

/-- The size and the weight that is held. -/
def counter : Semaphore (Int × Int) where
  newWeighted n := (n, 0)
  tryAcquire s n := if s.2 + n ≤ s.1 then (true, s.1, s.2 + n) else (false, s)
  release s n := if n ≤ s.2 then some (s.1, s.2 - n) else none
  size s := s.1
  held s := s.2

theorem counter_documented : counter.Documented where
  size_new _ := rfl
  held_new _ := rfl
  acquires s n h := ⟨(s.1, s.2 + n), if_pos h, rfl, rfl⟩
  fails _ _ h := if_neg (Int.not_le.mpr h)
  releases s n h := ⟨(s.1, s.2 - n), if_pos h, rfl, rfl⟩

/-- A stream that is closed twice, a call that is refused meanwhile, and another after it. -/
def closedTwice : List Action :=
  [.chatCompletionStream, .event 0 (.opened none), .chatCompletion, .event 0 .close,
    .event 0 (.closed (some (lit "close failed"))), .event 0 .close, .event 0 (.closed none),
    .chatCompletion, .event 2 (.answer (.error (lit "EOF")))]

theorem balanced_of_exec_closedTwice :
    ∃ s, exec (step counter ⟨lit "openai", 1⟩)
        (newConcurrencyLimitedProvider counter ⟨lit "openai", 1⟩) closedTwice = some s ∧
      s.calls.map CallPhase.isRefused = [false, true, false] ∧
      Balanced counter ⟨lit "openai", 1⟩ closedTwice s := by
  have hruns : (exec (step counter ⟨lit "openai", 1⟩)
      (newConcurrencyLimitedProvider counter ⟨lit "openai", 1⟩) closedTwice).any (fun s =>
        s.calls.map CallPhase.isRefused = [false, true, false]) = true := by
    decide
  obtain ⟨s, hs, hrefused⟩ := (Option.any_eq_true _ _).mp hruns
  exact ⟨s, hs, of_decide_eq_true hrefused, balanced_of_exec counter_documented hs⟩

end Concurrency
end UniLLM.Provider
