import UniLLM.Provider.BreakerRuns

/-!
# Runs of a resilient provider

Any number of calls to one `ResilientProvider` at once.  A call asks the breaker, makes
its attempts with a backoff before each retry, and records how it ended; what upstream
answers, when a backoff is over and when the caller goes away is decided by the actions.
Each step is a step of the breaker's run or leaves it alone.
-/

namespace UniLLM.Provider
open Go OpenAI Transition

/-! ### Calls -/

/-- Where an error comes from. -/
inductive Fault where
  | breaker
  | provider
  /-- The caller's context is done. -/
  | context
  /-- The request cannot be encoded. -/
  | encoding
  deriving DecidableEq

structure CallError where
  fault : Fault
  text : GoString

/-- Where a call is. -/
inductive Phase where
  /-- Before the first attempt. -/
  | admitted
  | running (attempt : Nat)
  /-- In the backoff before this attempt. -/
  | waiting (attempt : Nat)
  /-- Before `RecordFailure`. -/
  | failing (e : CallError)
  /-- Before `RecordSuccess`. -/
  | succeeding
  | returned (e : Option CallError)
  /-- Returned from the backoff. -/
  | abandoned (e : CallError)

structure ProviderCall where
  /-- `ChatCompletionStream`; there are no retries. -/
  isStream : Bool
  request : ChatCompletionRequest
  phase : Phase

/-- What an attempt that sends brings. -/
inductive Answer where
  | response (resp : ChatCompletionResponse)
  /-- The stream of `ChatCompletionStream`. -/
  | opened
  | failed (e : GoString)
  | cancelled (e : GoString)

/-- The answer is one to such a call. -/
def Answer.fits (a : Answer) (isStream : Bool) : Bool :=
  match a with
  | .response _ => !isStream
  | .opened => isStream
  | _ => true

variable (p : Resilient) (http : Http)

/-- The error of an attempt, if it has one.  A request that does not marshal is not sent. -/
def Resilient.attemptError (req : ChatCompletionRequest) (a : Answer) : Option CallError :=
  match p.inner.marshalError http req with
  | some e => some ⟨.encoding, e⟩
  | none =>
    match a with
    | .response resp =>
      if isEmptyOutput resp then
        some ⟨.provider, lit "empty output from provider " ++ p.name⟩
      else none
    | .opened => none
    | .failed e => some ⟨.provider, e⟩
    | .cancelled e => some ⟨.context, e⟩

/-- What follows an attempt. -/
def Resilient.afterAttempt (isStream : Bool) (attempt : Nat) : Option CallError → Phase
  | none => .succeeding
  | some e => if !isStream && attempt < p.retries then .waiting (attempt + 1) else .failing e

/-! ### Steps -/

structure ResilientRun where
  run : BreakerRun
  calls : List ProviderCall

inductive ResilientAction where
  | advance (clock : Int)
  /-- A call begins: `Allow`. -/
  | call (isStream : Bool) (request : ChatCompletionRequest)
  /-- Call `j` starts an attempt, the first one or, after its backoff, a retry. -/
  | attempt (j : Nat)
  | answer (j : Nat) (a : Answer)
  /-- The context of call `j` ends its backoff. -/
  | cancel (j : Nat) (e : GoString)
  | record (j : Nat)

/-- Call `j` moves on with a step of the breaker. -/
def ResilientRun.moveOn (s : ResilientRun) (j : Nat) (c : ProviderCall) (a : BreakerAction)
    (phase : Phase) : Option ResilientRun :=
  (s.run.step a).map fun run => ⟨run, s.calls.set j { c with phase := phase }⟩

def ResilientRun.step (s : ResilientRun) : ResilientAction → Option ResilientRun
  | .advance clock => (s.run.step (.advance clock)).map fun run => { s with run := run }
  | .call isStream request =>
    let allowed := (s.run.breaker.allow s.run.clock).1
    let phase := if allowed then .admitted else .returned (some ⟨.breaker, p.openError⟩)
    (s.run.step (.allow s.calls.length)).map fun run =>
      ⟨run, s.calls ++ [⟨isStream, request, phase⟩]⟩
  | .attempt j =>
    (s.calls[j]?).bind fun c =>
      match c.phase with
      | .admitted => s.moveOn j c (.attempt j) (.running 0)
      | .waiting attempt => s.moveOn j c (.attempt j) (.running attempt)
      | _ => none
  | .answer j a =>
    (s.calls[j]?).bind fun c =>
      match c.phase with
      | .running attempt =>
        if a.fits c.isStream then
          let phase := p.afterAttempt c.isStream attempt (p.attemptError http c.request a)
          some { s with calls := s.calls.set j { c with phase := phase } }
        else none
      | _ => none
  | .cancel j e =>
    (s.calls[j]?).bind fun c =>
      match c.phase with
      | .waiting _ => some { s with calls := s.calls.set j { c with phase := .abandoned ⟨.context, e⟩ } }
      | _ => none
  | .record j =>
    (s.calls[j]?).bind fun c =>
      match c.phase with
      | .failing e => s.moveOn j c (.failure j) (.returned (some e))
      | .succeeding => s.moveOn j c (.success j) (.returned none)
      | _ => none

def ResilientRun.start (cb : CircuitBreaker) (clock : Int) : ResilientRun := ⟨.start cb clock, []⟩

variable {p http} {s s' : ResilientRun} {a : ResilientAction}

/-! ### What a step does -/

/-- How a call moves on with an entry in the history. -/
inductive Phase.Writes : Phase → BreakerEvent → Phase → Prop
  | first : Writes .admitted .attempt (.running 0)
  | retry (attempt : Nat) : Writes (.waiting attempt) .attempt (.running attempt)
  | failure (e : CallError) : Writes (.failing e) .failure (.returned (some e))
  | success : Writes .succeeding .success (.returned none)

theorem Phase.Writes.ne_allow {phase phase' : Phase} {event : BreakerEvent}
    (h : phase.Writes event phase') {admitted : Bool} : event ≠ .allow admitted := by
  cases h <;> nofun

variable (p http) in
/-- How a call moves on without one. -/
inductive ProviderCall.Moves (c : ProviderCall) : Phase → Prop
  | answer (attempt : Nat) (a : Answer) (hphase : c.phase = .running attempt)
      (hfits : a.fits c.isStream = true) :
      Moves c (p.afterAttempt c.isStream attempt (p.attemptError http c.request a))
  | cancel (attempt : Nat) (e : GoString) (hphase : c.phase = .waiting attempt) :
      Moves c (.abandoned ⟨.context, e⟩)

/-- A call begins with this phase. -/
def Resilient.firstPhase (p : Resilient) (admitted : Bool) : Phase :=
  if admitted then .admitted else .returned (some ⟨.breaker, p.openError⟩)

theorem moveOn_cases {j : Nat} {c : ProviderCall} {event : BreakerEvent} {phase : Phase}
    (hc : s.calls[j]? = some c) (hwrites : c.phase.Writes event phase)
    (h : s.moveOn j c (event.action j) phase = some s') :
    ∃ x c phase, s.run.Next x ∧ s.calls[x.request]? = some c ∧ c.phase.Writes x.event phase ∧
      s' = ⟨{ s.run with breaker := x.after, log := s.run.log ++ [x] },
        s.calls.set x.request { c with phase := phase }⟩ := by
  obtain ⟨run, hrun, rfl⟩ := Option.map_eq_some_iff.mp h
  have hevent : ∀ admitted, event ≠ .allow admitted := by
    intro admitted
    exact hwrites.ne_allow
  obtain ⟨clock, hact, -, -⟩ | ⟨x, hx, rfl, hact⟩ := BreakerRun.step_cases hrun
  · exact absurd hact (event.action_ne_advance j clock)
  · obtain ⟨rfl, rfl⟩ := BreakerEvent.eq_of_action hact.symm hevent
    exact ⟨x, c, phase, hx, hc, hwrites, rfl⟩

/-- What a step makes of the state. -/
theorem ResilientRun.step_cases (h : s.step p http a = some s') :
    (∃ clock, s.run.clock ≤ clock ∧ s' = { s with run := { s.run with clock := clock } }) ∨
    (∃ x admitted isStream request, s.run.Next x ∧ x.request = s.calls.length ∧
      x.event = .allow admitted ∧
      s' = ⟨{ s.run with breaker := x.after, log := s.run.log ++ [x] },
        s.calls ++ [⟨isStream, request, p.firstPhase admitted⟩]⟩) ∨
    (∃ x c phase, s.run.Next x ∧ s.calls[x.request]? = some c ∧ c.phase.Writes x.event phase ∧
      s' = ⟨{ s.run with breaker := x.after, log := s.run.log ++ [x] },
        s.calls.set x.request { c with phase := phase }⟩) ∨
    (∃ j c phase, s.calls[j]? = some c ∧ c.Moves p http phase ∧
      s' = { s with calls := s.calls.set j { c with phase := phase } }) := by
  cases a with
  | advance clock =>
    obtain ⟨run, hrun, rfl⟩ := Option.map_eq_some_iff.mp h
    obtain ⟨clock, -, hle, rfl⟩ | ⟨x, -, -, hact⟩ := BreakerRun.step_cases hrun
    · exact Or.inl ⟨clock, hle, rfl⟩
    · exact absurd hact.symm (x.event.action_ne_advance x.request _)
  | call isStream request =>
    obtain ⟨run, hrun, rfl⟩ := Option.map_eq_some_iff.mp h
    obtain ⟨clock, hact, -, -⟩ | ⟨x, hx, rfl, hact⟩ := BreakerRun.step_cases hrun
    · cases hact
    · obtain ⟨hrequest, admitted, hevent⟩ := BreakerEvent.eq_of_action_allow hact.symm
      have hperformed := hx.performed
      rw [Op.Performed, hevent, hx.before, hx.time] at hperformed
      rw [hperformed]
      exact Or.inr (Or.inl ⟨x, admitted, isStream, request, hx, hrequest, hevent, rfl⟩)
  | attempt j =>
    obtain ⟨c, hc, h⟩ := Option.bind_eq_some_iff.mp h
    cases hphase : c.phase with
    | admitted =>
      simp only [hphase] at h
      have hwrites : c.phase.Writes .attempt (.running 0) := by
        rw [hphase]
        exact .first
      exact Or.inr (Or.inr (Or.inl (moveOn_cases hc hwrites h)))
    | waiting attempt =>
      simp only [hphase] at h
      have hwrites : c.phase.Writes .attempt (.running attempt) := by
        rw [hphase]
        exact .retry attempt
      exact Or.inr (Or.inr (Or.inl (moveOn_cases hc hwrites h)))
    | _ => simp [hphase] at h
  | answer j a =>
    obtain ⟨c, hc, h⟩ := Option.bind_eq_some_iff.mp h
    cases hphase : c.phase with
    | running attempt =>
      simp only [hphase] at h
      split at h
      · rename_i hfits
        exact Or.inr (Or.inr (Or.inr ⟨j, c, _, hc, .answer attempt a hphase hfits,
          (Option.some.inj h).symm⟩))
      · cases h
    | _ => simp [hphase] at h
  | cancel j e =>
    obtain ⟨c, hc, h⟩ := Option.bind_eq_some_iff.mp h
    cases hphase : c.phase with
    | waiting attempt =>
      simp only [hphase] at h
      exact Or.inr (Or.inr (Or.inr ⟨j, c, _, hc, .cancel attempt e hphase, (Option.some.inj h).symm⟩))
    | _ => simp [hphase] at h
  | record j =>
    obtain ⟨c, hc, h⟩ := Option.bind_eq_some_iff.mp h
    cases hphase : c.phase with
    | failing e =>
      simp only [hphase] at h
      have hwrites : c.phase.Writes .failure (.returned (some e)) := by
        rw [hphase]
        exact .failure e
      exact Or.inr (Or.inr (Or.inl (moveOn_cases hc hwrites h)))
    | succeeding =>
      simp only [hphase] at h
      have hwrites : c.phase.Writes .success (.returned none) := by
        rw [hphase]
        exact .success
      exact Or.inr (Or.inr (Or.inl (moveOn_cases hc hwrites h)))
    | _ => simp [hphase] at h

/-! ### What the history has of a call -/

/-- The request has been admitted, and has not recorded its outcome. -/
def Going (log : List Op) (j : Nat) : Prop :=
  (∃ x ∈ log, x.admits j = true) ∧ ∀ x ∈ log, x.records j = false

/-- The attempts of a request. -/
def attemptsOf (log : List Op) (j : Nat) : Nat :=
  log.countP fun x => x.request = j ∧ x.event = .attempt

/-- How many attempts a call has. -/
def Resilient.maxAttempts (p : Resilient) (isStream : Bool) : Nat :=
  if isStream then 1 else p.retries + 1

/-- What the history has of a call, by its phase. -/
def ProviderCall.Fits (p : Resilient) (log : List Op) (j : Nat) (c : ProviderCall) : Prop :=
  attemptsOf log j ≤ p.maxAttempts c.isStream ∧
    match c.phase with
    | .admitted => Going log j ∧ attemptsOf log j = 0
    | .running attempt => Going log j ∧ attemptsOf log j = attempt + 1
    | .waiting attempt => Going log j ∧ attemptsOf log j = attempt ∧
        attempt ≤ p.retries ∧ c.isStream = false
    | .failing _ | .succeeding => Going log j
    | .returned none => True
    | .returned (some e) =>
      -- refused, or recorded
      e.fault = .breaker ∨ ∃ x ∈ log, x.request = j ∧ x.event = .failure
    | .abandoned _ => Going log j ∧ c.isStream = false

structure ResilientRun.Inv (p : Resilient) (s : ResilientRun) : Prop where
  fresh : ∀ x ∈ s.run.log, x.request < s.calls.length
  fits : ∀ (j : Nat) (c : ProviderCall), s.calls[j]? = some c → c.Fits p s.run.log j

theorem attemptsOf_concat (log : List Op) (x : Op) (j : Nat) :
    attemptsOf (log ++ [x]) j =
      attemptsOf log j + if x.request = j ∧ x.event = .attempt then 1 else 0 := by
  rw [attemptsOf, List.countP_append, List.countP_singleton]
  simp only [decide_eq_true_eq]
  rfl

theorem Going.concat {log : List Op} {j : Nat} {x : Op} (h : Going log j)
    (hx : x.records j = false) :
    Going (log ++ [x]) j := by
  obtain ⟨⟨y, hy, hadmits⟩, hnone⟩ := h
  refine ⟨⟨y, List.mem_append_left _ hy, hadmits⟩, ?_⟩
  intro z hz
  rcases List.mem_append.mp hz with hz | hz
  · exact hnone z hz
  · rw [List.mem_singleton.mp hz]
    exact hx

theorem Going.active {run : BreakerRun} {j : Nat} (h : Going run.log j) : run.active j = true := by
  obtain ⟨hadmitted, hnone⟩ := h
  rw [BreakerRun.active, Bool.and_eq_true, Bool.not_eq_true', List.any_eq_true, List.any_eq_false]
  exact ⟨hadmitted, fun x hx => by rw [hnone x hx]; nofun⟩

/-- An entry of another request does not matter. -/
theorem ProviderCall.Fits.frame {c : ProviderCall} {log : List Op} {j : Nat} {x : Op}
    (h : c.Fits p log j) (hx : x.request ≠ j) : c.Fits p (log ++ [x]) j := by
  have hattempts : attemptsOf (log ++ [x]) j = attemptsOf log j := by
    rw [attemptsOf_concat, if_neg fun hown => hx hown.1, Nat.add_zero]
  have hrecords : x.records j = false := by simp [Op.records, hx]
  obtain ⟨hmax, hphase⟩ := h
  refine ⟨hattempts ▸ hmax, ?_⟩
  cases hc : c.phase with
  | admitted =>
    rw [hc] at hphase
    exact ⟨hphase.1.concat hrecords, hattempts ▸ hphase.2⟩
  | running attempt =>
    rw [hc] at hphase
    exact ⟨hphase.1.concat hrecords, hattempts ▸ hphase.2⟩
  | waiting attempt =>
    rw [hc] at hphase
    exact ⟨hphase.1.concat hrecords, hattempts ▸ hphase.2.1, hphase.2.2⟩
  | failing e =>
    rw [hc] at hphase
    exact hphase.concat hrecords
  | succeeding =>
    rw [hc] at hphase
    exact hphase.concat hrecords
  | returned e =>
    rw [hc] at hphase
    cases e with
    | none => trivial
    | some e =>
      refine hphase.imp_right ?_
      rintro ⟨y, hy, hown⟩
      exact ⟨y, List.mem_append_left _ hy, hown⟩
  | abandoned e =>
    rw [hc] at hphase
    exact ⟨hphase.1.concat hrecords, hphase.2⟩

/-- An entry of the call's own. -/
theorem ProviderCall.Fits.write {c : ProviderCall} {log : List Op} {x : Op} {phase : Phase}
    (h : c.Fits p log x.request) (hwrites : c.phase.Writes x.event phase) :
    ({ c with phase := phase } : ProviderCall).Fits p (log ++ [x]) x.request := by
  obtain ⟨hmax, hphase⟩ := h
  generalize hbefore : c.phase = before at hwrites hphase
  generalize hevent : x.event = event at hwrites
  have hattempts := attemptsOf_concat log x x.request
  rw [hevent] at hattempts
  cases hwrites with
  | first =>
    obtain ⟨hgoing, hzero⟩ := hphase
    rw [hzero] at hattempts
    have hone : 1 ≤ p.maxAttempts c.isStream := by
      unfold Resilient.maxAttempts
      split <;> omega
    refine ⟨?_, hgoing.concat (by simp [Op.records, hevent]), ?_⟩
    · rw [hattempts]
      simpa using hone
    · rw [hattempts]
      simp
  | retry attempt =>
    obtain ⟨hgoing, hcount, hle, hwhole⟩ := hphase
    rw [hcount] at hattempts
    refine ⟨?_, hgoing.concat (by simp [Op.records, hevent]), ?_⟩
    · rw [hattempts, Resilient.maxAttempts, hwhole]
      simpa using hle
    · rw [hattempts]
      simp
  | failure e =>
    refine ⟨?_, Or.inr ⟨x, List.mem_append_right _ (List.mem_singleton_self x), rfl, hevent⟩⟩
    rw [hattempts]
    simpa using hmax
  | success =>
    refine ⟨?_, trivial⟩
    rw [hattempts]
    simpa using hmax

/-- A move without an entry. -/
theorem ProviderCall.Fits.move {c : ProviderCall} {log : List Op} {j : Nat} {phase : Phase}
    (h : c.Fits p log j) (hmoves : c.Moves p http phase) :
    ({ c with phase := phase } : ProviderCall).Fits p log j := by
  obtain ⟨hmax, hphase⟩ := h
  cases hmoves with
  | answer attempt a hrunning hfits =>
    rw [hrunning] at hphase
    obtain ⟨hgoing, hcount⟩ := hphase
    cases herror : p.attemptError http c.request a with
    | none => exact ⟨hmax, hgoing⟩
    | some e =>
      show ProviderCall.Fits p log j { c with
        phase := if !c.isStream && attempt < p.retries then .waiting (attempt + 1) else .failing e }
      split
      · rename_i hretry
        rw [Bool.and_eq_true, Bool.not_eq_true', decide_eq_true_eq] at hretry
        exact ⟨hmax, hgoing, hcount, hretry.2, hretry.1⟩
      · exact ⟨hmax, hgoing⟩
  | cancel attempt e hwaiting =>
    rw [hwaiting] at hphase
    obtain ⟨hgoing, -, -, hwhole⟩ := hphase
    exact ⟨hmax, hgoing, hwhole⟩

/-- A call that begins. -/
theorem fits_first {log : List Op} {x : Op} {admitted : Bool} (hevent : x.event = .allow admitted)
    (hfresh : ∀ y ∈ log, y.request ≠ x.request) (isStream : Bool)
    (request : ChatCompletionRequest) :
    (⟨isStream, request, p.firstPhase admitted⟩ : ProviderCall).Fits p (log ++ [x]) x.request := by
  have hzero : attemptsOf (log ++ [x]) x.request = 0 := by
    rw [attemptsOf_concat, hevent]
    have hnone : attemptsOf log x.request = 0 := by
      rw [attemptsOf, List.countP_eq_zero]
      intro y hy
      simp [hfresh y hy]
    simp [hnone]
  refine ⟨by rw [hzero]; exact Nat.zero_le _, ?_⟩
  cases admitted with
  | false => exact Or.inl rfl
  | true =>
    refine ⟨⟨⟨x, List.mem_append_right _ (List.mem_singleton_self x), by simp [Op.admits, hevent]⟩, ?_⟩,
      hzero⟩
    intro y hy
    rcases List.mem_append.mp hy with hy | hy
    · simp [Op.records, hfresh y hy]
    · rw [List.mem_singleton.mp hy]
      simp [Op.records, hevent]

theorem inv_start (p : Resilient) (cb : CircuitBreaker) (clock : Int) :
    (ResilientRun.start cb clock).Inv p := by
  refine ⟨?_, ?_⟩
  · intro x hx
    exact absurd hx List.not_mem_nil
  · intro j c hc
    simp [ResilientRun.start] at hc

/-- The step lemma. -/
theorem ResilientRun.Inv.step (h : s.Inv p) (hstep : s.step p http a = some s') : s'.Inv p := by
  obtain ⟨hfresh, hfits⟩ := h
  obtain ⟨clock, -, rfl⟩ | ⟨x, admitted, isStream, request, -, hrequest, hevent, rfl⟩ |
    ⟨x, c, phase, -, hc, hwrites, rfl⟩ | ⟨j, c, phase, hc, hmoves, rfl⟩ :=
    ResilientRun.step_cases hstep
  · exact ⟨hfresh, hfits⟩
  · refine ⟨?_, ?_⟩
    · intro y hy
      rw [List.length_append, List.length_singleton]
      rcases List.mem_append.mp hy with hy | hy
      · exact Nat.lt_succ_of_lt (hfresh y hy)
      · rw [List.mem_singleton.mp hy, hrequest]
        exact Nat.lt_succ_self _
    · intro j c hc
      rcases Nat.lt_or_ge j s.calls.length with hj | hj
      · rw [List.getElem?_append_left hj] at hc
        exact (hfits j c hc).frame (by omega)
      · rw [List.getElem?_append_right hj, List.getElem?_singleton] at hc
        split at hc
        · obtain rfl := Option.some.inj hc
          obtain rfl : j = x.request := by omega
          refine fits_first hevent ?_ isStream request
          intro y hy
          have := hfresh y hy
          omega
        · cases hc
  · have hlt : x.request < s.calls.length := (List.getElem?_eq_some_iff.mp hc).1
    refine ⟨?_, ?_⟩
    · intro y hy
      rw [List.length_set]
      rcases List.mem_append.mp hy with hy | hy
      · exact hfresh y hy
      · rw [List.mem_singleton.mp hy]
        exact hlt
    · intro j c' hc'
      by_cases hj : x.request = j
      · subst hj
        rw [List.getElem?_set_self hlt] at hc'
        obtain rfl := Option.some.inj hc'
        exact (hfits x.request c hc).write hwrites
      · rw [List.getElem?_set_ne hj] at hc'
        exact (hfits j c' hc').frame hj
  · refine ⟨?_, ?_⟩
    · intro y hy
      rw [List.length_set]
      exact hfresh y hy
    · intro i c' hc'
      by_cases hi : j = i
      · subst hi
        rw [List.getElem?_set_self (List.getElem?_eq_some_iff.mp hc).1] at hc'
        obtain rfl := Option.some.inj hc'
        exact (hfits j c hc).move hmoves
      · rw [List.getElem?_set_ne hi] at hc'
        exact hfits i c' hc'

/-- **The run lemma.** -/
theorem ResilientRun.inv_of_reachable {cb : CircuitBreaker} {clock : Int}
    (h : Reachable (ResilientRun.step p http) (.start cb clock) s) : s.Inv p :=
  h.invariant (fun _ _ _ hinv hstep => hinv.step hstep) (inv_start p cb clock)

/-- A call is never stuck: the breaker takes the step its phase asks for. -/
theorem ResilientRun.Inv.moveOn_isSome (h : s.Inv p) {j : Nat} {c : ProviderCall} {phase : Phase}
    {event : BreakerEvent} (hc : s.calls[j]? = some c) (hwrites : c.phase.Writes event phase) :
    (s.moveOn j c (event.action j) phase).isSome = true := by
  obtain ⟨-, hphase⟩ := h.fits j c hc
  have hgoing : Going s.run.log j := by
    generalize c.phase = before at hwrites hphase
    cases hwrites with
    | first => exact hphase.1
    | retry attempt => exact hphase.1
    | failure e => exact hphase
    | success => exact hphase
  have hne : ∀ admitted, event ≠ .allow admitted := fun _ => hwrites.ne_allow
  rw [ResilientRun.moveOn, Option.isSome_map]
  cases event with
  | allow admitted => exact absurd rfl (hne admitted)
  | attempt => simp [BreakerEvent.action, BreakerRun.step, hgoing.active]
  | success => simp [BreakerEvent.action, BreakerRun.step, hgoing.active]
  | failure => simp [BreakerEvent.action, BreakerRun.step, hgoing.active]

/-- The breaker's run moves on, or nothing happens to it but time. -/
theorem ResilientRun.run_cases (h : s.step p http a = some s') :
    (s'.run.breaker = s.run.breaker ∧ s'.run.log = s.run.log) ∨
      ∃ x, s.run.Next x ∧ s'.run = { s.run with breaker := x.after, log := s.run.log ++ [x] } := by
  obtain ⟨clock, -, rfl⟩ | ⟨x, -, -, -, hx, -, -, rfl⟩ | ⟨x, -, -, hx, -, -, rfl⟩ |
      ⟨-, -, -, -, -, rfl⟩ :=
    ResilientRun.step_cases h
  · exact Or.inl ⟨rfl, rfl⟩
  · exact Or.inr ⟨x, hx, rfl⟩
  · exact Or.inr ⟨x, hx, rfl⟩
  · exact Or.inl ⟨rfl, rfl⟩

end UniLLM.Provider
