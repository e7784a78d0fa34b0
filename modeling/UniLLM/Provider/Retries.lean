import UniLLM.Lib.ForLoop
import UniLLM.Provider.BreakerRuns
import UniLLM.Provider.EmptyOutput

/-!
# How a call is retried

`ResilientProvider` wraps any provider.  What the wrapped one answers in each attempt and
when the caller's context is done is the `Course` of a call; the answers are pairs of a
pointer and an error, as Go has them, so that both may be nil.

Each call keeps a trace of what it does to the breaker and upstream.
-/

namespace UniLLM.Provider
open Go OpenAI ForLoop

/-! ### What Go returns -/

/-- An error: a text, or a text in front of the error that it wraps. -/
inductive GoError where
  | text (s : GoString)
  | wrap (s : GoString) (inner : GoError)

def GoError.error : GoError → GoString
  | .text s => s
  | .wrap s inner => s ++ inner.error

/-- A pointer and an error, either of which may be nil. -/
structure GoResult (α : Type) where
  value : Option α
  err : Option GoError

/-! ### The provider -/

/-- What happens during a call. -/
structure Course (α : Type) where
  /-- What the wrapped provider answers. -/
  answer : (attempt : Nat) → (apiKey : GoString) → (req : ChatCompletionRequest) → GoResult α
  /-- The error of the context, if it is done before the backoff of this attempt is over. -/
  done : (attempt : Nat) → Option GoError
  /-- The clock in `Allow`. -/
  allowedAt : Int
  /-- The clock in `RecordFailure`. -/
  failedAt : Int

/-- The backoff before an attempt: the error of the context if that ends it.  Before the
first attempt there is none. -/
def Course.backoff {α : Type} (x : Course α) (attempt : Nat) : Option GoError :=
  if attempt > 0 then x.done attempt else none

/-- Wraps a provider with retries and a circuit breaker; `β` are the addresses of breakers. -/
structure ResilientProvider (β : Type) where
  innerName : GoString
  cb : β
  retries : Nat

/-- The variables of a loop, and the trace. -/
structure Vars (β ε : Type) where
  lastErr : Option GoError
  breakers : β → CircuitBreaker
  trace : List ε

/-- Something happens. -/
def Vars.note {β ε : Type} (s : Vars β ε) (event : ε) : Vars β ε :=
  { s with trace := s.trace ++ [event] }

/-- A call that has returned. -/
structure Ran (β ε α : Type) where
  result : GoResult α
  breakers : β → CircuitBreaker
  trace : List ε

variable {β : Type} [DecidableEq β]

namespace ResilientProvider

def name (p : ResilientProvider β) : GoString := p.innerName

def allow (p : ResilientProvider β) (now : Int) (breakers : β → CircuitBreaker) :
    Bool × (β → CircuitBreaker) :=
  let (allowed, cb) := (breakers p.cb).allow now
  (allowed, Function.update breakers p.cb cb)

def recordSuccess (p : ResilientProvider β) (breakers : β → CircuitBreaker) : β → CircuitBreaker :=
  Function.update breakers p.cb (breakers p.cb).recordSuccess

def recordFailure (p : ResilientProvider β) (now : Int) (breakers : β → CircuitBreaker) :
    β → CircuitBreaker :=
  Function.update breakers p.cb ((breakers p.cb).recordFailure now)

def openError (p : ResilientProvider β) : GoError :=
  .text (lit "circuit breaker open for provider " ++ p.innerName)

def emptyError (p : ResilientProvider β) : GoError :=
  .text (lit "empty output from provider " ++ p.innerName)

/-- The body of the loop. -/
def attempt (p : ResilientProvider β) (x : Course ChatCompletionResponse) (apiKey : GoString)
    (req : ChatCompletionRequest) (attempt : Nat) (s : Vars β BreakerEvent) :
    Option (GoResult ChatCompletionResponse) × Vars β BreakerEvent :=
  match x.backoff attempt with
  | some e => (some ⟨none, some e⟩, s)
  | none =>
    let s := s.note .attempt
    match x.answer attempt apiKey req with
    | ⟨resp, none⟩ =>
      if isEmptyResponse resp then (none, { s with lastErr := some p.emptyError })
      else (some ⟨resp, none⟩, { s.note .success with breakers := p.recordSuccess s.breakers })
    | ⟨_, some e⟩ => (none, { s with lastErr := some e })

/-- After the loop. -/
def afterLoop (p : ResilientProvider β) (x : Course ChatCompletionResponse) :
    Option (GoResult ChatCompletionResponse) × Vars β BreakerEvent →
      Ran β BreakerEvent ChatCompletionResponse
  | (some result, s) => ⟨result, s.breakers, s.trace⟩
  | (none, s) =>
    ⟨⟨none, s.lastErr⟩, p.recordFailure x.failedAt s.breakers, (s.note .failure).trace⟩

def chatCompletion (p : ResilientProvider β) (x : Course ChatCompletionResponse) (apiKey : GoString)
    (req : ChatCompletionRequest) (breakers : β → CircuitBreaker) :
    Ran β BreakerEvent ChatCompletionResponse :=
  match p.allow x.allowedAt breakers with
  | (false, breakers) => ⟨⟨none, some p.openError⟩, breakers, [.allow false]⟩
  | (true, breakers) =>
    p.afterLoop x (forEach (p.attempt x apiKey req) (List.range (p.retries + 1))
      ⟨none, breakers, [.allow true]⟩)

/-- No retry, as partial data cannot be replayed. -/
def chatCompletionStream (p : ResilientProvider β) (x : Course Source) (apiKey : GoString)
    (req : ChatCompletionRequest) (breakers : β → CircuitBreaker) : Ran β BreakerEvent Source :=
  match p.allow x.allowedAt breakers with
  | (false, breakers) => ⟨⟨none, some p.openError⟩, breakers, [.allow false]⟩
  | (true, breakers) =>
    match x.answer 0 apiKey req with
    | ⟨_, some e⟩ =>
      ⟨⟨none, some e⟩, p.recordFailure x.failedAt breakers, [.allow true, .attempt, .failure]⟩
    | ⟨stream, none⟩ =>
      ⟨⟨stream, none⟩, p.recordSuccess breakers, [.allow true, .attempt, .success]⟩

end ResilientProvider

/-! ### How the attempts end -/

/-- The answer has no error and is not empty. -/
def GoResult.Good (answer : GoResult ChatCompletionResponse) : Prop :=
  answer.err = none ∧ isEmptyResponse answer.value = false

/-- The error of an answer that is not good. -/
def ResilientProvider.errorOf (p : ResilientProvider β) (answer : GoResult ChatCompletionResponse) :
    GoError :=
  answer.err.getD p.emptyError

/-- The loop comes to this attempt: no answer before was good, and no backoff was cut short. -/
structure Course.Reaches (x : Course ChatCompletionResponse) (apiKey : GoString)
    (req : ChatCompletionRequest) (k : Nat) : Prop where
  bad : ∀ j < k, ¬ (x.answer j apiKey req).Good
  undone : ∀ j < k, x.backoff j = none

/-- How an admitted call ends. -/
structure ResilientProvider.Retries (p : ResilientProvider β) (x : Course ChatCompletionResponse)
    (apiKey : GoString) (req : ChatCompletionRequest) (admitted : β → CircuitBreaker)
    (ran : Ran β BreakerEvent ChatCompletionResponse) : Prop where
  /-- The first good answer is the result, and one success is recorded. -/
  success : ∀ k ≤ p.retries, x.Reaches apiKey req k → x.backoff k = none →
    (x.answer k apiKey req).Good →
      ran = ⟨x.answer k apiKey req, p.recordSuccess admitted,
        .allow true :: (List.replicate (k + 1) .attempt ++ [.success])⟩
  /-- When no answer is good, one failure is recorded and the last error returned. -/
  failure : x.Reaches apiKey req (p.retries + 1) →
      ran = ⟨⟨none, some (p.errorOf (x.answer p.retries apiKey req))⟩,
        p.recordFailure x.failedAt admitted,
        .allow true :: (List.replicate (p.retries + 1) .attempt ++ [.failure])⟩
  /-- When the context ends a backoff, its error is returned and nothing recorded. -/
  cancelled : ∀ k ≤ p.retries, ∀ e, x.Reaches apiKey req k → x.backoff k = some e →
      ran = ⟨⟨none, some e⟩, admitted, .allow true :: List.replicate k .attempt⟩
  attempts_le : ran.trace.count .attempt ≤ p.retries + 1
  /-- There is no attempt after a good answer. -/
  stops : ∀ k, (x.answer k apiKey req).Good → ran.trace.count .attempt ≤ k + 1

section

variable {p : ResilientProvider β} {x : Course ChatCompletionResponse} {apiKey : GoString}
  {req : ChatCompletionRequest} {admitted breakers : β → CircuitBreaker} {k j : Nat}

/-! ### One attempt -/

theorem ResilientProvider.attempt_cut {s : Vars β BreakerEvent} {e : GoError}
    (hcut : x.backoff k = some e) : p.attempt x apiKey req k s = (some ⟨none, some e⟩, s) := by
  rw [attempt, hcut]

theorem ResilientProvider.attempt_err {s : Vars β BreakerEvent} {e : GoError}
    {resp : Option ChatCompletionResponse} (hgoOn : x.backoff k = none)
    (hanswer : x.answer k apiKey req = ⟨resp, some e⟩) :
    p.attempt x apiKey req k s = (none, { s.note .attempt with lastErr := some e }) := by
  simp only [attempt, hgoOn, hanswer]

theorem ResilientProvider.attempt_empty {s : Vars β BreakerEvent}
    {resp : Option ChatCompletionResponse} (hgoOn : x.backoff k = none)
    (hanswer : x.answer k apiKey req = ⟨resp, none⟩) (hempty : isEmptyResponse resp = true) :
    p.attempt x apiKey req k s =
      (none, { s.note .attempt with lastErr := some p.emptyError }) := by
  simp only [attempt, hgoOn, hanswer, hempty, if_true]

theorem ResilientProvider.attempt_good {s : Vars β BreakerEvent}
    {resp : Option ChatCompletionResponse} (hgoOn : x.backoff k = none)
    (hanswer : x.answer k apiKey req = ⟨resp, none⟩) (hempty : isEmptyResponse resp = false) :
    p.attempt x apiKey req k s =
      (some ⟨resp, none⟩, { (s.note .attempt).note .success with
        breakers := p.recordSuccess s.breakers }) := by
  simp only [attempt, hgoOn, hanswer, hempty]
  rfl

/-! ### The loop -/

/-- The variables before an attempt that the loop comes to. -/
def ResilientProvider.varsAt (p : ResilientProvider β) (x : Course ChatCompletionResponse)
    (apiKey : GoString) (req : ChatCompletionRequest) (admitted : β → CircuitBreaker) (k : Nat) :
    Vars β BreakerEvent where
  lastErr :=
    match k with
    | 0 => none
    | j + 1 => some (p.errorOf (x.answer j apiKey req))
  breakers := admitted
  trace := .allow true :: List.replicate k .attempt

omit [DecidableEq β] in
theorem ResilientProvider.varsAt_succ (p : ResilientProvider β) (x : Course ChatCompletionResponse)
    (apiKey : GoString) (req : ChatCompletionRequest) (admitted : β → CircuitBreaker) (k : Nat) :
    p.varsAt x apiKey req admitted (k + 1) =
      { (p.varsAt x apiKey req admitted k).note .attempt with
        lastErr := some (p.errorOf (x.answer k apiKey req)) } := by
  rw [varsAt, List.replicate_succ']
  rfl

theorem Course.reaches_zero : x.Reaches apiKey req 0 :=
  ⟨fun _ hj => absurd hj (Nat.not_lt_zero _), fun _ hj => absurd hj (Nat.not_lt_zero _)⟩

theorem Course.Reaches.succ (h : x.Reaches apiKey req k) (hbad : ¬ (x.answer k apiKey req).Good)
    (hgoOn : x.backoff k = none) : x.Reaches apiKey req (k + 1) := by
  refine ⟨fun j hj => ?_, fun j hj => ?_⟩
  · rcases Nat.lt_succ_iff_lt_or_eq.mp hj with hlt | rfl
    · exact h.bad j hlt
    · exact hbad
  · rcases Nat.lt_succ_iff_lt_or_eq.mp hj with hlt | rfl
    · exact h.undone j hlt
    · exact hgoOn

/-- A good answer is the last. -/
theorem Course.Reaches.le_of_good (h : x.Reaches apiKey req k)
    (hgood : (x.answer j apiKey req).Good) : k ≤ j :=
  Nat.le_of_not_lt fun hlt => h.bad j hlt hgood

/-- So is a backoff that the context ends. -/
theorem Course.Reaches.le_of_cut {e : GoError} (h : x.Reaches apiKey req k)
    (hcut : x.backoff j = some e) : k ≤ j := by
  refine Nat.le_of_not_lt fun hlt => ?_
  rw [h.undone j hlt] at hcut
  cases hcut

/-- What one attempt does with these variables. -/
theorem ResilientProvider.attempt_cases (p : ResilientProvider β)
    (x : Course ChatCompletionResponse) (apiKey : GoString) (req : ChatCompletionRequest)
    (admitted : β → CircuitBreaker) (k : Nat) :
    (∃ e, x.backoff k = some e ∧
      p.attempt x apiKey req k (p.varsAt x apiKey req admitted k) =
        (some ⟨none, some e⟩, p.varsAt x apiKey req admitted k)) ∨
    (x.backoff k = none ∧ (x.answer k apiKey req).Good ∧
      p.attempt x apiKey req k (p.varsAt x apiKey req admitted k) =
        (some (x.answer k apiKey req),
          { ((p.varsAt x apiKey req admitted k).note .attempt).note .success with
            breakers := p.recordSuccess admitted })) ∨
    (x.backoff k = none ∧ ¬ (x.answer k apiKey req).Good ∧
      p.attempt x apiKey req k (p.varsAt x apiKey req admitted k) =
        (none, p.varsAt x apiKey req admitted (k + 1))) := by
  cases hbackoff : x.backoff k with
  | some e => exact Or.inl ⟨e, rfl, attempt_cut hbackoff⟩
  | none =>
    refine Or.inr ?_
    rw [varsAt_succ]
    cases hanswer : x.answer k apiKey req with
    | mk resp err =>
      cases err with
      | some e =>
        refine Or.inr ⟨rfl, fun hgood => ?_, attempt_err hbackoff hanswer⟩
        cases hgood.1
      | none =>
        cases hempty : isEmptyResponse resp with
        | true =>
          refine Or.inr ⟨rfl, fun hgood => ?_, attempt_empty hbackoff hanswer hempty⟩
          rw [hgood.2] at hempty
          cases hempty
        | false => exact Or.inl ⟨rfl, ⟨rfl, hempty⟩, attempt_good hbackoff hanswer hempty⟩

/-- What follows from one attempt holds of the loop. -/
theorem ResilientProvider.chatCompletion_cases (p : ResilientProvider β)
    (x : Course ChatCompletionResponse) (apiKey : GoString) (req : ChatCompletionRequest)
    (hadmitted : p.allow x.allowedAt breakers = (true, admitted)) :
    (∃ k ≤ p.retries, ∃ e, x.Reaches apiKey req k ∧ x.backoff k = some e ∧
      p.chatCompletion x apiKey req breakers =
        ⟨⟨none, some e⟩, admitted, .allow true :: List.replicate k .attempt⟩) ∨
    (∃ k ≤ p.retries, x.Reaches apiKey req k ∧ x.backoff k = none ∧
      (x.answer k apiKey req).Good ∧
      p.chatCompletion x apiKey req breakers =
        ⟨x.answer k apiKey req, p.recordSuccess admitted,
          .allow true :: (List.replicate (k + 1) .attempt ++ [.success])⟩) ∨
    (x.Reaches apiKey req (p.retries + 1) ∧
      p.chatCompletion x apiKey req breakers =
        ⟨⟨none, some (p.errorOf (x.answer p.retries apiKey req))⟩,
          p.recordFailure x.failedAt admitted,
          .allow true :: (List.replicate (p.retries + 1) .attempt ++ [.failure])⟩) := by
  have hloop := forEach_range_cases (p.attempt x apiKey req) (p.retries + 1)
    (fun k s => x.Reaches apiKey req k ∧ s = p.varsAt x apiKey req admitted k)
    (s := p.varsAt x apiKey req admitted 0) ⟨Course.reaches_zero, rfl⟩ (by
      rintro k - s s' ⟨hreaches, rfl⟩ hbody
      rcases p.attempt_cases x apiKey req admitted k with ⟨e, -, hattempt⟩ | ⟨-, -, hattempt⟩ |
        ⟨hgoOn, hbad, hattempt⟩
      · rw [hattempt] at hbody
        cases hbody
      · rw [hattempt] at hbody
        cases hbody
      · rw [hattempt] at hbody
        cases hbody
        exact ⟨hreaches.succ hbad hgoOn, rfl⟩)
  have hcall : p.chatCompletion x apiKey req breakers =
      p.afterLoop x (forEach (p.attempt x apiKey req) (List.range (p.retries + 1))
        (p.varsAt x apiKey req admitted 0)) := by
    rw [chatCompletion, hadmitted]
    rfl
  rcases hloop with ⟨k, hk, s, r, s', ⟨hreaches, rfl⟩, hreturn, hend⟩ | ⟨s, ⟨hreaches, rfl⟩, hend⟩
  · have hle : k ≤ p.retries := Nat.le_of_lt_succ hk
    rw [hend] at hcall
    rcases p.attempt_cases x apiKey req admitted k with ⟨e, hcut, hattempt⟩ |
      ⟨hgoOn, hgood, hattempt⟩ | ⟨-, -, hattempt⟩
    · rw [hattempt] at hreturn
      cases hreturn
      exact Or.inl ⟨k, hle, e, hreaches, hcut, hcall⟩
    · rw [hattempt] at hreturn
      cases hreturn
      have htrace : (((p.varsAt x apiKey req admitted k).note .attempt).note .success).trace =
          .allow true :: (List.replicate (k + 1) .attempt ++ [.success]) := by
        rw [List.replicate_succ']
        rfl
      exact Or.inr (Or.inl ⟨k, hle, hreaches, hgoOn, hgood, by rw [← htrace]; exact hcall⟩)
    · rw [hattempt] at hreturn
      cases hreturn
  · rw [hend] at hcall
    exact Or.inr (Or.inr ⟨hreaches, hcall⟩)

theorem count_attempts (k : Nat) (events : List BreakerEvent) (hnone : .attempt ∉ events) :
    (BreakerEvent.allow true :: (List.replicate k .attempt ++ events)).count .attempt = k := by
  rw [List.count_cons_of_ne (by decide), List.count_append, List.count_replicate_self,
    List.count_eq_zero_of_not_mem hnone, Nat.add_zero]

/-- A call whose backoff the context ends does what it has to. -/
theorem ResilientProvider.retries_cancelled {e : GoError} (hk : k ≤ p.retries)
    (hreaches : x.Reaches apiKey req k) (hcut : x.backoff k = some e) :
    p.Retries x apiKey req admitted
      ⟨⟨none, some e⟩, admitted, .allow true :: List.replicate k .attempt⟩ := by
  have hcount := count_attempts k [] List.not_mem_nil
  rw [List.append_nil] at hcount
  refine ⟨fun j hj hj' hgoOn hgood => ?_, fun hend => ?_, fun j hj e' hj' hcut' => ?_, ?_, ?_⟩
  · -- the loop does not come past the backoff, nor past the good answer
    obtain rfl := Nat.le_antisymm (hreaches.le_of_good hgood) (hj'.le_of_cut hcut)
    rw [hgoOn] at hcut
    cases hcut
  · exact absurd (hend.le_of_cut hcut) (Nat.not_le_of_lt (Nat.lt_succ_of_le hk))
  · obtain rfl := Nat.le_antisymm (hreaches.le_of_cut hcut') (hj'.le_of_cut hcut)
    obtain rfl := Option.some.inj (hcut.symm.trans hcut')
    rfl
  · rw [hcount]
    exact Nat.le_succ_of_le hk
  · intro j hgood
    rw [hcount]
    exact Nat.le_succ_of_le (hreaches.le_of_good hgood)

/-- So does one with a good answer. -/
theorem ResilientProvider.retries_success (hk : k ≤ p.retries) (hreaches : x.Reaches apiKey req k)
    (hgoOn : x.backoff k = none) (hgood : (x.answer k apiKey req).Good) :
    p.Retries x apiKey req admitted
      ⟨x.answer k apiKey req, p.recordSuccess admitted,
        .allow true :: (List.replicate (k + 1) .attempt ++ [.success])⟩ := by
  have hcount := count_attempts (k + 1) [.success] (by decide)
  refine ⟨fun j hj hj' hgoOn' hgood' => ?_, fun hend => ?_, fun j hj e hj' hcut => ?_, ?_, ?_⟩
  · obtain rfl := Nat.le_antisymm (hreaches.le_of_good hgood') (hj'.le_of_good hgood)
    rfl
  · exact absurd (hend.le_of_good hgood) (Nat.not_le_of_lt (Nat.lt_succ_of_le hk))
  · obtain rfl := Nat.le_antisymm (hreaches.le_of_cut hcut) (hj'.le_of_good hgood)
    rw [hgoOn] at hcut
    cases hcut
  · rw [hcount]
    exact Nat.succ_le_succ hk
  · intro j hgood'
    rw [hcount]
    exact Nat.succ_le_succ (hreaches.le_of_good hgood')

/-- And one that runs out of retries. -/
theorem ResilientProvider.retries_failure (hreaches : x.Reaches apiKey req (p.retries + 1)) :
    p.Retries x apiKey req admitted
      ⟨⟨none, some (p.errorOf (x.answer p.retries apiKey req))⟩,
        p.recordFailure x.failedAt admitted,
        .allow true :: (List.replicate (p.retries + 1) .attempt ++ [.failure])⟩ := by
  have hcount := count_attempts (p.retries + 1) [.failure] (by decide)
  refine ⟨fun j hj _ _ hgood => ?_, fun _ => rfl, fun j hj e _ hcut => ?_, ?_, ?_⟩
  · exact absurd (hreaches.le_of_good hgood) (Nat.not_le_of_lt (Nat.lt_succ_of_le hj))
  · exact absurd (hreaches.le_of_cut hcut) (Nat.not_le_of_lt (Nat.lt_succ_of_le hj))
  · exact Nat.le_of_eq hcount
  · intro j hgood
    rw [hcount]
    exact Nat.le_succ_of_le (hreaches.le_of_good hgood)

/-- **How calls are retried**, whatever the provider answers and wherever the context ends a
backoff: an admitted call ends as `Retries` says, and a call returns an error or a response
that is not empty. -/
theorem ResilientProvider.chatCompletion_retries (p : ResilientProvider β)
    (x : Course ChatCompletionResponse) (apiKey : GoString) (req : ChatCompletionRequest)
    (breakers : β → CircuitBreaker) :
    ((p.allow x.allowedAt breakers).1 = true →
      p.Retries x apiKey req (p.allow x.allowedAt breakers).2
        (p.chatCompletion x apiKey req breakers)) ∧
    ((p.chatCompletion x apiKey req breakers).result.err = none →
      isEmptyResponse (p.chatCompletion x apiKey req breakers).result.value = false ∧
        (p.chatCompletion x apiKey req breakers).result.value ≠ none) := by
  cases hallow : p.allow x.allowedAt breakers with
  | mk allowed admitted =>
    cases allowed with
    | false =>
      refine ⟨fun hno => (by cases hno), fun herr => ?_⟩
      rw [chatCompletion, hallow] at herr
      cases herr
    | true =>
      have hcases := p.chatCompletion_cases x apiKey req hallow
      generalize p.chatCompletion x apiKey req breakers = ran at hcases
      rcases hcases with ⟨k, hk, e, hreaches, hcut, rfl⟩ |
        ⟨k, hk, hreaches, hgoOn, hgood, rfl⟩ | ⟨hreaches, rfl⟩
      · exact ⟨fun _ => retries_cancelled hk hreaches hcut, fun herr => (by cases herr)⟩
      · refine ⟨fun _ => retries_success hk hreaches hgoOn hgood,
          fun _ => ⟨hgood.2, fun hnil => ?_⟩⟩
        have hempty := hgood.2
        rw [hnil] at hempty
        cases hempty
      · exact ⟨fun _ => retries_failure hreaches, fun herr => (by cases herr)⟩

end

/-! ### An answer at last -/

def helloRequest : ChatCompletionRequest where
  model := lit "m"
  messages := [{ role := lit "user", content := .str (lit "hello") }]

def hiResponse : ChatCompletionResponse where
  object := lit "chat.completion"
  model := lit "m"
  choices := [{ message := some { role := lit "assistant", content := .str (lit "hi") } }]

/-- The connection breaks, then the answer is empty, then it is there. -/
def flakyCourse : Course ChatCompletionResponse where
  answer
    | 0, _, _ => ⟨none, some (.text (lit "do request: EOF"))⟩
    | 1, _, _ => ⟨some { hiResponse with choices := [] }, none⟩
    | _, _, _ => ⟨some hiResponse, none⟩
  done _ := none
  allowedAt := 0
  failedAt := 0

/-- What `NewResilientProvider` makes of a provider. -/
def deepseek : ResilientProvider Unit := ⟨lit "deepseek", (), 2⟩

theorem chatCompletion_retries_flakyCourse :
    (deepseek.chatCompletion flakyCourse (lit "key") helloRequest fun _ => newProviderBreaker) =
      ⟨⟨some hiResponse, none⟩, deepseek.recordSuccess fun _ => newProviderBreaker,
        [.allow true, .attempt, .attempt, .attempt, .success]⟩ := by
  have hreaches : flakyCourse.Reaches (lit "key") helloRequest 2 := by
    refine ⟨fun j hj => ?_, fun j _ => ite_self none⟩
    rintro ⟨herr, hempty⟩
    obtain rfl | rfl : j = 0 ∨ j = 1 := by omega
    · cases herr
    · cases hempty
  exact ((deepseek.chatCompletion_retries flakyCourse (lit "key") helloRequest
    fun _ => newProviderBreaker).1 rfl).success 2 (Nat.le_refl 2) hreaches rfl ⟨rfl, rfl⟩

end UniLLM.Provider
