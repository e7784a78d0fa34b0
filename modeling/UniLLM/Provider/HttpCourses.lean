import UniLLM.Provider.FallbackChain
import UniLLM.Provider.UpstreamCalls

/-!
# Retries and chains over HTTP

What the environment does to a call of a provider that speaks HTTP is a course, and so is
what it does at each position of a group.  When nobody else uses the breakers, the calls
over HTTP return what the calls over these courses do, and leave the same breakers.
-/

namespace UniLLM.Provider
open Go OpenAI ForLoop

/-! ### One provider -/

variable (http : Http) (env : Environment)

def GoResult.ofExcept {α : Type} : Except GoString α → GoResult α
  | .error e => ⟨none, some (.text e)⟩
  | .ok value => ⟨some value, none⟩

/-- The provider, with its breaker under its name. -/
def Resilient.toProvider (p : Resilient) : ResilientProvider GoString := ⟨p.name, p.name, p.retries⟩

/-- An attempt, after its tick. -/
def Resilient.attemptOn (p : Resilient) (apiKey : GoString) (req : ChatCompletionRequest)
    (w : Wire) : Except GoString ChatCompletionResponse × Wire :=
  p.inner.chatCompletion http env apiKey req { w with ticks := w.ticks + 1 }

/-- The wire before each attempt. -/
def Resilient.wireAt (p : Resilient) (apiKey : GoString) (req : ChatCompletionRequest) (w : Wire) :
    Nat → Wire
  | 0 => (p.allow env w).2
  | k + 1 => (p.attemptOn http env apiKey req (p.wireAt apiKey req w k)).2

/-- What the environment does during a call. -/
def Resilient.course (p : Resilient) (apiKey : GoString) (req : ChatCompletionRequest) (w : Wire) :
    Course ChatCompletionResponse where
  answer attempt apiKey' req' :=
    .ofExcept (p.attemptOn http env apiKey' req' (p.wireAt http env apiKey req w attempt)).1
  done attempt := (env.cancelled (p.wireAt http env apiKey req w attempt).ticks).map .text
  allowedAt := env.now (w.ticks + 1)
  failedAt := env.now ((p.wireAt http env apiKey req w (p.retries + 1)).ticks + 1)

/-- The loop of attempts is the loop over the course. -/
theorem Resilient.attempts_ran (p : Resilient) (apiKey : GoString) (req : ChatCompletionRequest)
    (w : Wire) (hothers : ∀ n breakers, env.others n breakers = breakers) (left k : Nat)
    (hk : k + left = p.retries + 1) (lastErr : GoString) (s : Vars GoString BreakerEvent)
    (hbreakers : s.breakers = (p.wireAt http env apiKey req w k).breakers)
    (hlastErr : 0 < k → s.lastErr = some (.text lastErr)) :
    let x := p.course http env apiKey req w
    let ran := p.toProvider.afterLoop x
      (forEach (p.toProvider.attempt x apiKey req) (List.range' k left) s)
    let answer := p.attempts http env apiKey req left lastErr (p.wireAt http env apiKey req w k)
    ran.result = .ofExcept answer.1 ∧ ran.breakers = answer.2.breakers := by
  intro x ran answer
  induction left generalizing k lastErr s with
  | zero =>
    have hpos : 0 < k := by omega
    have hran : ran = ⟨⟨none, s.lastErr⟩, p.toProvider.recordFailure x.failedAt s.breakers,
        (s.note .failure).trace⟩ := rfl
    have hanswer :
      answer = (.error lastErr, p.recordFailure env (p.wireAt http env apiKey req w k)) := rfl
    obtain rfl : k = p.retries + 1 := hk
    rw [hran, hanswer, hlastErr hpos, hbreakers, Resilient.recordFailure]
    simp only [hothers]
    exact ⟨rfl, rfl⟩
  | succ left ih =>
    have hnext := ih (k + 1) (by omega)
    rw [wireAt] at hnext
    have hleft : left < p.retries ↔ k > 0 := by omega
    have hbackoff : x.backoff k = (if k > 0 then
        env.cancelled (p.wireAt http env apiKey req w k).ticks else none).map .text := by
      unfold Course.backoff
      split <;> rfl
    have hcalled : x.answer k apiKey req =
        .ofExcept (p.attemptOn http env apiKey req (p.wireAt http env apiKey req w k)).1 := rfl
    simp only [ran, answer, List.range'_succ, Resilient.attempts, hleft]
    generalize p.wireAt http env apiKey req w k = u at hbreakers hnext hbackoff hcalled ⊢
    have hframe : (p.attemptOn http env apiKey req u).2.breakers = u.breakers :=
      (p.inner.chatCompletion_log http env apiKey req { u with ticks := u.ticks + 1 }).1
    have hattempt : p.inner.chatCompletion http env apiKey req { u with ticks := u.ticks + 1 } =
      p.attemptOn http env apiKey req u := rfl
    rw [hattempt]
    cases hended : (if k > 0 then env.cancelled u.ticks else none) with
    | some e =>
      rw [hended] at hbackoff
      rw [forEach_cons_return (ResilientProvider.attempt_cut hbackoff)]
      exact ⟨rfl, hbreakers⟩
    | none =>
      rw [hended] at hbackoff
      cases hcall : p.attemptOn http env apiKey req u with
      | mk called v =>
        rw [hcall] at hcalled hnext hframe
        have hbreakers' : (s.note .attempt).breakers = v.breakers := hbreakers.trans hframe.symm
        cases called with
        | error e =>
          rw [forEach_cons_goOn (ResilientProvider.attempt_err hbackoff hcalled)]
          exact hnext e _ hbreakers' fun _ => rfl
        | ok resp =>
          cases hempty : isEmptyOutput resp with
          | true =>
            rw [forEach_cons_goOn (ResilientProvider.attempt_empty hbackoff hcalled hempty)]
            simp only [hempty, if_true]
            exact hnext (lit "empty output from provider " ++ p.name)
              { s.note .attempt with lastErr := some p.toProvider.emptyError } hbreakers'
              fun _ => rfl
          | false =>
            rw [forEach_cons_return (ResilientProvider.attempt_good hbackoff hcalled hempty),
              hbreakers, ← hframe]
            simp only [hempty, Resilient.recordSuccess, hothers]
            exact ⟨rfl, rfl⟩

theorem Resilient.allow_toProvider (p : Resilient) (w : Wire)
    (hothers : ∀ n breakers, env.others n breakers = breakers) :
    p.toProvider.allow (env.now (w.ticks + 1)) w.breakers =
      ((p.allow env w).1, (p.allow env w).2.breakers) := by
  simp only [Resilient.allow, hothers]
  rfl

/-- **The two models of a call agree**: when nobody else uses the breakers, a call over HTTP
returns what it does over its course, and leaves the same breakers. -/
theorem Resilient.chatCompletion_ran (p : Resilient) (apiKey : GoString)
    (req : ChatCompletionRequest) (w : Wire)
    (hothers : ∀ n breakers, env.others n breakers = breakers) :
    let ran := p.toProvider.chatCompletion (p.course http env apiKey req w) apiKey req w.breakers
    let answer := p.chatCompletion http env apiKey req w
    ran.result = .ofExcept answer.1 ∧ ran.breakers = answer.2.breakers := by
  intro ran answer
  have hallow : p.toProvider.allow (env.now (w.ticks + 1)) w.breakers =
      ((p.allow env w).1, (p.allow env w).2.breakers) := p.allow_toProvider env w hothers
  have hran : ran = p.toProvider.chatCompletion (p.course http env apiKey req w) apiKey req
    w.breakers := rfl
  have hanswer : answer = p.chatCompletion http env apiKey req w := rfl
  have hat : (p.course http env apiKey req w).allowedAt = env.now (w.ticks + 1) := rfl
  rw [ResilientProvider.chatCompletion, hat, hallow] at hran
  rw [Resilient.chatCompletion] at hanswer
  cases hallowed : p.allow env w with
  | mk allowed v =>
    rw [hallowed] at hran hanswer
    cases allowed with
    | false =>
      rw [hran, hanswer]
      exact ⟨rfl, rfl⟩
    | true =>
      have hwire : p.wireAt http env apiKey req w 0 = v := by
        rw [Resilient.wireAt, hallowed]
      have hloop := p.attempts_ran http env apiKey req w hothers (p.retries + 1) 0 (Nat.zero_add _)
        [] ⟨none, v.breakers, [.allow true]⟩ (congrArg Wire.breakers hwire.symm)
        (fun hpos => absurd hpos (Nat.lt_irrefl 0))
      rw [hwire, ← List.range_eq_range'] at hloop
      rw [hran, hanswer]
      exact hloop

theorem Direct.chatCompletionStream_breakers (p : Direct) (apiKey : GoString)
    (req : ChatCompletionRequest) (w : Wire) :
    (p.chatCompletionStream http env apiKey req w).2.breakers = w.breakers := by
  unfold chatCompletionStream
  cases p.marshalError http req with
  | some e => rfl
  | none => cases p <;> exact (exchange_log _ _ _).1

/-- What the environment does when a stream is opened. -/
def Resilient.streamCourse (p : Resilient) (apiKey : GoString) (req : ChatCompletionRequest)
    (w : Wire) : Course Source where
  answer _ apiKey' req' :=
    .ofExcept (p.inner.chatCompletionStream http env apiKey' req' (p.allow env w).2).1
  done _ := none
  allowedAt := env.now (w.ticks + 1)
  failedAt :=
    env.now ((p.inner.chatCompletionStream http env apiKey req (p.allow env w).2).2.ticks + 1)

theorem Resilient.chatCompletionStream_ran (p : Resilient) (apiKey : GoString)
    (req : ChatCompletionRequest) (w : Wire)
    (hothers : ∀ n breakers, env.others n breakers = breakers) :
    let ran := p.toProvider.chatCompletionStream (p.streamCourse http env apiKey req w) apiKey req
      w.breakers
    let answer := p.chatCompletionStream http env apiKey req w
    ran.result = .ofExcept answer.1 ∧ ran.breakers = answer.2.breakers := by
  intro ran answer
  have hallow : p.toProvider.allow (env.now (w.ticks + 1)) w.breakers =
      ((p.allow env w).1, (p.allow env w).2.breakers) := p.allow_toProvider env w hothers
  have hran : ran = p.toProvider.chatCompletionStream (p.streamCourse http env apiKey req w) apiKey
    req w.breakers := rfl
  have hanswer : answer = p.chatCompletionStream http env apiKey req w := rfl
  have hat : (p.streamCourse http env apiKey req w).allowedAt = env.now (w.ticks + 1) := rfl
  have hfailed : (p.streamCourse http env apiKey req w).failedAt = env.now
    ((p.inner.chatCompletionStream http env apiKey req (p.allow env w).2).2.ticks + 1) := rfl
  have hopened : (p.streamCourse http env apiKey req w).answer 0 apiKey req =
    .ofExcept (p.inner.chatCompletionStream http env apiKey req (p.allow env w).2).1 := rfl
  have hframe := p.inner.chatCompletionStream_breakers http env apiKey req (p.allow env w).2
  rw [ResilientProvider.chatCompletionStream, hat, hallow, hopened, hfailed] at hran
  rw [Resilient.chatCompletionStream] at hanswer
  cases hallowed : p.allow env w with
  | mk allowed v =>
    rw [hallowed] at hran hanswer hframe
    cases allowed with
    | false =>
      rw [hran, hanswer]
      exact ⟨rfl, rfl⟩
    | true =>
      simp only at hran hanswer hframe
      cases hcall : p.inner.chatCompletionStream http env apiKey req v with
      | mk called u =>
        rw [hcall] at hran hanswer hframe
        cases called with
        | error e =>
          rw [hran, hanswer]
          simp only [Resilient.recordFailure, hothers]
          rw [← hframe]
          exact ⟨rfl, rfl⟩
        | ok stream =>
          rw [hran, hanswer]
          simp only [Resilient.recordSuccess, hothers]
          rw [← hframe]
          exact ⟨rfl, rfl⟩

/-! ### Groups -/

section

variable {α : Type}

/-- The pair that an answer over HTTP stands for.  Of an error the text is known. -/
def GoResult.Shows (r : GoResult α) : Except GoString α → Prop
  | .error e => r.value = none ∧ ∃ err, r.err = some err ∧ err.error = e
  | .ok value => r = ⟨some value, none⟩

theorem GoResult.shows_of_eq {r : GoResult α} {answer : Except GoString α}
    (h : r = .ofExcept answer) : r.Shows answer := by
  subst h
  cases answer with
  | error e => exact ⟨rfl, _, rfl, rfl⟩
  | ok value => rfl

/-- What `%w` prints. -/
def printed : Option GoError → GoString
  | none => nilError
  | some e => e.error

theorem FallbackProvider.error_failedError {β : Type} (f : FallbackProvider β)
    (lastErr : Option GoError) : (f.failedError lastErr).error =
      lit "all providers in fallback chain '" ++ f.name ++ lit "' failed: " ++ printed lastErr := by
  cases lastErr <;> rfl

def Fallback.toProvider (f : Fallback) : FallbackProvider GoString :=
  ⟨f.name, f.providers.map Resilient.toProvider, f.apiKeys⟩

/-- The wire before each position. -/
def wireBefore (method : Resilient → Wire → Except GoString α × Wire) :
    List Resilient → Wire → Nat → Wire
  | [], w, _ => w
  | _ :: _, w, 0 => w
  | p :: providers, w, i + 1 => wireBefore method providers (method p w).2 i

/-- The call of a position does what the method does on the wire. -/
def Follows (method : Resilient → Wire → Except GoString α × Wire) (p : Resilient) (w : Wire)
    (ran : Ran GoString BreakerEvent α) : Prop :=
  ran.result.Shows (method p w).1 ∧ ran.breakers = (method p w).2.breakers

/-- If it does at every position, the loops agree. -/
theorem tryAll_ran (f : FallbackProvider GoString)
    (method : Resilient → Wire → Except GoString α × Wire) (call : ChainCall GoString α)
    (providers : List Resilient) (k : Nat) (lastErr : GoString) (w : Wire)
    (s : Vars GoString (Nat × BreakerEvent))
    (hcall : ∀ i p, providers[i]? = some p → Follows method p (wireBefore method providers w i)
      (call (k + i) p.toProvider (wireBefore method providers w i).breakers))
    (hbreakers : s.breakers = w.breakers) (hlastErr : printed s.lastErr = lastErr) :
    let ran := f.afterLoop
      (forEach (FallbackProvider.tryNext call) ((providers.map Resilient.toProvider).zipIdx k) s)
    let answer := tryAll f.name method providers lastErr w
    ran.result.Shows answer.1 ∧ ran.breakers = answer.2.breakers := by
  intro ran answer
  induction providers generalizing k lastErr w s with
  | nil =>
    refine ⟨⟨rfl, _, rfl, ?_⟩, hbreakers⟩
    rw [f.error_failedError]
    exact congrArg _ hlastErr
  | cons p providers ih =>
    obtain ⟨hresult, hleft⟩ : Follows method p w (call k p.toProvider s.breakers) := by
      rw [hbreakers]
      exact hcall 0 p rfl
    have hanswer : answer = tryAll f.name method (p :: providers) lastErr w := rfl
    have hran : ran = f.afterLoop (forEach (FallbackProvider.tryNext call)
      ((p.toProvider, k) :: (providers.map Resilient.toProvider).zipIdx (k + 1)) s) := rfl
    rw [tryAll] at hanswer
    cases hmethod : method p w with
    | mk called v =>
      rw [hmethod] at hresult hleft hanswer
      cases called with
      | error e =>
        obtain ⟨-, err, herr, htext⟩ := hresult
        rw [hran, hanswer, forEach_cons_goOn (FallbackProvider.tryNext_err herr)]
        refine ih (k + 1) e v _ (fun i q hq => ?_) hleft htext
        have hlater := hcall (i + 1) q hq
        rw [wireBefore, hmethod, Nat.add_comm i 1, ← Nat.add_assoc] at hlater
        exact hlater
      | ok value =>
        have hsome : (call k p.toProvider s.breakers).result = ⟨some value, none⟩ := hresult
        have hok : (call k p.toProvider s.breakers).result.err = none := by rw [hsome]
        rw [hran, hanswer, forEach_cons_return (FallbackProvider.tryNext_ok hok)]
        exact ⟨hresult, hleft⟩

/-- The course of each position of a group. -/
def Fallback.course (f : Fallback) (course : Resilient → Wire → Course α)
    (method : Resilient → Wire → Except GoString α × Wire) (w : Wire) (i : Nat) : Course α :=
  match f.providers[i]? with
  | some p => course p (wireBefore method f.providers w i)
  | none => ⟨fun _ _ _ => ⟨none, none⟩, fun _ => none, 0, 0⟩

theorem Fallback.course_eq {f : Fallback} {course : Resilient → Wire → Course α}
    {method : Resilient → Wire → Except GoString α × Wire} {w : Wire} {i : Nat} {p : Resilient}
    (hp : f.providers[i]? = some p) :
    f.course course method w (0 + i) = course p (wireBefore method f.providers w i) := by
  rw [Nat.zero_add, Fallback.course, hp]

/-- **The two models of a group agree**, in both methods. -/
theorem Fallback.chatCompletion_ran (f : Fallback) (apiKey : GoString)
    (req : ChatCompletionRequest) (w : Wire)
    (hothers : ∀ n breakers, env.others n breakers = breakers) :
    let x := f.course (fun p => p.course http env (f.key apiKey p) req)
      (fun p => p.chatCompletion http env (f.key apiKey p) req) w
    let ran := f.toProvider.chatCompletion x apiKey req w.breakers
    let answer := f.chatCompletion http env apiKey req w
    ran.result.Shows answer.1 ∧ ran.breakers = answer.2.breakers := by
  intro x
  refine tryAll_ran f.toProvider (fun p => p.chatCompletion http env (f.key apiKey p) req)
    (f.toProvider.completionCall x apiKey req) f.providers 0 nilError w ⟨none, w.breakers, []⟩
    (fun i p hp => ?_) rfl rfl
  have hx : x (0 + i) = p.course http env (f.key apiKey p) req
    (wireBefore (fun p => p.chatCompletion http env (f.key apiKey p) req) f.providers w i) :=
    Fallback.course_eq hp
  obtain ⟨hresult, hleft⟩ := p.chatCompletion_ran http env (f.key apiKey p) req
    (wireBefore (fun p => p.chatCompletion http env (f.key apiKey p) req) f.providers w i) hothers
  rw [← hx] at hresult hleft
  exact ⟨GoResult.shows_of_eq hresult, hleft⟩

theorem Fallback.chatCompletionStream_ran (f : Fallback) (apiKey : GoString)
    (req : ChatCompletionRequest) (w : Wire)
    (hothers : ∀ n breakers, env.others n breakers = breakers) :
    let x := f.course (fun p => p.streamCourse http env (f.key apiKey p) req)
      (fun p => p.chatCompletionStream http env (f.key apiKey p) req) w
    let ran := f.toProvider.chatCompletionStream x apiKey req w.breakers
    let answer := f.chatCompletionStream http env apiKey req w
    ran.result.Shows answer.1 ∧ ran.breakers = answer.2.breakers := by
  intro x
  refine tryAll_ran f.toProvider (fun p => p.chatCompletionStream http env (f.key apiKey p) req)
    (f.toProvider.streamCall x apiKey req) f.providers 0 nilError w ⟨none, w.breakers, []⟩
    (fun i p hp => ?_) rfl rfl
  have hx : x (0 + i) = p.streamCourse http env (f.key apiKey p) req
    (wireBefore (fun p => p.chatCompletionStream http env (f.key apiKey p) req) f.providers w i) :=
    Fallback.course_eq hp
  obtain ⟨hresult, hleft⟩ := p.chatCompletionStream_ran http env (f.key apiKey p) req
    (wireBefore (fun p => p.chatCompletionStream http env (f.key apiKey p) req) f.providers w i)
    hothers
  rw [← hx] at hresult hleft
  exact ⟨GoResult.shows_of_eq hresult, hleft⟩

end

end UniLLM.Provider
