import UniLLM.Provider.Retries

/-!
# How a chain falls back

`FallbackProvider` tries its providers in order.  Each is a `ResilientProvider`, and several
positions may hold the same one, or share a breaker: a position finds the breakers as the
ones before have left them.
-/

namespace UniLLM.Provider
open Go OpenAI ForLoop

/-- Tries multiple providers in order until one succeeds. -/
structure FallbackProvider (β : Type) where
  name : GoString
  providers : List (ResilientProvider β)
  /-- Provider name to API key. -/
  apiKeys : GoString → Option GoString

/-- The call of a provider at a position of the chain. -/
abbrev ChainCall (β α : Type) :=
  (position : Nat) → ResilientProvider β → (β → CircuitBreaker) → Ran β BreakerEvent α

variable {β : Type} {α : Type}

namespace FallbackProvider

/-- The provider's own API key if configured, otherwise the passed key. -/
def key [DecidableEq β] (f : FallbackProvider β) (apiKey : GoString) (prov : ResilientProvider β) :
    GoString :=
  (f.apiKeys prov.name).getD apiKey

/-- The error when all have failed; of a nil error `%w` prints a placeholder. -/
def failedError (f : FallbackProvider β) (lastErr : Option GoError) : GoError :=
  let text := lit "all providers in fallback chain '" ++ f.name ++ lit "' failed: "
  match lastErr with
  | none => .text (text ++ nilError)
  | some e => .wrap text e

/-- The body of the loop of both methods. -/
def tryNext (call : ChainCall β α) (prov : ResilientProvider β × Nat)
    (s : Vars β (Nat × BreakerEvent)) : Option (GoResult α) × Vars β (Nat × BreakerEvent) :=
  let answer := call prov.2 prov.1 s.breakers
  let trace := s.trace ++ answer.trace.map (Prod.mk prov.2)
  match answer.result.err with
  | none => (some answer.result, ⟨s.lastErr, answer.breakers, trace⟩)
  | some e => (none, ⟨some e, answer.breakers, trace⟩)

/-- After the loop. -/
def afterLoop (f : FallbackProvider β) :
    Option (GoResult α) × Vars β (Nat × BreakerEvent) → Ran β (Nat × BreakerEvent) α
  | (some result, s) => ⟨result, s.breakers, s.trace⟩
  | (none, s) => ⟨⟨none, some (f.failedError s.lastErr)⟩, s.breakers, s.trace⟩

/-- Both methods, which differ in what they call. -/
def tryAll (f : FallbackProvider β) (call : ChainCall β α) (breakers : β → CircuitBreaker) :
    Ran β (Nat × BreakerEvent) α :=
  f.afterLoop (forEach (tryNext call) f.providers.zipIdx ⟨none, breakers, []⟩)

variable [DecidableEq β]

/-- `x` has the course of the call at each position. -/
def completionCall (f : FallbackProvider β) (x : Nat → Course ChatCompletionResponse)
    (apiKey : GoString) (req : ChatCompletionRequest) : ChainCall β ChatCompletionResponse :=
  fun position prov => prov.chatCompletion (x position) (f.key apiKey prov) req

def streamCall (f : FallbackProvider β) (x : Nat → Course Source) (apiKey : GoString)
    (req : ChatCompletionRequest) : ChainCall β Source :=
  fun position prov => prov.chatCompletionStream (x position) (f.key apiKey prov) req

def chatCompletion (f : FallbackProvider β) (x : Nat → Course ChatCompletionResponse)
    (apiKey : GoString) (req : ChatCompletionRequest) (breakers : β → CircuitBreaker) :
    Ran β (Nat × BreakerEvent) ChatCompletionResponse :=
  f.tryAll (f.completionCall x apiKey req) breakers

def chatCompletionStream (f : FallbackProvider β) (x : Nat → Course Source) (apiKey : GoString)
    (req : ChatCompletionRequest) (breakers : β → CircuitBreaker) :
    Ran β (Nat × BreakerEvent) Source :=
  f.tryAll (f.streamCall x apiKey req) breakers

end FallbackProvider

/-! ### Positions -/

namespace FallbackProvider

variable (f : FallbackProvider β) (call : ChainCall β α) (breakers : β → CircuitBreaker)

/-- The breakers that the positions before this one leave. -/
def breakersAt : Nat → β → CircuitBreaker
  | 0 => breakers
  | i + 1 =>
    match f.providers[i]? with
    | some prov => (call i prov (breakersAt i)).breakers
    | none => breakersAt i

/-- The call at a position with these breakers. -/
def callAt (i : Nat) : Option (Ran β BreakerEvent α) :=
  (f.providers[i]?).map fun prov => call i prov (f.breakersAt call breakers i)

def Succeeds (i : Nat) : Prop :=
  ∃ answer, f.callAt call breakers i = some answer ∧ answer.result.err = none

/-- What the positions before this one do. -/
def traceTo (n : Nat) : List (Nat × BreakerEvent) :=
  (List.range n).flatMap fun i =>
    match f.callAt call breakers i with
    | some answer => answer.trace.map (Prod.mk i)
    | none => []

/-- The positions that ask their breaker, in order. -/
def asked (trace : List (Nat × BreakerEvent)) : List Nat :=
  trace.filterMap fun
    | (i, .allow _) => some i
    | _ => none

variable [DecidableEq β]

/-- How a call of a chain ends; `now` is the clock when a position asks its breaker. -/
structure FallsBack (now : Nat → Int) (ran : Ran β (Nat × BreakerEvent) α) : Prop where
  /-- The first position that succeeds gives the result, and no later one does anything. -/
  first : ∀ i answer, f.callAt call breakers i = some answer → answer.result.err = none →
    (∀ j < i, ¬ f.Succeeds call breakers j) →
      ran = ⟨answer.result, answer.breakers, f.traceTo call breakers (i + 1)⟩ ∧
        asked ran.trace = List.range (i + 1)
  error_iff : ran.result.err ≠ none ↔ ∀ i, ¬ f.Succeeds call breakers i
  /-- When none succeeds each is tried once, and the error wraps the last one. -/
  exhausted : (∀ i, ¬ f.Succeeds call breakers i) →
    ∃ last e, f.callAt call breakers (f.providers.length - 1) = some last ∧
      last.result.err = some e ∧
      ran = ⟨⟨none, some (.wrap
          (lit "all providers in fallback chain '" ++ f.name ++ lit "' failed: ") e)⟩,
        last.breakers, f.traceTo call breakers f.providers.length⟩ ∧
      asked ran.trace = List.range f.providers.length
  /-- A position that is refused makes no call. -/
  refused : ∀ i prov answer, f.providers[i]? = some prov →
    f.callAt call breakers i = some answer →
    (prov.allow (now i) (f.breakersAt call breakers i)).1 = false → answer.trace = [.allow false]

end FallbackProvider

/-! ### A position asks once -/

/-- The trace of a call that asks its breaker first, and once. -/
def AsksOnce (admitted : Bool) (trace : List BreakerEvent) : Prop :=
  ∃ events, trace = .allow admitted :: events ∧ (∀ a, .allow a ∉ events) ∧
    (admitted = false → events = [])

section

variable [DecidableEq β]

theorem asksOnce_attempts (k : Nat) {events : List BreakerEvent} (hnone : ∀ a, .allow a ∉ events) :
    AsksOnce true (.allow true :: (List.replicate k .attempt ++ events)) := by
  refine ⟨_, rfl, fun a hmem => ?_, fun hno => (by cases hno)⟩
  rcases List.mem_append.mp hmem with hattempt | hevent
  · cases List.eq_of_mem_replicate hattempt
  · exact hnone a hevent

theorem ResilientProvider.chatCompletion_asksOnce (p : ResilientProvider β)
    (x : Course ChatCompletionResponse) (apiKey : GoString) (req : ChatCompletionRequest)
    (breakers : β → CircuitBreaker) :
    AsksOnce (p.allow x.allowedAt breakers).1 (p.chatCompletion x apiKey req breakers).trace := by
  cases hallow : p.allow x.allowedAt breakers with
  | mk allowed admitted =>
    cases allowed with
    | false =>
      rw [chatCompletion, hallow]
      exact ⟨[], rfl, fun _ => List.not_mem_nil, fun _ => rfl⟩
    | true =>
      rcases p.chatCompletion_cases x apiKey req hallow with ⟨k, -, e, -, -, hran⟩ |
        ⟨k, -, -, -, -, hran⟩ | ⟨-, hran⟩
      · rw [hran, ← List.append_nil (List.replicate k BreakerEvent.attempt)]
        exact asksOnce_attempts k fun _ => List.not_mem_nil
      · rw [hran]
        exact asksOnce_attempts (k + 1) (by simp)
      · rw [hran]
        exact asksOnce_attempts (p.retries + 1) (by simp)

theorem ResilientProvider.chatCompletionStream_asksOnce (p : ResilientProvider β)
    (x : Course Source) (apiKey : GoString) (req : ChatCompletionRequest)
    (breakers : β → CircuitBreaker) :
    AsksOnce (p.allow x.allowedAt breakers).1
      (p.chatCompletionStream x apiKey req breakers).trace := by
  unfold chatCompletionStream
  cases p.allow x.allowedAt breakers with
  | mk allowed admitted =>
    cases allowed with
    | false => exact ⟨[], rfl, fun _ => List.not_mem_nil, fun _ => rfl⟩
    | true =>
      cases x.answer 0 apiKey req with
      | mk stream err =>
        cases err with
        | none => exact ⟨[.attempt, .success], rfl, by simp, fun hno => (by cases hno)⟩
        | some e => exact ⟨[.attempt, .failure], rfl, by simp, fun hno => (by cases hno)⟩

end

/-! ### The loop -/

namespace FallbackProvider

variable {f : FallbackProvider β} {call : ChainCall β α} {breakers : β → CircuitBreaker}
  {prov : ResilientProvider β} {i : Nat}

theorem tryNext_ok {s : Vars β (Nat × BreakerEvent)}
    (hok : (call i prov s.breakers).result.err = none) :
    tryNext call (prov, i) s = (some (call i prov s.breakers).result,
      ⟨s.lastErr, (call i prov s.breakers).breakers,
        s.trace ++ (call i prov s.breakers).trace.map (Prod.mk i)⟩) := by
  simp only [tryNext, hok]

theorem tryNext_err {s : Vars β (Nat × BreakerEvent)} {e : GoError}
    (herr : (call i prov s.breakers).result.err = some e) :
    tryNext call (prov, i) s = (none, ⟨some e, (call i prov s.breakers).breakers,
      s.trace ++ (call i prov s.breakers).trace.map (Prod.mk i)⟩) := by
  simp only [tryNext, herr]

theorem callAt_eq (h : f.providers[i]? = some prov) :
    f.callAt call breakers i = some (call i prov (f.breakersAt call breakers i)) := by
  rw [callAt, h, Option.map_some]

theorem breakersAt_succ (h : f.providers[i]? = some prov) :
    f.breakersAt call breakers (i + 1) =
      (call i prov (f.breakersAt call breakers i)).breakers := by
  rw [breakersAt, h]

theorem traceTo_succ (h : f.providers[i]? = some prov) :
    f.traceTo call breakers (i + 1) = f.traceTo call breakers i ++
      (call i prov (f.breakersAt call breakers i)).trace.map (Prod.mk i) := by
  rw [traceTo, List.range_succ, List.flatMap_append, List.flatMap_singleton, callAt_eq h]
  rfl

theorem not_succeeds (h : f.providers[i]? = some prov) {e : GoError}
    (herr : (call i prov (f.breakersAt call breakers i)).result.err = some e) :
    ¬ f.Succeeds call breakers i := by
  rintro ⟨answer, hanswer, hnone⟩
  rw [callAt_eq h] at hanswer
  cases hanswer
  rw [herr] at hnone
  cases hnone

/-- The error that the positions before this one leave. -/
def lastErrAt (f : FallbackProvider β) (call : ChainCall β α) (breakers : β → CircuitBreaker) :
    Nat → Option GoError
  | 0 => none
  | i + 1 => (f.callAt call breakers i).bind (·.result.err)

/-- What the loop makes of the variables, when all positions before have failed. -/
def varsAt (f : FallbackProvider β) (call : ChainCall β α) (breakers : β → CircuitBreaker)
    (i : Nat) : Vars β (Nat × BreakerEvent) :=
  ⟨f.lastErrAt call breakers i, f.breakersAt call breakers i, f.traceTo call breakers i⟩

/-- What one position does. -/
theorem tryNext_cases (call : ChainCall β α) (breakers : β → CircuitBreaker)
    (h : f.providers[i]? = some prov) :
    (∃ answer, f.callAt call breakers i = some answer ∧ answer.result.err = none ∧
      tryNext call (prov, i) (f.varsAt call breakers i) =
        (some answer.result, ⟨f.lastErrAt call breakers i, answer.breakers,
          f.traceTo call breakers (i + 1)⟩)) ∨
    (¬ f.Succeeds call breakers i ∧
      tryNext call (prov, i) (f.varsAt call breakers i) =
        (none, f.varsAt call breakers (i + 1))) := by
  cases herr : (call i prov (f.breakersAt call breakers i)).result.err with
  | none =>
    refine Or.inl ⟨_, callAt_eq h, herr, ?_⟩
    rw [traceTo_succ h]
    exact tryNext_ok herr
  | some e =>
    refine Or.inr ⟨not_succeeds h herr, ?_⟩
    rw [varsAt, varsAt, lastErrAt, callAt_eq h, Option.bind_some, herr, breakersAt_succ h,
      traceTo_succ h]
    exact tryNext_err herr

/-- What follows of the loop. -/
theorem tryAll_cases (f : FallbackProvider β) (call : ChainCall β α)
    (breakers : β → CircuitBreaker) :
    (∃ i < f.providers.length, ∃ answer, f.callAt call breakers i = some answer ∧
      answer.result.err = none ∧ (∀ j < i, ¬ f.Succeeds call breakers j) ∧
      f.tryAll call breakers =
        ⟨answer.result, answer.breakers, f.traceTo call breakers (i + 1)⟩) ∨
    ((∀ j < f.providers.length, ¬ f.Succeeds call breakers j) ∧
      f.tryAll call breakers =
        ⟨⟨none, some (f.failedError (f.lastErrAt call breakers f.providers.length))⟩,
          f.breakersAt call breakers f.providers.length,
          f.traceTo call breakers f.providers.length⟩) := by
  have hloop := forEach_zipIdx_cases (tryNext call) f.providers
    (fun i s => (∀ j < i, ¬ f.Succeeds call breakers j) ∧ s = f.varsAt call breakers i)
    (s := f.varsAt call breakers 0) ⟨fun _ hj => absurd hj (Nat.not_lt_zero _), rfl⟩ (by
      rintro i prov s s' hprov ⟨hbefore, rfl⟩ hbody
      rcases tryNext_cases call breakers hprov with ⟨answer, -, -, hnext⟩ | ⟨hfails, hnext⟩
      · rw [hnext] at hbody
        cases hbody
      · rw [hnext] at hbody
        cases hbody
        refine ⟨fun j hj => ?_, rfl⟩
        rcases Nat.lt_succ_iff_lt_or_eq.mp hj with hlt | rfl
        · exact hbefore j hlt
        · exact hfails)
  have hcall : f.tryAll call breakers =
      f.afterLoop (forEach (tryNext call) f.providers.zipIdx (f.varsAt call breakers 0)) := rfl
  rcases hloop with ⟨i, prov, s, r, s', hprov, ⟨hbefore, rfl⟩, hreturn, hend⟩ |
    ⟨s, ⟨hall, rfl⟩, hend⟩
  · obtain ⟨hi, -⟩ := List.getElem?_eq_some_iff.mp hprov
    rcases tryNext_cases call breakers hprov with ⟨answer, hanswer, herr, hnext⟩ | ⟨-, hnext⟩
    · rw [hnext] at hreturn
      cases hreturn
      rw [hend] at hcall
      exact Or.inl ⟨i, hi, answer, hanswer, herr, hbefore, hcall⟩
    · rw [hnext] at hreturn
      cases hreturn
  · rw [hend] at hcall
    exact Or.inr ⟨hall, hcall⟩

/-! ### The result -/

/-- Each position of the chain that is tried asks once. -/
theorem asked_traceTo {now : Nat → Int} [DecidableEq β]
    (hasks : ∀ i prov breakers,
      AsksOnce (prov.allow (now i) breakers).1 (call i prov breakers).trace)
    {n : Nat} (hn : n ≤ f.providers.length) :
    asked (f.traceTo call breakers n) = List.range n := by
  induction n with
  | zero => rfl
  | succ n ih =>
    have hprov : f.providers[n]? = some (f.providers[n]) := List.getElem?_eq_getElem hn
    obtain ⟨events, htrace, hnone, -⟩ := hasks n f.providers[n] (f.breakersAt call breakers n)
    have hrest : asked (events.map (Prod.mk n)) = [] := by
      rw [asked, List.filterMap_eq_nil_iff]
      intro x hx
      obtain ⟨event, hevent, rfl⟩ := List.mem_map.mp hx
      cases event with
      | allow a => exact absurd hevent (hnone a)
      | attempt => rfl
      | success => rfl
      | failure => rfl
    have hone :
        asked ((call n f.providers[n] (f.breakersAt call breakers n)).trace.map (Prod.mk n)) =
          [n] := by
      rw [htrace, List.map_cons]
      exact congrArg (List.cons n) hrest
    rw [traceTo_succ hprov, asked, List.filterMap_append]
    have hbefore := ih (Nat.le_of_succ_le hn)
    rw [asked] at hbefore hone
    rw [hbefore, hone, List.range_succ]

/-- A position outside the chain does not succeed. -/
theorem not_succeeds_of_length_le (hi : f.providers.length ≤ i) : ¬ f.Succeeds call breakers i := by
  rintro ⟨answer, hanswer, -⟩
  rw [callAt, List.getElem?_eq_none hi] at hanswer
  cases hanswer

/-- The last position of a chain in which none succeeds. -/
theorem exists_last (hne : f.providers ≠ []) (hnone : ∀ i, ¬ f.Succeeds call breakers i) :
    ∃ last e, f.callAt call breakers (f.providers.length - 1) = some last ∧
      last.result.err = some e ∧ f.lastErrAt call breakers f.providers.length = some e ∧
      f.breakersAt call breakers f.providers.length = last.breakers := by
  obtain ⟨n, hn⟩ := Nat.exists_eq_succ_of_ne_zero (List.length_pos_iff.mpr hne).ne'
  have hlt : n < f.providers.length := by rw [hn]; exact Nat.lt_succ_self n
  have hprov : f.providers[n]? = some (f.providers[n]) := List.getElem?_eq_getElem hlt
  have hcall : f.callAt call breakers n = _ := callAt_eq hprov
  cases herr : (call n f.providers[n] (f.breakersAt call breakers n)).result.err with
  | none => exact absurd ⟨_, hcall, herr⟩ (hnone n)
  | some e =>
    rw [hn, Nat.succ_eq_add_one, Nat.add_sub_cancel]
    refine ⟨_, e, hcall, herr, ?_, breakersAt_succ hprov⟩
    rw [lastErrAt, hcall, Option.bind_some, herr]

/-- A chain falls back, whatever its providers are, if each asks its breaker once. -/
theorem tryAll_fallsBack [DecidableEq β] (hne : f.providers ≠ []) {now : Nat → Int}
    (hasks : ∀ i prov breakers,
      AsksOnce (prov.allow (now i) breakers).1 (call i prov breakers).trace) :
    f.FallsBack call breakers now (f.tryAll call breakers) := by
  have hrefused : ∀ i prov answer, f.providers[i]? = some prov →
      f.callAt call breakers i = some answer →
      (prov.allow (now i) (f.breakersAt call breakers i)).1 = false →
      answer.trace = [.allow false] := by
    intro i prov answer hprov hanswer hno
    rw [callAt_eq hprov] at hanswer
    cases hanswer
    obtain ⟨events, htrace, -, hnil⟩ := hasks i prov (f.breakersAt call breakers i)
    rw [htrace, hnil hno, hno]
  rcases f.tryAll_cases call breakers with
    ⟨i, hi, answer, hanswer, herr, hbefore, hran⟩ | ⟨hall, hran⟩
  · have hsucceeds : f.Succeeds call breakers i := ⟨answer, hanswer, herr⟩
    rw [hran]
    refine ⟨fun j answer' hanswer' herr' hbefore' => ?_, ?_,
      fun hnone => absurd hsucceeds (hnone i), hrefused⟩
    · -- there is one first position
      obtain rfl : j = i := Nat.le_antisymm
        (Nat.le_of_not_lt fun hlt => hbefore' i hlt hsucceeds)
        (Nat.le_of_not_lt fun hlt => hbefore j hlt ⟨answer', hanswer', herr'⟩)
      rw [hanswer] at hanswer'
      cases hanswer'
      exact ⟨rfl, asked_traceTo hasks hi⟩
    · exact ⟨fun hno => absurd herr hno, fun hnone => absurd hsucceeds (hnone i)⟩
  · have hnone : ∀ i, ¬ f.Succeeds call breakers i := by
      intro i
      rcases Nat.lt_or_ge i f.providers.length with hlt | hge
      · exact hall i hlt
      · exact not_succeeds_of_length_le hge
    rw [hran]
    refine ⟨fun j answer' hanswer' herr' _ => absurd ⟨answer', hanswer', herr'⟩ (hnone j),
      ⟨fun _ => hnone, fun _ => Option.some_ne_none _⟩, fun _ => ?_, hrefused⟩
    obtain ⟨last, e, hlast, herr, hlastErr, hbreakers⟩ := exists_last hne hnone
    refine ⟨last, e, hlast, herr, ?_, asked_traceTo hasks (Nat.le_refl _)⟩
    rw [hlastErr, hbreakers]
    rfl

/-- **How a chain falls back**, in both methods: the first position that succeeds gives the
result and the later ones do nothing; if none succeeds each has been tried once, in order,
and the error wraps the last one. -/
theorem chatCompletion_fallsBack [DecidableEq β] (f : FallbackProvider β) (hne : f.providers ≠ [])
    (x : Nat → Course ChatCompletionResponse) (y : Nat → Course Source) (apiKey : GoString)
    (req : ChatCompletionRequest) (breakers : β → CircuitBreaker) :
    f.FallsBack (f.completionCall x apiKey req) breakers (fun i => (x i).allowedAt)
        (f.chatCompletion x apiKey req breakers) ∧
      f.FallsBack (f.streamCall y apiKey req) breakers (fun i => (y i).allowedAt)
        (f.chatCompletionStream y apiKey req breakers) := by
  refine ⟨tryAll_fallsBack hne fun i prov breakers => ?_,
    tryAll_fallsBack hne fun i prov breakers => ?_⟩
  · exact prov.chatCompletion_asksOnce (x i) (f.key apiKey prov) req breakers
  · exact prov.chatCompletionStream_asksOnce (y i) (f.key apiKey prov) req breakers

/-! ### A breaker that two positions share -/

/-- The first two positions hold the same provider. -/
def sharedChain : FallbackProvider Bool where
  name := lit "chat"
  providers := [⟨lit "deepseek", true, 2⟩, ⟨lit "deepseek", true, 2⟩, ⟨lit "openai", false, 2⟩]
  apiKeys _ := none

/-- One more failure opens the breaker of the first two. -/
def nearlyOpen (cb : Bool) : CircuitBreaker :=
  { newProviderBreaker with failures := if cb then 4 else 0 }

/-- The first position's connection breaks; all others would bring an answer. -/
def chainCourse (i : Nat) : Course ChatCompletionResponse where
  answer _ _ _ :=
    if i = 0 then ⟨none, some (.text (lit "do request: EOF"))⟩ else ⟨some hiResponse, none⟩
  done _ := none
  allowedAt := 0
  failedAt := 0

theorem chatCompletion_fallsBack_sharedChain :
    (sharedChain.chatCompletion chainCourse (lit "key") helloRequest nearlyOpen).trace =
      [(0, .allow true), (0, .attempt), (0, .attempt), (0, .attempt), (0, .failure),
        (1, .allow false), (2, .allow true), (2, .attempt), (2, .success)] := by
  have hfails : ∀ j < 2, ¬ sharedChain.Succeeds
      (sharedChain.completionCall chainCourse (lit "key") helloRequest) nearlyOpen j := by
    rintro j hj ⟨answer, hanswer, herr⟩
    obtain rfl | rfl : j = 0 ∨ j = 1 := by omega
    · obtain rfl := Option.some.inj hanswer
      cases herr
    · obtain rfl := Option.some.inj hanswer
      cases herr
  have hfirst := (sharedChain.chatCompletion_fallsBack (List.cons_ne_nil _ _) chainCourse
    (fun _ => ⟨fun _ _ _ => ⟨none, none⟩, fun _ => none, 0, 0⟩) (lit "key") helloRequest
    nearlyOpen).1.first 2 _ rfl rfl hfails
  rw [hfirst.1]
  rfl

end FallbackProvider

end UniLLM.Provider
