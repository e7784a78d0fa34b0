import UniLLM.Provider.Upstream

/-!
# The calls that go out

Whatever the environment does, a provider that is given a key and a request sends
that key and that request, as often as it may, and nothing else; a group does so for
each of its providers.  When the network is down, each of them is tried.
-/

namespace UniLLM.Provider
open Go OpenAI

variable (http : Http) (env : Environment)

/-! ### Sending -/

/-- The call of a provider that sends. -/
def Direct.callFor (p : Direct) (stream : Bool) (apiKey : GoString) (req : ChatCompletionRequest) :
    UpstreamCall :=
  ⟨p.name, p.url, apiKey, req.model, p.posted stream req⟩

/-- Nothing stops the provider from sending. -/
def Direct.CanSend (p : Direct) (apiKey : GoString) (req : ChatCompletionRequest) : Prop :=
  p.marshalError http req = none ∧ http.createError p.url = none ∧ http.refuses p.url apiKey = none

/-- Only calls of a kind have gone out from `w` to `w'`. -/
def Sends (kind : UpstreamCall → Prop) (w w' : Wire) : Prop :=
  ∃ sent, w'.log = w.log ++ sent ∧ ∀ c ∈ sent, kind c

variable {http env} {kind : UpstreamCall → Prop} {w w' w'' : Wire}

theorem Sends.of_log_eq (h : w'.log = w.log) : Sends kind w w' := ⟨[], by simp [h], nofun⟩

theorem Sends.trans (h : Sends kind w w') (h' : Sends kind w' w'') : Sends kind w w'' := by
  obtain ⟨sent, hlog, hsent⟩ := h
  obtain ⟨sent', hlog', hsent'⟩ := h'
  refine ⟨sent ++ sent', by rw [hlog', hlog, List.append_assoc], fun c hc => ?_⟩
  rcases List.mem_append.mp hc with hc | hc
  · exact hsent c hc
  · exact hsent' c hc

/-- What has gone out stays in the log. -/
theorem Sends.mem_log (h : Sends kind w w') {c : UpstreamCall} (hc : c ∈ w.log) : c ∈ w'.log := by
  obtain ⟨sent, hlog, -⟩ := h
  exact hlog ▸ List.mem_append_left _ hc

section Direct

variable {p : Direct} {apiKey : GoString} {req : ChatCompletionRequest}

/-- One exchange, if nothing stops it. -/
theorem exchange_log {α : Type} (model posted : GoString) (reply : Nat → Reply α) :
    (exchange http p apiKey model posted reply w).2.breakers = w.breakers ∧
    (exchange http p apiKey model posted reply w).2.log =
      if http.createError p.url = none ∧ http.refuses p.url apiKey = none then
        w.log ++ [⟨p.name, p.url, apiKey, model, posted⟩]
      else w.log := by
  unfold exchange
  cases http.createError p.url with
  | some e => exact ⟨rfl, rfl⟩
  | none =>
    cases http.refuses p.url apiKey with
    | some e => exact ⟨rfl, rfl⟩
    | none =>
      cases reply w.ticks with
      | failed e => exact ⟨rfl, rfl⟩
      | answered statusCode body value =>
        simp only [and_self, if_true]
        split <;> exact ⟨rfl, rfl⟩

variable (http env) (p) (apiKey) (req) in
/-- A provider sends its one call or nothing. -/
theorem Direct.chatCompletion_log (w : Wire) :
    (p.chatCompletion http env apiKey req w).2.breakers = w.breakers ∧
    ((p.CanSend http apiKey req ∧
        (p.chatCompletion http env apiKey req w).2.log = w.log ++ [p.callFor false apiKey req]) ∨
      (¬ p.CanSend http apiKey req ∧ (p.chatCompletion http env apiKey req w).2.log = w.log)) := by
  unfold chatCompletion CanSend callFor
  cases hmarshal : p.marshalError http req with
  | some e => simp
  | none =>
    simp only [true_and]
    by_cases hsend : http.createError p.url = none ∧ http.refuses p.url apiKey = none
    · cases p <;> simp [exchange_log, hsend]
    · cases p <;> simp [exchange_log, hsend]

variable (http env) (p) (apiKey) (req) in
theorem Direct.chatCompletionStream_log (w : Wire) :
    (p.CanSend http apiKey req ∧
        (p.chatCompletionStream http env apiKey req w).2.log =
          w.log ++ [p.callFor true apiKey req]) ∨
      (¬ p.CanSend http apiKey req ∧
        (p.chatCompletionStream http env apiKey req w).2.log = w.log) := by
  unfold chatCompletionStream CanSend callFor
  cases hmarshal : p.marshalError http req with
  | some e => simp
  | none =>
    simp only [true_and]
    by_cases hsend : http.createError p.url = none ∧ http.refuses p.url apiKey = none
    · cases p <;> simp [exchange_log, hsend]
    · cases p <;> simp [exchange_log, hsend]

/-- A call that the provider makes when it is given this key and request. -/
def Direct.Own (http : Http) (p : Direct) (stream : Bool) (apiKey : GoString)
    (req : ChatCompletionRequest) (c : UpstreamCall) : Prop :=
  p.CanSend http apiKey req ∧ c = p.callFor stream apiKey req

theorem sends_of_log {stream : Bool}
    (h : (p.CanSend http apiKey req ∧ w'.log = w.log ++ [p.callFor stream apiKey req]) ∨
      (¬ p.CanSend http apiKey req ∧ w'.log = w.log)) :
    Sends (p.Own http stream apiKey req) w w' := by
  rcases h with ⟨hcan, hlog⟩ | ⟨-, hlog⟩
  · refine ⟨_, hlog, fun c hc => ?_⟩
    obtain rfl := List.mem_singleton.mp hc
    exact ⟨hcan, rfl⟩
  · exact .of_log_eq hlog

end Direct

section Resilient

variable {p : Resilient} {apiKey : GoString} {req : ChatCompletionRequest}

@[simp] theorem log_setBreaker (w : Wire) (name : GoString) (cb : CircuitBreaker) :
    (w.setBreaker name cb).log = w.log := rfl

@[simp] theorem log_allow (p : Resilient) (w : Wire) : (p.allow env w).2.log = w.log := rfl

@[simp] theorem log_recordSuccess (p : Resilient) (w : Wire) :
    (p.recordSuccess env w).log = w.log := rfl

@[simp] theorem log_recordFailure (p : Resilient) (w : Wire) :
    (p.recordFailure env w).log = w.log := rfl

/-- Every attempt sends the same call. -/
theorem attempts_sends (left : Nat) (lastErr : GoString) (w : Wire) :
    Sends (p.inner.Own http false apiKey req) w (p.attempts http env apiKey req left lastErr w).2 := by
  induction left generalizing lastErr w with
  | zero => exact .of_log_eq rfl
  | succ left ih =>
    rw [Resilient.attempts]
    cases (if left < p.retries then env.cancelled w.ticks else none) with
    | some e => exact .of_log_eq rfl
    | none =>
      simp only
      have hone := sends_of_log
        (p.inner.chatCompletion_log http env apiKey req { w with ticks := w.ticks + 1 }).2
      have hfirst : Sends (p.inner.Own http false apiKey req) w
          (p.inner.chatCompletion http env apiKey req { w with ticks := w.ticks + 1 }).2 := hone
      cases hanswer : p.inner.chatCompletion http env apiKey req
        { w with ticks := w.ticks + 1 } with
      | mk answer w' =>
        rw [hanswer] at hfirst
        cases answer with
        | error e => exact hfirst.trans (ih e w')
        | ok resp =>
          simp only
          split
          · exact hfirst.trans (ih _ w')
          · exact hfirst.trans (.of_log_eq rfl)

theorem Resilient.chatCompletion_sends (w : Wire) :
    Sends (p.inner.Own http false apiKey req) w (p.chatCompletion http env apiKey req w).2 := by
  unfold chatCompletion
  have hallow : (p.allow env w).2.log = w.log := rfl
  cases hallowed : p.allow env w with
  | mk allowed w' =>
    rw [hallowed] at hallow
    cases allowed with
    | false => exact .of_log_eq hallow
    | true => exact Sends.trans (.of_log_eq hallow) (attempts_sends _ _ w')

theorem Resilient.chatCompletionStream_sends (w : Wire) :
    Sends (p.inner.Own http true apiKey req) w (p.chatCompletionStream http env apiKey req w).2 := by
  unfold chatCompletionStream
  have hallow : (p.allow env w).2.log = w.log := rfl
  cases hallowed : p.allow env w with
  | mk allowed w' =>
    rw [hallowed] at hallow
    cases allowed with
    | false => exact .of_log_eq hallow
    | true =>
      have hone := sends_of_log (p.inner.chatCompletionStream_log http env apiKey req w')
      simp only
      cases hanswer : p.inner.chatCompletionStream http env apiKey req w' with
      | mk answer w'' =>
        rw [hanswer] at hone
        have hall : Sends (p.inner.Own http true apiKey req) w w'' :=
          Sends.trans (.of_log_eq hallow) hone
        cases answer with
        | error e => exact hall.trans (.of_log_eq rfl)
        | ok stream => exact hall.trans (.of_log_eq rfl)

end Resilient

section Fallback

variable {f : Fallback} {apiKey : GoString} {req : ChatCompletionRequest}

theorem tryAll_sends {α : Type} {name : GoString}
    {method : Resilient → Wire → Except GoString α × Wire}
    {providers : List Resilient} (h : ∀ p ∈ providers, ∀ w, Sends kind w (method p w).2)
    (lastErr : GoString) (w : Wire) : Sends kind w (tryAll name method providers lastErr w).2 := by
  induction providers generalizing lastErr w with
  | nil => exact .of_log_eq rfl
  | cons p providers ih =>
    have hfirst := h p List.mem_cons_self w
    rw [tryAll]
    cases hanswer : method p w with
    | mk answer w' =>
      rw [hanswer] at hfirst
      cases answer with
      | ok value => exact hfirst
      | error e => exact hfirst.trans (ih (fun q hq => h q (List.mem_cons_of_mem p hq)) e w')

/-- A call that one of the group's providers makes with the key that the group passes. -/
def Fallback.Own (http : Http) (f : Fallback) (stream : Bool) (apiKey : GoString)
    (req : ChatCompletionRequest) (c : UpstreamCall) : Prop :=
  ∃ p ∈ f.providers, p.inner.Own http stream (f.key apiKey p) req c

theorem Sends.mono {kind' : UpstreamCall → Prop} (h : Sends kind w w')
    (himp : ∀ c, kind c → kind' c) :
    Sends kind' w w' := by
  obtain ⟨sent, hlog, hsent⟩ := h
  exact ⟨sent, hlog, fun c hc => himp c (hsent c hc)⟩

theorem Fallback.chatCompletion_sends (w : Wire) :
    Sends (f.Own http false apiKey req) w (f.chatCompletion http env apiKey req w).2 :=
  tryAll_sends (fun p hp w => (p.chatCompletion_sends w).mono fun _ hc => ⟨p, hp, hc⟩) _ w

theorem Fallback.chatCompletionStream_sends (w : Wire) :
    Sends (f.Own http true apiKey req) w (f.chatCompletionStream http env apiKey req w).2 :=
  tryAll_sends (fun p hp w => (p.chatCompletionStream_sends w).mono fun _ hc => ⟨p, hp, hc⟩) _ w

end Fallback

/-! ### When everything fails -/

/-- The network is down, and nobody else uses the breakers. -/
def networkDown : Environment where
  now _ := 0
  cancelled _ := none
  others _ breakers := breakers
  completion _ := .failed (lit "connection refused")
  message _ := .failed (lit "connection refused")
  stream _ := .failed (lit "connection refused")

section NetworkDown

variable (http) (apiKey : GoString) (req : ChatCompletionRequest)

theorem exchange_networkDown (α : Type) (p : Direct) (model posted : GoString)
    (w : Wire) (text : GoString) :
    ∃ e, (exchange http p apiKey model posted (fun _ => (.failed text : Reply α)) w).1 =
      .error e := by
  unfold exchange
  cases http.createError p.url with
  | some e => exact ⟨_, rfl⟩
  | none =>
    cases http.refuses p.url apiKey with
    | some e => exact ⟨_, rfl⟩
    | none => exact ⟨_, rfl⟩

theorem Direct.chatCompletion_networkDown (p : Direct) (w : Wire) :
    ∃ e, (p.chatCompletion http networkDown apiKey req w).1 = .error e := by
  unfold chatCompletion
  cases p.marshalError http req with
  | some e => exact ⟨e, rfl⟩
  | none =>
    cases p with
    | anthropic baseURL =>
      obtain ⟨e, he⟩ := exchange_networkDown http apiKey
        (Except GoString Anthropic.Response) (.anthropic baseURL) req.model
        (Direct.posted (.anthropic baseURL) false req) w (lit "connection refused")
      exact ⟨e, by simp [networkDown, he, decodeReply, Except.map]⟩
    | openAI name baseURL =>
      obtain ⟨e, he⟩ := exchange_networkDown http apiKey
        (Except GoString ChatCompletionResponse) (.openAI name baseURL) req.model
        (Direct.posted (.openAI name baseURL) false req) w (lit "connection refused")
      exact ⟨e, by simp [networkDown, he, decodeReply]⟩
    | google baseURL =>
      obtain ⟨e, he⟩ := exchange_networkDown http apiKey
        (Except GoString ChatCompletionResponse) (.google baseURL) req.model
        (Direct.posted (.google baseURL) false req) w (lit "connection refused")
      exact ⟨e, by simp [networkDown, he, decodeReply]⟩

/-- The attempts fail, and touch no breaker but the provider's. -/
theorem attempts_networkDown (p : Resilient) (left : Nat) (lastErr : GoString) (w : Wire) :
    (∃ e, (p.attempts http networkDown apiKey req left lastErr w).1 = .error e) ∧
      ∀ name, name ≠ p.name →
        (p.attempts http networkDown apiKey req left lastErr w).2.breakers
            name = w.breakers name := by
  induction left generalizing lastErr w with
  | zero => exact ⟨⟨_, rfl⟩, fun name hname => Function.update_of_ne hname _ _⟩
  | succ left ih =>
    obtain ⟨e, he⟩ := p.inner.chatCompletion_networkDown http apiKey req
      { w with ticks := w.ticks + 1 }
    have hbreakers :=
      (p.inner.chatCompletion_log http networkDown apiKey req { w with ticks := w.ticks + 1 }).1
    have hgo : (if left < p.retries then networkDown.cancelled w.ticks else none) = none := by
      split <;> rfl
    rw [Resilient.attempts, hgo]
    simp only
    cases hanswer : p.inner.chatCompletion http networkDown apiKey req
      { w with ticks := w.ticks + 1 } with
    | mk answer w' =>
      rw [hanswer] at he hbreakers
      obtain rfl : answer = .error e := he
      obtain ⟨herror, hframe⟩ := ih e w'
      exact ⟨herror, fun name hname => (hframe name hname).trans (congrFun hbreakers name)⟩

theorem attempts_networkDown_mem {p : Resilient} (hcan : p.inner.CanSend http apiKey req)
    (left : Nat)
    (lastErr : GoString) (w : Wire) :
    p.inner.callFor false apiKey req ∈
      (p.attempts http networkDown apiKey req (left + 1) lastErr w).2.log := by
  have hgo : (if left < p.retries then networkDown.cancelled w.ticks else none) = none := by
    split <;> rfl
  rw [Resilient.attempts, hgo]
  simp only
  obtain ⟨e, he⟩ := p.inner.chatCompletion_networkDown http apiKey req
    { w with ticks := w.ticks + 1 }
  have hlog :=
    (p.inner.chatCompletion_log http networkDown apiKey req { w with ticks := w.ticks + 1 }).2
  cases hanswer : p.inner.chatCompletion http networkDown apiKey req
    { w with ticks := w.ticks + 1 } with
  | mk answer w' =>
    rw [hanswer] at he hlog
    obtain rfl : answer = .error e := he
    obtain ⟨-, hlog⟩ | ⟨hno, -⟩ := hlog
    · have hsent : p.inner.callFor false apiKey req ∈ w'.log := by rw [hlog]; simp
      exact (attempts_sends left e w').mem_log hsent
    · exact absurd hcan hno

/-- A provider fails, touches no other breaker, and sends if its own is closed. -/
theorem Resilient.chatCompletion_networkDown (p : Resilient) (w : Wire) :
    (∃ e, (p.chatCompletion http networkDown apiKey req w).1 = .error e) ∧
      (∀ name, name ≠ p.name →
        (p.chatCompletion http networkDown apiKey req w).2.breakers name = w.breakers name) ∧
      ((w.breakers p.name).state = .closed → p.inner.CanSend http apiKey req →
        p.inner.callFor false apiKey req ∈ (p.chatCompletion http networkDown apiKey req w).2.log) := by
  have hallow : ∀ name, name ≠ p.name → (p.allow networkDown w).2.breakers name = w.breakers name :=
    fun name hname => Function.update_of_ne hname _ _
  have hclosed : (w.breakers p.name).state = .closed → (p.allow networkDown w).1 = true := by
    intro hstate
    simp only [Resilient.allow, networkDown, CircuitBreaker.allow, hstate]
  unfold chatCompletion
  cases hallowed : p.allow networkDown w with
  | mk allowed w' =>
    rw [hallowed] at hallow hclosed
    cases allowed with
    | false =>
      refine ⟨⟨_, rfl⟩, hallow, fun hstate => ?_⟩
      cases hclosed hstate
    | true =>
      obtain ⟨herror, hframe⟩ := attempts_networkDown http apiKey req p (p.retries + 1) [] w'
      exact ⟨herror, fun name hname => (hframe name hname).trans (hallow name hname),
        fun _ hcan => attempts_networkDown_mem http apiKey req hcan p.retries [] w'⟩

variable {http apiKey req} in
/-- A group calls all its providers. -/
theorem Fallback.chatCompletion_networkDown {f : Fallback}
    (hnames : ∀ p ∈ f.providers, ∀ q ∈ f.providers, p.name = q.name → p = q) {w : Wire}
    (hclosed : ∀ name, (w.breakers name).state = .closed) {p : Resilient} (hp : p ∈ f.providers)
    (hcan : p.inner.CanSend http (f.key apiKey p) req) :
    p.inner.callFor false (f.key apiKey p) req ∈
      (f.chatCompletion http networkDown apiKey req w).2.log := by
  have hloop : ∀ (providers : List Resilient) (lastErr : GoString) (w : Wire),
      (∀ q ∈ providers, q ∈ f.providers) → p ∈ providers → (w.breakers p.name).state = .closed →
      p.inner.callFor false (f.key apiKey p) req ∈
        (tryAll f.name (fun p => p.chatCompletion http networkDown (f.key apiKey p) req) providers
          lastErr w).2.log := by
    intro providers
    induction providers with
    | nil => intro _ _ _ hmem; cases hmem
    | cons q providers ih =>
      intro lastErr w hall hmem hstate
      obtain ⟨⟨e, he⟩, hframe, hsent⟩ := q.chatCompletion_networkDown http (f.key apiKey q) req w
      rw [tryAll]
      cases hanswer : q.chatCompletion http networkDown (f.key apiKey q) req w with
      | mk answer w' =>
        rw [hanswer] at he hframe hsent
        obtain rfl : answer = .error e := he
        simp only
        by_cases hname : p.name = q.name
        · -- The first provider of this name is `p` itself.
          obtain rfl := hnames p hp q (hall q List.mem_cons_self) hname
          have hrest : Sends (f.Own http false apiKey req) w' (tryAll f.name
              (fun p => p.chatCompletion http networkDown (f.key apiKey p) req) providers e w').2 :=
            tryAll_sends (fun r hr w => (r.chatCompletion_sends w).mono fun _ hc =>
              ⟨r, hall r (List.mem_cons_of_mem _ hr), hc⟩) e w'
          exact hrest.mem_log (hsent hstate hcan)
        · have hlater : p ∈ providers := by
            rcases List.mem_cons.mp hmem with rfl | hlater
            · exact absurd rfl hname
            · exact hlater
          exact ih e w' (fun r hr => hall r (List.mem_cons_of_mem q hr)) hlater
            ((hframe p.name hname).symm ▸ hstate)
  exact hloop f.providers nilError w (fun _ hq => hq) hp (hclosed p.name)

end NetworkDown

end UniLLM.Provider
