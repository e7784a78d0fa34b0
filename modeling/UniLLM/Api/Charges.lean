import UniLLM.Api.Proxy

/-!
# What is charged

A request that is answered with status 200 leaves one record, of a call that went well.  Any other
answer is free: a gate stops the request, or the records it leaves cost nothing.
-/

namespace UniLLM.Api
open Go OpenAI Inference Middleware Middleware.Gates

/-! ### The service -/

/-- A record of a call that failed, which costs nothing. -/
structure IsFree (r : UsageRecord) : Prop where
  status : r.status = lit "error"
  cost : r.cost = 0
  tokens : r.promptTokens = 0 ∧ r.completionTokens = 0 ∧ r.totalTokens = 0

/-- A record of a call that went well. -/
structure IsCharge (r : UsageRecord) : Prop where
  status : r.status = lit "ok"
  httpStatus : r.httpStatus = 200

/-- What an outcome charges for. -/
def Charges (o : Outcome Unit) : Prop :=
  match o.result with
  | .ok _ => ∃ r, o.records = [r] ∧ IsCharge r
  | .error e => e.httpStatus ≠ 200 ∧ ∀ r ∈ o.records, IsFree r

/-- An outcome without records. -/
theorem charges_of_error {e : InferenceError} (h : e.httpStatus ≠ 200) :
    Charges { result := .error e } :=
  ⟨h, fun _ hr => absurd hr List.not_mem_nil⟩

theorem noStatus_ne : (0 : Int) ≠ 200 := by decide

/-- The outcome of a call that failed upstream. -/
theorem charges_of_failed (call : CallContext) (publicModel : GoString) (route : ModelRoute)
    (latency : Rat) (isStream : Bool) (e : GoString) :
    Charges
      { result := .error (upstreamError e)
        records := [errorRecord call publicModel route latency isStream] } := by
  refine ⟨noStatus_ne, fun r hr => ?_⟩
  rw [List.mem_singleton.mp hr]
  exact ⟨rfl, rfl, rfl, rfl, rfl⟩

section Service
variable {W : Type} (s : Service W) (call : CallContext) (latency : Rat) (w : W)

theorem chat_charges (req : ChatCompletionRequest) :
    Charges (s.chatCompletion call req latency w).1.summary := by
  unfold Service.chatCompletion Service.resolveRoute Service.getProvider
  cases s.resolveModel req.model w with
  | error e => exact charges_of_error noStatus_ne
  | ok route =>
    simp only
    cases s.registry route.providerName with
    | none => exact charges_of_error noStatus_ne
    | some p =>
      simp only
      rcases s.nextKey route.providerName w with ⟨e | apiKey, w₁⟩
      · exact charges_of_error noStatus_ne
      · simp only
        rcases p.chatCompletion apiKey (prepareChatRequest req.model req route) w₁ with
          ⟨e | resp, w₂⟩
        · exact charges_of_failed ..
        · exact ⟨_, rfl, rfl, rfl⟩

theorem stream_charges (req : ChatCompletionRequest) (writer : List WriterReply) :
    Charges (s.chatCompletionStream call req writer latency w).1.summary := by
  unfold Service.chatCompletionStream Service.resolveRoute Service.getProvider
  cases s.resolveModel req.model w with
  | error e => exact charges_of_error noStatus_ne
  | ok route =>
    simp only
    cases s.registry route.providerName with
    | none => exact charges_of_error noStatus_ne
    | some p =>
      simp only
      rcases s.nextKey route.providerName w with ⟨e | apiKey, w₁⟩
      · exact charges_of_error noStatus_ne
      · simp only
        rcases p.chatCompletionStream apiKey (prepareChatRequest req.model req route) w₁ with
          ⟨e | stream, w₂⟩
        · exact charges_of_failed ..
        · exact ⟨_, rfl, rfl, rfl⟩

end Service

variable {W : Type} (s : EmbeddingService W) (call : CallContext) (latency : Rat) (w : W)

theorem embedding_charges (req : EmbeddingRequest) :
    Charges (s.createEmbedding call req latency w).1.summary := by
  unfold EmbeddingService.createEmbedding Service.resolveRoute
  cases s.resolveModel req.model w with
  | error e => exact charges_of_error noStatus_ne
  | ok route =>
    simp only
    cases s.firstKey route.providerName w with
    | error e => exact charges_of_error noStatus_ne
    | ok apiKey =>
      simp only
      rcases s.forward route.providerBaseURL apiKey { req with model := route.upstreamModel } w
        with ⟨e | reply, w₁⟩
      · exact charges_of_error noStatus_ne
      · simp only [finishEmbedding]
        by_cases hstatus : reply.statusCode = 200
        · simp only [dif_pos hstatus]
          exact ⟨_, rfl, rfl, rfl⟩
        · simp only [dif_neg hstatus]
          exact charges_of_error hstatus

theorem handle_charges (r : Request) : Charges (s.handle call r latency w).1 := by
  cases r with
  | chat req => exact chat_charges s.toService call latency w req
  | stream req writer => exact stream_charges s.toService call latency w req writer
  | embedding req => exact embedding_charges s call latency w req

/-- The error of a completion has no status of success. -/
theorem chat_error_status {s : Service W} {call : CallContext} {latency : Rat} {w : W}
    {req : ChatCompletionRequest} {e : InferenceError}
    (h : (s.chatCompletion call req latency w).1.result = .error e) : e.httpStatus ≠ 200 := by
  have hcharges := chat_charges s call latency w req
  unfold Charges Outcome.summary at hcharges
  rw [h] at hcharges
  exact hcharges.1

/-! ### The handlers -/

/-- An error keeps its status, or gets one of its own; none is 200. -/
theorem writeInferenceError_status {e : InferenceError} (h : e.httpStatus ≠ 200) :
    (writeInferenceError e).status ≠ 200 := by
  unfold writeInferenceError
  split
  · exact (by decide : (404 : Int) ≠ 200)
  · exact (by decide : (500 : Int) ≠ 200)
  · exact (by decide : (500 : Int) ≠ 200)
  · simp only
    split
    · exact h
    · decide

/-- The answer is the one success, and charged; or it is an error, and free. -/
def Settled (served : Served) : Prop :=
  match served.reply with
  | .ok _ => ∃ r, served.records = [r] ∧ IsCharge r
  | .error reply => reply.status ≠ 200 ∧ ∀ r ∈ served.records, IsFree r

theorem settled_of_refused {reply : ErrorReply} (h : reply.status ≠ 200) :
    Settled ⟨.error reply, []⟩ :=
  ⟨h, fun _ hr => absurd hr List.not_mem_nil⟩

theorem bind_error_status {endpoint : Endpoint} {reply : ErrorReply}
    (h : Middleware.Gates.bind endpoint = .error reply) : reply.status = 400 := by
  unfold Middleware.Gates.bind at h
  split at h
  · obtain rfl := Except.error.inj h
    rfl
  · split at h
    · obtain rfl := Except.error.inj h
      rfl
    · split at h <;> cases h
  · obtain rfl := Except.error.inj h
    rfl
  · split at h
    · obtain rfl := Except.error.inj h
      rfl
    · cases h

theorem handler_settled (endpoint : Endpoint) (c : Context) :
    Settled (handler s endpoint latency c w).1 := by
  unfold handler
  cases hbind : Middleware.Gates.bind endpoint with
  | error reply =>
    refine settled_of_refused ?_
    rw [bind_error_status hbind]
    decide
  | ok req =>
    simp only
    have hcharges := handle_charges s ⟨getInt64 c.userID, getInt64 c.apiKeyID⟩ latency w req
    unfold Charges at hcharges
    unfold Settled
    cases hresult : (s.handle ⟨getInt64 c.userID, getInt64 c.apiKeyID⟩ req latency w).1.result with
    | ok result =>
      rw [hresult] at hcharges
      exact hcharges
    | error e =>
      rw [hresult] at hcharges
      exact ⟨writeInferenceError_status hcharges.1, hcharges.2⟩

/-! ### The gates -/

variable {stores : Stores} {hashAPIKey : GoString → GoString} {rl : RedisRateLimiter}

theorem apiKeyAuth_status {c : Context} {reply : ErrorReply}
    (h : apiKeyAuth stores hashAPIKey c = .error reply) : reply.status = 401 := by
  unfold apiKeyAuth at h
  split at h
  · obtain rfl := Except.error.inj h
    rfl
  · split at h
    · cases h
    · obtain rfl := Except.error.inj h
      rfl

theorem redisRateLimit_status {c : Context} {reply : ErrorReply}
    (h : redisRateLimit stores rl c = .error reply) : reply.status = 429 := by
  unfold redisRateLimit at h
  simp only at h
  split at h
  · cases h
  · obtain rfl := Except.error.inj h
    rfl
  · cases h

theorem balanceCheck_status {c : Context} {reply : ErrorReply}
    (h : balanceCheck stores c = .error reply) : reply.status ≠ 200 := by
  unfold balanceCheck at h
  simp only at h
  split at h
  · obtain rfl := Except.error.inj h
    decide
  · split at h
    · obtain rfl := Except.error.inj h
      decide
    · obtain rfl := Except.error.inj h
      decide
    · cases h

/-- A request that is refused is refused by one of its gates. -/
theorem runChain_eq_error {chain : List HandlerFunc} {c : Context} {reply : ErrorReply}
    (h : runChain chain c = .error reply) : ∃ gate ∈ chain, ∃ c', gate c' = .error reply := by
  induction chain generalizing c with
  | nil => cases h
  | cons gate chain ih =>
    rw [runChain] at h
    split at h
    · rename_i reply' hgate
      rw [Except.error.inj h] at hgate
      exact ⟨gate, List.mem_cons_self, c, hgate⟩
    · obtain ⟨other, hother, hrefused⟩ := ih h
      exact ⟨other, List.mem_cons_of_mem _ hother, hrefused⟩

theorem gates_status {c : Context} {reply : ErrorReply}
    (h : runChain (gates stores hashAPIKey rl) c = .error reply) : reply.status ≠ 200 := by
  obtain ⟨gate, hgate, c', hrefused⟩ := runChain_eq_error h
  rcases List.mem_cons.mp hgate with rfl | hgate
  · rw [apiKeyAuth_status hrefused]
    decide
  rcases List.mem_cons.mp hgate with rfl | hgate
  · rw [redisRateLimit_status hrefused]
    decide
  · rw [List.mem_singleton.mp hgate] at hrefused
    exact balanceCheck_status hrefused

variable (stores hashAPIKey rl) in
/-- **No success without its charge, and no charge without a success.** -/
theorem serve_settled (authorization : GoString) (endpoint : Endpoint) :
    Settled (serve stores hashAPIKey rl s authorization endpoint latency w).1 := by
  unfold serve
  cases hchain : runChain (gates stores hashAPIKey rl) { authorization := authorization } with
  | error reply => exact settled_of_refused (gates_status hchain)
  | ok c => exact handler_settled s latency w endpoint c

end UniLLM.Api
