import UniLLM.Inference.Embedding

/-!
# One record for each upstream call

How often a request calls upstream is read off the request itself, on a service whose
provider and forwarder count their calls: counting changes nothing else.
-/

namespace UniLLM.Inference
open Go OpenAI

variable {W : Type}

/-! ### Requests -/

inductive Request where
  | chat (req : ChatCompletionRequest)
  /-- With what the writer answers to the lines. -/
  | stream (req : ChatCompletionRequest) (writer : List WriterReply)
  | embedding (req : EmbeddingRequest)

/-- The public model name. -/
def Request.model : Request → GoString
  | .chat req => req.model
  | .stream req _ => req.model
  | .embedding req => req.model

/-- What the caller and billing see of an outcome. -/
def Outcome.summary {α : Type} (o : Outcome α) : Outcome Unit :=
  { result := o.result.map fun _ => (), records := o.records, delivered := o.delivered }

/-- A request to one of the three entry points. -/
def EmbeddingService.handle (s : EmbeddingService W) (call : CallContext)
    (r : Request) (latency : Rat)
    (w : W) : Outcome Unit × W :=
  match r with
  | .chat req =>
    ((s.chatCompletion call req latency w).1.summary, (s.chatCompletion call req latency w).2)
  | .stream req writer =>
    ((s.chatCompletionStream call req writer latency w).1.summary,
      (s.chatCompletionStream call req writer latency w).2)
  | .embedding req =>
    ((s.createEmbedding call req latency w).1.summary, (s.createEmbedding call req latency w).2)

/-! ### Counting upstream calls -/

/-- A provider that counts the calls. -/
def ChatProvider.counted (p : ChatProvider W) : ChatProvider (W × Nat) :=
  { name := p.name
    chatCompletion := fun key req w =>
      let r := p.chatCompletion key req w.1
      (r.1, r.2, w.2 + 1)
    chatCompletionStream := fun key req w =>
      let r := p.chatCompletionStream key req w.1
      (r.1, r.2, w.2 + 1) }

/-- The service with upstream calls counted. -/
def EmbeddingService.counted (s : EmbeddingService W) : EmbeddingService (W × Nat) :=
  { resolveModel := fun name w => s.resolveModel name w.1
    nextKey := fun name w =>
      let r := s.nextKey name w.1
      (r.1, r.2, w.2)
    registry := fun name => (s.registry name).map ChatProvider.counted
    firstKey := fun name w => s.firstKey name w.1
    forward := fun baseURL key req w =>
      let r := s.forward baseURL key req w.1
      (r.1, r.2, w.2 + 1) }

/-- How often a request calls a provider or the forwarder. -/
def EmbeddingService.upstreamCalls (s : EmbeddingService W) (call : CallContext) (r : Request)
    (latency : Rat) (w : W) : Nat :=
  (s.counted.handle call r latency (w, 0)).2.2

/-! ### The accounting discipline -/

/-- The status a result is recorded with. -/
def statusOf {α : Type} : Except InferenceError α → GoString
  | .ok _ => lit "ok"
  | .error _ => lit "error"

/-- The record names the caller and the public model, and has the result's status. -/
structure UsageRecord.Reports (record : UsageRecord) (call : CallContext) (publicModel : GoString)
    (result : Except InferenceError Unit) : Prop where
  userID : record.userID = call.userID
  apiKeyID : record.apiKeyID = call.apiKeyID
  modelName : record.modelName = publicModel
  status : record.status = statusOf result

/-- Exactly one usage record for each upstream call, and the right one. -/
structure Accounts (s : EmbeddingService W) (call : CallContext) (r : Request)
    (latency : Rat) (w : W) :
    Prop where
  count : (s.handle call r latency w).1.records.length = s.upstreamCalls call r latency w
  reports : ∀ record ∈ (s.handle call r latency w).1.records,
    record.Reports call r.model (s.handle call r latency w).1.result

/-- The forwarder is called, and fails or answers with another status than 200. -/
def EmbeddingService.ForwardFails (s : EmbeddingService W) (req : EmbeddingRequest) (w : W) :
    Prop :=
  ∃ route apiKey, s.resolveModel req.model w = .ok route ∧
    s.firstKey route.providerName w = .ok apiKey ∧
    match (s.forward route.providerBaseURL apiKey { req with model := route.upstreamModel } w).1 with
    | .error _ => True
    | .ok reply => reply.statusCode ≠ 200

variable {s : EmbeddingService W} {call : CallContext} {latency : Rat} {w : W}

/-- On the counting service a request has the same outcome, and adds its calls. -/
def CountsAs (s : EmbeddingService W) (call : CallContext) (r : Request) (latency : Rat) (w : W)
    (calls : Nat) : Prop :=
  ∀ n, s.counted.handle call r latency (w, n) =
    ((s.handle call r latency w).1, (s.handle call r latency w).2, n + calls)

theorem CountsAs.upstreamCalls {r : Request} {calls : Nat} (h : CountsAs s call r latency w calls) :
    s.upstreamCalls call r latency w = calls := by
  rw [EmbeddingService.upstreamCalls, h 0, Nat.zero_add]

variable (s call latency w) in
/-- Whole completions. -/
theorem chat_accounts (req : ChatCompletionRequest) :
    CountsAs s call (.chat req) latency w (s.handle call (.chat req) latency w).1.records.length ∧
      ∀ record ∈ (s.handle call (.chat req) latency w).1.records,
        record.Reports call req.model (s.handle call (.chat req) latency w).1.result := by
  unfold CountsAs EmbeddingService.handle Service.chatCompletion Service.resolveRoute
    Service.getProvider EmbeddingService.counted
  simp only
  cases hroute : s.resolveModel req.model w with
  | error e => simp [Outcome.summary]
  | ok route =>
    simp only
    cases hreg : s.registry route.providerName with
    | none => simp [Outcome.summary]
    | some p =>
      simp only [Option.map_some]
      rcases hkey : s.nextKey route.providerName w with ⟨e | key, w₁⟩
      · simp [Outcome.summary]
      · simp only [ChatProvider.counted]
        -- the provider is called
        rcases hresp : p.chatCompletion key (prepareChatRequest req.model req route) w₁ with
          ⟨e | resp, w₂⟩
        · refine ⟨fun n => by simp [Outcome.summary], ?_⟩
          intro record hrecord
          obtain rfl := List.mem_singleton.mp hrecord
          exact ⟨rfl, rfl, rfl, rfl⟩
        · refine ⟨fun n => by simp [Outcome.summary, finishResponse], ?_⟩
          intro record hrecord
          obtain rfl := List.mem_singleton.mp hrecord
          exact ⟨rfl, rfl, rfl, rfl⟩

variable (s call latency w) in
/-- Streams. -/
theorem stream_accounts (req : ChatCompletionRequest) (writer : List WriterReply) :
    CountsAs s call (.stream req writer) latency w
        (s.handle call (.stream req writer) latency w).1.records.length ∧
      ∀ record ∈ (s.handle call (.stream req writer) latency w).1.records,
        record.Reports call req.model (s.handle call (.stream req writer) latency w).1.result := by
  unfold CountsAs EmbeddingService.handle Service.chatCompletionStream Service.resolveRoute
    Service.getProvider EmbeddingService.counted
  simp only
  cases hroute : s.resolveModel req.model w with
  | error e => simp [Outcome.summary]
  | ok route =>
    simp only
    cases hreg : s.registry route.providerName with
    | none => simp [Outcome.summary]
    | some p =>
      simp only [Option.map_some]
      rcases hkey : s.nextKey route.providerName w with ⟨e | key, w₁⟩
      · simp [Outcome.summary]
      · simp only [ChatProvider.counted]
        rcases hopen : p.chatCompletionStream key (prepareChatRequest req.model req route) w₁ with
          ⟨e | stream, w₂⟩
        · refine ⟨fun n => by simp [Outcome.summary], ?_⟩
          intro record hrecord
          obtain rfl := List.mem_singleton.mp hrecord
          exact ⟨rfl, rfl, rfl, rfl⟩
        · -- however the stream ends
          refine ⟨fun n => by simp [Outcome.summary, relayStream], ?_⟩
          intro record hrecord
          obtain rfl := List.mem_singleton.mp hrecord
          exact ⟨rfl, rfl, rfl, rfl⟩

variable (call latency) in
/-- An embedding request that does not get to the forwarder. -/
theorem embedding_accounts_of_not_forwarded {req : EmbeddingRequest}
    (h : ∀ route apiKey, s.resolveModel req.model w = .ok route →
      s.firstKey route.providerName w ≠ .ok apiKey) :
    CountsAs s call (.embedding req) latency w 0 ∧
      (s.handle call (.embedding req) latency w).1.records = [] := by
  unfold CountsAs EmbeddingService.handle EmbeddingService.createEmbedding Service.resolveRoute
    EmbeddingService.counted
  simp only
  cases hroute : s.resolveModel req.model w with
  | error e => simp [Outcome.summary]
  | ok route =>
    simp only
    cases hkey : s.firstKey route.providerName w with
    | error e => simp [Outcome.summary]
    | ok apiKey => exact absurd hkey (h route apiKey hroute)

variable (call latency) in
/-- One that does. -/
theorem embedding_accounts_of_forwarded {req : EmbeddingRequest} {route : ModelRoute}
    {apiKey : GoString} (hroute : s.resolveModel req.model w = .ok route)
    (hkey : s.firstKey route.providerName w = .ok apiKey) :
    CountsAs s call (.embedding req) latency w 1 ∧
      (s.handle call (.embedding req) latency w).1 =
        match (s.forward route.providerBaseURL apiKey { req with model := route.upstreamModel } w).1 with
        | .error e => { result := .error { kind := .upstream, message := e, cause := some e } }
        | .ok reply => (finishEmbedding call req.model route latency reply).summary := by
  unfold CountsAs EmbeddingService.handle EmbeddingService.createEmbedding Service.resolveRoute
    EmbeddingService.counted
  simp only [hroute, hkey]
  rcases hreply : s.forward route.providerBaseURL apiKey { req with model := route.upstreamModel } w
    with ⟨e | reply, w₁⟩
  · exact ⟨fun n => rfl, rfl⟩
  · exact ⟨fun n => rfl, rfl⟩

/-- When the forwarder fails a request there is a call and no record. -/
theorem not_forwardFails_of_accounts {req : EmbeddingRequest}
    (h : Accounts s call (.embedding req) latency w) : ¬ s.ForwardFails req w := by
  rintro ⟨route, apiKey, hroute, hkey, hfails⟩
  obtain ⟨hcalls, houtcome⟩ := embedding_accounts_of_forwarded call latency hroute hkey
  have hcount := h.count
  rw [hcalls.upstreamCalls, houtcome] at hcount
  cases hreply : (s.forward route.providerBaseURL apiKey
      { req with model := route.upstreamModel } w).1 with
  | error e => simp [hreply] at hcount
  | ok reply =>
    rw [hreply] at hfails hcount
    simp [Outcome.summary, finishEmbedding, dif_neg hfails] at hcount

/-- Otherwise there is one record if the forwarder was called, and none if not. -/
theorem embedding_accounts {req : EmbeddingRequest} (h : ¬ s.ForwardFails req w) :
    Accounts s call (.embedding req) latency w := by
  by_cases hreach : ∃ route apiKey, s.resolveModel req.model w = .ok route ∧
      s.firstKey route.providerName w = .ok apiKey
  · obtain ⟨route, apiKey, hroute, hkey⟩ := hreach
    obtain ⟨hcalls, houtcome⟩ :=
      embedding_accounts_of_forwarded call latency hroute hkey
    have hok : ∃ reply, (s.forward route.providerBaseURL apiKey
        { req with model := route.upstreamModel } w).1 = .ok reply ∧ reply.statusCode = 200 := by
      cases hreply : (s.forward route.providerBaseURL apiKey
          { req with model := route.upstreamModel } w).1 with
      | error e => exact absurd ⟨route, apiKey, hroute, hkey, by rw [hreply]; trivial⟩ h
      | ok reply =>
        refine ⟨reply, rfl, ?_⟩
        by_contra hstatus
        exact h ⟨route, apiKey, hroute, hkey, by rw [hreply]; exact hstatus⟩
    obtain ⟨reply, hreply, hstatus⟩ := hok
    rw [hreply] at houtcome
    simp only [Outcome.summary, finishEmbedding, dif_pos hstatus] at houtcome
    refine ⟨?_, ?_⟩
    · rw [hcalls.upstreamCalls, houtcome]
      rfl
    · rw [houtcome]
      intro record hrecord
      obtain rfl := List.mem_singleton.mp hrecord
      exact ⟨rfl, rfl, rfl, rfl⟩
  · have hnot : ∀ route apiKey, s.resolveModel req.model w = .ok route →
        s.firstKey route.providerName w ≠ .ok apiKey := fun route apiKey hroute hkey =>
      hreach ⟨route, apiKey, hroute, hkey⟩
    obtain ⟨hcalls, hnone⟩ :=
      embedding_accounts_of_not_forwarded call latency hnot
    refine ⟨?_, ?_⟩
    · rw [hcalls.upstreamCalls, hnone]
      rfl
    · rw [hnone]
      nofun

/-- **When there is one record for each upstream call**: always for completions, and for
an embedding request unless the forwarder fails it. -/
theorem accounts_iff (s : EmbeddingService W) (call : CallContext) (r : Request)
    (latency : Rat) (w : W) :
    Accounts s call r latency w ↔ ∀ req, r = .embedding req → ¬ s.ForwardFails req w := by
  constructor
  · rintro h req rfl
    exact not_forwardFails_of_accounts h
  · intro h
    cases r with
    | chat req =>
      obtain ⟨hcalls, hreports⟩ := chat_accounts s call latency w req
      exact ⟨hcalls.upstreamCalls.symm, hreports⟩
    | stream req writer =>
      obtain ⟨hcalls, hreports⟩ := stream_accounts s call latency w req writer
      exact ⟨hcalls.upstreamCalls.symm, hreports⟩
    | embedding req => exact embedding_accounts (h req rfl)

/-- One model, one key, and an upstream that answers with an internal server error. -/
def brokenUpstream : EmbeddingService Unit :=
  { resolveModel := fun name _ =>
      .ok ⟨name, name, lit "openai", lit "https://api.openai.com/v1", 0, 0⟩
    nextKey := fun _ w => (.ok (lit "sk"), w)
    registry := fun _ => none
    firstKey := fun _ _ => .ok (lit "sk")
    forward := httpForward fun _ _ _ w => (.ok ⟨500, .error (lit "EOF")⟩, w) }

/-- The forwarder was called once, and nothing is recorded. -/
theorem not_accounts_brokenUpstream :
    ¬ Accounts brokenUpstream ⟨7, 3⟩
      (.embedding { model := lit "text-embedding-3-small", input := .str (lit "hello") }) 0 () := by
  intro h
  exact absurd h.count (by decide)

end UniLLM.Inference
