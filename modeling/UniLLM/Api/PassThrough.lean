import UniLLM.Api.Charges

/-!
# What passes through

The server stands between a client and an upstream that both speak OpenAI.  What the client
writes is read by the upstream as the request that the service prepared, and what the upstream
answers is read by the client as the same response under the public name; a number is the same
number and a value of any type the same value.  The bill is that of the usage the client reads.
-/

namespace UniLLM.Api
open Go OpenAI Inference Provider

theorem decodes_of_bind {α : Type} {t : JsonType α} {bindError : GoString → GoString}
    {body : GoString} {x : α} (h : shouldBindJSON t bindError body = .ok x) :
    t.decodeReader body = some x := by
  unfold shouldBindJSON at h
  split at h
  · cases h
  · rename_i y hy
    rw [hy, Except.ok.inj h]

theorem fits_of_bind {α : Type} {t : JsonType α} (hlevels : t.levels ≤ maxNestingDepth)
    {bindError : GoString → GoString} {body : GoString} {x : α}
    (h : shouldBindJSON t bindError body = .ok x) : t.Fits maxNestingDepth x :=
  JsonType.fits_of_decodeReader hlevels (decodes_of_bind h)

/-- What has been written binds. -/
theorem bind_marshal {α : Type} {t : JsonType α} (bindError : GoString → GoString) {x : α}
    (h : t.Fits maxNestingDepth x) : shouldBindJSON t bindError (t.marshal x) = .ok x := by
  rw [shouldBindJSON, JsonType.decodeReader_marshal h]

/-! ### The request -/

section Request
variable {db : Catalog.Database} {chainSpec : GoString} {http : Http} {env : Environment}
  {call : CallContext} {bindError : GoString → GoString} {body : GoString}
  {writer : List WriterReply} {latency : Rat} {s : Running} {req : ChatCompletionRequest}

theorem upstreamModel_valid (hnames : ∀ m ∈ db.models, validString m.upstreamModel = true)
    {name : GoString} {route : ModelRoute} (h : resolveCatalog db name = .ok route) :
    validString route.upstreamModel = true := by
  obtain ⟨m, hm, hmodel, -⟩ := assigned_of_resolve h
  rw [← hmodel]
  exact hnames m hm

theorem prepareChatRequest_stream (publicModel : GoString) (req : ChatCompletionRequest)
    (route : ModelRoute) : (prepareChatRequest publicModel req route).stream = req.stream := by
  unfold prepareChatRequest
  by_cases hmoves : isReasoningModel publicModel = true ∧ 0 < req.maxTokens <;>
    by_cases hstream : req.stream = true <;> simp [hmoves, hstream]

/-- The calls that a bound request causes. -/
theorem chatCompletion_causes (hbind : shouldBindJSON ChatCompletionRequest.wire bindError body =
    .ok req) (env : Environment) (call : CallContext) (writer : List WriterReply) (latency : Rat)
    (s : Running) :
    Sends (Caused db chainSpec http s.pool req.stream req) s.wire
      (chatCompletion (server db chainSpec http env) call bindError body writer latency s).state.wire := by
  unfold chatCompletion
  rw [hbind]
  simp only
  split
  · exact .of_log_eq rfl
  · cases hstream : req.stream with
    | true =>
      simp only [handleStream, chatCompletionStream_state, if_true]
      exact dispatch_sends chatProvider_stream_sends s
    | false =>
      simp only [handleNonStream, chatCompletion_state, Bool.false_eq_true, if_false]
      exact dispatch_sends chatProvider_sends s

/-- A provider makes the call with this request, and an upstream that speaks OpenAI reads it in
the body of the call. -/
def Carries (req : ChatCompletionRequest) (c : UpstreamCall) : Prop :=
  ∃ (p : Direct) (apiKey : GoString), c = p.callFor req.stream apiKey req ∧
    (p.format = .openAI → ChatCompletionRequest.wire.decodeReader c.body = some req)

theorem own_of_registeredOwn {r : Registered} {stream : Bool} {apiKey : GoString}
    {c : UpstreamCall} (h : registeredOwn http r stream apiKey req c) :
    ∃ (p : Direct) (key : GoString), c = p.callFor stream key req := by
  cases r with
  | resilient p => exact ⟨p.inner, apiKey, h.2⟩
  | fallback f =>
    obtain ⟨p, -, -, hc⟩ := h
    exact ⟨p.inner, f.key apiKey p, hc⟩

/-- **The request that the client wrote arrives upstream.**  Whatever retries and groups make of
it, each call that goes out carries the request of the service, and an upstream that speaks OpenAI
reads exactly that. -/
theorem upstream_reads_request (hnames : ∀ m ∈ db.models, validString m.upstreamModel = true)
    (hbind : shouldBindJSON ChatCompletionRequest.wire bindError body = .ok req) :
    ∃ sent, (chatCompletion (server db chainSpec http env) call bindError body writer latency
        s).state.wire.log = s.wire.log ++ sent ∧
      ∀ c ∈ sent, ∃ route, resolveCatalog db req.model = .ok route ∧
        Carries (prepareChatRequest req.model req route) c := by
  have hfits := fits_of_bind levels_fit.1 hbind
  obtain ⟨sent, hlog, hcaused⟩ := chatCompletion_causes hbind env call writer latency s
  refine ⟨sent, hlog, fun c hc => ?_⟩
  obtain ⟨route, r, apiKey, pool', hroute, -, -, hown⟩ := hcaused c hc
  obtain ⟨p, key, hcall⟩ := own_of_registeredOwn hown
  rw [← prepareChatRequest_stream req.model req route] at hcall
  refine ⟨route, hroute, p, key, hcall, fun hformat => ?_⟩
  have hprepared := prepareChatRequest_fits hfits (by decide) (upstreamModel_valid hnames hroute)
    req.model
  rw [hcall]
  exact p.posted_reads hformat hprepared (prepareChatRequest req.model req route).stream

theorem ask_fits : ChatCompletionRequest.wire.Fits maxNestingDepth ask := by
  simp +decide [ChatCompletionRequest.wire, ChatCompletionRequest.fields, Message.wire,
    Message.fields, ask]

/-- A server without a network is asked. -/
def askedInVain : Handled Running :=
  chatCompletion (server twoProviders [] openNetwork networkDown) ⟨7, 3⟩ id
    (ChatCompletionRequest.wire.marshal ask) [] 0 ⟨⟨0, fun _ => newProviderBreaker, []⟩, twoKeys⟩

/-- The request goes to OpenAI in three attempts, and is read each time. -/
theorem upstream_reads_request_ask :
    ∃ sent, askedInVain.state.wire.log = [] ++ sent ∧ sent.length = 3 ∧
      ∀ c ∈ sent, ∃ route, resolveCatalog twoProviders ask.model = .ok route ∧
        Carries (prepareChatRequest ask.model ask route) c := by
  have hcount : askedInVain.state.wire.log.length = 3 := by
    rw [askedInVain, chatCompletion, bind_marshal id ask_fits]
    decide +kernel
  obtain ⟨sent, hlog, hcarries⟩ : ∃ sent, askedInVain.state.wire.log = [] ++ sent ∧
      ∀ c ∈ sent, ∃ route, resolveCatalog twoProviders ask.model = .ok route ∧
        Carries (prepareChatRequest ask.model ask route) c :=
    upstream_reads_request (by decide) (bind_marshal id ask_fits)
  rw [hlog] at hcount
  exact ⟨sent, hlog, hcount, hcarries⟩

end Request

/-! ### The answer -/

section Answer
variable {db : Catalog.Database} {chainSpec : GoString} {http : Http} {env : Environment}
  {call : CallContext} {bindError : GoString → GoString} {body : GoString}
  {writer : List WriterReply} {latency : Rat} {s : Running} {req : ChatCompletionRequest}

/-- What a completion that went well returns and records. -/
theorem chatCompletion_eq_ok {W : Type} {s : Service W} {w : W} {value : ChatCompletionResponse}
    (h : (s.chatCompletion call req latency w).1.result = .ok value) :
    ∃ route p apiKey w' resp, s.resolveModel req.model w = .ok route ∧
      s.registry route.providerName = some p ∧
      (p.chatCompletion apiKey (prepareChatRequest req.model req route) w').1 = .ok resp ∧
      value = { resp with model := req.model } ∧
      (s.chatCompletion call req latency w).1.records =
        [okRecord call req.model route (responseTokens resp.usage)
          (calculateCost route.inputPricePer1M route.outputPricePer1M resp.usage) latency false] := by
  unfold Service.chatCompletion Service.resolveRoute Service.getProvider at h ⊢
  cases hroute : s.resolveModel req.model w with
  | error e =>
    rw [hroute] at h
    cases h
  | ok route =>
    rw [hroute] at h
    simp only at h ⊢
    cases hp : s.registry route.providerName with
    | none =>
      rw [hp] at h
      cases h
    | some p =>
      rw [hp] at h
      simp only at h ⊢
      rcases hkey : s.nextKey route.providerName w with ⟨e | apiKey, w'⟩
      · rw [hkey] at h
        cases h
      · rw [hkey] at h
        simp only at h ⊢
        rcases hresp : p.chatCompletion apiKey (prepareChatRequest req.model req route) w' with
          ⟨e | resp, w''⟩
        · rw [hresp] at h
          cases h
        · rw [hresp] at h
          exact ⟨route, p, apiKey, w', resp, rfl, hp, congrArg Prod.fst hresp,
            (Except.ok.inj h).symm, rfl⟩

/-- The client reads the response of an upstream that speaks OpenAI, under the public name; the
message of Anthropic is written as it was translated, and the client reads that. -/
def ReadsAnswer (env : Environment) (publicModel answer : GoString)
    (resp : ChatCompletionResponse) : Prop :=
  (∃ n text, env.completion n = .answered 200 text (.ok resp) ∧
      ChatCompletionResponse.wire.decodeReader text = some resp ∧
      ChatCompletionResponse.wire.decodeReader answer = some { resp with model := publicModel }) ∨
    ∃ n text ar model k, env.message n = .answered 200 text (.ok ar) ∧
      resp = Anthropic.convertResponse ar model (env.now k / second) ∧
      answer = ({ resp with model := publicModel } : ChatCompletionResponse).marshal ∧
      (Readable ar → InInt64 (env.now k / second) →
        ChatCompletionResponse.wire.decodeReader answer = some { resp with model := publicModel })

/-- **The response that the upstream wrote arrives at the client**, who gets none without output,
and the bill is that of the usage in it. -/
theorem client_reads_response (henv : env.Decodes)
    (hbind : shouldBindJSON ChatCompletionRequest.wire bindError body = .ok req)
    (hstream : req.stream = false)
    (hstatus : (chatCompletion (server db chainSpec http env) call bindError body writer latency
      s).answer.status = 200) :
    ∃ route resp, resolveCatalog db req.model = .ok route ∧ isEmptyOutput resp = false ∧
      ReadsAnswer env req.model (chatCompletion (server db chainSpec http env) call bindError body
        writer latency s).answer.body resp ∧
      (chatCompletion (server db chainSpec http env) call bindError body writer latency s).records =
        [okRecord call req.model route (responseTokens resp.usage)
          (calculateCost route.inputPricePer1M route.outputPricePer1M resp.usage) latency false] := by
  have hmodel := model_valid (fits_of_bind levels_fit.1 hbind)
  unfold chatCompletion at hstatus ⊢
  rw [hbind] at hstatus ⊢
  simp only at hstatus ⊢
  by_cases hnone : req.model = []
  · rw [if_pos hnone] at hstatus
    exact absurd hstatus (by decide : (400 : Int) ≠ 200)
  rw [if_neg hnone, hstream, if_neg Bool.false_ne_true] at hstatus ⊢
  unfold handleNonStream at hstatus ⊢
  simp only at hstatus ⊢
  cases hresult : ((server db chainSpec http env).chatCompletion call req latency s).1.result with
  | error e =>
    rw [hresult] at hstatus
    exact absurd hstatus (writeInferenceError_status (chat_error_status hresult))
  | ok value =>
    obtain ⟨route, p, apiKey, s', resp, hroute, hp, hresp, rfl, hrecords⟩ :=
      chatCompletion_eq_ok hresult
    obtain ⟨r, -, rfl⟩ := Option.map_eq_some_iff.mp hp
    obtain ⟨hupstream, houtput⟩ := chatProvider_fromUpstream hresp
    refine ⟨route, resp, hroute, houtput, ?_, hrecords⟩
    rcases hupstream with ⟨n, text, hanswer⟩ | ⟨n, text, ar, model, k, hmessage, htranslated⟩
    · have hread := henv n text resp hanswer
      have hfits := response_fits_model (JsonType.fits_of_decodeReader levels_fit.2.1 hread) hmodel
      exact .inl ⟨n, text, hanswer, hread, JsonType.decodeReader_marshal hfits⟩
    · have hwritten : ({ resp with model := req.model } : ChatCompletionResponse).marshal =
          ChatCompletionResponse.wire.marshal { resp with model := req.model } := by
        rw [ChatCompletionResponse.marshal, ← ChatCompletionResponse.wire_toJson]
        rfl
      refine .inr ⟨n, text, ar, model, k, hmessage, htranslated, hwritten.symm,
        fun hreadable hcreated => ?_⟩
      have hfits := convertResponse_fits hreadable hcreated hmodel
      rw [htranslated]
      exact JsonType.decodeReader_marshal hfits

/-- An answer of OpenAI, which names the model it was given by. -/
def helloBack : ChatCompletionResponse :=
  { id := lit "chatcmpl-1"
    object := lit "chat.completion"
    created := 1700000000
    model := lit "gpt-4o-2024-08-06"
    choices :=
      [{ message := some { role := lit "assistant", content := .str (lit "Hi") }
         finishReason := lit "stop" }]
    usage := some { promptTokens := 3, completionTokens := 1, totalTokens := 4 } }

theorem helloBack_fits : ChatCompletionResponse.wire.Fits maxNestingDepth helloBack := by
  simp +decide [ChatCompletionResponse.wire, ChatCompletionResponse.fields, Choice.wire,
    Choice.fields, Message.wire, Message.fields, Usage.wire, Usage.fields, helloBack]

/-- OpenAI answers so to every call. -/
def answering : Environment :=
  { networkDown with
    completion := fun _ =>
      .answered 200 (ChatCompletionResponse.wire.marshal helloBack) (.ok helloBack) }

theorem answering_decodes : answering.Decodes := by
  intro n text resp h
  obtain ⟨-, rfl, hresp⟩ := Reply.answered.inj h
  rw [← Except.ok.inj hresp]
  exact JsonType.decodeReader_marshal helloBack_fits

theorem answering_status : (chatCompletion (server twoProviders [] openNetwork answering) ⟨7, 3⟩ id
    (ChatCompletionRequest.wire.marshal ask) [] 0
    ⟨⟨0, fun _ => newProviderBreaker, []⟩, twoKeys⟩).answer.status = 200 := by
  rw [chatCompletion, bind_marshal id ask_fits]
  decide +kernel

/-- The client reads OpenAI's answer with the name it asked for. -/
theorem client_reads_response_helloBack :
    ∃ route resp, resolveCatalog twoProviders ask.model = .ok route ∧ isEmptyOutput resp = false ∧
      ReadsAnswer answering ask.model
        (chatCompletion (server twoProviders [] openNetwork answering) ⟨7, 3⟩ id
          (ChatCompletionRequest.wire.marshal ask) [] 0
          ⟨⟨0, fun _ => newProviderBreaker, []⟩, twoKeys⟩).answer.body resp ∧
      (chatCompletion (server twoProviders [] openNetwork answering) ⟨7, 3⟩ id
        (ChatCompletionRequest.wire.marshal ask) [] 0
        ⟨⟨0, fun _ => newProviderBreaker, []⟩, twoKeys⟩).records =
        [okRecord ⟨7, 3⟩ ask.model route (responseTokens resp.usage)
          (calculateCost route.inputPricePer1M route.outputPricePer1M resp.usage) 0 false] :=
  client_reads_response answering_decodes (bind_marshal id ask_fits) rfl answering_status

end Answer

/-! ### Embeddings -/

section Embedding
variable {W : Type}

/-- `HTTPEmbeddingForwarder` over a client that sends a text and receives a status and a text. -/
def postEmbedding (client : (url authorization body : GoString) → W →
      Except GoString (Int × GoString) × W)
    (decodeError : GoString → GoString) (url authorization : GoString) (req : EmbeddingRequest)
    (w : W) : Except GoString EmbeddingHTTPResponse × W :=
  match client url authorization (EmbeddingRequest.wire.marshal req) w with
  | (.error e, w) => (.error e, w)
  | (.ok (statusCode, text), w) =>
    (.ok ⟨statusCode, shouldBindJSON EmbeddingResponse.wire decodeError text⟩, w)

/-- The service with this forwarder. -/
def overHTTP (s : Service W) (firstKey : GoString → W → Except GoString GoString)
    (client : (url authorization body : GoString) → W → Except GoString (Int × GoString) × W)
    (decodeError : GoString → GoString) : EmbeddingService W :=
  { s with
    firstKey := firstKey
    forward := httpForward (postEmbedding client decodeError) }

variable {s : Service W} {firstKey : GoString → W → Except GoString GoString}
  {client : (url authorization body : GoString) → W → Except GoString (Int × GoString) × W}
  {decodeError bindError : GoString → GoString} {call : CallContext} {body : GoString}
  {latency : Rat} {w : W} {req : EmbeddingRequest} {route : ModelRoute} {apiKey : GoString}

/-- **Embeddings pass through**: the upstream reads the client's request with its own name for the
model, the client reads the upstream's vectors, number for number, and the bill is that of the
prompt tokens in the answer. -/
theorem embedding_passes_through (hmodel : req.model ≠ [])
    (hbind : shouldBindJSON EmbeddingRequest.wire bindError body = .ok req)
    (hroute : s.resolveModel req.model w = .ok route)
    (hname : validString route.upstreamModel = true)
    (hkey : firstKey route.providerName w = .ok apiKey) :
    ∃ sent, EmbeddingRequest.wire.decodeReader sent =
        some { req with model := route.upstreamModel } ∧
      ∀ text resp w', client (route.providerBaseURL ++ lit "/embeddings")
          (lit "Bearer " ++ apiKey) sent w = (.ok (200, text), w') →
        EmbeddingResponse.wire.decodeReader text = some resp →
        let handled := createEmbedding (overHTTP s firstKey client decodeError) call bindError body
          latency w
        handled.answer.status = 200 ∧
          EmbeddingResponse.wire.decodeReader handled.answer.body =
            some { resp with model := req.model } ∧
          ∃ r, handled.records = [r] ∧
            r.promptTokens = (resp.usage.map EmbeddingUsage.promptTokens).getD 0 ∧
            r.cost = r.promptTokens * route.inputPricePer1M / 1000000 := by
  have hfits := fits_of_bind levels_fit.2.2.1 hbind
  refine ⟨EmbeddingRequest.wire.marshal { req with model := route.upstreamModel },
    JsonType.decodeReader_marshal (embeddingRequest_fits_model hfits hname), ?_⟩
  intro text resp w' hanswer hread handled
  have hforward : (overHTTP s firstKey client decodeError).forward route.providerBaseURL apiKey
      { req with model := route.upstreamModel } w = (.ok ⟨200, some resp, fun _ => rfl⟩, w') := by
    have hbody : shouldBindJSON EmbeddingResponse.wire decodeError text = .ok resp := by
      rw [shouldBindJSON, hread]
    unfold overHTTP httpForward postEmbedding
    simp only [hanswer, hbody, readEmbedding, dif_pos]
  have hcall : (overHTTP s firstKey client decodeError).createEmbedding call req latency w =
      (finishEmbedding call req.model route latency ⟨200, some resp, fun _ => rfl⟩, w') := by
    have hresolve : (overHTTP s firstKey client decodeError).resolveRoute req.model w =
        .ok route := by
      unfold Service.resolveRoute
      rw [show (overHTTP s firstKey client decodeError).resolveModel req.model w = .ok route
        from hroute]
    unfold EmbeddingService.createEmbedding
    rw [hresolve]
    simp only
    rw [show (overHTTP s firstKey client decodeError).firstKey route.providerName w = .ok apiKey
      from hkey]
    simp only
    rw [hforward]
  have hhandled : handled = createEmbedding (overHTTP s firstKey client decodeError) call bindError
    body latency w := rfl
  unfold createEmbedding at hhandled
  rw [hbind] at hhandled
  simp only [if_neg hmodel, hcall, finishEmbedding, dif_pos, Option.get_some] at hhandled
  rw [hhandled]
  refine ⟨rfl, ?_, _, rfl, ?_, ?_⟩
  · have hvalid := embeddingModel_valid hfits
    have hresp := embeddingResponse_fits_model
      (JsonType.fits_of_decodeReader levels_fit.2.2.2 hread) hvalid
    exact JsonType.decodeReader_marshal hresp
  · cases resp.usage <;> rfl
  · rfl

def embedRoute : ModelRoute :=
  ⟨lit "embed", lit "text-embedding-3-small", lit "openai", lit "https://api.openai.com/v1", 1, 0⟩

/-- One model and one key. -/
def embedder : Service Unit :=
  { resolveModel := fun _ _ => .ok embedRoute
    nextKey := fun _ w => (.ok (lit "sk"), w)
    registry := fun _ => none }

def helloVector : EmbeddingResponse :=
  { object := lit "list"
    data := [⟨lit "embedding", [1, -2], 0⟩]
    model := lit "text-embedding-3-small"
    usage := some ⟨2, 2⟩ }

/-- An upstream that embeds everything alike. -/
def helloClient (_ _ _ : GoString) (w : Unit) : Except GoString (Int × GoString) × Unit :=
  (.ok (200, EmbeddingResponse.wire.marshal helloVector), w)

def helloKey (_ : GoString) (_ : Unit) : Except GoString GoString := .ok (lit "sk")

def helloEmbedding : EmbeddingRequest := { model := lit "embed", input := .str (lit "hello") }

theorem helloEmbedding_fits : EmbeddingRequest.wire.Fits maxNestingDepth helloEmbedding := by
  simp +decide [EmbeddingRequest.wire, EmbeddingRequest.fields, helloEmbedding]

/-- The client reads the vector of its text. -/
theorem embedding_passes_through_hello :
    ∃ sent, EmbeddingRequest.wire.decodeReader sent =
        some { helloEmbedding with model := embedRoute.upstreamModel } ∧
      ∀ text resp w', helloClient (embedRoute.providerBaseURL ++ lit "/embeddings")
          (lit "Bearer " ++ lit "sk") sent () = (.ok (200, text), w') →
        EmbeddingResponse.wire.decodeReader text = some resp →
        let handled := createEmbedding (overHTTP embedder helloKey helloClient id) ⟨7, 3⟩ id
          (EmbeddingRequest.wire.marshal helloEmbedding) 0 ()
        handled.answer.status = 200 ∧
          EmbeddingResponse.wire.decodeReader handled.answer.body =
            some { resp with model := helloEmbedding.model } ∧
          ∃ r, handled.records = [r] ∧
            r.promptTokens = (resp.usage.map EmbeddingUsage.promptTokens).getD 0 ∧
            r.cost = r.promptTokens * embedRoute.inputPricePer1M / 1000000 :=
  embedding_passes_through (by decide) (bind_marshal id helloEmbedding_fits)
    (rfl : embedder.resolveModel helloEmbedding.model () = .ok embedRoute) (by decide)
    (rfl : helloKey embedRoute.providerName () = .ok (lit "sk"))

end Embedding

end UniLLM.Api
