import UniLLM.Inference.Service
import UniLLM.Go.Json

/-!
# Embeddings

The third entry point of the inference service: resolve the route, take the first key of
its provider, forward the request, record the usage.  The forwarder's HTTP client is a
parameter: what it answers to a request, and the decoded body with it.
-/

namespace UniLLM.Inference
open Go OpenAI

/-- The OpenAI-compatible embedding request format.  The input is any JSON value. -/
structure EmbeddingRequest where
  model : GoString
  input : Json
  encodingFormat : GoString := []
  dimensions : Int := 0

/-- A single embedding vector. -/
structure EmbeddingData where
  object : GoString
  embedding : List Rat
  index : Int

/-- Token usage of an embedding request. -/
structure EmbeddingUsage where
  promptTokens : Int
  totalTokens : Int

/-- The OpenAI-compatible embedding response format. -/
structure EmbeddingResponse where
  object : GoString
  data : List EmbeddingData
  model : GoString
  usage : Option EmbeddingUsage

/-- What `Forward` returns if it returns no error: with status 200 there is a response. -/
structure EmbeddingReply where
  statusCode : Int
  response : Option EmbeddingResponse
  answered : statusCode = 200 → response.isSome

/-- The outcome of an embedding request. -/
structure EmbeddingResult where
  response : EmbeddingResponse
  cost : Rat
  latency : Rat

/-- The service with what embeddings need. -/
structure EmbeddingService (W : Type) extends Service W where
  firstKey : GoString → W → Except GoString GoString
  forward : (baseURL apiKey : GoString) → EmbeddingRequest → W → Except GoString EmbeddingReply × W

variable {W : Type}

/-! ### The forwarder -/

/-- An HTTP response: its status and what its body decodes to. -/
structure EmbeddingHTTPResponse where
  statusCode : Int
  body : Except GoString EmbeddingResponse

/-- What `Forward` makes of a response. -/
def readEmbedding (resp : EmbeddingHTTPResponse) : Except GoString EmbeddingReply :=
  if h : resp.statusCode = 200 then
    match resp.body with
    | .error e => .error e
    | .ok embResp => .ok ⟨resp.statusCode, some embResp, fun _ => rfl⟩
  else .ok ⟨resp.statusCode, none, fun h' => absurd h' h⟩

/-- Forwards embedding requests over HTTP.  `post` sends a request with its
`Authorization` header to a URL. -/
def httpForward
    (post : (url authorization : GoString) → EmbeddingRequest → W →
      Except GoString EmbeddingHTTPResponse × W)
    (baseURL apiKey : GoString) (req : EmbeddingRequest) (w : W) :
    Except GoString EmbeddingReply × W :=
  match post (baseURL ++ lit "/embeddings") (lit "Bearer " ++ apiKey) req w with
  | (.error e, w) => (.error e, w)
  | (.ok resp, w) => (readEmbedding resp, w)

/-! ### The service -/

/-- What follows a reply. -/
def finishEmbedding (call : CallContext) (publicModel : GoString)
    (route : ModelRoute) (latency : Rat)
    (reply : EmbeddingReply) : Outcome EmbeddingResult :=
  if h : reply.statusCode = 200 then
    let resp := reply.response.get (reply.answered h)
    let pt : Int := match resp.usage with
      | none => 0
      | some usage => usage.promptTokens
    let cost : Rat := pt * route.inputPricePer1M / 1000000
    { result := .ok ⟨{ resp with model := publicModel }, cost, latency⟩
      records :=
        [{ userID := call.userID
           apiKeyID := call.apiKeyID
           modelName := publicModel
           providerName := route.providerName
           promptTokens := pt
           totalTokens := pt
           cost := cost
           latency := latency
           status := lit "ok"
           httpStatus := 200
           isStream := false }] }
  else
    -- no record
    { result := .error
        { kind := .upstream
          message := lit "upstream error (status " ++ formatInt reply.statusCode ++ lit ")"
          httpStatus := reply.statusCode } }

/-- Handles an embedding request. -/
def EmbeddingService.createEmbedding (s : EmbeddingService W) (call : CallContext)
    (req : EmbeddingRequest) (latency : Rat) (w : W) : Outcome EmbeddingResult × W :=
  match s.resolveRoute req.model w with
  | .error e => ({ result := .error e }, w)
  | .ok route =>
    match s.firstKey route.providerName w with
    | .error e => ({ result := .error { kind := .providerKey, message := e, cause := some e } }, w)
    | .ok apiKey =>
      match s.forward route.providerBaseURL apiKey { req with model := route.upstreamModel } w with
      | (.error e, w) =>
        ({ result := .error { kind := .upstream, message := e, cause := some e } }, w)
      | (.ok reply, w) => (finishEmbedding call req.model route latency reply, w)

end UniLLM.Inference
