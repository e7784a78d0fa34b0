import UniLLM.Middleware.Gates
import UniLLM.Provider.WireBodies

/-!
# The handlers of `/v1`

Chat completions and embeddings, from the text of a request to the text of its answer.  What
`ShouldBindJSON` says of a text that it refuses is a parameter.  The status and the records of a
handler are those that the gates hand on to.
-/

namespace UniLLM.Api
open Go OpenAI Inference Middleware.Gates

/-! ### Errors -/

structure ErrorBody where
  message : GoString
  type : GoString
  code : GoString := []

/-- The OpenAI-compatible error format. -/
structure ErrorResponse where
  error : ErrorBody

def ErrorBody.fields : List (StructField ErrorBody) :=
  [.always "message" .string (·.message) fun e a => { e with message := a },
   .always "type" .string (·.type) fun e a => { e with type := a },
   ⟨"code", .string, List.isEmpty, (·.code), fun e a => { e with code := a }⟩]

theorem ErrorBody.fields_ok : StructFields ⟨[], [], []⟩ ErrorBody.fields where
  names := by decide
  distinct := by decide
  apart := by simp [fields]
  get_set := by simp [fields]
  get_zero := by simp [fields]
  omits_zero := by simp [fields]
  ext := by
    rintro ⟨⟩ ⟨⟩ h
    simpa [fields] using h

def ErrorBody.wire : JsonType ErrorBody := .struct _ ErrorBody.fields fields_ok

@[simp] theorem ErrorBody.wire_zero : ErrorBody.wire.zero = ⟨[], [], []⟩ := rfl

def ErrorResponse.fields : List (StructField ErrorResponse) :=
  [.always "error" ErrorBody.wire (·.error) fun e a => { e with error := a }]

theorem ErrorResponse.fields_ok : StructFields ⟨⟨[], [], []⟩⟩ ErrorResponse.fields where
  names := by decide
  distinct := by decide
  apart := by simp [fields]
  get_set := by simp [fields]
  get_zero := by simp [fields]
  omits_zero := by simp [fields]
  ext := by
    rintro ⟨⟩ ⟨⟩ h
    simpa [fields] using h

def ErrorResponse.wire : JsonType ErrorResponse := .struct _ ErrorResponse.fields fields_ok

/-! ### Answers -/

structure Answer where
  status : Int
  contentType : GoString
  body : GoString

def eventStream : GoString := lit "text/event-stream"

def applicationJSON : GoString := lit "application/json; charset=utf-8"

/-- The statuses that have a body. -/
def bodyAllowedForStatus (status : Int) : Bool :=
  if 100 ≤ status ∧ status ≤ 199 then false else status != 204 && status != 304

/-- `c.JSON`.  A content type that has been set stays. -/
def writeJSON (contentType : Option GoString) (status : Int) (body : GoString) : Answer :=
  { status := status
    contentType := contentType.getD applicationJSON
    body := if bodyAllowedForStatus status then body else [] }

def writeError (contentType : Option GoString) (e : ErrorReply) : Answer :=
  writeJSON contentType e.status (ErrorResponse.wire.marshal ⟨⟨e.message, e.type, []⟩⟩)

/-- What a handler leaves: its answer, its records and the state around it. -/
structure Handled (W : Type) where
  answer : Answer
  records : List UsageRecord
  state : W

/-! ### Handlers -/

/-- `ShouldBindJSON`. -/
def shouldBindJSON {α : Type} (t : JsonType α) (bindError : GoString → GoString)
    (body : GoString) : Except GoString α :=
  match t.decodeReader body with
  | none => .error (bindError body)
  | some x => .ok x

def invalidRequest (e : GoString) : ErrorReply :=
  ⟨400, lit "invalid request: " ++ e, lit "invalid_request_error"⟩

def modelRequired : ErrorReply := ⟨400, lit "model is required", lit "invalid_request_error"⟩

variable {W : Type}

def handleNonStream (s : Service W) (call : CallContext) (req : ChatCompletionRequest)
    (latency : Rat) (w : W) : Handled W :=
  let (outcome, w) := s.chatCompletion call req latency w
  { answer :=
      match outcome.result with
      | .error e => writeError none (writeInferenceError e)
      | .ok resp => writeJSON none 200 (ChatCompletionResponse.wire.marshal resp)
    records := outcome.records
    state := w }

/-- `WriteLine` of each line. -/
def streamBody (lines : List GoString) : GoString := lines.flatMap (· ++ [0x0A])

/-- An error is written only while nothing else is. -/
def handleStream (s : Service W) (call : CallContext) (req : ChatCompletionRequest)
    (writer : List WriterReply) (latency : Rat) (w : W) : Handled W :=
  let (outcome, w) := s.chatCompletionStream call req writer latency w
  { answer :=
      match outcome.result with
      | .error e =>
        if outcome.delivered = [] then writeError (some eventStream) (writeInferenceError e)
        else ⟨200, eventStream, streamBody outcome.delivered⟩
      | .ok _ => ⟨200, eventStream, streamBody outcome.delivered⟩
    records := outcome.records
    state := w }

/-- `ProxyHandler.ChatCompletion`. -/
def chatCompletion (s : Service W) (call : CallContext) (bindError : GoString → GoString)
    (body : GoString) (writer : List WriterReply) (latency : Rat) (w : W) : Handled W :=
  match shouldBindJSON ChatCompletionRequest.wire bindError body with
  | .error e => ⟨writeError none (invalidRequest e), [], w⟩
  | .ok req =>
    if req.model = [] then ⟨writeError none modelRequired, [], w⟩
    else if req.stream then handleStream s call req writer latency w
    else handleNonStream s call req latency w

/-- `EmbeddingHandler.CreateEmbedding`. -/
def createEmbedding (s : EmbeddingService W) (call : CallContext)
    (bindError : GoString → GoString) (body : GoString) (latency : Rat) (w : W) : Handled W :=
  match shouldBindJSON EmbeddingRequest.wire bindError body with
  | .error e => ⟨writeError none (invalidRequest e), [], w⟩
  | .ok req =>
    if req.model = [] then ⟨writeError none modelRequired, [], w⟩
    else
      let (outcome, w) := s.createEmbedding call req latency w
      { answer :=
          match outcome.result with
          | .error e => writeError none (writeInferenceError e)
          | .ok result => writeJSON none 200 (EmbeddingResponse.wire.marshal result.response)
        records := outcome.records
        state := w }

/-! ### What the gates hand on to -/

/-- The status of a request that the gates have served. -/
def servedStatus : Except ErrorReply Unit → Int
  | .ok _ => 200
  | .error reply => reply.status

/-- A handler does what the gates' handler of its endpoint does. -/
def Handled.Serves (h : Handled W) (served : Served × W) : Prop :=
  h.answer.status = servedStatus served.1.reply ∧ h.records = served.1.records ∧
    h.state = served.2

/-- A stream that fails has delivered nothing. -/
theorem delivered_of_error {s : Service W} {call : CallContext} {req : ChatCompletionRequest}
    {writer : List WriterReply} {latency : Rat} {w : W} {e : InferenceError}
    (h : (s.chatCompletionStream call req writer latency w).1.result = .error e) :
    (s.chatCompletionStream call req writer latency w).1.delivered = [] := by
  unfold Service.chatCompletionStream at h ⊢
  split
  · rfl
  · split
    · rfl
    · split
      · rfl
      · split
        · rfl
        · rename_i route hroute _ p hp _ apiKey w₁ hkey _ stream w₂ hstream
          rw [hroute] at h
          simp only at h
          rw [hp] at h
          simp only at h
          rw [hkey] at h
          simp only at h
          rw [hstream] at h
          cases h

variable {s : EmbeddingService W} {c : Context} {bindError : GoString → GoString}
  {body : GoString} {latency : Rat} {w : W}

theorem chatCompletion_serves (writer : List WriterReply) :
    (chatCompletion s.toService ⟨getInt64 c.userID, getInt64 c.apiKeyID⟩ bindError body writer
      latency w).Serves
    (handler s (.chatCompletions (shouldBindJSON ChatCompletionRequest.wire bindError body) writer)
      latency c w) := by
  unfold chatCompletion handler
  cases shouldBindJSON ChatCompletionRequest.wire bindError body with
  | error e => exact ⟨rfl, rfl, rfl⟩
  | ok req =>
    unfold Middleware.Gates.bind
    simp only
    by_cases hmodel : req.model = []
    · rw [if_pos hmodel, if_pos hmodel]
      exact ⟨rfl, rfl, rfl⟩
    rw [if_neg hmodel, if_neg hmodel]
    cases hstream : req.stream with
    | true =>
      simp only [if_true]
      unfold handleStream EmbeddingService.handle Outcome.summary
      simp only
      cases hresult : (s.chatCompletionStream ⟨getInt64 c.userID, getInt64 c.apiKeyID⟩ req writer
          latency w).1.result with
      | error e =>
        simp only [delivered_of_error hresult, if_true, Except.map]
        exact ⟨rfl, rfl, rfl⟩
      | ok result => exact ⟨rfl, rfl, rfl⟩
    | false =>
      simp only [Bool.false_eq_true, if_false]
      unfold handleNonStream EmbeddingService.handle Outcome.summary
      simp only
      cases (s.chatCompletion ⟨getInt64 c.userID, getInt64 c.apiKeyID⟩ req latency w).1.result with
      | error e => exact ⟨rfl, rfl, rfl⟩
      | ok resp => exact ⟨rfl, rfl, rfl⟩

theorem createEmbedding_serves :
    (createEmbedding s ⟨getInt64 c.userID, getInt64 c.apiKeyID⟩ bindError body latency w).Serves
    (handler s (.embeddings (shouldBindJSON EmbeddingRequest.wire bindError body)) latency c w) := by
  unfold createEmbedding handler
  cases shouldBindJSON EmbeddingRequest.wire bindError body with
  | error e => exact ⟨rfl, rfl, rfl⟩
  | ok req =>
    unfold Middleware.Gates.bind
    simp only
    by_cases hmodel : req.model = []
    · rw [if_pos hmodel, if_pos hmodel]
      exact ⟨rfl, rfl, rfl⟩
    rw [if_neg hmodel, if_neg hmodel]
    unfold EmbeddingService.handle Outcome.summary
    simp only
    cases (s.createEmbedding ⟨getInt64 c.userID, getInt64 c.apiKeyID⟩ req latency w).1.result with
    | error e => exact ⟨rfl, rfl, rfl⟩
    | ok result => exact ⟨rfl, rfl, rfl⟩

end UniLLM.Api
