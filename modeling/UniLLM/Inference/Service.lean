import UniLLM.Inference.Helpers
import UniLLM.Go.Scanner

/-!
# The inference service

Chat completions, whole and streamed: resolve the route, take a key, call the
provider, relay what it answers, record the usage.  The state of everything
around the service is a type `W` that its calls pass along; the service itself
keeps none.  `relayStream` is the scan loop of a stream with what follows it.

A usage record that the source hands to a goroutine is in the outcome's list, at
the place where it is handed over.  `latency` is what the clock measures.
-/

namespace UniLLM.Inference
open Go OpenAI

inductive ErrorKind where
  | modelNotFound
  | providerMissing
  | providerKey
  | upstream
  | streamUnsupported
  deriving DecidableEq

/-- Carries a stable error classification for HTTP mapping. -/
structure InferenceError where
  kind : ErrorKind
  message : GoString
  httpStatus : Int := 0
  cause : Option GoString := none

structure CallContext where
  userID : Int
  apiKeyID : Int

structure UsageRecord where
  userID : Int
  apiKeyID : Int
  modelName : GoString
  providerName : GoString
  promptTokens : Int := 0
  completionTokens : Int := 0
  totalTokens : Int := 0
  cost : Rat := 0
  latency : Rat
  status : GoString
  httpStatus : Int
  isStream : Bool

/-- Token usage after a streaming completion. -/
structure StreamResult where
  promptTokens : Int
  completionTokens : Int
  totalTokens : Int
  cost : Rat
  latency : Rat

/-- Sends chat completion requests to an upstream provider. -/
structure ChatProvider (W : Type) where
  name : GoString
  chatCompletion :
    GoString → ChatCompletionRequest → W → Except GoString ChatCompletionResponse × W
  chatCompletionStream : GoString → ChatCompletionRequest → W → Except GoString Source × W

/-- What the service is built from. -/
structure Service (W : Type) where
  resolveModel : GoString → W → Except GoString ModelRoute
  nextKey : GoString → W → Except GoString GoString × W
  registry : GoString → Option (ChatProvider W)

/-- What the writer answers to a line. -/
inductive WriterReply where
  | ok
  /-- `WriteLine` fails: the line is not delivered. -/
  | writeFails
  | flushFails
  deriving DecidableEq

/-- The outcome of a call: what it returns, the usage it records, the lines it
delivers. -/
structure Outcome (α : Type) where
  result : Except InferenceError α
  records : List UsageRecord := []
  delivered : List GoString := []

variable {W : Type}

def Service.resolveRoute (s : Service W) (publicName : GoString) (w : W) :
    Except InferenceError ModelRoute :=
  match s.resolveModel publicName w with
  | .error e =>
    .error
      { kind := .modelNotFound
        message := lit "model '" ++ publicName ++ lit "' not found or not available"
        cause := some e }
  | .ok route => .ok route

def Service.getProvider (s : Service W) (name : GoString) :
    Except InferenceError (ChatProvider W) :=
  match s.registry name with
  | none => .error { kind := .providerMissing, message := lit "provider not configured" }
  | some p => .ok p

def upstreamError (cause : GoString) : InferenceError :=
  { kind := .upstream, message := lit "upstream error", cause := some cause }

/-- The record of a call that failed upstream. -/
def errorRecord (call : CallContext) (publicModel : GoString) (route : ModelRoute) (latency : Rat)
    (isStream : Bool) : UsageRecord :=
  { userID := call.userID
    apiKeyID := call.apiKeyID
    modelName := publicModel
    providerName := route.providerName
    latency := latency
    status := lit "error"
    httpStatus := 502
    isStream := isStream }

/-- The record of a call that went well. -/
def okRecord (call : CallContext) (publicModel : GoString) (route : ModelRoute) (tokens : Tokens)
    (cost latency : Rat) (isStream : Bool) : UsageRecord :=
  { userID := call.userID
    apiKeyID := call.apiKeyID
    modelName := publicModel
    providerName := route.providerName
    promptTokens := tokens.promptTokens
    completionTokens := tokens.completionTokens
    totalTokens := tokens.totalTokens
    cost := cost
    latency := latency
    status := lit "ok"
    httpStatus := 200
    isStream := isStream }

/-! ### Whole completions -/

/-- The token counts of a response. -/
def responseTokens : Option Usage → Tokens
  | none => {}
  | some u => ⟨u.promptTokens, u.completionTokens, u.totalTokens⟩

/-- What follows a response. -/
def finishResponse (call : CallContext) (publicModel : GoString)
    (route : ModelRoute) (latency : Rat)
    (resp : ChatCompletionResponse) : Outcome ChatCompletionResponse :=
  let cost := calculateCost route.inputPricePer1M route.outputPricePer1M resp.usage
  { result := .ok { resp with model := publicModel }
    records := [okRecord call publicModel route (responseTokens resp.usage) cost latency false] }

/-- Handles a non-streaming chat completion. -/
def Service.chatCompletion (s : Service W) (call : CallContext) (req : ChatCompletionRequest)
    (latency : Rat) (w : W) : Outcome ChatCompletionResponse × W :=
  match s.resolveRoute req.model w with
  | .error e => ({ result := .error e }, w)
  | .ok route =>
    match s.getProvider route.providerName with
    | .error e => ({ result := .error e }, w)
    | .ok p =>
      match s.nextKey route.providerName w with
      | (.error e, w) =>
        ({ result := .error { kind := .providerKey, message := e, cause := some e } }, w)
      | (.ok apiKey, w) =>
        match p.chatCompletion apiKey (prepareChatRequest req.model req route) w with
        | (.error e, w) =>
          ({ result := .error (upstreamError e)
             records := [errorRecord call req.model route latency false] }, w)
        | (.ok resp, w) => (finishResponse call req.model route latency resp, w)

/-! ### Streams -/

/-- A line the loop looks into. -/
def isDataLine (line : GoString) : Bool :=
  hasPrefix line (lit "data: ") && line != lit "data: [DONE]"

/-- The line as it is relayed. -/
def rewriteLine (publicModel line : GoString) : GoString :=
  if isDataLine line then replaceModelName line publicModel else line

/-- What the loop keeps. -/
structure Tally where
  tokens : Tokens := {}
  contentChars : Nat := 0

/-- The tally after a line. -/
def Tally.add (publicModel : GoString) (t : Tally) (line : GoString) : Tally :=
  if isDataLine line then
    let line := replaceModelName line publicModel
    { tokens := if contains line (lit "\"usage\"") then extractStreamUsage line else t.tokens
      contentChars := t.contentChars + extractContentLength line }
  else t

/-- The scan loop: the lines delivered, and the tally at its end.  `writer` answers to
the lines in turn. -/
def scanLoop (publicModel : GoString) : (writer : List WriterReply) → Tally → List GoString →
    List GoString × Tally
  | _, t, [] => ([], t)
  | [], t, line :: rest =>
    let r := scanLoop publicModel [] (t.add publicModel line) rest
    (rewriteLine publicModel line :: r.1, r.2)
  | reply :: writer, t, line :: rest =>
    let t := t.add publicModel line
    match reply with
    | .ok =>
      let r := scanLoop publicModel writer t rest
      (rewriteLine publicModel line :: r.1, r.2)
    | .writeFails => ([], t)
    | .flushFails => ([rewriteLine publicModel line], t)

/-- The estimate by size. -/
def estimateTokens (messages : List Message) (contentChars : Nat) : Tokens :=
  let pt := estimatePromptTokens messages
  let ct : Int := max 1 (contentChars / 4 : Nat)
  ⟨pt, ct, pt + ct⟩

/-- The tokens recorded: the estimate unless the loop has a count. -/
def Tally.recorded (t : Tally) (messages : List Message) : Tokens :=
  if t.tokens.promptTokens = 0 ∧ t.tokens.completionTokens = 0 then
    estimateTokens messages t.contentChars
  else t.tokens

/-- Relays a stream: the loop, then the record.  `writer` says what the writer answers
to the first lines; it accepts the rest. -/
def relayStream (call : CallContext) (publicModel : GoString) (route : ModelRoute)
    (messages : List Message) (writer : List WriterReply) (latency : Rat) (stream : Source) :
    Outcome StreamResult :=
  let (delivered, t) := scanLoop publicModel writer {} (scanLines maxScanTokenSize stream).1
  let tokens := t.recorded messages
  let cost := calculateTokenCost route.inputPricePer1M route.outputPricePer1M
    tokens.promptTokens tokens.completionTokens
  { result := .ok ⟨tokens.promptTokens, tokens.completionTokens, tokens.totalTokens, cost, latency⟩
    records := [okRecord call publicModel route tokens cost latency true]
    delivered := delivered }

/-- Handles a streaming chat completion. -/
def Service.chatCompletionStream (s : Service W) (call : CallContext) (req : ChatCompletionRequest)
    (writer : List WriterReply) (latency : Rat) (w : W) : Outcome StreamResult × W :=
  match s.resolveRoute req.model w with
  | .error e => ({ result := .error e }, w)
  | .ok route =>
    match s.getProvider route.providerName with
    | .error e => ({ result := .error e }, w)
    | .ok p =>
      match s.nextKey route.providerName w with
      | (.error e, w) =>
        ({ result := .error { kind := .providerKey, message := e, cause := some e } }, w)
      | (.ok apiKey, w) =>
        match p.chatCompletionStream apiKey (prepareChatRequest req.model req route) w with
        | (.error e, w) =>
          ({ result := .error (upstreamError e)
             records := [errorRecord call req.model route latency true] }, w)
        | (.ok stream, w) =>
          (relayStream call req.model route req.messages writer latency stream, w)

end UniLLM.Inference
