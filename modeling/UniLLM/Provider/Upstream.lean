import UniLLM.Provider.StreamAdapter
import UniLLM.Go.Number
import Mathlib.Logic.Function.Basic

/-!
# Upstream providers

The providers a request can go to: the three that speak HTTP, each wrapped with
retries and a circuit breaker, and groups that try several of these in turn.  All
of them have the same two methods, one for whole completions and one for streams;
a group does the same in both, so `tryAll` has the loop once.

The state that the methods pass along is the circuit breakers, by the provider's
name, and a log of the calls that have gone out.  What the network answers, what
the clocks say and what other requests do to the breakers in the meantime is an
`Environment`, asked by the number of questions so far.
-/

namespace UniLLM.Provider
open Go OpenAI

/-- One second, in nanoseconds. -/
def second : Int := 1000000000

/-! ### Circuit breakers -/

/-- The state of a circuit breaker. -/
inductive CircuitState where
  | closed
  | open
  | halfOpen
  deriving DecidableEq

/-- Tracks failures for a provider. -/
structure CircuitBreaker where
  state : CircuitState := .closed
  failures : Int := 0
  threshold : Int
  resetTimeout : Int
  lastFailure : Int := 0

def newCircuitBreaker (threshold resetTimeout : Int) : CircuitBreaker :=
  { threshold := threshold, resetTimeout := resetTimeout }

def CircuitBreaker.allow (cb : CircuitBreaker) (now : Int) : Bool × CircuitBreaker :=
  match cb.state with
  | .closed => (true, cb)
  | .open =>
    if now - cb.lastFailure > cb.resetTimeout then (true, { cb with state := .halfOpen })
    else (false, cb)
  | .halfOpen => (true, cb)

def CircuitBreaker.recordSuccess (cb : CircuitBreaker) : CircuitBreaker :=
  { cb with failures := 0, state := .closed }

def CircuitBreaker.recordFailure (cb : CircuitBreaker) (now : Int) : CircuitBreaker :=
  let failures := cb.failures + 1
  { cb with
    failures := failures
    lastFailure := now
    state := if failures ≥ cb.threshold then .open else cb.state }

/-! ### The network -/

/-- A call that goes out to a provider. -/
structure UpstreamCall where
  provider : GoString
  url : GoString
  apiKey : GoString
  model : GoString
  /-- What is posted. -/
  body : GoString

/-- The state the methods pass along. -/
structure Wire where
  /-- How often the environment has been asked. -/
  ticks : Nat
  breakers : GoString → CircuitBreaker
  log : List UpstreamCall

/-- What comes back for a call. -/
inductive Reply (α : Type) where
  | failed (error : GoString)
  | answered (statusCode : Int) (body : GoString) (value : α)

/-- What `net/http` and `encoding/json` refuse before anything is sent. -/
structure Http where
  /-- The error of `NewRequestWithContext` for a URL. -/
  createError : (url : GoString) → Option GoString
  /-- The error of `Do` for a URL and the value of the key's header. -/
  refuses : (url apiKey : GoString) → Option GoString
  /-- The text of the error for a request that is no JSON. -/
  marshalError : Anthropic.Request → GoString

/-- What happens around the process. -/
structure Environment where
  now : Nat → Int
  /-- The error of the request's context, if it is done before a backoff is over. -/
  cancelled : Nat → Option GoString
  /-- What other requests have done to the breakers. -/
  others : Nat → (GoString → CircuitBreaker) → GoString → CircuitBreaker
  completion : Nat → Reply (Except GoString ChatCompletionResponse)
  message : Nat → Reply (Except GoString Anthropic.Response)
  stream : Nat → Reply Source

/-- The providers that speak HTTP. -/
inductive Direct where
  /-- OpenAI and what is compatible with it. -/
  | openAI (name baseURL : GoString)
  | anthropic (baseURL : GoString)
  | google (baseURL : GoString)
  deriving DecidableEq

def Direct.name : Direct → GoString
  | .openAI name _ => name
  | .anthropic _ => lit "anthropic"
  | .google _ => lit "google"

/-- `strings.TrimSuffix` of one slash. -/
def trimSlash (s : GoString) : GoString := if s.getLast? = some 0x2F then s.dropLast else s

def Direct.url : Direct → GoString
  | .openAI _ baseURL => baseURL ++ lit "/chat/completions"
  | .anthropic baseURL => baseURL ++ lit "/messages"
  | .google baseURL => trimSlash baseURL ++ lit "/openai/chat/completions"

/-- The body that `json.Marshal` writes for a request, streamed or not. -/
def Direct.posted (p : Direct) (stream : Bool) (req : ChatCompletionRequest) : GoString :=
  match p with
  | .anthropic _ => { Anthropic.convertRequest req with stream := stream }.tree.encode
  | _ => { req with stream := stream }.toJson.encode

/-- How the provider's errors begin. -/
def Direct.errorName : Direct → GoString
  | .openAI _ _ => lit "upstream"
  | .anthropic _ => lit "anthropic"
  | .google _ => lit "google"

variable (http : Http) (env : Environment)

/-- Creates the HTTP request, sends it and checks the status. -/
def exchange {α : Type} (p : Direct) (apiKey model posted : GoString) (reply : Nat → Reply α)
    (w : Wire) : Except GoString α × Wire :=
  match http.createError p.url with
  | some e => (.error (lit "create request: " ++ e), w)
  | none =>
    match http.refuses p.url apiKey with
    | some e => (.error (lit "do request: " ++ e), w)
    | none =>
      let sent :=
        { w with
          ticks := w.ticks + 1
          log := w.log ++ [⟨p.name, p.url, apiKey, model, posted⟩] }
      match reply w.ticks with
      | .failed e => (.error (lit "do request: " ++ e), sent)
      | .answered statusCode body value =>
        if statusCode ≠ 200 then
          (.error (p.errorName ++ lit " error (status " ++ formatInt statusCode ++ lit "): " ++ body),
            sent)
        else (.ok value, sent)

/-- Decodes the body of an answer. -/
def decodeReply {α : Type} : Except GoString (Except GoString α) → Except GoString α
  | .error e => .error e
  | .ok (.error e) => .error (lit "decode response: " ++ e)
  | .ok (.ok value) => .ok value

/-- `json.Marshal` of the request as the provider sends it.  OpenAI requests always
marshal. -/
def Direct.marshalError (p : Direct) (req : ChatCompletionRequest) : Option GoString :=
  match p with
  | .anthropic _ =>
    let ar := Anthropic.convertRequest req
    if ar.marshals then none else some (lit "marshal request: " ++ http.marshalError ar)
  | _ => none

def Direct.chatCompletion (p : Direct) (apiKey : GoString)
    (req : ChatCompletionRequest) (w : Wire) :
    Except GoString ChatCompletionResponse × Wire :=
  match p.marshalError http req with
  | some e => (.error e, w)
  | none =>
    match p with
    | .anthropic _ =>
      let (answer, w') := exchange http p apiKey req.model (p.posted false req) env.message w
      ((decodeReply answer).map fun ar =>
        Anthropic.convertResponse ar req.model (env.now w'.ticks / second), w')
    | _ =>
      let (answer, w) := exchange http p apiKey req.model (p.posted false req) env.completion w
      (decodeReply answer, w)

def Direct.chatCompletionStream (p : Direct) (apiKey : GoString) (req : ChatCompletionRequest)
    (w : Wire) : Except GoString Source × Wire :=
  match p.marshalError http req with
  | some e => (.error e, w)
  | none =>
    let (answer, w) := exchange http p apiKey req.model (p.posted true req) env.stream w
    match p with
    | .anthropic _ =>
      (answer.map fun body => (Anthropic.newAnthropicStreamAdapter body req.model).source, w)
    | _ => (answer, w)

/-! ### Resilience -/

/-- Wraps a provider with retries and a circuit breaker, which is found under the
provider's name. -/
structure Resilient where
  inner : Direct
  retries : Nat
  deriving DecidableEq

def newResilientProvider (inner : Direct) : Resilient := ⟨inner, 2⟩

/-- The breaker that comes with it. -/
def newProviderBreaker : CircuitBreaker := newCircuitBreaker 5 (30 * second)

def Resilient.name (p : Resilient) : GoString := p.inner.name

/-- Puts a breaker back. -/
def Wire.setBreaker (w : Wire) (name : GoString) (cb : CircuitBreaker) : Wire :=
  { w with breakers := Function.update w.breakers name cb }

/-- Asks the provider's breaker, after what others have done to it. -/
def Resilient.allow (p : Resilient) (w : Wire) : Bool × Wire :=
  let w := { w with ticks := w.ticks + 1, breakers := env.others w.ticks w.breakers }
  let (allowed, cb) := (w.breakers p.name).allow (env.now w.ticks)
  (allowed, w.setBreaker p.name cb)

def Resilient.recordSuccess (p : Resilient) (w : Wire) : Wire :=
  let w := { w with ticks := w.ticks + 1, breakers := env.others w.ticks w.breakers }
  w.setBreaker p.name (w.breakers p.name).recordSuccess

def Resilient.recordFailure (p : Resilient) (w : Wire) : Wire :=
  let w := { w with ticks := w.ticks + 1, breakers := env.others w.ticks w.breakers }
  w.setBreaker p.name ((w.breakers p.name).recordFailure (env.now w.ticks))

def Resilient.openError (p : Resilient) : GoString :=
  lit "circuit breaker open for provider " ++ p.name

/-- The response has no content and no tool calls. -/
def isEmptyOutput (resp : ChatCompletionResponse) : Bool :=
  match resp.choices with
  | [] => true
  | choice :: _ =>
    match choice.message with
    | none => true
    | some msg =>
      if msg.toolCalls ≠ [] then false
      else
        match msg.content with
        | .str content => content.isEmpty
        | _ => true

/-- The attempts that are left.  Before each but the first there is a backoff, which the
end of the context cuts short. -/
def Resilient.attempts (p : Resilient) (apiKey : GoString) (req : ChatCompletionRequest) :
    Nat → GoString → Wire → Except GoString ChatCompletionResponse × Wire
  | 0, lastErr, w => (.error lastErr, p.recordFailure env w)
  | left + 1, _, w =>
    match if left < p.retries then env.cancelled w.ticks else none with
    | some e => (.error e, w)
    | none =>
      match p.inner.chatCompletion http env apiKey req { w with ticks := w.ticks + 1 } with
      | (.ok resp, w) =>
        if isEmptyOutput resp then
          p.attempts apiKey req left (lit "empty output from provider " ++ p.name) w
        else (.ok resp, p.recordSuccess env w)
      | (.error e, w) => p.attempts apiKey req left e w

def Resilient.chatCompletion (p : Resilient) (apiKey : GoString) (req : ChatCompletionRequest)
    (w : Wire) : Except GoString ChatCompletionResponse × Wire :=
  match p.allow env w with
  | (false, w) => (.error p.openError, w)
  | (true, w) => p.attempts http env apiKey req (p.retries + 1) [] w

/-- Streams are not retried. -/
def Resilient.chatCompletionStream (p : Resilient) (apiKey : GoString) (req : ChatCompletionRequest)
    (w : Wire) : Except GoString Source × Wire :=
  match p.allow env w with
  | (false, w) => (.error p.openError, w)
  | (true, w) =>
    match p.inner.chatCompletionStream http env apiKey req w with
    | (.error e, w) => (.error e, p.recordFailure env w)
    | (.ok stream, w) => (.ok stream, p.recordSuccess env w)

/-! ### Groups -/

/-- Tries multiple providers in order until one succeeds. -/
structure Fallback where
  name : GoString
  providers : List Resilient
  /-- Provider name to API key. -/
  apiKeys : GoString → Option GoString

/-- The provider's own API key if configured, otherwise the passed key. -/
def Fallback.key (f : Fallback) (apiKey : GoString) (p : Resilient) : GoString :=
  (f.apiKeys p.name).getD apiKey

/-- The loop of both methods.  `lastErr` is nil before the first failure. -/
def tryAll {α : Type} (name : GoString) (method : Resilient → Wire → Except GoString α × Wire) :
    List Resilient → GoString → Wire → Except GoString α × Wire
  | [], lastErr, w =>
    (.error (lit "all providers in fallback chain '" ++ name ++ lit "' failed: " ++ lastErr), w)
  | p :: providers, _, w =>
    match method p w with
    | (.ok value, w) => (.ok value, w)
    | (.error e, w) => tryAll name method providers e w

/-- What `%w` prints for nil. -/
def nilError : GoString := lit "%!w(<nil>)"

def Fallback.chatCompletion (f : Fallback) (apiKey : GoString) (req : ChatCompletionRequest)
    (w : Wire) : Except GoString ChatCompletionResponse × Wire :=
  tryAll f.name (fun p => p.chatCompletion http env (f.key apiKey p) req) f.providers nilError w

def Fallback.chatCompletionStream (f : Fallback) (apiKey : GoString) (req : ChatCompletionRequest)
    (w : Wire) : Except GoString Source × Wire :=
  tryAll f.name (fun p => p.chatCompletionStream http env (f.key apiKey p) req)
    f.providers nilError w

end UniLLM.Provider
