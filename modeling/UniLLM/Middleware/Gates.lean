import UniLLM.Billing.Admission
import UniLLM.Inference.Accounting
import UniLLM.Middleware.RedisRateLimit

/-!
# The gates of the API

A request to `/v1/chat/completions` or `/v1/embeddings` passes the check of its API key, the
rate limiter and the balance check, and then gets to its handler.  The first and the last
refuse when a store fails them; the limiter lets the request through.  They talk through
values in the context, and a value that is not set reads as zero.

The stores are what the queries of the request find: other requests and admins may change
them in between, and any query may fail.
-/

namespace UniLLM.Middleware
open Go OpenAI Inference

namespace Gates

/-! ### Contexts and answers -/

/-- The context of a request. -/
structure Context where
  /-- The `Authorization` header; empty if there is none. -/
  authorization : GoString
  userID : Option Int := none
  apiKeyID : Option Int := none

/-- An error response. -/
structure ErrorReply where
  status : Int
  message : GoString
  type : GoString
  deriving DecidableEq

/-- Passes the context on, or aborts with an answer. -/
abbrev HandlerFunc := Context → Except ErrorReply Context

/-- `GetInt64`: a value that is not set is zero. -/
def getInt64 (value : Option Int) : Int := value.getD 0

/-! ### Stores -/

/-- A row of `api_keys`. -/
structure APIKey where
  id : Int
  userID : Int
  keyHash : GoString
  isActive : Bool
  deriving DecidableEq

/-- What the queries of a request find, or their errors. -/
structure Stores where
  /-- The table of API keys, in the order of the ids. -/
  apiKeys : Except GoString (List APIKey)
  /-- The count in the reply to the limiter's pipeline on a Redis key. -/
  count : GoString → Except GoString Int
  /-- The balance in the user's row. -/
  balance : Int → Except GoString Rat
  /-- The text of `balance_used` of the user; `none` if it is not there. -/
  used : Int → Except GoString (Option GoString)

variable (stores : Stores)

def findByHash (hash : GoString) : Except GoString APIKey :=
  match stores.apiKeys with
  | .error e => .error e
  | .ok rows =>
    match rows.find? fun k => k.keyHash == hash && k.isActive with
    | none => .error (lit "record not found")
    | some key => .ok key

/-- The user, the key, and whether there is one. -/
def resolveAPIKey (keyHash : GoString) : Int × Int × Bool :=
  match findByHash stores keyHash with
  | .error _ => (0, 0, false)
  | .ok key => (key.userID, key.id, true)

/-- `Allow`, with its error. -/
def allow (rl : RedisRateLimiter) (key : GoString) : Bool × Option GoString :=
  match stores.count (lit "rl:" ++ key) with
  | .error e => (true, some e)
  | .ok count => if count ≥ rl.limit then (false, none) else (true, none)

def getUsedAmount (userID : Int) : Except GoString Rat :=
  match stores.used userID with
  | .error e => .error e
  | .ok none => .ok 0
  | .ok (some usedStr) =>
    if usedStr = [] then .ok 0
    else
      match parseFloat usedStr with
      | none => .error (lit "invalid syntax")
      | some used => .ok used

/-- `CheckBalance`: the database first, then Redis. -/
def checkBalance (userID : Int) (estimatedCost : Rat) : Except GoString Bool :=
  match stores.balance userID with
  | .error e => .error e
  | .ok balance =>
    match getUsedAmount stores userID with
    | .error e => .error e
    | .ok used => .ok (Billing.checkBalance balance used estimatedCost)

/-! ### Gates -/

/-- `APIKeyAuth`; `hashAPIKey` is the hexadecimal SHA-256. -/
def apiKeyAuth (hashAPIKey : GoString → GoString) : HandlerFunc := fun c =>
  if c.authorization = [] ∨ hasPrefix c.authorization (lit "Bearer ") = false then
    .error ⟨401, lit "missing api key", lit "authentication_error"⟩
  else
    match resolveAPIKey stores (hashAPIKey (trimPrefix c.authorization (lit "Bearer "))) with
    | (userID, keyID, true) => .ok { c with userID := some userID, apiKeyID := some keyID }
    | (_, _, false) => .error ⟨401, lit "invalid api key", lit "authentication_error"⟩

/-- `RedisRateLimit`. -/
def redisRateLimit (rl : RedisRateLimiter) : HandlerFunc := fun c =>
  let key := match c.userID with
    | none => lit "anon"
    | some id => formatInt id
  match allow stores rl key with
  -- an error of Redis does not block
  | (_, some _) => .ok c
  | (false, none) => .error ⟨429, lit "rate limit exceeded", lit "rate_limit_error"⟩
  | (true, none) => .ok c

/-- `BalanceCheck` with the service's check. -/
def balanceCheck : HandlerFunc := fun c =>
  let userID := getInt64 c.userID
  if userID = 0 then .error ⟨401, lit "authentication required", lit "authentication_error"⟩
  else
    match checkBalance stores userID 0 with
    | .error _ => .error ⟨500, lit "balance check failed", lit "server_error"⟩
    | .ok false =>
      .error ⟨402, lit "insufficient balance, please top up your account", lit "billing_error"⟩
    | .ok true => .ok c

/-- One gate after the other, until one aborts. -/
def runChain : List HandlerFunc → HandlerFunc
  | [], c => .ok c
  | gate :: gates, c =>
    match gate c with
    | .error reply => .error reply
    | .ok c => runChain gates c

/-- The gates before the two handlers. -/
def gates (hashAPIKey : GoString → GoString) (rl : RedisRateLimiter) : List HandlerFunc :=
  [apiKeyAuth stores hashAPIKey, redisRateLimit stores rl, balanceCheck stores]

/-! ### Handlers -/

/-- A request: where to, and what its body binds to. -/
inductive Endpoint where
  /-- With what the connection answers to the lines of a stream. -/
  | chatCompletions (body : Except GoString ChatCompletionRequest) (writer : List WriterReply)
  | embeddings (body : Except GoString EmbeddingRequest)

/-- What a request comes to: its error response, if it is one, and its records. -/
structure Served where
  reply : Except ErrorReply Unit
  records : List UsageRecord := []

/-- The error response of the service's errors. -/
def writeInferenceError (e : InferenceError) : ErrorReply :=
  match e.kind with
  | .modelNotFound => ⟨404, e.message, lit "invalid_request_error"⟩
  | .providerMissing => ⟨500, e.message, lit "server_error"⟩
  | .providerKey => ⟨500, e.message, lit "server_error"⟩
  | _ =>
    ⟨if e.httpStatus > 0 then e.httpStatus else 502, lit "upstream error: " ++ e.message,
      lit "upstream_error"⟩

/-- The request for the service in a body, if it is one. -/
def bind : Endpoint → Except ErrorReply Request
  | .chatCompletions (.error e) _ =>
    .error ⟨400, lit "invalid request: " ++ e, lit "invalid_request_error"⟩
  | .chatCompletions (.ok req) writer =>
    if req.model = [] then .error ⟨400, lit "model is required", lit "invalid_request_error"⟩
    else if req.stream then .ok (.stream req writer)
    else .ok (.chat req)
  | .embeddings (.error e) =>
    .error ⟨400, lit "invalid request: " ++ e, lit "invalid_request_error"⟩
  | .embeddings (.ok req) =>
    if req.model = [] then .error ⟨400, lit "model is required", lit "invalid_request_error"⟩
    else .ok (.embedding req)

variable {W : Type}

/-- The handler of an endpoint. -/
def handler (s : EmbeddingService W) (endpoint : Endpoint) (latency : Rat) (c : Context) (w : W) :
    Served × W :=
  match bind endpoint with
  | .error reply => (⟨.error reply, []⟩, w)
  | .ok req =>
    let call : CallContext := ⟨getInt64 c.userID, getInt64 c.apiKeyID⟩
    let (outcome, w) := s.handle call req latency w
    (⟨match outcome.result with
      | .error e => .error (writeInferenceError e)
      | .ok _ => .ok (), outcome.records⟩, w)

/-- A request through the gates to its handler. -/
def serve (hashAPIKey : GoString → GoString) (rl : RedisRateLimiter) (s : EmbeddingService W)
    (authorization : GoString) (endpoint : Endpoint) (latency : Rat) (w : W) : Served × W :=
  match runChain (gates stores hashAPIKey rl) { authorization := authorization } with
  | .error reply => (⟨.error reply, []⟩, w)
  | .ok c => handler s endpoint latency c w

/-- How often a request calls upstream. -/
def upstreamCalls (hashAPIKey : GoString → GoString) (rl : RedisRateLimiter)
    (s : EmbeddingService W) (authorization : GoString) (endpoint : Endpoint) (latency : Rat)
    (w : W) : Nat :=
  (serve stores hashAPIKey rl s.counted authorization endpoint latency (w, 0)).2.2

/-- The request stops at a gate, or before the service. -/
def Stopped (hashAPIKey : GoString → GoString) (rl : RedisRateLimiter) (s : EmbeddingService W)
    (authorization : GoString) (endpoint : Endpoint) (latency : Rat) (w : W) : Prop :=
  upstreamCalls stores hashAPIKey rl s authorization endpoint latency w = 0 ∧
    (serve stores hashAPIKey rl s authorization endpoint latency w).1.records = []

/-- What a request with this key has passed. -/
structure Passes (hashAPIKey : GoString → GoString) (rl : RedisRateLimiter)
    (authorization : GoString) (key : APIKey) : Prop where
  bearer : hasPrefix authorization (lit "Bearer ") = true
  found : ∃ rows, stores.apiKeys = .ok rows ∧ key ∈ rows
  active : key.isActive = true
  hash : key.keyHash = hashAPIKey (trimPrefix authorization (lit "Bearer "))
  /-- The limiter admits the owner, or fails. -/
  limiter : (∃ e, stores.count (lit "rl:" ++ formatInt key.userID) = .error e) ∨
    ∃ count, stores.count (lit "rl:" ++ formatInt key.userID) = .ok count ∧ count < rl.limit
  balance : ∃ balance used, stores.balance key.userID = .ok balance ∧
    getUsedAmount stores key.userID = .ok used ∧ 0 < balance - used

/-! ### Each gate -/

variable {stores} {hashAPIKey : GoString → GoString} {rl : RedisRateLimiter} {c c' : Context}

theorem findByHash_eq_ok {hash : GoString} {key : APIKey} (h : findByHash stores hash = .ok key) :
    (∃ rows, stores.apiKeys = .ok rows ∧ key ∈ rows) ∧ key.isActive = true ∧ key.keyHash = hash := by
  unfold findByHash at h
  split at h
  · cases h
  · rename_i rows hrows
    split at h
    · cases h
    · rename_i found hfound
      obtain rfl := Except.ok.inj h
      have hfits := List.find?_some hfound
      simp only [Bool.and_eq_true, beq_iff_eq] at hfits
      exact ⟨⟨rows, hrows, List.mem_of_find?_eq_some hfound⟩, hfits.2, hfits.1⟩

/-- What passes the check of the key carries the ids of an active one. -/
theorem apiKeyAuth_eq_ok (h : apiKeyAuth stores hashAPIKey c = .ok c') :
    ∃ key, hasPrefix c.authorization (lit "Bearer ") = true ∧
      findByHash stores (hashAPIKey (trimPrefix c.authorization (lit "Bearer "))) = .ok key ∧
      c' = { c with userID := some key.userID, apiKeyID := some key.id } := by
  unfold apiKeyAuth resolveAPIKey at h
  split at h
  · cases h
  · rename_i hheader
    have hbearer : hasPrefix c.authorization (lit "Bearer ") = true := by
      rw [not_or, Bool.not_eq_false] at hheader
      exact hheader.2
    cases hfind : findByHash stores (hashAPIKey (trimPrefix c.authorization (lit "Bearer "))) with
    | error e =>
      rw [hfind] at h
      cases h
    | ok key =>
      rw [hfind] at h
      exact ⟨key, hbearer, rfl, (Except.ok.inj h).symm⟩

/-- What passes the limiter is below the limit, or Redis fails. -/
theorem redisRateLimit_eq_ok {id : Int} (huser : c.userID = some id)
    (h : redisRateLimit stores rl c = .ok c') :
    c' = c ∧ ((∃ e, stores.count (lit "rl:" ++ formatInt id) = .error e) ∨
      ∃ count, stores.count (lit "rl:" ++ formatInt id) = .ok count ∧ count < rl.limit) := by
  unfold redisRateLimit allow at h
  simp only [huser] at h
  cases hcount : stores.count (lit "rl:" ++ formatInt id) with
  | error e =>
    rw [hcount] at h
    exact ⟨(Except.ok.inj h).symm, .inl ⟨e, rfl⟩⟩
  | ok count =>
    rw [hcount] at h
    simp only at h
    by_cases hfull : count ≥ rl.limit
    · rw [if_pos hfull] at h
      cases h
    · rw [if_neg hfull] at h
      exact ⟨(Except.ok.inj h).symm, .inr ⟨count, rfl, by omega⟩⟩

/-- What passes the balance check has something left. -/
theorem balanceCheck_eq_ok (h : balanceCheck stores c = .ok c') :
    c' = c ∧ ∃ balance used, stores.balance (getInt64 c.userID) = .ok balance ∧
      getUsedAmount stores (getInt64 c.userID) = .ok used ∧ 0 < balance - used := by
  unfold balanceCheck checkBalance at h
  simp only at h
  split at h
  · cases h
  · cases hbalance : stores.balance (getInt64 c.userID) with
    | error e =>
      rw [hbalance] at h
      cases h
    | ok balance =>
      cases hused : getUsedAmount stores (getInt64 c.userID) with
      | error e =>
        simp only [hbalance, hused] at h
        cases h
      | ok used =>
        simp only [hbalance, hused] at h
        cases hcheck : Billing.checkBalance balance used 0 with
        | false =>
          rw [hcheck] at h
          cases h
        | true =>
          rw [hcheck] at h
          exact ⟨(Except.ok.inj h).symm, balance, used, rfl, rfl,
            sub_pos.mpr (Billing.lt_of_checkBalance hcheck)⟩

theorem runChain_cons_eq_ok {gate : HandlerFunc} {rest : List HandlerFunc} :
    runChain (gate :: rest) c = .ok c' ↔ ∃ c₁, gate c = .ok c₁ ∧ runChain rest c₁ = .ok c' := by
  rw [runChain]
  cases gate c <;> simp

/-- **What passes the gates** is a request with an active key, and carries its ids. -/
theorem passes_of_runChain {authorization : GoString}
    (h : runChain (gates stores hashAPIKey rl) { authorization := authorization } = .ok c) :
    ∃ key, Passes stores hashAPIKey rl authorization key ∧ getInt64 c.userID = key.userID ∧
      getInt64 c.apiKeyID = key.id := by
  obtain ⟨c₁, hauth, h⟩ := runChain_cons_eq_ok.mp h
  obtain ⟨c₂, hlimit, h⟩ := runChain_cons_eq_ok.mp h
  obtain ⟨c₃, hbalance, h⟩ := runChain_cons_eq_ok.mp h
  obtain rfl := Except.ok.inj h
  obtain ⟨key, hbearer, hfind, rfl⟩ := apiKeyAuth_eq_ok hauth
  obtain ⟨rfl, hlimiter⟩ := redisRateLimit_eq_ok rfl hlimit
  obtain ⟨rfl, hleft⟩ := balanceCheck_eq_ok hbalance
  obtain ⟨hfound, hactive, hhash⟩ := findByHash_eq_ok hfind
  exact ⟨key, ⟨hbearer, hfound, hactive, hhash, hlimiter, hleft⟩, rfl, rfl⟩

/-! ### Records -/

/-- A record of the service carries the ids of the call. -/
theorem attributed {s : EmbeddingService W} {call : CallContext} {r : Request} {latency : Rat}
    {w : W} : ∀ record ∈ (s.handle call r latency w).1.records,
      record.userID = call.userID ∧ record.apiKeyID = call.apiKeyID := by
  intro record hrecord
  cases r with
  | chat req =>
    have hreports := (chat_accounts s call latency w req).2 record hrecord
    exact ⟨hreports.userID, hreports.apiKeyID⟩
  | stream req writer =>
    have hreports := (stream_accounts s call latency w req writer).2 record hrecord
    exact ⟨hreports.userID, hreports.apiKeyID⟩
  | embedding req =>
    by_cases hreach : ∃ route apiKey, s.resolveModel req.model w = .ok route ∧
        s.firstKey route.providerName w = .ok apiKey
    · obtain ⟨route, apiKey, hroute, hkey⟩ := hreach
      rw [(embedding_accounts_of_forwarded call latency hroute hkey).2] at hrecord
      cases hreply : (s.forward route.providerBaseURL apiKey
          { req with model := route.upstreamModel } w).1 with
      | error e =>
        rw [hreply] at hrecord
        cases hrecord
      | ok reply =>
        rw [hreply] at hrecord
        simp only [Outcome.summary, finishEmbedding] at hrecord
        split at hrecord
        · obtain rfl := List.mem_singleton.mp hrecord
          exact ⟨rfl, rfl⟩
        · cases hrecord
    · have hnot : ∀ route apiKey, s.resolveModel req.model w = .ok route →
          s.firstKey route.providerName w ≠ .ok apiKey := fun route apiKey hroute hkey =>
        hreach ⟨route, apiKey, hroute, hkey⟩
      rw [(embedding_accounts_of_not_forwarded call latency hnot).2] at hrecord
      cases hrecord

/-! ### Requests -/

variable {W : Type} {s : EmbeddingService W} {authorization : GoString} {endpoint : Endpoint}
  {latency : Rat} {w : W}

/-- A request that a gate refuses stops. -/
theorem stopped_of_refused {reply : ErrorReply}
    (h : runChain (gates stores hashAPIKey rl) { authorization := authorization } = .error reply) :
    Stopped stores hashAPIKey rl s authorization endpoint latency w := by
  unfold Stopped upstreamCalls serve
  rw [h]
  exact ⟨rfl, rfl⟩

/-- The records of a request that gets to its handler carry the ids of its context. -/
theorem attributed_of_passed
    (h : runChain (gates stores hashAPIKey rl) { authorization := authorization } = .ok c) :
    ∀ record ∈ (serve stores hashAPIKey rl s authorization endpoint latency w).1.records,
      record.userID = getInt64 c.userID ∧ record.apiKeyID = getInt64 c.apiKeyID := by
  unfold serve handler
  rw [h]
  cases bind endpoint with
  | error reply => exact fun _ hrecord => by cases hrecord
  | ok req => exact attributed

variable (stores hashAPIKey rl s authorization endpoint latency w) in
/-- **Admission and attribution.**  A request stops before the service, without a record;
or its key is active, the limiter admitted the owner or failed, the owner had something
left, and every record carries the ids of the owner and the key.  Without Redis every
request stops. -/
theorem admitted_or_stopped :
    (Stopped stores hashAPIKey rl s authorization endpoint latency w ∨
      ∃ key, Passes stores hashAPIKey rl authorization key ∧
        ∀ record ∈ (serve stores hashAPIKey rl s authorization endpoint latency w).1.records,
          record.userID = key.userID ∧ record.apiKeyID = key.id) ∧
      ((∀ userID, ∃ e, stores.used userID = .error e) →
        Stopped stores hashAPIKey rl s authorization endpoint latency w) := by
  cases hchain : runChain (gates stores hashAPIKey rl) { authorization := authorization } with
  | error reply => exact ⟨.inl (stopped_of_refused hchain), fun _ => stopped_of_refused hchain⟩
  | ok c =>
    obtain ⟨key, hpasses, huser, hkey⟩ := passes_of_runChain hchain
    refine ⟨.inr ⟨key, hpasses, fun record hrecord => ?_⟩, fun hdown => ?_⟩
    · rw [← huser, ← hkey]
      exact attributed_of_passed hchain record hrecord
    · obtain ⟨balance, used, -, hused, -⟩ := hpasses.balance
      obtain ⟨e, he⟩ := hdown key.userID
      rw [getUsedAmount, he] at hused
      cases hused

/-- A key of a user with something left. -/
def oneKey : Stores where
  apiKeys := .ok [⟨3, 7, lit "sk", true⟩]
  count := fun _ => .ok 0
  balance := fun _ => .ok 5
  used := fun _ => .ok none

/-- The same without Redis. -/
def withoutRedis : Stores :=
  { oneKey with
    count := fun _ => .error (lit "connection refused")
    used := fun _ => .error (lit "connection refused") }

/-- A service that embeds everything alike. -/
def embeds : EmbeddingService Unit where
  resolveModel := fun name _ => .ok ⟨name, name, lit "openai", lit "https://api.openai.com/v1", 1, 0⟩
  nextKey := fun _ w => (.ok (lit "sk"), w)
  registry := fun _ => none
  firstKey := fun _ _ => .ok (lit "sk")
  forward := fun _ _ req w => (.ok ⟨200, some ⟨lit "list", [], req.model, some ⟨2, 2⟩⟩, fun _ => rfl⟩, w)

def embedHi : Endpoint := .embeddings (.ok { model := lit "embed", input := .str (lit "Hi") })

/-- With Redis the request is recorded, and is of an active key; without Redis it stops. -/
theorem admitted_or_stopped_oneKey :
    ((serve oneKey id ⟨60, 60 * second⟩ embeds (lit "Bearer sk") embedHi 0 ()).1.records.length = 1 ∧
      ∃ key, Passes oneKey id ⟨60, 60 * second⟩ (lit "Bearer sk") key ∧
        ∀ record ∈ (serve oneKey id ⟨60, 60 * second⟩ embeds (lit "Bearer sk") embedHi 0 ()).1.records,
          record.userID = key.userID ∧ record.apiKeyID = key.id) ∧
      Stopped withoutRedis id ⟨60, 60 * second⟩ embeds (lit "Bearer sk") embedHi 0 () := by
  have hrecorded : (serve oneKey id ⟨60, 60 * second⟩ embeds (lit "Bearer sk") embedHi 0
      ()).1.records.length = 1 := by decide +kernel
  refine ⟨⟨hrecorded, ?_⟩, ?_⟩
  · have hboth := (admitted_or_stopped oneKey id ⟨60, 60 * second⟩ embeds (lit "Bearer sk") embedHi 0
      ()).1
    refine hboth.resolve_left fun hstopped => ?_
    rw [hstopped.2] at hrecorded
    cases hrecorded
  · have hdown := (admitted_or_stopped withoutRedis id ⟨60, 60 * second⟩ embeds (lit "Bearer sk")
      embedHi 0 ()).2
    exact hdown fun _ => ⟨_, rfl⟩

end Gates
end UniLLM.Middleware
