import UniLLM.Inference.Helpers
import UniLLM.Provider.GeminiConvert

/-!
# Where the client's output cap goes

A client caps its output with `max_completion_tokens`, or with the older `max_tokens`.
`prepareChatRequest` moves the cap from the second to the first for the public names of
reasoning models.  An OpenAI body carries both; the Anthropic and Gemini bodies have a
single limit, which is read from `max_tokens` alone.
-/

namespace UniLLM.Inference
open Go OpenAI

/-- The bodies that providers build. -/
inductive Format where
  | openAI
  | anthropic
  | gemini
  deriving DecidableEq

/-- The body for a prepared request, streamed or not. -/
def Format.body (stream : Bool) (req : ChatCompletionRequest) : Format → Json
  | .openAI => { req with stream := stream }.toJson
  | .anthropic => { Anthropic.convertRequest req with stream := stream }.tree
  | .gemini => (Gemini.convertToGemini req).tree

/-- The output limits in a body. -/
def Format.limits (body : Json) : Format → List Json
  | .openAI => (memberOf "max_tokens" body).toList ++ (memberOf "max_completion_tokens" body).toList
  | .anthropic => (memberOf "max_tokens" body).toList
  | .gemini => ((memberOf "generationConfig" body).bind (memberOf "maxOutputTokens")).toList

/-- The cap that the client asks for: `max_completion_tokens` if it is set. -/
def outputCap (req : ChatCompletionRequest) : Int :=
  if req.maxCompletionTokens ≠ 0 then req.maxCompletionTokens else req.maxTokens

/-- `prepareChatRequest` moves the cap. -/
def MovesCap (publicModel : GoString) (req : ChatCompletionRequest) : Prop :=
  isReasoningModel publicModel = true ∧ 0 < req.maxTokens

/-- When a body keeps the cap: an OpenAI body always, the others if `max_tokens` is the cap
and stays where it is.  An Anthropic body has 4096 in the place of a cap it does not find,
which may be the cap. -/
def KeepsCap (publicModel : GoString) (req : ChatCompletionRequest) : Format → Prop
  | .openAI => True
  | .anthropic =>
    (req.maxTokens = outputCap req ∧ ¬ MovesCap publicModel req) ∨
      (outputCap req = 4096 ∧ (req.maxTokens = 0 ∨ MovesCap publicModel req))
  | .gemini => req.maxTokens = outputCap req ∧ ¬ MovesCap publicModel req

/-- The body that goes upstream has the client's cap as a limit. -/
def CarriesCap (publicModel : GoString) (route : ModelRoute) (stream : Bool)
    (req : ChatCompletionRequest) (f : Format) : Prop :=
  intJson (outputCap req) ∈ f.limits (f.body stream (prepareChatRequest publicModel req route))

/-! ### The limits of a body -/

/-- A limit with `omitempty`. -/
def limitIfSet (n : Int) : Option Json := if n = 0 then none else some (intJson n)

theorem mem_limitIfSet {n m : Int} : intJson n ∈ (limitIfSet m).toList ↔ m ≠ 0 ∧ m = n := by
  unfold limitIfSet
  split
  · rename_i hzero
    simp [hzero]
  · rename_i hset
    rw [Option.toList_some, List.mem_singleton, intJson_inj]
    exact ⟨fun h => ⟨hset, h.symm⟩, fun h => h.2.symm⟩

variable (stream : Bool) (req : ChatCompletionRequest)

theorem limits_openAI :
    Format.limits (Format.body stream req .openAI) .openAI =
      (limitIfSet req.maxTokens).toList ++ (limitIfSet req.maxCompletionTokens).toList := by
  unfold Format.limits Format.body ChatCompletionRequest.toJson
  simp +decide [memberOf_append, memberOf_omitEmpty, memberOf_omitNil, memberOf_cons, limitIfSet]

theorem limits_anthropic :
    Format.limits (Format.body stream req .anthropic) .anthropic =
      [intJson (if req.maxTokens = 0 then 4096 else req.maxTokens)] := by
  unfold Format.limits Format.body Anthropic.Request.tree
  simp +decide [memberOf_append, memberOf_omitEmpty, memberOf_cons, Anthropic.convertRequest]

theorem limits_gemini :
    Format.limits (Format.body stream req .gemini) .gemini = (limitIfSet req.maxTokens).toList := by
  unfold Format.limits Format.body Gemini.Request.tree
  simp +decide [memberOf_append, memberOf_omitEmpty, memberOf_omitNil, memberOf_cons,
    Gemini.convertToGemini, Gemini.GenerationConfig.tree, limitIfSet]

/-! ### The cap on its way -/

variable {publicModel : GoString} {req} {route : ModelRoute}

theorem prepareChatRequest_of_moves (h : MovesCap publicModel req) :
    (prepareChatRequest publicModel req route).maxTokens = 0 ∧
      (prepareChatRequest publicModel req route).maxCompletionTokens = outputCap req := by
  have hmoves : isReasoningModel publicModel = true ∧ 0 < req.maxTokens := h
  unfold prepareChatRequest outputCap
  by_cases hset : req.maxCompletionTokens = 0 <;> by_cases hstream : req.stream = true <;>
    simp [hmoves, hset, hstream]

theorem prepareChatRequest_of_not_moves (h : ¬ MovesCap publicModel req) :
    (prepareChatRequest publicModel req route).maxTokens = req.maxTokens ∧
      (prepareChatRequest publicModel req route).maxCompletionTokens = req.maxCompletionTokens := by
  have hstays : ¬ (isReasoningModel publicModel = true ∧ 0 < req.maxTokens) := h
  unfold prepareChatRequest
  by_cases hstream : req.stream = true <;> simp [hstays, hstream]

theorem outputCap_ne_zero (h : 0 < req.maxTokens ∨ 0 < req.maxCompletionTokens) :
    outputCap req ≠ 0 := by
  unfold outputCap
  split
  · assumption
  · omega

/-- An OpenAI body has both fields. -/
theorem carriesCap_openAI (h : 0 < req.maxTokens ∨ 0 < req.maxCompletionTokens) :
    CarriesCap publicModel route stream req .openAI := by
  have hcap := outputCap_ne_zero h
  unfold CarriesCap
  rw [limits_openAI, List.mem_append, mem_limitIfSet, mem_limitIfSet]
  by_cases hmoves : MovesCap publicModel req
  · rw [(prepareChatRequest_of_moves hmoves).2]
    exact Or.inr ⟨hcap, rfl⟩
  · rw [(prepareChatRequest_of_not_moves hmoves).1, (prepareChatRequest_of_not_moves hmoves).2]
    unfold outputCap at hcap ⊢
    split at hcap
    · rename_i hset
      rw [if_pos hset]
      exact Or.inr ⟨hcap, rfl⟩
    · rename_i hset
      rw [if_neg hset]
      exact Or.inl ⟨hcap, rfl⟩

theorem carriesCap_anthropic_iff (h : 0 < req.maxTokens ∨ 0 < req.maxCompletionTokens) :
    CarriesCap publicModel route stream req .anthropic ↔ KeepsCap publicModel req .anthropic := by
  have hcap := outputCap_ne_zero h
  unfold CarriesCap KeepsCap
  rw [limits_anthropic, List.mem_singleton, intJson_inj]
  by_cases hmoves : MovesCap publicModel req
  · rw [(prepareChatRequest_of_moves hmoves).1, if_pos rfl]
    simp [hmoves]
  · rw [(prepareChatRequest_of_not_moves hmoves).1]
    simp only [hmoves, not_false_eq_true, and_true, or_false]
    split
    · rename_i hzero
      rw [hzero]
      exact ⟨fun heq => Or.inr ⟨heq, rfl⟩, fun heq => heq.elim (fun h0 => absurd h0.symm hcap) And.left⟩
    · rename_i hset
      exact ⟨fun heq => Or.inl heq.symm, fun heq => heq.elim Eq.symm fun h0 => absurd h0.2 hset⟩

theorem carriesCap_gemini_iff (h : 0 < req.maxTokens ∨ 0 < req.maxCompletionTokens) :
    CarriesCap publicModel route stream req .gemini ↔ KeepsCap publicModel req .gemini := by
  have hcap := outputCap_ne_zero h
  unfold CarriesCap KeepsCap
  rw [limits_gemini, mem_limitIfSet]
  by_cases hmoves : MovesCap publicModel req
  · rw [(prepareChatRequest_of_moves hmoves).1]
    simp [hmoves]
  · rw [(prepareChatRequest_of_not_moves hmoves).1]
    constructor
    · rintro ⟨-, heq⟩
      exact ⟨heq, hmoves⟩
    · rintro ⟨heq, -⟩
      exact ⟨heq ▸ hcap, heq⟩

/-- A route to Anthropic. -/
def claudeRoute : ModelRoute where
  publicName := lit "claude"
  upstreamModel := lit "claude-sonnet"
  providerName := lit "anthropic"
  providerBaseURL := lit "https://api.anthropic.com/v1"
  inputPricePer1M := 3
  outputPricePer1M := 15

/-- A request that caps its output at 100 tokens. -/
def cappedRequest : ChatCompletionRequest where
  model := lit "claude"
  messages := []
  maxCompletionTokens := 100

/-- The Anthropic body has the default in the place of the cap. -/
theorem not_carriesCap_cappedRequest :
    (0 < cappedRequest.maxTokens ∨ 0 < cappedRequest.maxCompletionTokens) ∧
      ¬ CarriesCap (lit "claude") claudeRoute false cappedRequest .anthropic := by
  have hcapped : 0 < cappedRequest.maxTokens ∨ 0 < cappedRequest.maxCompletionTokens := by decide
  refine ⟨hcapped, fun hcarries => ?_⟩
  rcases (carriesCap_anthropic_iff false hcapped).mp hcarries with ⟨h, -⟩ | ⟨h, -⟩
  · exact absurd h (by decide)
  · exact absurd h (by decide)

/-- **Where the cap reaches the upstream.** -/
theorem carriesCap_iff (publicModel : GoString) (route : ModelRoute) (stream : Bool)
    (req : ChatCompletionRequest) (h : 0 < req.maxTokens ∨ 0 < req.maxCompletionTokens)
    (f : Format) :
    CarriesCap publicModel route stream req f ↔ KeepsCap publicModel req f := by
  cases f with
  | openAI => exact iff_of_true (carriesCap_openAI stream h) trivial
  | anthropic => exact carriesCap_anthropic_iff stream h
  | gemini => exact carriesCap_gemini_iff stream h

theorem carriesCap_iff_cappedRequest :
    CarriesCap (lit "claude") claudeRoute false cappedRequest .gemini ↔
      KeepsCap (lit "claude") cappedRequest .gemini :=
  carriesCap_iff (lit "claude") claudeRoute false cappedRequest (by decide) .gemini

end UniLLM.Inference
