import UniLLM.Inference.Embedding
import UniLLM.Inference.OutputCap
import UniLLM.OpenAI.Wire

/-!
# Requests on the wire

The embedding types with the tags of their fields, and what the service does to a request
before it goes upstream: what could be written can still be.
-/

namespace UniLLM.Inference
open Go OpenAI

/-! ### Embeddings -/

def EmbeddingRequest.fields : List (StructField EmbeddingRequest) :=
  [.always "model" .string (·.model) fun r a => { r with model := a },
   .always "input" .any (·.input) fun r a => { r with input := a },
   ⟨"encoding_format", .string, List.isEmpty, (·.encodingFormat),
     fun r a => { r with encodingFormat := a }⟩,
   ⟨"dimensions", .int, (· == 0), (·.dimensions), fun r a => { r with dimensions := a }⟩]

theorem EmbeddingRequest.fields_ok :
    StructFields { model := [], input := .null } EmbeddingRequest.fields where
  names := by decide
  distinct := by decide
  apart := by simp [fields]
  get_set := by simp [fields]
  get_zero := by simp [fields]
  omits_zero := by simp [fields]
  ext := by
    rintro ⟨⟩ ⟨⟩ h
    simpa [fields] using h

def EmbeddingRequest.wire : JsonType EmbeddingRequest := .struct _ EmbeddingRequest.fields fields_ok

def EmbeddingData.fields : List (StructField EmbeddingData) :=
  [.always "object" .string (·.object) fun d a => { d with object := a },
   .always "embedding" (.slice .float64) (·.embedding) fun d a => { d with embedding := a },
   .always "index" .int (·.index) fun d a => { d with index := a }]

theorem EmbeddingData.fields_ok : StructFields ⟨[], [], 0⟩ EmbeddingData.fields where
  names := by decide
  distinct := by decide
  apart := by simp [fields]
  get_set := by simp [fields]
  get_zero := by simp [fields]
  omits_zero := by simp [fields]
  ext := by
    rintro ⟨⟩ ⟨⟩ h
    simpa [fields] using h

def EmbeddingData.wire : JsonType EmbeddingData := .struct _ EmbeddingData.fields fields_ok

def EmbeddingUsage.fields : List (StructField EmbeddingUsage) :=
  [.always "prompt_tokens" .int (·.promptTokens) fun u a => { u with promptTokens := a },
   .always "total_tokens" .int (·.totalTokens) fun u a => { u with totalTokens := a }]

theorem EmbeddingUsage.fields_ok : StructFields ⟨0, 0⟩ EmbeddingUsage.fields where
  names := by decide
  distinct := by decide
  apart := by simp [fields]
  get_set := by simp [fields]
  get_zero := by simp [fields]
  omits_zero := by simp [fields]
  ext := by
    rintro ⟨⟩ ⟨⟩ h
    simpa [fields] using h

def EmbeddingUsage.wire : JsonType EmbeddingUsage := .struct _ EmbeddingUsage.fields fields_ok

theorem EmbeddingUsage.wire_ne_null (u : EmbeddingUsage) : EmbeddingUsage.wire.toJson u ≠ .null :=
  JsonType.struct_ne_null _ u

def EmbeddingResponse.fields : List (StructField EmbeddingResponse) :=
  [.always "object" .string (·.object) fun r a => { r with object := a },
   .always "data" (.slice EmbeddingData.wire) (·.data) fun r a => { r with data := a },
   .always "model" .string (·.model) fun r a => { r with model := a },
   .omitNil "usage" (.pointer EmbeddingUsage.wire EmbeddingUsage.wire_ne_null) (·.usage)
     fun r a => { r with usage := a }]

theorem EmbeddingResponse.fields_ok :
    StructFields ⟨[], [], [], none⟩ EmbeddingResponse.fields where
  names := by decide
  distinct := by decide
  apart := by simp [fields]
  get_set := by simp [fields]
  get_zero := by simp [fields]
  omits_zero := by simp [fields]
  ext := by
    rintro ⟨⟩ ⟨⟩ h
    simpa [fields] using h

def EmbeddingResponse.wire : JsonType EmbeddingResponse :=
  .struct _ EmbeddingResponse.fields fields_ok

/-! ### What can be written -/

/-- The largest request and response are well within the brackets that a text may have. -/
theorem levels_fit : ChatCompletionRequest.wire.levels ≤ maxNestingDepth ∧
    ChatCompletionResponse.wire.levels ≤ maxNestingDepth ∧
    EmbeddingRequest.wire.levels ≤ maxNestingDepth ∧
    EmbeddingResponse.wire.levels ≤ maxNestingDepth := by
  decide

section Prepare
variable {d : Nat} {req : ChatCompletionRequest}

theorem fits_model (h : ChatCompletionRequest.wire.Fits d req) {name : GoString}
    (hname : validString name = true) :
    ChatCompletionRequest.wire.Fits d { req with model := name } :=
  JsonType.struct_set_fits ChatCompletionRequest.fields_ok h
    (f := .always "model" .string (·.model) fun r a => { r with model := a })
    (by simp [ChatCompletionRequest.fields]) hname

theorem fits_maxTokens (h : ChatCompletionRequest.wire.Fits d req) {n : Int} (hn : InInt64 n) :
    ChatCompletionRequest.wire.Fits d { req with maxTokens := n } :=
  JsonType.struct_set_fits ChatCompletionRequest.fields_ok h
    (f := ⟨"max_tokens", .int, (· == 0), (·.maxTokens), fun r a => { r with maxTokens := a }⟩)
    (by simp [ChatCompletionRequest.fields]) hn

theorem fits_maxCompletionTokens (h : ChatCompletionRequest.wire.Fits d req) {n : Int}
    (hn : InInt64 n) : ChatCompletionRequest.wire.Fits d { req with maxCompletionTokens := n } :=
  JsonType.struct_set_fits ChatCompletionRequest.fields_ok h
    (f := ⟨"max_completion_tokens", .int, (· == 0), (·.maxCompletionTokens),
      fun r a => { r with maxCompletionTokens := a }⟩)
    (by simp [ChatCompletionRequest.fields]) hn

theorem fits_stream (h : ChatCompletionRequest.wire.Fits d req) (stream : Bool) :
    ChatCompletionRequest.wire.Fits d { req with stream := stream } :=
  JsonType.struct_set_fits ChatCompletionRequest.fields_ok h
    (f := ⟨"stream", .bool, not, (·.stream), fun r a => { r with stream := a }⟩)
    (by simp [ChatCompletionRequest.fields]) trivial

theorem streamOptions_fits (o : StreamOptions) (hd : 1 ≤ d) : StreamOptions.wire.Fits d o := by
  refine ⟨hd, ?_⟩
  simp [StreamOptions.fields, JsonType.bool]

theorem fits_streamOptions (h : ChatCompletionRequest.wire.Fits d req) (hd : 2 ≤ d)
    (o : StreamOptions) : ChatCompletionRequest.wire.Fits d { req with streamOptions := some o } :=
  JsonType.struct_set_fits ChatCompletionRequest.fields_ok h
    (f := .omitNil "stream_options" (.pointer StreamOptions.wire StreamOptions.wire_ne_null)
      (·.streamOptions) fun r a => { r with streamOptions := a })
    (by simp [ChatCompletionRequest.fields]) fun o _ => streamOptions_fits o (by omega)

theorem int64_of_fits (h : ChatCompletionRequest.wire.Fits d req) :
    InInt64 req.maxTokens ∧ InInt64 req.maxCompletionTokens := by
  have hall := h.2
  simp only [ChatCompletionRequest.fields, List.forall_mem_cons] at hall
  exact ⟨hall.2.2.1, hall.2.2.2.1⟩

/-- What goes upstream can be written if the client's request can. -/
theorem prepareChatRequest_fits (h : ChatCompletionRequest.wire.Fits d req) (hd : 2 ≤ d)
    {route : ModelRoute} (hname : validString route.upstreamModel = true) (publicModel : GoString) :
    ChatCompletionRequest.wire.Fits d (prepareChatRequest publicModel req route) := by
  have hmodel := fits_model h hname
  obtain ⟨hmax, hcompletion⟩ := int64_of_fits h
  unfold prepareChatRequest
  simp only
  by_cases hmoves : isReasoningModel publicModel = true ∧ 0 < req.maxTokens
  · have hcap : InInt64
        (if req.maxCompletionTokens = 0 then req.maxTokens else req.maxCompletionTokens) := by
      split
      · exact hmax
      · exact hcompletion
    have hmoved := fits_maxTokens (fits_maxCompletionTokens hmodel hcap) JsonType.inInt64_zero
    rw [if_pos hmoves]
    by_cases hstream : req.stream = true
    · rw [if_pos hstream]
      exact fits_streamOptions hmoved hd ⟨true⟩
    · rw [if_neg hstream]
      exact hmoved
  · rw [if_neg hmoves]
    by_cases hstream : req.stream = true
    · rw [if_pos hstream]
      exact fits_streamOptions hmodel hd ⟨true⟩
    · rw [if_neg hstream]
      exact hmodel

end Prepare

section Rename
variable {d : Nat} {name : GoString}

theorem response_fits_model {resp : ChatCompletionResponse}
    (h : ChatCompletionResponse.wire.Fits d resp) (hname : validString name = true) :
    ChatCompletionResponse.wire.Fits d { resp with model := name } :=
  JsonType.struct_set_fits ChatCompletionResponse.fields_ok h
    (f := .always "model" .string (·.model) fun r a => { r with model := a })
    (by simp [ChatCompletionResponse.fields]) hname

theorem embeddingRequest_fits_model {req : EmbeddingRequest}
    (h : EmbeddingRequest.wire.Fits d req) (hname : validString name = true) :
    EmbeddingRequest.wire.Fits d { req with model := name } :=
  JsonType.struct_set_fits EmbeddingRequest.fields_ok h
    (f := .always "model" .string (·.model) fun r a => { r with model := a })
    (by simp [EmbeddingRequest.fields]) hname

theorem embeddingResponse_fits_model {resp : EmbeddingResponse}
    (h : EmbeddingResponse.wire.Fits d resp) (hname : validString name = true) :
    EmbeddingResponse.wire.Fits d { resp with model := name } :=
  JsonType.struct_set_fits EmbeddingResponse.fields_ok h
    (f := .always "model" .string (·.model) fun r a => { r with model := a })
    (by simp [EmbeddingResponse.fields]) hname

end Rename

/-- The model name of a request that has been read is text. -/
theorem model_valid {d : Nat} {req : ChatCompletionRequest}
    (h : ChatCompletionRequest.wire.Fits d req) : validString req.model = true :=
  h.2 _ List.mem_cons_self

theorem embeddingModel_valid {d : Nat} {req : EmbeddingRequest}
    (h : EmbeddingRequest.wire.Fits d req) : validString req.model = true :=
  h.2 _ List.mem_cons_self

end UniLLM.Inference
